import ClusterFs.Proofs.Requests

/-!
Two volumes side by side. Their maps are the same, and their devices answer alike but for reads of
certain clusters, all of them free in the map. No request reads a free cluster by following the map,
so both volumes answer alike and stay so; a cluster that a write takes is stored on both.
-/
namespace ClusterFs
open AllocationMap Volume

/-- Two runs with the same answer and related ends. -/
structure Coupled {σ α : Type} (R : σ → σ → Prop) (x y : σ × α) : Prop where
  answer : y.2 = x.2
  ends : R x.1 y.1

/-- A relation between devices. Devices that are alike but for the clusters of `P` answer alike to
reads of other clusters and to writes, stay alike, and a cluster written on both becomes alike. -/
structure Likeness (D : Type) [BlockDevice D] where
  Alike : (UInt32 → Prop) → D → D → Prop
  mono : ∀ {P Q : UInt32 → Prop} {d e}, Alike P d e → (∀ c, P c → Q c) → Alike Q d e
  readCluster : ∀ {P d e c}, Alike P d e → ¬ P c → c.toNat < 512 →
    Coupled (Alike P) (BlockDevice.read d (clusterLba c) sectorsPerCluster clusterSize)
      (BlockDevice.read e (clusterLba c) sectorsPerCluster clusterSize)
  writeCluster : ∀ {P d e} c bytes, Alike P d e → 0 < c.toNat → c.toNat < 512 →
    Coupled (Alike P) (writeCluster d c bytes) (writeCluster e c bytes) ∧
      ((writeCluster d c bytes).2 = .ok () →
        Alike (fun a => P a ∧ a ≠ c) (writeCluster d c bytes).1 (writeCluster e c bytes).1)
  readBoot : ∀ {P d e}, Alike P d e →
    Coupled (Alike P) (BlockDevice.read d bootSector 1 sectorSize)
      (BlockDevice.read e bootSector 1 sectorSize)
  writeBoot : ∀ {P d e} (bytes : Sector), Alike P d e →
    Coupled (Alike P) (BlockDevice.write d bytes.toArray bootSector 1)
      (BlockDevice.write e bytes.toArray bootSector 1)

namespace Likeness

variable {D : Type} [BlockDevice D] {A : Likeness D} {P : UInt32 → Prop} {v w : Volume D}
  {d e : D} {c parent : UInt32} {name : ShortName}

/-- Whether alike devices answer alike to a read of a cluster. -/
def Reads (A : Likeness D) (P : UInt32 → Prop) (c : UInt32) : Prop :=
  ∀ d e, A.Alike P d e →
    Coupled (A.Alike P) (BlockDevice.read d (clusterLba c) sectorsPerCluster clusterSize)
      (BlockDevice.read e (clusterLba c) sectorsPerCluster clusterSize)

theorem reads_of_lt (hc : ¬ P c) (hlt : c.toNat < 512) : A.Reads P c :=
  fun _ _ h => A.readCluster h hc hlt

/-- Volumes with the same map on alike devices. -/
structure Abreast (A : Likeness D) (P : UInt32 → Prop) (v w : Volume D) : Prop where
  map : w.map = v.map
  disk : A.Alike P v.disk w.disk

/-- Volumes with the same map on devices that are alike but for some free clusters. -/
structure Twin (A : Likeness D) (P : UInt32 → Prop) (v w : Volume D) : Prop
    extends Abreast A P v w where
  free : ∀ c, P c → isData c = true ∧ v.map.get? c = some unused

/-- Replies with the same outcome and bytes, and volumes that are alike. -/
structure Replies {α : Type} (R : Volume D → Volume D → Prop) (r s : Reply D α) : Prop where
  outcome : s.outcome = r.outcome
  filled : s.filled = r.filled
  volume : R r.volume s.volume

/-! ### Reading -/

theorem Twin.loadTable (h : A.Twin P v w) (hc : A.Reads P c) :
    Coupled (A.Twin P) (v.loadTable c) (w.loadTable c) := by
  obtain ⟨hanswer, hends⟩ := hc _ _ h.disk
  simp only [Volume.loadTable, ClusterFs.readCluster]
  refine ⟨?_, ⟨h.map, hends⟩, h.free⟩
  simp only [hanswer]

theorem Twin.openDirectory (h : A.Twin P v w) (c : UInt32) :
    Coupled (A.Twin P) (v.openDirectory c) (w.openDirectory c) := by
  unfold Volume.openDirectory
  rw [h.map]
  split_ifs with hterminal
  · obtain ⟨-, hend⟩ := isTerminal_iff.mp hterminal
    have hc : ¬ P c := fun hP =>
      absurd (Option.some.inj ((h.free c hP).2.symm.trans hend)) (by decide)
    have hload := h.loadTable (reads_of_lt hc (lt_of_get?_eq_some hend))
    generalize v.loadTable c = x, w.loadTable c = y at hload
    obtain ⟨v', a⟩ := x
    obtain ⟨w', b⟩ := y
    obtain ⟨hanswer, hends⟩ := hload
    obtain rfl : b = a := hanswer
    cases b with
    | error e => exact ⟨rfl, hends⟩
    | ok table => exact ⟨rfl, hends⟩
  · exact ⟨rfl, h⟩

theorem Twin.stat (h : A.Twin P v w) (parent : UInt32) (name : ShortName) :
    Coupled (A.Twin P) (v.stat parent name) (w.stat parent name) := by
  have hopen := h.openDirectory parent
  unfold Volume.stat
  generalize v.openDirectory parent = x, w.openDirectory parent = y at hopen
  obtain ⟨v', a⟩ := x
  obtain ⟨w', b⟩ := y
  obtain ⟨hanswer, hends⟩ := hopen
  obtain rfl : b = a := hanswer
  cases b with
  | error e => exact ⟨rfl, hends⟩
  | ok table =>
    simp only
    split
    · exact ⟨rfl, hends⟩
    · exact ⟨rfl, hends⟩

theorem readClusters {clusters : List UInt32} (h : A.Alike P d e)
    (hclusters : ∀ c ∈ clusters, A.Reads P c) (delivered : Array UInt8) :
    Coupled (A.Alike P) (ClusterFs.readClusters d clusters delivered)
      (ClusterFs.readClusters e clusters delivered) := by
  induction clusters generalizing d e delivered with
  | nil => exact ⟨rfl, h⟩
  | cons c rest ih =>
    have hread := hclusters c (by simp) d e h
    have hrest : ∀ c ∈ rest, A.Reads P c := fun c hc => hclusters c (List.mem_cons_of_mem _ hc)
    unfold ClusterFs.readClusters
    generalize BlockDevice.read d (clusterLba c) sectorsPerCluster clusterSize = x,
      BlockDevice.read e (clusterLba c) sectorsPerCluster clusterSize = y at hread
    obtain ⟨d', got⟩ := x
    obtain ⟨e', got'⟩ := y
    obtain ⟨hanswer, hends⟩ := hread
    obtain rfl : got' = got := hanswer
    simp only
    split
    · exact ⟨rfl, hends⟩
    · exact ih hends hrest _

/-- A file is read along its chain, which holds no free cluster. -/
theorem Twin.read (h : A.Twin P v w) (parent : UInt32) (name : ShortName) (capacity : Nat) :
    Replies (A.Twin P) (v.read parent name capacity) (w.read parent name capacity) := by
  have hstat := h.stat parent name
  unfold Volume.read
  generalize v.stat parent name = x, w.stat parent name = y at hstat
  obtain ⟨v', a⟩ := x
  obtain ⟨w', b⟩ := y
  obtain ⟨hanswer, hends⟩ := hstat
  obtain rfl : b = a := hanswer
  cases b with
  | error cause => exact ⟨rfl, rfl, hends⟩
  | ok entry =>
    obtain ⟨d, map⟩ := v'
    obtain ⟨e, map'⟩ := w'
    obtain rfl : map' = map := hends.map
    have hchain : ∀ c ∈ (map'.chain entry.cluster).take (capacity / clusterSize),
        A.Reads P c := by
      intro c hc
      have hmem := List.mem_of_mem_take hc
      exact reads_of_lt (fun hP => get?_ne_unused_of_mem_chain hmem (hends.free c hP).2)
        (isData_iff.mp (isData_of_mem_chain hmem)).2
    have hread := readClusters hends.disk hchain #[]
    simp only at hread ⊢
    generalize ClusterFs.readClusters d
        ((map'.chain entry.cluster).take (capacity / clusterSize)) #[] = x,
      ClusterFs.readClusters e
        ((map'.chain entry.cluster).take (capacity / clusterSize)) #[] = y at hread
    obtain ⟨d', got⟩ := x
    obtain ⟨e', got'⟩ := y
    obtain ⟨hsame, hdisks⟩ := hread
    obtain rfl : got' = got := hsame
    have hlater : A.Twin P ⟨d', map'⟩ ⟨e', map'⟩ := ⟨⟨rfl, hdisks⟩, hends.free⟩
    by_cases hdir : entry.isDirectory = true
    · simp only [hdir, if_true]
      exact ⟨rfl, rfl, hends⟩
    by_cases hroom : capacity / clusterSize < clustersFor entry.size.toNat
    · simp only [hdir, hroom, if_true, if_false, Bool.false_eq_true]
      exact ⟨rfl, rfl, hends⟩
    simp only [hdir, hroom, if_false, Bool.false_eq_true]
    obtain ⟨bytes, _ | _⟩ := got'
    · exact ⟨rfl, rfl, hlater⟩
    · exact ⟨rfl, rfl, hlater⟩

/-- A table is read at the cluster of an entry, whatever the map says of it. -/
theorem Twin.readDirectory (h : A.Twin P v w) (parent : UInt32) (name : ShortName)
    (capacity : Nat)
    (hreads : ∀ e, (v.stat parent name).2 = .ok e → e.isDirectory = true → A.Reads P e.cluster) :
    Replies (A.Twin P) (v.readDirectory parent name capacity)
      (w.readDirectory parent name capacity) := by
  have hstat := h.stat parent name
  unfold Volume.readDirectory
  generalize v.stat parent name = x, w.stat parent name = y at hstat hreads
  obtain ⟨v', a⟩ := x
  obtain ⟨w', b⟩ := y
  obtain ⟨hanswer, hends⟩ := hstat
  obtain rfl : b = a := hanswer
  cases b with
  | error cause => exact ⟨rfl, rfl, hends⟩
  | ok entry =>
    simp only
    split_ifs with hdir
    · exact ⟨rfl, rfl, hends⟩
    · exact ⟨rfl, rfl, hends⟩
    · have hentry : ∀ c ∈ [entry.cluster], A.Reads P c := by
        simpa using hreads entry rfl (by simpa using hdir)
      obtain ⟨hsame, hdisks⟩ := readClusters hends.disk hentry #[]
      refine ⟨?_, ?_, ⟨hends.map, hdisks⟩, hends.free⟩
      · simp only [hsame]
      · simp only [hsame]

/-! ### Changes -/

theorem Abreast.apply {step : Step} (h : A.Abreast P v w)
    (hstep : step.Within (isData · = true)) :
    Coupled (A.Abreast P) (step.apply v) (step.apply w) ∧
      ((step.apply v).2 = .ok () →
        A.Abreast (fun c => P c ∧ ∀ b, step ≠ .store c b) (step.apply v).1 (step.apply w).1) := by
  cases step with
  | link c next =>
    have hmap : w.map.set c next = v.map.set c next := by rw [h.map]
    refine ⟨⟨rfl, hmap, h.disk⟩, fun _ => ⟨hmap, A.mono h.disk fun a hP => ⟨hP, fun b hb => ?_⟩⟩⟩
    cases hb
  | saveMap =>
    obtain ⟨⟨hanswer, hends⟩, -⟩ := A.writeCluster mapCluster v.map.encode h.disk (by decide)
      (by decide)
    simp only [Step.apply, h.map]
    refine ⟨⟨hanswer, rfl, hends⟩, fun _ => ⟨rfl, A.mono hends fun a hP => ⟨hP, fun b hb => ?_⟩⟩⟩
    cases hb
  | store c bytes =>
    have hc := isData_iff.mp hstep
    obtain ⟨⟨hanswer, hends⟩, hstored⟩ := A.writeCluster c bytes h.disk (by omega) hc.2
    simp only [Step.apply]
    refine ⟨⟨hanswer, h.map, hends⟩, fun hok => ⟨h.map, A.mono (hstored hok) ?_⟩⟩
    rintro a ⟨hP, hne⟩
    refine ⟨hP, fun b hstore => hne ?_⟩
    cases hstore
    rfl

/-- A list of steps ends alike on both, and what it stored is alike. -/
theorem Abreast.perform {steps : List Step} (h : A.Abreast P v w)
    (hsteps : ∀ step ∈ steps, step.Within (isData · = true)) :
    Coupled (A.Abreast P) (v.perform steps) (w.perform steps) ∧
      ((v.perform steps).2 = .ok () →
        A.Abreast (fun c => P c ∧ ∀ b, .store c b ∉ steps) (v.perform steps).1
          (w.perform steps).1) := by
  induction steps generalizing P v w with
  | nil =>
    exact ⟨⟨rfl, h⟩, fun _ => ⟨h.map, A.mono h.disk fun c hP => ⟨hP, fun _ => List.not_mem_nil⟩⟩⟩
  | cons step steps ih =>
    obtain ⟨hstep, hok⟩ := h.apply (hsteps step (by simp))
    have hrest : ∀ step ∈ steps, step.Within (isData · = true) :=
      fun s hs => hsteps s (List.mem_cons_of_mem _ hs)
    unfold Volume.perform
    generalize step.apply v = x, step.apply w = y at hstep hok
    obtain ⟨v', a⟩ := x
    obtain ⟨w', b⟩ := y
    obtain ⟨hanswer, hends⟩ := hstep
    obtain rfl : b = a := hanswer
    cases b with
    | error e => exact ⟨⟨rfl, hends⟩, fun hdone => by cases hdone⟩
    | ok _ =>
      refine ⟨(ih hends hrest).1, fun hdone => ?_⟩
      obtain ⟨hmap, hdisk⟩ := (ih (hok rfl) hrest).2 hdone
      refine ⟨hmap, A.mono hdisk ?_⟩
      rintro c ⟨⟨hP, hne⟩, hnot⟩
      refine ⟨hP, fun b hmem => ?_⟩
      rcases List.mem_cons.mp hmem with hstore | hmem
      · exact hne b hstore.symm
      · exact hnot b hmem

/-- Steps that link nothing leave free what was. -/
theorem Twin.perform {steps : List Step} (h : A.Twin P v w)
    (hsteps : ∀ step ∈ steps, step.Within (isData · = true))
    (hlinks : ∀ step ∈ steps, step.Links fun _ => False) :
    Coupled (A.Twin P) (v.perform steps) (w.perform steps) := by
  obtain ⟨hanswer, hends⟩ := (h.toAbreast.perform hsteps).1
  refine ⟨hanswer, hends, fun c hc => ?_⟩
  rw [get?_perform v hlinks id]
  exact h.free c hc

/-- Freeing a chain fills no entry, so what was free stays so. -/
theorem Twin.freeChain (h : A.Twin P v w) (start : UInt32) :
    A.Twin P ⟨v.disk, (v.map.freeChain start).1⟩ ⟨w.disk, (v.map.freeChain start).1⟩ := by
  refine ⟨⟨rfl, h.disk⟩, fun c hc => ?_⟩
  obtain ⟨hdata, hunused⟩ := h.free c hc
  have hnot : c ∉ v.map.chain start := fun hmem => get?_ne_unused_of_mem_chain hmem hunused
  exact ⟨hdata, (get?_freeChain_of_notMem_chain hnot).trans hunused⟩

theorem Twin.refine (h : A.Twin P v w) :
    A.Twin (fun c => P c ∧ v.map.get? c = some unused) v w :=
  ⟨⟨h.map, A.mono h.disk fun c hP => ⟨hP, (h.free c hP).2⟩⟩, fun c hP => h.free c hP.1⟩

/-- A write that does not fail leaves volumes alike but for the clusters that are still free. -/
theorem Twin.write (h : A.Twin P v w) (parent : UInt32) (name : ShortName) (data : Payload) :
    Replies (A.Abreast P) (v.write parent name data) (w.write parent name data) ∧
      ((∀ e, (v.write parent name data).outcome ≠ .error (.device e)) →
        A.Twin (fun c => P c ∧ (v.write parent name data).volume.map.get? c = some unused)
          (v.write parent name data).volume (w.write parent name data).volume) := by
  have hopen := h.openDirectory parent
  have hterminal (table : Directory) (hok : (v.openDirectory parent).2 = .ok table) :=
    isTerminal_of_openDirectory hok
  unfold Volume.write
  generalize v.openDirectory parent = x, w.openDirectory parent = y at hopen hterminal
  obtain ⟨⟨d, map⟩, a⟩ := x
  obtain ⟨⟨e, map'⟩, b⟩ := y
  obtain ⟨hanswer, hends⟩ := hopen
  obtain rfl : b = a := hanswer
  obtain rfl : map' = map := hends.map
  cases b with
  | error cause => exact ⟨⟨rfl, rfl, hends.toAbreast⟩, fun _ => hends.refine⟩
  | ok table =>
    simp only
    cases hplace : place map' table name data.size with
    | error cause => exact ⟨⟨rfl, rfl, hends.toAbreast⟩, fun _ => hends.refine⟩
    | ok p =>
      have hdata := (isTerminal_iff.mp (hterminal table rfl)).1
      have hlinks := fun (c : UInt32) (hc : c ∉ p.clusters) =>
        get?_perform (⟨d, map'⟩ : Volume D) (links_writeSteps hplace parent) hc
      obtain ⟨hperform, hok⟩ := hends.toAbreast.perform (inData_writeSteps hplace hdata)
      simp only at hperform hok ⊢
      generalize (⟨d, map'⟩ : Volume D).perform (writeSteps parent table name data p) = x,
        (⟨e, map'⟩ : Volume D).perform (writeSteps parent table name data p) = y
        at hlinks hperform hok
      obtain ⟨v', a⟩ := x
      obtain ⟨w', b⟩ := y
      obtain ⟨hanswer, hlater⟩ := hperform
      obtain rfl : b = a := hanswer
      cases b with
      | error cause => exact ⟨⟨rfl, rfl, hlater⟩, fun hdevice => absurd rfl (hdevice cause)⟩
      | ok _ =>
        refine ⟨⟨rfl, rfl, hlater⟩, fun _ => ⟨⟨hlater.map, ?_⟩, fun c hc => ?_⟩⟩
        · refine A.mono (hok rfl).disk fun c hc => ⟨hc.1, ?_⟩
          have hnot : c ∉ p.clusters := fun hmem => by
            obtain ⟨b, hb⟩ := exists_store_writeSteps hplace parent hmem
            exact hc.2 b hb
          exact (hlinks c hnot).trans (hends.free c hc.1).2
        · exact ⟨(hends.free c hc.1).1, hc.2⟩

theorem Twin.countOrphans (h : A.Twin P v w) {entry : Entry}
    (hreads : entry.isDirectory = true → A.Reads P entry.cluster) :
    Coupled (A.Twin P) (v.countOrphans entry) (w.countOrphans entry) := by
  unfold Volume.countOrphans
  split_ifs with hdir
  · have hload := h.loadTable (hreads hdir)
    generalize v.loadTable entry.cluster = x, w.loadTable entry.cluster = y at hload
    obtain ⟨v', a⟩ := x
    obtain ⟨w', b⟩ := y
    obtain ⟨hanswer, hends⟩ := hload
    obtain rfl : b = a := hanswer
    cases b with
    | error cause => exact ⟨rfl, hends⟩
    | ok table => exact ⟨rfl, hends⟩
  · exact ⟨rfl, h⟩

theorem Twin.delete (h : A.Twin P v w) (parent : UInt32) (name : ShortName)
    (hreads : ∀ e, (v.stat parent name).2 = .ok e → e.isDirectory = true → A.Reads P e.cluster) :
    Replies (A.Twin P) (v.delete parent name) (w.delete parent name) := by
  have hopen := h.openDirectory parent
  have hterminal (table : Directory) (hok : (v.openDirectory parent).2 = .ok table) :=
    isTerminal_of_openDirectory hok
  unfold Volume.stat at hreads
  unfold Volume.delete
  generalize v.openDirectory parent = x, w.openDirectory parent = y at hopen hterminal hreads
  obtain ⟨v', a⟩ := x
  obtain ⟨w', b⟩ := y
  obtain ⟨hanswer, hends⟩ := hopen
  obtain rfl : b = a := hanswer
  cases b with
  | error cause => exact ⟨rfl, rfl, hends⟩
  | ok table =>
    simp only at hreads ⊢
    cases hfind : table.find? name with
    | none => exact ⟨rfl, rfl, hends⟩
    | some i =>
      simp only [hfind] at hreads ⊢
      have hcount := hends.countOrphans (hreads _ rfl)
      simp only at hcount
      generalize v'.countOrphans (table.children.get i) = x,
        w'.countOrphans (table.children.get i) = y at hcount
      obtain ⟨⟨d, map⟩, a⟩ := x
      obtain ⟨⟨e, map'⟩, b⟩ := y
      obtain ⟨hanswer, hlook⟩ := hcount
      obtain rfl : b = a := hanswer
      obtain rfl : map' = map := hlook.map
      cases b with
      | error cause => exact ⟨rfl, rfl, hlook⟩
      | ok orphans =>
        have hdata := (isTerminal_iff.mp (hterminal table rfl)).1
        have hperform := (hlook.freeChain (table.children.get i).cluster).perform
          (within_deleteSteps table i hdata) (links_deleteSteps parent table i)
        simp only at hperform ⊢
        generalize Volume.perform (⟨d, (map'.freeChain (table.children.get i).cluster).1⟩ :
            Volume D) [.store parent (table.setChild i .empty).encode, .saveMap] = x,
          Volume.perform (⟨e, (map'.freeChain (table.children.get i).cluster).1⟩ :
            Volume D) [.store parent (table.setChild i .empty).encode, .saveMap] = y
          at hperform
        obtain ⟨v', a⟩ := x
        obtain ⟨w', b⟩ := y
        obtain ⟨hanswer, hends⟩ := hperform
        obtain rfl : b = a := hanswer
        cases b with
        | error cause => exact ⟨rfl, rfl, hends⟩
        | ok _ => exact ⟨rfl, rfl, hends⟩

/-! ### Mounting -/

theorem readSector (h : A.Alike P d e) :
    Coupled (A.Alike P) (ClusterFs.readSector d bootSector)
      (ClusterFs.readSector e bootSector) := by
  obtain ⟨hanswer, hends⟩ := A.readBoot h
  unfold ClusterFs.readSector
  exact ⟨by simp only [hanswer], hends⟩

/-- Mountings with the same result on devices that are alike. -/
structure Mounts (R : D → D → Prop) (m n : Mounting D) : Prop where
  map : n.map = m.map
  disk : R m.disk n.disk

theorem format (h : A.Alike P d e) : Mounts (A.Alike P) (Volume.format d) (Volume.format e) := by
  have hwrite := A.writeBoot BootSector.signature h
  unfold Volume.format
  generalize BlockDevice.write d BootSector.signature.toArray bootSector 1 = x,
    BlockDevice.write e BootSector.signature.toArray bootSector 1 = y at hwrite
  obtain ⟨d', a⟩ := x
  obtain ⟨e', b⟩ := y
  obtain ⟨hanswer, hends⟩ := hwrite
  obtain rfl : b = a := hanswer
  cases b with
  | error cause => exact ⟨rfl, hends⟩
  | ok _ =>
    have hsteps : ∀ step ∈ formatSteps, step.Within (isData · = true) := by
      simp only [formatSteps, List.forall_mem_cons]
      exact ⟨trivial, isData_iff.mpr (by decide), by simp⟩
    have hstart : A.Abreast P ⟨d', .formatted⟩ ⟨e', .formatted⟩ := ⟨rfl, hends⟩
    have hperform := (hstart.perform hsteps).1
    simp only
    generalize (⟨d', .formatted⟩ : Volume D).perform formatSteps = x,
      (⟨e', .formatted⟩ : Volume D).perform formatSteps = y at hperform
    obtain ⟨v, a⟩ := x
    obtain ⟨w, b⟩ := y
    obtain ⟨hanswer, hmap, hdisk⟩ := hperform
    obtain rfl : b = a := hanswer
    cases b with
    | error cause => exact ⟨rfl, hdisk⟩
    | ok _ => exact ⟨congrArg Except.ok hmap, hdisk⟩

theorem mount (h : A.Alike P d e) (hP : ¬ P mapCluster) :
    Mounts (A.Alike P) (Volume.mount d) (Volume.mount e) := by
  have hboot := readSector h
  unfold Volume.mount
  generalize ClusterFs.readSector d bootSector = x, ClusterFs.readSector e bootSector = y at hboot
  obtain ⟨d', a⟩ := x
  obtain ⟨e', b⟩ := y
  obtain ⟨hanswer, hends⟩ := hboot
  obtain rfl : b = a := hanswer
  cases b with
  | error cause => exact ⟨rfl, hends⟩
  | ok sector =>
    simp only
    split_ifs
    · obtain ⟨hmap, hdisk⟩ := A.readCluster hends hP (by decide)
      simp only [ClusterFs.readCluster, hmap]
      generalize BlockDevice.read d' (clusterLba mapCluster) sectorsPerCluster clusterSize = x
        at hdisk
      obtain ⟨d'', bytes, _ | _⟩ := x
      · exact ⟨rfl, hdisk⟩
      · exact ⟨rfl, hdisk⟩
    · exact ⟨(format hends).map, (format hends).disk⟩

end Likeness

namespace Session
open Likeness

variable {D : Type} [BlockDevice D] {A : Likeness D} {P : UInt32 → Prop} {s : Session D}
  {w : Volume D}

/-- Whether the table that an action reads or is about to delete can be read alike. -/
def Lists (A : Likeness D) (P : UInt32 → Prop) (v : Volume D) : Action → Prop
  | .readDirectory parent name _ | .delete parent name =>
    ∀ e, (v.stat parent name).2 = .ok e → e.isDirectory = true → A.Reads P e.cluster
  | _ => True

/-- One action on twin volumes is answered alike and leaves volumes abreast, and twins if it is a
change that did not fail. -/
theorem step_alike (h : A.Twin P s.volume w) {a : Action} (hlists : Lists A P s.volume a) :
    w.answer a = s.volume.answer a ∧
      ∃ x, step { s with volume := w } a = (s.step a).map (fun t => { t with volume := x }) ∧
        ∀ t, s.step a = .ok t → A.Abreast P t.volume x ∧
          (a.changes = true → (∀ e, s.volume.outcome a ≠ .error (.device e)) →
            A.Twin (fun c => P c ∧ t.volume.map.get? c = some unused) t.volume x) := by
  cases a with
  | write parent name data =>
    obtain ⟨⟨houtcome, -, habreast⟩, hok⟩ := h.write parent name data
    simp only [Volume.answer, houtcome, true_and]
    refine ⟨(w.write parent name data).volume, ?_, fun t ht => ?_⟩
    · simp only [step, houtcome, h.map, habreast.map]
      split
      · rfl
      · split_ifs <;> rfl
    · have hvolume := volume_of_step_write ht
      rw [hvolume] at habreast hok
      exact ⟨habreast, fun _ hdevice => hok fun e he =>
        hdevice e (Reply.discard_eq_error_iff.mpr he)⟩
  | delete parent name =>
    obtain ⟨houtcome, -, hends⟩ := h.delete parent name hlists
    simp only [Volume.answer, houtcome, true_and]
    refine ⟨(w.delete parent name).volume, ?_, fun t ht => ?_⟩
    · simp only [step, h.map, hends.map]
      rfl
    · obtain rfl := Except.ok.inj ht
      exact ⟨hends.toAbreast, fun _ _ => hends.refine⟩
  | read parent name capacity =>
    obtain ⟨houtcome, hfilled, hends⟩ := h.read parent name capacity
    simp only [Volume.answer, houtcome, hfilled, true_and]
    refine ⟨(w.read parent name capacity).volume, rfl, fun t ht => ?_⟩
    obtain rfl := Except.ok.inj ht
    exact ⟨hends.toAbreast, fun hchanges => absurd hchanges Bool.false_ne_true⟩
  | readDirectory parent name capacity =>
    obtain ⟨houtcome, hfilled, hends⟩ := h.readDirectory parent name capacity hlists
    simp only [Volume.answer, houtcome, hfilled, true_and]
    refine ⟨(w.readDirectory parent name capacity).volume, rfl, fun t ht => ?_⟩
    obtain rfl := Except.ok.inj ht
    exact ⟨hends.toAbreast, fun hchanges => absurd hchanges Bool.false_ne_true⟩
  | stat parent name =>
    obtain ⟨hanswer, hends⟩ := h.stat parent name
    simp only [Volume.answer, hanswer, true_and]
    refine ⟨(w.stat parent name).1, rfl, fun t ht => ?_⟩
    obtain rfl := Except.ok.inj ht
    exact ⟨hends.toAbreast, fun hchanges => absurd hchanges Bool.false_ne_true⟩
  | remount =>
    have hnot : ¬ P mapCluster := fun hP => absurd (h.free _ hP).1 (by decide)
    obtain ⟨hmap, hdisk⟩ := Likeness.mount h.disk hnot
    simp only [Volume.answer, hmap, true_and]
    simp only [step, Mounting.volume, hmap]
    cases hmounted : (Volume.mount s.volume.disk).map with
    | error e => exact ⟨w, rfl, fun t ht => by cases ht⟩
    | ok map =>
      refine ⟨⟨(Volume.mount w.disk).disk, map⟩, rfl, fun t ht => ?_⟩
      obtain rfl := Except.ok.inj ht
      exact ⟨⟨rfl, hdisk⟩, fun hchanges => absurd hchanges Bool.false_ne_true⟩

/-- Volumes abreast on devices that answer alike to every read are answered alike for ever. -/
theorem answers_alike (h : A.Abreast (fun _ => False) s.volume w)
    (hreads : ∀ c, A.Reads (fun _ => False) c) (actions : List Action) :
    answers { s with volume := w } actions = s.answers actions := by
  induction actions generalizing s w with
  | nil => rfl
  | cons a rest ih =>
    have hlists : Lists A (fun _ => False) s.volume a := by
      cases a <;> first | trivial | exact fun _ _ _ => hreads _
    have htwin : A.Twin (fun _ => False) s.volume w := ⟨h, fun _ hP => hP.elim⟩
    obtain ⟨hanswer, x, hstep, hends⟩ := step_alike htwin hlists
    simp only [answers, hanswer, hstep]
    cases ht : s.step a with
    | error e => rfl
    | ok t => exact congrArg _ (ih (hends t ht).1)

end Session

end ClusterFs
