import ClusterFs.Proofs.Operations

/-!
Devices of any size. A working device takes every write within its sectors and refuses every
transfer past them, so a list of steps is carried out up to the first that stores a cluster which
the device does not have. What was carried out is followed on the bytes themselves.
-/
namespace ClusterFs

namespace Image

/-- The bytes of a device after a cluster is stored; what lies past the end is dropped. -/
def putCluster (image : Image) (c : UInt32) (bytes : Cluster) : Image :=
  patch image (clusterLba c * sectorSize) bytes.toArray

variable {a b : Image} {c : UInt32} {k : Nat}

@[simp] theorem size_putCluster (image : Image) (c : UInt32) (bytes : Cluster) :
    (putCluster image c bytes).size = image.size :=
  size_patch ..

theorem getElem?_putCluster_of_not_inCluster (bytes : Cluster) (h : ¬ InCluster c k) :
    (putCluster a c bytes)[k]? = a[k]? := by
  rw [putCluster, getElem?_patch, Vector.size_toArray, if_neg]
  exact fun hk => h (inCluster_iff.mpr ⟨hk.1, hk.2.1⟩)

/-- Storing a cluster leaves equal bytes equal, and makes equal those in the cluster. -/
theorem getElem?_putCluster_congr (hsize : b.size = a.size) (bytes : Cluster)
    (h : b[k]? = a[k]? ∨ InCluster c k) :
    (putCluster b c bytes)[k]? = (putCluster a c bytes)[k]? := by
  rw [putCluster, putCluster, getElem?_patch, getElem?_patch, hsize, Vector.size_toArray]
  split_ifs with hk
  · rfl
  · rcases h with h | hin
    · exact h
    · obtain ⟨hlow, hhigh⟩ := inCluster_iff.mp hin
      have hpast : a.size ≤ k := Nat.not_lt.mp fun hlt => hk ⟨hlow, hhigh, hlt⟩
      rw [Array.getElem?_eq_none hpast, Array.getElem?_eq_none (hsize ▸ hpast)]

end Image

namespace Volume

/-- The cluster that a step stores. -/
def Step.target? : Step → Option UInt32
  | .link _ _ => none
  | .saveMap => some mapCluster
  | .store c _ => some c

/-- Whether what a step stores lies within so many sectors. -/
def Step.Fits (n : Nat) (step : Step) : Prop :=
  ∀ c, step.target? = some c → clusterLba c + sectorsPerCluster ≤ n

/-- Whether a step stores the cluster in which a byte of the device lies. -/
def Step.Touches (step : Step) (k : Nat) : Prop := ∃ c, step.target? = some c ∧ InCluster c k

@[simp] theorem fits_store {n : Nat} {c : UInt32} {bytes : Cluster} :
    (Step.store c bytes).Fits n ↔ clusterLba c + sectorsPerCluster ≤ n :=
  ⟨fun h => h c rfl, fun h _ hd => Option.some.inj hd ▸ h⟩

@[simp] theorem fits_saveMap {n : Nat} :
    Step.saveMap.Fits n ↔ clusterLba mapCluster + sectorsPerCluster ≤ n :=
  ⟨fun h => h mapCluster rfl, fun h _ hd => Option.some.inj hd ▸ h⟩

@[simp] theorem touches_store {c : UInt32} {bytes : Cluster} {k : Nat} :
    (Step.store c bytes).Touches k ↔ InCluster c k :=
  ⟨fun ⟨_, hd, hk⟩ => Option.some.inj hd ▸ hk, fun hk => ⟨c, rfl, hk⟩⟩

@[simp] theorem touches_saveMap {k : Nat} : Step.saveMap.Touches k ↔ InCluster mapCluster k :=
  ⟨fun ⟨_, hd, hk⟩ => Option.some.inj hd ▸ hk, fun hk => ⟨mapCluster, rfl, hk⟩⟩

/-- The map lies before every data cluster. -/
theorem fits_mapCluster {n : Nat} {c : UInt32} (hdata : AllocationMap.isData c = true)
    (hc : clusterLba c + sectorsPerCluster ≤ n) :
    clusterLba mapCluster + sectorsPerCluster ≤ n := by
  have hlow := (AllocationMap.isData_iff.mp hdata).1
  simp only [clusterLba, sectorsPerCluster] at hc ⊢
  show 1 * 4 + 4 ≤ n
  omega

theorem fits_deleteSteps {n : Nat} {parent : UInt32} (x : Contents) (i : Fin 62)
    (hdata : AllocationMap.isData parent = true)
    (hparent : clusterLba parent + sectorsPerCluster ≤ n) :
    ∀ step ∈ x.deleteSteps parent i, step.Fits n := by
  simp only [Contents.deleteSteps, List.forall_mem_cons, fits_store, fits_saveMap]
  exact ⟨hparent, fits_mapCluster hdata hparent, by simp⟩

/-- What a step does to the bytes of a device and the map. -/
def Step.onImage (v : Volume Image) : Step → Volume Image
  | .link c next => { v with map := v.map.set c next }
  | .saveMap => { v with disk := Image.putCluster v.disk mapCluster v.map.encode }
  | .store c bytes => { v with disk := Image.putCluster v.disk c bytes }

variable {v w : Volume Image} {step : Step} {steps : List Step} {k : Nat}

@[simp] theorem size_onImage (v : Volume Image) (step : Step) :
    (step.onImage v).disk.size = v.disk.size := by
  cases step <;> simp only [Step.onImage, Image.size_putCluster]

@[simp] theorem size_foldl_onImage (v : Volume Image) (steps : List Step) :
    (steps.foldl Step.onImage v).disk.size = v.disk.size := by
  induction steps generalizing v with
  | nil => rfl
  | cons step steps ih => rw [List.foldl_cons, ih, size_onImage]

/-- The map after a step does not depend on the device. -/
theorem map_onImage (hmap : w.map = v.map) (step : Step) :
    (step.onImage w).map = (step.onImage v).map := by
  cases step with
  | link c next => rw [Step.onImage, Step.onImage, hmap]
  | saveMap | store => rwa [Step.onImage, Step.onImage]

theorem getElem?_onImage (h : ¬ step.Touches k) : (step.onImage v).disk[k]? = v.disk[k]? := by
  cases step with
  | link c next => rfl
  | saveMap =>
    rw [Step.onImage, Image.getElem?_putCluster_of_not_inCluster _ (mt touches_saveMap.mpr h)]
  | store c bytes =>
    rw [Step.onImage, Image.getElem?_putCluster_of_not_inCluster _ (mt touches_store.mpr h)]

/-- A byte that no step touches stays. -/
theorem getElem?_foldl_onImage (h : ∀ step ∈ steps, ¬ step.Touches k) :
    (steps.foldl Step.onImage v).disk[k]? = v.disk[k]? := by
  induction steps generalizing v with
  | nil => rfl
  | cons step steps ih =>
    obtain ⟨hstep, hsteps⟩ := List.forall_mem_cons.mp h
    rw [List.foldl_cons, ih hsteps, getElem?_onImage hstep]

theorem getElem?_onImage_congr (hsize : w.disk.size = v.disk.size) (hmap : w.map = v.map)
    (h : w.disk[k]? = v.disk[k]? ∨ step.Touches k) :
    (step.onImage w).disk[k]? = (step.onImage v).disk[k]? := by
  cases step with
  | link c next =>
    refine h.resolve_right ?_
    rintro ⟨_, hnone, -⟩
    cases hnone
  | saveMap =>
    dsimp only [Step.onImage]
    rw [hmap]
    exact Image.getElem?_putCluster_congr hsize _ (h.imp_right touches_saveMap.mp)
  | store c bytes =>
    dsimp only [Step.onImage]
    exact Image.getElem?_putCluster_congr hsize _ (h.imp_right touches_store.mp)

/-- Devices that differ only in what the steps touch are the same after them. -/
theorem foldl_onImage_eq (hsize : w.disk.size = v.disk.size) (hmap : w.map = v.map)
    (h : ∀ k, w.disk[k]? = v.disk[k]? ∨ ∃ step ∈ steps, step.Touches k) :
    steps.foldl Step.onImage w = steps.foldl Step.onImage v := by
  induction steps generalizing v w with
  | nil =>
    obtain ⟨a, m⟩ := v
    obtain ⟨b, m'⟩ := w
    obtain rfl : m' = m := hmap
    have hbytes : b = a := Array.ext_getElem? fun k => (h k).resolve_right (by simp)
    rw [hbytes]
  | cons step steps ih =>
    rw [List.foldl_cons, List.foldl_cons]
    refine ih ?_ (map_onImage hmap step) fun k => ?_
    · rw [size_onImage, size_onImage, hsize]
    · have hk := h k
      simp only [List.mem_cons, exists_eq_or_imp, ← or_assoc] at hk
      exact hk.imp_left (getElem?_onImage_congr hsize hmap)

end Volume

namespace Contents
open Volume

/-- A step that fits does to the contents what it does to the bytes. -/
theorem ofImage_onImage {v : Volume Image} {step : Step} {n : Nat}
    (hstep : step.Within (AllocationMap.isData · = true)) (hfits : step.Fits n)
    (hsize : n * sectorSize ≤ v.disk.size) :
    ofImage (step.onImage v).disk (step.onImage v).map = (ofImage v.disk v.map).apply step := by
  have hroom {c : UInt32} (hc : clusterLba c + sectorsPerCluster ≤ n) :
      clusterLba c * sectorSize + 2048 ≤ v.disk.size := by
    have hlast := Nat.mul_le_mul_right sectorSize hc
    rw [Nat.add_mul] at hlast
    exact hlast.trans hsize
  cases step with
  | link c next => rfl
  | saveMap =>
    have hmap := hroom (fits_saveMap.mp hfits)
    rw [Step.onImage, Image.putCluster,
      ofImage_patch v.map v.map.encode (c := mapCluster) (by decide) hmap]
    rfl
  | store c bytes =>
    have hpos : 0 < c.toNat := by
      have hdata := AllocationMap.isData_iff.mp hstep
      omega
    rw [Step.onImage, Image.putCluster, ofImage_patch v.map bytes hpos
      (hroom (fits_store.mp hfits))]
    rfl

theorem ofImage_foldl_onImage {v : Volume Image} {steps : List Step} {n : Nat}
    (hsteps : ∀ step ∈ steps, step.Within (AllocationMap.isData · = true))
    (hfits : ∀ step ∈ steps, step.Fits n) (hsize : n * sectorSize ≤ v.disk.size) :
    ofImage (steps.foldl Step.onImage v).disk (steps.foldl Step.onImage v).map =
      (ofImage v.disk v.map).applyAll steps := by
  induction steps generalizing v with
  | nil => rfl
  | cons step steps ih =>
    obtain ⟨hstep, hsteps⟩ := List.forall_mem_cons.mp hsteps
    obtain ⟨hfit, hfits⟩ := List.forall_mem_cons.mp hfits
    rw [List.foldl_cons, ih hsteps hfits (by rwa [size_onImage]), applyAll_cons,
      ofImage_onImage hstep hfit hsize]

end Contents

namespace Storage
open Volume

variable {D : Type} [BlockDevice D] {S : Storage D} {d e : D} {v : Volume D} {n : Nat}
  {parent c : UInt32} {name : ShortName}

/-- A ready device of `n` sectors that takes every write. -/
structure Working (S : Storage D) (n : Nat) (d : D) : Prop where
  ready : S.Ready d
  sectors : S.sectors d = n
  writes : S.writesLeft d = none

/-- A volume with the bytes of its device in place of the device. -/
def view (S : Storage D) (v : Volume D) : Volume Image := ⟨S.image v.disk, v.map⟩

theorem Working.has_iff (h : S.Working n d) :
    S.Has d c ↔ clusterLba c + sectorsPerCluster ≤ n := by
  rw [Has, h.sectors]

theorem Working.kept (h : S.Working n d) (hd : S.Kept d e) : S.Working n e :=
  ⟨hd.ready, hd.sectors.trans h.sectors, hd.writesLeft.trans h.writes⟩

theorem Working.size_le (h : S.Working n v.disk) : n * sectorSize ≤ (S.view v).disk.size := by
  have hle := S.sectors_le h.ready
  rwa [h.sectors] at hle

theorem Working.writesLeft_ne (h : S.Working n d) : S.writesLeft d ≠ some 0 := by
  rw [h.writes]
  nofun

theorem Kept.view {d e : D} (h : S.Kept d e) (map : AllocationMap) :
    S.view ⟨e, map⟩ = S.view ⟨d, map⟩ := by
  simp only [Storage.view, h.image]

/-- A parent that a working device does not have is not read. -/
theorem openDirectory_past (hB : S.Bounded) (h : S.Ready v.disk)
    (hterminal : v.map.isTerminal c = true) (hc : ¬ S.Has v.disk c) :
    ∃ d, v.openDirectory c = (⟨d, v.map⟩, .error (.device .outOfRange)) ∧ S.Kept v.disk d := by
  have hroom : sectorsPerCluster * sectorSize ≤ clusterSize := by decide
  obtain ⟨d, bytes, hread, hd⟩ := hB.read_past h (Nat.not_le.mp hc) hroom
  refine ⟨d, ?_, hd⟩
  simp only [openDirectory, hterminal, if_true, loadTable, readCluster, hread, Except.map]

/-- A store is carried out if the device has the cluster, and refused otherwise. -/
theorem writeCluster_working (hB : S.Bounded) (h : S.Working n d) (c : UInt32) (bytes : Cluster) :
    ∃ e, S.Working n e ∧
      (clusterLba c + sectorsPerCluster ≤ n ∧ writeCluster d c bytes = (e, .ok ()) ∧
          S.image e = Image.putCluster (S.image d) c bytes ∨
        ¬ clusterLba c + sectorsPerCluster ≤ n ∧
          writeCluster d c bytes = (e, .error .outOfRange) ∧ S.image e = S.image d) := by
  have hleft := h.writesLeft_ne
  rw [← h.has_iff]
  by_cases hc : S.Has d c
  · obtain ⟨e, hready, hsectors, hend⟩ := writeCluster_image h.ready hc bytes
    obtain ⟨-, hwrite, himage, hleft'⟩ := hend.resolve_right fun hstop => hleft hstop.1
    rw [h.writes] at hleft'
    exact ⟨e, ⟨hready, hsectors.trans h.sectors, hleft'⟩, .inl ⟨hc, hwrite, himage⟩⟩
  · have hsize : bytes.toArray.size = sectorsPerCluster * sectorSize := bytes.size_toArray
    obtain ⟨e, hwrite, he⟩ := hB.write_past h.ready (Nat.not_le.mp hc) hsize hleft
    exact ⟨e, h.kept he, .inr ⟨hc, hwrite, he.image⟩⟩

theorem step_working (hB : S.Bounded) (h : S.Working n v.disk) (step : Step) :
    ∃ w, S.Working n w.disk ∧
      (step.Fits n ∧ step.apply v = (w, .ok ()) ∧ S.view w = step.onImage (S.view v) ∨
        ¬ step.Fits n ∧ step.apply v = (w, .error .outOfRange) ∧ S.view w = S.view v) := by
  cases step with
  | link c next => exact ⟨{ v with map := v.map.set c next }, h, .inl ⟨nofun, rfl, rfl⟩⟩
  | saveMap =>
    obtain ⟨e, he, hend⟩ := writeCluster_working hB h mapCluster v.map.encode
    refine ⟨⟨e, v.map⟩, he, ?_⟩
    rw [fits_saveMap]
    simp only [Step.apply, view, Step.onImage]
    rcases hend with ⟨hfits, hwrite, himage⟩ | ⟨hpast, hwrite, himage⟩
    · exact .inl ⟨hfits, by rw [hwrite], by rw [himage]⟩
    · exact .inr ⟨hpast, by rw [hwrite], by rw [himage]⟩
  | store c bytes =>
    obtain ⟨e, he, hend⟩ := writeCluster_working hB h c bytes
    refine ⟨⟨e, v.map⟩, he, ?_⟩
    rw [fits_store]
    simp only [Step.apply, view, Step.onImage]
    rcases hend with ⟨hfits, hwrite, himage⟩ | ⟨hpast, hwrite, himage⟩
    · exact .inl ⟨hfits, by rw [hwrite], by rw [himage]⟩
    · exact .inr ⟨hpast, by rw [hwrite], by rw [himage]⟩

/-- How a list of steps ended of which `rest` was left out: all of it was carried out, or its next
step stores a cluster that the device does not have. -/
inductive Ending (n : Nat) : List Step → Except DiskError Unit → Prop
  | whole : Ending n [] (.ok ())
  | past {step : Step} {rest : List Step} (h : ¬ step.Fits n) :
      Ending n (step :: rest) (.error .outOfRange)

/-- A list of steps is carried out up to the first that does not fit. -/
theorem perform_working (hB : S.Bounded) (h : S.Working n v.disk) (steps : List Step) :
    ∃ w outcome done rest, v.perform steps = (w, outcome) ∧ steps = done ++ rest ∧
      S.Working n w.disk ∧ S.view w = done.foldl Step.onImage (S.view v) ∧
      (∀ step ∈ done, step.Fits n) ∧ Ending n rest outcome := by
  induction steps generalizing v with
  | nil => exact ⟨v, .ok (), [], [], rfl, rfl, h, rfl, nofun, .whole⟩
  | cons step steps ih =>
    obtain ⟨u, hu, ⟨hfits, happly, hview⟩ | ⟨hpast, happly, hview⟩⟩ := step_working hB h step
    · obtain ⟨w, outcome, done, rest, hperform, rfl, hw, hdone, hall, hend⟩ := ih hu
      refine ⟨w, outcome, step :: done, rest, ?_, rfl, hw, ?_, ?_, hend⟩
      · simp only [perform, happly, hperform]
      · rw [hdone, hview, List.foldl_cons]
      · exact List.forall_mem_cons.mpr ⟨hfits, hall⟩
    · refine ⟨u, .error .outOfRange, [], step :: steps, ?_, rfl, hu, hview, nofun, .past hpast⟩
      simp only [perform, happly]

/-- A write on a working device that has its parent: the refusal that left the volume as it was, or
the steps that were carried out. -/
theorem write_working (hB : S.Bounded) (h : S.Working n v.disk)
    (hparent : v.map.isTerminal parent = true → S.Has v.disk parent) (name : ShortName)
    (data : Payload) :
    (∃ e d, v.write parent name data = refuse ⟨d, v.map⟩ e ∧ S.Kept v.disk d ∧
      (S.contents v).placement parent name data.size = .error e) ∨
    ∃ p outcome done rest, (S.contents v).placement parent name data.size = .ok p ∧
      writeSteps parent ((S.contents v).table parent) name data p = done ++ rest ∧
      S.Working n (v.write parent name data).volume.disk ∧
      S.view (v.write parent name data).volume = done.foldl Step.onImage (S.view v) ∧
      (∀ step ∈ done, step.Fits n) ∧ Ending n rest outcome ∧
      (v.write parent name data).outcome =
        (outcome.mapError .device).map fun _ => p.first := by
  obtain ⟨d, hopen, hd⟩ := openDirectory_kept h.ready hparent
  rcases write_of_openDirectory hopen name data with
    ⟨e, hwrite, hplacement⟩ | ⟨p, hplacement, hwrite⟩
  · exact .inl ⟨e, d, hwrite, hd, hplacement⟩
  · obtain ⟨w, outcome, done, rest, hperform, hdone, hw, hview, hfits, hend⟩ :=
      perform_working (v := ⟨d, v.map⟩) hB (h.kept hd)
        (writeSteps parent ((S.contents v).table parent) name data p)
    obtain ⟨rfl, houtcome⟩ := hwrite w outcome hperform
    rw [hd.view] at hview
    exact .inr ⟨p, outcome, done, rest, hplacement, hdone, hw, hview, hfits, hend, houtcome⟩

/-- The contents after steps that were carried out. -/
theorem contents_of_view (h : S.Working n v.disk) {w : Volume D} {steps : List Step}
    (hview : S.view w = steps.foldl Step.onImage (S.view v))
    (hsteps : ∀ step ∈ steps, step.Within (AllocationMap.isData · = true))
    (hfits : ∀ step ∈ steps, step.Fits n) : S.contents w = (S.contents v).applyAll steps := by
  have hcontents (u : Volume D) : S.contents u = .ofImage (S.view u).disk (S.view u).map := rfl
  rw [hcontents w, hview, Contents.ofImage_foldl_onImage hsteps hfits h.size_le, hcontents v]

/-- A delete on a working device that has its parent and the directory it removes is carried out, or
finds no entry. -/
theorem delete_working (hB : S.Bounded) (h : S.Working n v.disk)
    (hparent : v.map.isTerminal parent = true → S.Has v.disk parent)
    (hrange : ∀ i, (S.contents v).locate parent name = .ok i →
      ((S.contents v).child parent i).isDirectory = true →
        S.Has v.disk ((S.contents v).child parent i).cluster) :
    (∃ e d, v.delete parent name = refuse ⟨d, v.map⟩ e ∧ S.Kept v.disk d ∧
      (S.contents v).locate parent name = .error e) ∨
    ∃ i, (S.contents v).locate parent name = .ok i ∧ (v.delete parent name).outcome = .ok () ∧
      S.Working n (v.delete parent name).volume.disk ∧
      S.view (v.delete parent name).volume =
        ((S.contents v).deleteSteps parent i).foldl Step.onImage
          ⟨S.image v.disk, (v.map.freeChain ((S.contents v).child parent i).cluster).1⟩ ∧
      S.contents (v.delete parent name).volume =
        ((S.contents v).withMap
          (v.map.freeChain ((S.contents v).child parent i).cluster).1).applyAll
            ((S.contents v).deleteSteps parent i) := by
  obtain ⟨d, hopen, hd⟩ := openDirectory_kept h.ready hparent
  rcases delete_of_openDirectory hopen hd hrange with
    ⟨e, hdelete, hlocate⟩ | ⟨i, c, hlocate, hc, hdelete⟩
  · exact .inl ⟨e, d, hdelete, hd, hlocate⟩
  · generalize hfreed :
      (v.map.freeChain ((S.contents v).child parent i).cluster).1 = freed at hdelete
    have hkept := hd.trans hc
    obtain ⟨w, outcome, done, rest, hperform, hdone, hw, hview, hfits, hend⟩ :=
      perform_working (v := ⟨c, freed⟩) hB (h.kept hkept) ((S.contents v).deleteSteps parent i)
    obtain ⟨rfl, houtcome⟩ := hdelete w outcome hperform
    have haccepts := Contents.accepts_of_locate hlocate
    have hall := fits_deleteSteps (S.contents v) i (Contents.isData_of_accepts haccepts)
      (h.has_iff.mp (hparent (Bool.and_eq_true_iff.mp haccepts).1))
    cases hend with
    | past hpast => exact absurd (hall _ (hdone ▸ by simp)) hpast
    | whole =>
      rw [List.append_nil] at hdone
      subst hdone
      have hcontents := contents_of_view (h.kept hkept) hview (Contents.inData_deleteSteps hlocate)
        hall
      rw [hkept.contents freed] at hcontents
      rw [hkept.view] at hview
      refine .inr ⟨i, hlocate, houtcome, hw, ?_, ?_⟩
      · rw [hfreed]
        exact hview
      · rw [hfreed]
        exact hcontents

end Storage

theorem MemoryDisk.working_create (clusters : Nat) :
    storage.Working (clusters * sectorsPerCluster) (create clusters) := by
  refine ⟨rfl, ?_, rfl⟩
  show (Array.replicate (clusters * clusterSize) (0 : UInt8)).size / sectorSize = _
  rw [Array.size_replicate]
  simp only [clusterSize, sectorSize, sectorsPerCluster]
  omega

end ClusterFs
