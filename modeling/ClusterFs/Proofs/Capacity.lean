import ClusterFs.Proofs.Extent
import ClusterFs.Proofs.Requests
import ClusterFs.Proofs.WriteOutcome

/-!
Requests on a device of any size. The map counts 512 clusters whatever the device holds, and only
the device refuses what lies past its end. A write that is given such a cluster stops there, with
the map saved and no entry made, and the clusters it had taken stay in use. All that the directories
of a session lead to lies on the device after every run, so no other request meets the end.
-/
namespace ClusterFs
open AllocationMap

/-- Whether a device of `n` sectors has a cluster. -/
def OnDevice (n : Nat) (c : UInt32) : Prop := clusterLba c + sectorsPerCluster ≤ n

instance (n : Nat) : DecidablePred (OnDevice n) := fun c =>
  inferInstanceAs (Decidable (clusterLba c + sectorsPerCluster ≤ n))

theorem onDevice_iff {n : Nat} {c : UInt32} : OnDevice n c ↔ c.toNat * 4 + 4 ≤ n := Iff.rfl

/-- How many free clusters a device of `n` sectors has. -/
def AllocationMap.freeOn (m : AllocationMap) (n : Nat) : Nat :=
  m.freeClusters.countP (OnDevice n ·)

/-- The lowest free clusters lie on a device exactly if it has so many free clusters. -/
theorem AllocationMap.forall_onDevice_iff {m : AllocationMap} {count n : Nat}
    {clusters : List UInt32} (h : m.findFree count = .ok clusters) :
    (∀ c ∈ clusters, OnDevice n c) ↔ count ≤ m.freeOn n := by
  have hlength := (findFree_spec h).1
  obtain ⟨-, rfl⟩ := findFree_eq_ok_iff.mp h
  have hordered := m.increasing_freeClusters
  rw [freeOn]
  conv_rhs => rw [← List.take_append_drop count m.freeClusters, List.countP_append]
  rw [← List.take_append_drop count m.freeClusters, List.pairwise_append] at hordered
  generalize m.freeClusters.take count = taken at *
  constructor
  · intro hall
    rw [List.countP_eq_length.mpr (by simpa using hall), hlength]
    omega
  · intro hcount
    by_contra hpast
    obtain ⟨c, hc, hpast⟩ : ∃ c ∈ taken, ¬ OnDevice n c := by
      simpa only [not_forall, exists_prop] using hpast
    -- the clusters that were not taken lie even further
    have hrest : (m.freeClusters.drop count).countP (OnDevice n ·) = 0 := by
      rw [List.countP_eq_zero]
      intro d hd
      have hlt := UInt32.lt_iff_toNat_lt.mp (hordered.2.2 c hc d hd)
      simp only [decide_eq_true_eq]
      rw [onDevice_iff] at hpast ⊢
      omega
    have hfew : taken.countP (OnDevice n ·) ≠ taken.length := fun heq => by
      have hall := List.countP_eq_length.mp heq c hc
      exact hpast (by simpa using hall)
    have hle : taken.countP (OnDevice n ·) ≤ taken.length := List.countP_le_length
    omega

/-- A device of 512 clusters has every free cluster. -/
theorem AllocationMap.freeOn_eq_freeCount (m : AllocationMap) {n : Nat} (hn : 2048 ≤ n) :
    m.freeOn n = m.freeCount := by
  rw [freeOn, freeCount_eq, List.countP_eq_length]
  intro c hc
  have hlt := (isData_iff.mp (mem_freeClusters.mp hc).1).2
  simp only [decide_eq_true_eq]
  rw [onDevice_iff]
  omega

namespace Volume

/-- Formatting stores the first three clusters. -/
theorem fits_formatSteps {n : Nat} : (∀ step ∈ formatSteps, step.Fits n) ↔ 12 ≤ n := by
  simp only [formatSteps, List.forall_mem_cons, fits_saveMap, fits_store]
  show 1 * 4 + 4 ≤ n ∧ 2 * 4 + 4 ≤ n ∧ _ ↔ 12 ≤ n
  constructor
  · rintro ⟨-, hroot, -⟩
    exact hroot
  · intro hn
    exact ⟨by omega, hn, by simp⟩

/-- The map is saved whenever the steps of a file come to store a cluster. -/
theorem saved_fileSteps {x : Contents} (hsaved : x.cluster mapCluster = x.map.encode)
    {data : Payload} {k : Nat} {clusters : List UInt32} (hdata : ∀ c ∈ clusters, isData c = true)
    {done rest : List Step} {c : UInt32} {bytes : Cluster}
    (hdone : fileSteps data k clusters = done ++ .store c bytes :: rest) :
    (x.applyAll done).cluster mapCluster = (x.applyAll done).map.encode := by
  induction clusters generalizing x k done with
  | nil => simp [fileSteps] at hdone
  | cons d clusters ih =>
    obtain ⟨hd, hclusters⟩ := List.forall_mem_cons.mp hdata
    simp only [fileSteps] at hdone
    rcases done with _ | ⟨first, _ | ⟨second, _ | ⟨third, done⟩⟩⟩
    all_goals simp only [List.cons_append, List.nil_append, List.cons.injEq] at hdone
    · cases hdone.1
    · cases hdone.2.1
    · obtain ⟨rfl, rfl, -⟩ := hdone
      exact Contents.cluster_saveMap_self _
    · obtain ⟨rfl, rfl, rfl, hdone⟩ := hdone
      simp only [Contents.applyAll_cons]
      refine ih ?_ hclusters hdone
      simp only [Contents.apply]
      rw [Contents.cluster_store_of_ne _ _ (isData_ne_mapCluster hd).symm]
      exact Contents.cluster_saveMap_self _

/-- The map is saved whenever a write comes to store what its entry refers to. -/
theorem saved_contentSteps {x : Contents} (hsaved : x.cluster mapCluster = x.map.encode)
    {table : Directory} {name : ShortName} {data : Payload} {p : Placement}
    (hplace : place x.map table name data.size = .ok p) {done rest : List Step} {c : UInt32}
    {bytes : Cluster} (hdone : contentSteps name data p = done ++ .store c bytes :: rest) :
    (x.applyAll done).cluster mapCluster = (x.applyAll done).map.encode := by
  have hfree := (placement_clusters hplace).2.2.1
  unfold contentSteps at hdone
  split at hdone
  · -- a directory stores its table before anything else
    obtain rfl : done = [] := by
      simp only [directorySteps] at hdone
      rcases done with _ | ⟨first, _ | ⟨second, _ | ⟨third, done⟩⟩⟩
      · rfl
      · simp at hdone
      · simp at hdone
      · simp at hdone
    exact hsaved
  · exact saved_fileSteps hsaved (fun c hc => (hfree c hc).1) hdone

end Volume

namespace Contents
open Volume

/-- Whether the directories and all clusters of what they hold have a property. -/
def Confined (x : Contents) (directories : Finset UInt32) (P : UInt32 → Prop) : Prop :=
  ∀ q ∈ directories, P q ∧
    ∀ i, (x.child q i).isUsed = true → ∀ c ∈ x.map.chain (x.child q i).cluster, P c

variable {x y : Contents} {directories files : Finset UInt32} {P : UInt32 → Prop}
  {parent : UInt32} {name : ShortName} {data : Payload} {p : Placement} {i : Fin 62}

theorem Confined.of_agreeOff (hx : x.Confined directories P) (h : x.Structured directories files)
    {Q : UInt32 → Prop} (hagree : AgreeOff Q x y)
    (hfree : ∀ c, Q c → isData c = true ∧ x.map.get? c = some unused) :
    y.Confined directories P := by
  intro q hq
  refine ⟨(hx q hq).1, fun i hused c hc => ?_⟩
  rw [h.child_of_agreeOff hagree hfree hq] at hused hc
  rw [h.chain_eq hq hused (h.get?_of_agreeOff hagree hfree hq hused)] at hc
  exact (hx q hq).2 i hused c hc

theorem Confined.setEntry (hx : x.Confined directories P) (parent : UInt32) (i : Fin 62) {e : Entry}
    (he : e.isUsed = true → ∀ c ∈ x.map.chain e.cluster, P c) :
    (x.setEntry parent i e).Confined directories P := by
  intro q hq
  refine ⟨(hx q hq).1, fun j hused c hc => ?_⟩
  rw [child_setEntry] at hused hc
  split_ifs at hused hc
  · exact he hused c hc
  · exact (hx q hq).2 j hused c hc

/-- A write adds to what a directory holds the clusters that it takes. -/
theorem Confined.write (hx : x.Confined directories P) (h : x.Structured directories files)
    (hparent : parent ∈ directories)
    (hplace : place x.map (x.table parent) name data.size = .ok p) (hp : ∀ c ∈ p.clusters, P c) :
    (x.applyAll (writeSteps parent (x.table parent) name data p)).Confined
      (directories ∪ newDirectories data p) P := by
  have hfree := (placement_clusters hplace).2.2.1
  have hstored := stored_contentSteps hplace
  have hchain := hstored.chain_eq hplace
  rw [h.applyAll_writeSteps hparent hplace]
  generalize x.applyAll (contentSteps name data p) = y at hstored hchain ⊢
  refine Confined.setEntry (fun q hq => ?_) parent p.index fun _ c hc => ?_
  · rcases Finset.mem_union.mp hq with hq | hq
    · exact hx.of_agreeOff h hstored.agree hfree q hq
    · obtain ⟨hsize, rfl⟩ := mem_newDirectories.mp hq
      obtain ⟨hclusters, hend, hcluster⟩ := hstored.directory hsize
      have hfirst : p.first ∈ p.clusters := by simp [hclusters]
      refine ⟨hp _ hfirst, fun i hused => ?_⟩
      rw [(accepts_of_create (hfree _ hfirst).1 hend hcluster).2 i] at hused
      contradiction
  · rw [newEntry, Entry.cluster_create, hchain] at hc
    exact hp c hc

/-- A delete leaves the chains of the other children. -/
theorem Confined.delete (hx : x.Confined directories P) (h : x.Structured directories files)
    (hparent : parent ∈ directories) (hused : (x.child parent i).isUsed = true) :
    ((x.withMap (x.map.freeChain (x.child parent i).cluster).1).applyAll
      (x.deleteSteps parent i)).Confined
        (directories.filter (· ∉ x.map.chain (x.child parent i).cluster)) P := by
  obtain ⟨hlinked, hnodup, -⟩ := h.extent hparent hused
  have hentry := get?_freeChain_of_linked hlinked hnodup
  have hsteps : (x.withMap (x.map.freeChain (x.child parent i).cluster).1).applyAll
      (x.deleteSteps parent i) = ((x.setEntry parent i .empty).withMap
        (x.map.freeChain (x.child parent i).cluster).1).saveMap := rfl
  rw [hsteps]
  generalize (x.map.freeChain (x.child parent i).cluster).1 = m at hentry ⊢
  intro q hq
  have hq := (Finset.mem_filter.mp hq).1
  refine ⟨(hx q hq).1, fun j hj c hc => ?_⟩
  have hchild : (((x.setEntry parent i .empty).withMap m).saveMap).child q j =
      (x.setEntry parent i .empty).child q j := by
    simp only [child, table_release _ m (h.ne_mapCluster hq)]
  rw [hchild, child_setEntry] at hj hc
  rw [map_saveMap, map_withMap] at hc
  split_ifs at hj hc with hsame
  · contradiction
  · -- no cluster of another child was released
    have hkept : ∀ d ∈ x.map.chain (x.child q j).cluster, m.get? d = x.map.get? d := by
      intro d hd
      rw [hentry, if_neg fun hmem => hsame (h.owner q hq parent hparent j i d hj hused hd hmem)]
    rw [h.chain_eq hq hj hkept] at hc
    exact (hx q hq).2 j hj c hc

end Contents

namespace Session
open Contents Volume

variable {D : Type} [BlockDevice D] {S : Storage D} {n : Nat} {d : D} {s t : Session D}
  {a : Action} {parent : UInt32}

/-- A session on a working device of `n` sectors on which its directories lie with all that they
hold. Clusters that were taken by a write that failed count as those of a file. -/
structure Contained (S : Storage D) (n : Nat) (s : Session D) : Prop where
  working : S.Working n s.volume.disk
  structured : ∃ files, (S.contents s.volume).Structured s.directories files
  confined : (S.contents s.volume).Confined s.directories (OnDevice n)

/-- Whether the parent of an action is one of the directories. -/
def Addresses (s : Session D) (a : Action) : Prop :=
  ∀ parent, a.parent? = some parent → parent ∈ s.directories

/-- Whether an action left a session as it was; the device may count what was read. -/
def Unmoved (S : Storage D) (s t : Session D) : Prop :=
  ∃ d, S.Kept s.volume.disk d ∧ t = { s with volume := ⟨d, s.volume.map⟩ }

/-- Whether an action is a write that passes every check and takes more clusters than the device has
free. -/
def Overruns (S : Storage D) (n : Nat) (s : Session D) : Action → Prop
  | .write parent name data => ¬ (S.contents s.volume).Holds parent name ∧
      ¬ (S.contents s.volume).Full parent ∧ ¬ s.volume.map.Crowded data.size ∧
      s.volume.map.freeOn n < requiredClusters data.size
  | _ => False

/-- A device is formatted if it has the first three clusters. -/
theorem fresh_working (hB : S.Bounded) (h : S.Working n d) :
    n < 12 ∧ (∃ e, fresh d = .error e) ∨
      12 ≤ n ∧ ∃ e, fresh d = .ok ⟨⟨e, formatted⟩, {rootCluster}, ∅⟩ ∧
        (⟨⟨e, formatted⟩, {rootCluster}, ∅⟩ : Session D).Contained S n ∧
        (S.contents ⟨e, formatted⟩).table rootCluster = Directory.create rootName rootCluster := by
  have hleft := h.writesLeft_ne
  by_cases hpos : 0 < S.sectors d
  · obtain ⟨c, hwrite, hready, hsectors, hc, hboot, -⟩ :=
      Storage.writeSignature_eq h.ready hpos hleft formatted
    rw [h.writes] at hc
    obtain ⟨w, outcome, done, rest, hperform, hdone, hw, hview, hfits, hend⟩ :=
      Storage.perform_working (v := ⟨c, formatted⟩) hB ⟨hready, hsectors.trans h.sectors, hc⟩
        formatSteps
    cases hend with
    | past hpast =>
      have hshort := mt fits_formatSteps.mpr fun hall => hpast (hall _ (hdone ▸ by simp))
      refine .inl ⟨by omega, .outOfRange, ?_⟩
      simp only [fresh, format, hwrite, hperform]
      rfl
    | whole =>
      rw [List.append_nil] at hdone
      subst hdone
      have hcontents := Storage.contents_of_view (v := ⟨c, formatted⟩)
        ⟨hready, hsectors.trans h.sectors, hc⟩ hview Storage.inData_formatSteps hfits
      obtain ⟨e, map⟩ := w
      obtain rfl : map = formatted := congrArg Contents.map hcontents
      obtain ⟨hkept, hmap, hroot⟩ := Storage.applyAll_formatSteps (S.contents ⟨c, formatted⟩)
      rw [← hcontents] at hkept hmap hroot
      have htable : (S.contents ⟨e, formatted⟩).table rootCluster =
          Directory.create rootName rootCluster := by
        rw [table, hroot, Directory.decode_encode]
      refine .inr ⟨fits_formatSteps.mp hfits, e, ?_, ⟨hw, ⟨∅, ?_⟩, fun q hq => ?_⟩, htable⟩
      · simp only [fresh, format, hwrite, hperform]
        rfl
      · exact structured_formatted (hkept.trans hboot) rfl hmap hroot
      · obtain rfl := Finset.mem_singleton.mp hq
        refine ⟨fits_formatSteps.mp hfits, fun i hused => ?_⟩
        rw [child, htable, Directory.get_children_create, Entry.isUsed_empty] at hused
        contradiction
  · have hsector : BootSector.signature.toArray.size = 1 * sectorSize := by simp
    have hpast : S.sectors d < bootSector + 1 := by omega
    obtain ⟨c, hwrite, -⟩ := hB.write_past h.ready hpast hsector hleft
    refine .inl ⟨by rw [← h.sectors]; omega, .outOfRange, ?_⟩
    simp only [fresh, format, hwrite]
    rfl

theorem step_of_write_ok {name : ShortName} {data : Payload} {p : Placement}
    (h : (s.volume.write parent name data).outcome = .ok p.first) :
    ∃ t, s.step (.write parent name data) = .ok t ∧
      t.volume = (s.volume.write parent name data).volume ∧
      t.directories = s.directories ∪ newDirectories data p := by
  simp only [step, h]
  unfold newDirectories
  split_ifs
  · exact ⟨_, rfl, rfl, by rw [Finset.insert_eq, Finset.union_comm]⟩
  · exact ⟨_, rfl, rfl, (Finset.union_empty _).symm⟩

theorem map_ne_error {α β ε : Type} {f : α → β} {x : Except ε α} {e : ε} (h : x ≠ .error e) :
    x.map f ≠ .error e := by
  cases x with
  | ok value => nofun
  | error cause => exact fun he => h (congrArg Except.error (Except.error.inj he))

namespace Contained

theorem has (hs : s.Contained S n) (hparent : parent ∈ s.directories) :
    S.Has s.volume.disk parent :=
  hs.working.has_iff.mpr (hs.confined parent hparent).1

theorem has_mapCluster (hs : s.Contained S n) : S.Has s.volume.disk mapCluster := by
  obtain ⟨files, hx⟩ := hs.structured
  rw [hs.working.has_iff]
  exact fits_mapCluster (by decide) (hs.confined rootCluster hx.root_mem).1

theorem of_unmoved (hs : s.Contained S n) (h : Unmoved S s t) : t.Contained S n := by
  obtain ⟨d, hd, rfl⟩ := h
  refine ⟨hs.working.kept hd, ?_, ?_⟩
  · rw [hd.contents]
    exact hs.structured
  · rw [hd.contents]
    exact hs.confined

/-- What a name leads to lies on the device. -/
theorem has_of_lookup (hs : s.Contained S n) (hparent : parent ∈ s.directories) {name : ShortName}
    {e : Entry} (hlookup : (S.contents s.volume).lookup parent name = .ok e) :
    ∀ c ∈ s.volume.map.chain e.cluster, S.Has s.volume.disk c := by
  obtain ⟨-, i, rfl, hused, -⟩ := exists_child_of_lookup hlookup
  exact fun c hc => hs.working.has_iff.mpr ((hs.confined parent hparent).2 i hused c hc)

theorem has_of_directory (hs : s.Contained S n) (hparent : parent ∈ s.directories)
    {name : ShortName} {e : Entry} (hlookup : (S.contents s.volume).lookup parent name = .ok e)
    (hdir : e.isDirectory = true) : S.Has s.volume.disk e.cluster := by
  obtain ⟨files, hx⟩ := hs.structured
  obtain ⟨-, i, rfl, hused, -⟩ := exists_child_of_lookup hlookup
  exact hs.has ((hx.sound parent hparent i hused).directory hdir).2.1

/-- Looking changes nothing, and meets no end of the device. -/
theorem look (hs : s.Contained S n) (ha : s.Addresses a) (hlook : a.changes = false) :
    ∃ t, s.step a = .ok t ∧ Unmoved S s t ∧ ∀ e, s.volume.outcome a ≠ .error (.device e) := by
  have hready := hs.working.ready
  cases a with
  | write | delete => cases hlook
  | read parent name capacity =>
    have hparent := ha parent rfl
    have hchain : ∀ e, (S.contents s.volume).lookup parent name = .ok e → e.isDirectory = false →
        ∀ c ∈ s.volume.map.chain e.cluster, S.Has s.volume.disk c :=
      fun _ hlookup _ => hs.has_of_lookup hparent hlookup
    obtain ⟨d, hvolume, hread, hd⟩ :=
      Storage.readFile_kept hready (fun _ => hs.has hparent) hchain capacity
    refine ⟨_, by simp only [step, hvolume], ⟨d, hd, rfl⟩, fun e => ?_⟩
    have houtcome : (s.volume.read parent name capacity).outcome = _ := congrArg Prod.fst hread
    simp only [Volume.outcome, Reply.discard, houtcome]
    exact map_ne_error (readFile_ne_device e)
  | readDirectory parent name capacity =>
    have hparent := ha parent rfl
    have hrange : clusterSize ≤ capacity → ∀ e, (S.contents s.volume).lookup parent name = .ok e →
        e.isDirectory = true → S.Has s.volume.disk e.cluster :=
      fun _ _ hlookup => hs.has_of_directory hparent hlookup
    obtain ⟨d, hvolume, hread, hd⟩ :=
      Storage.readTable_kept hready (fun _ => hs.has hparent) hrange
    refine ⟨_, by simp only [step, hvolume], ⟨d, hd, rfl⟩, fun e => ?_⟩
    have houtcome : (s.volume.readDirectory parent name capacity).outcome = _ :=
      congrArg Prod.fst hread
    simp only [Volume.outcome, houtcome]
    exact readTable_ne_device e
  | stat parent name =>
    obtain ⟨d, hstat, hd⟩ := Storage.stat_kept hready (fun _ => hs.has (ha parent rfl)) name
    refine ⟨_, by simp only [step, hstat], ⟨d, hd, rfl⟩, fun e => ?_⟩
    simp only [Volume.outcome, hstat]
    exact map_ne_error (lookup_ne_device e)
  | remount =>
    obtain ⟨files, hx⟩ := hs.structured
    obtain ⟨d, hmount, hd⟩ := Storage.mount_kept hready hs.has_mapCluster hx.signed
    rw [reload_eq hx.saved] at hmount
    refine ⟨_, ?_, ⟨d, hd, rfl⟩, fun e => ?_⟩
    · simp only [step, hmount, Mounting.volume]
      rfl
    · simp [Volume.outcome, hmount, Except.map, Except.mapError]

/-- A delete finds all that it reads and stores on the device. -/
theorem delete (hB : S.Bounded) (hs : s.Contained S n) (hparent : parent ∈ s.directories)
    (name : ShortName) :
    ∃ t, s.step (.delete parent name) = .ok t ∧ t.Contained S n ∧
      ∀ e, (s.volume.delete parent name).outcome = .error e →
        Unmoved S s t ∧ ∀ cause, e ≠ .device cause := by
  obtain ⟨files, hx⟩ := hs.structured
  have hrange : ∀ i, (S.contents s.volume).locate parent name = .ok i →
      ((S.contents s.volume).child parent i).isDirectory = true →
        S.Has s.volume.disk ((S.contents s.volume).child parent i).cluster :=
    fun i hlocate => hs.has_of_directory hparent (exists_child_of_locate hlocate).2.2.2
  rcases Storage.delete_working hB hs.working (fun _ => hs.has hparent) hrange with
    ⟨e, d, hdelete, hd, herror⟩ |
    ⟨i, hlocate, houtcome, hw, -, hcontents⟩
  · have hnone : s.volume.map.taken s.volume.map = ∅ := Finset.sdiff_self _
    have hunmoved : Unmoved S s { s with volume := ⟨d, s.volume.map⟩ } := ⟨d, hd, rfl⟩
    refine ⟨_, ?_, hs.of_unmoved hunmoved, fun cause hcause => ⟨hunmoved, ?_⟩⟩
    · simp only [step, hdelete, refuse, hnone, Finset.sdiff_empty]
    · rw [hdelete] at hcause
      rintro device rfl
      obtain rfl : e = .device device := Except.error.inj hcause
      exact locate_ne_device device herror
  · have hused := (exists_child_of_locate hlocate).2.1
    obtain ⟨hlinked, hnodup, -⟩ := hx.extent hparent hused
    rw [Storage.map_contents] at hlinked hnodup
    have hmap : (s.volume.delete parent name).volume.map =
        (s.volume.map.freeChain ((S.contents s.volume).child parent i).cluster).1 :=
      congrArg Contents.map hcontents
    refine ⟨_, rfl, ⟨hw, ?_, ?_⟩, fun e he => ?_⟩
    · rw [hcontents, sdiff_released hlinked hnodup hmap]
      exact ⟨_, hx.delete hparent hused⟩
    · rw [hcontents, sdiff_released hlinked hnodup hmap]
      exact hs.confined.delete hx hparent hused
    · rw [houtcome] at he
      cases he

/-- A step of a write that lies past the end stores a cluster that the write takes. -/
theorem stopped_at_store (hs : s.Contained S n) (hparent : parent ∈ s.directories)
    {name : ShortName} {data : Payload} {p : Placement} {x : Contents}
    (hplace : place x.map (x.table parent) name data.size = .ok p) {done rest : List Step}
    {step : Step} (hdone : writeSteps parent (x.table parent) name data p = done ++ step :: rest)
    (hpast : ¬ step.Fits n) :
    ∃ c bytes, c ∈ p.clusters ∧ step = .store c bytes ∧
      contentSteps name data p = done ++ step :: rest.dropLast := by
  have hcontent := contentSteps_eq_of_append hdone (by simp)
  have hrest : rest ≠ [] := by
    -- the last step stores the parent table, and the parent lies on the device
    rintro rfl
    rw [List.dropLast_singleton, List.append_nil] at hcontent
    rw [writeSteps_eq, hcontent, List.append_cancel_left_eq, List.cons.injEq] at hdone
    exact hpast (hdone.1 ▸ fits_store.mpr (hs.confined parent hparent).1)
  rw [List.dropLast_cons_of_ne_nil hrest] at hcontent
  have hwithin := within_contentSteps hplace step (hcontent ▸ by simp)
  cases step with
  | link c next => exact absurd (fun _ => nofun) hpast
  | saveMap => exact absurd (fits_saveMap.mpr (hs.working.has_iff.mp hs.has_mapCluster)) hpast
  | store c bytes => exact ⟨c, bytes, hwithin, rfl, hcontent⟩

/-- A write takes its clusters from the lowest free ones, and stops at the first that the device
does not have; then the map is saved and no entry was made. -/
theorem write (hB : S.Bounded) (hs : s.Contained S n) (hparent : parent ∈ s.directories)
    (name : ShortName) (data : Payload) :
    ∃ t, s.step (.write parent name data) = .ok t ∧ t.Contained S n ∧
      ((∃ e, (S.contents s.volume).placement parent name data.size = .error e ∧
          (s.volume.write parent name data).outcome = .error e ∧ Unmoved S s t) ∨
        ∃ p, (S.contents s.volume).placement parent name data.size = .ok p ∧
          ((∀ c ∈ p.clusters, OnDevice n c) ∧
              (s.volume.write parent name data).outcome = .ok p.first ∨
            ¬ (∀ c ∈ p.clusters, OnDevice n c) ∧
              (s.volume.write parent name data).outcome = .error (.device .outOfRange))) := by
  obtain ⟨files, hx⟩ := hs.structured
  rcases Storage.write_working hB hs.working (fun _ => hs.has hparent) name data with
    ⟨e, d, hwrite, hd, herror⟩ |
    ⟨p, outcome, done, rest, hplacement, hdone, hw, hview, hfits, hend, houtcome⟩
  · have hunmoved : Unmoved S s { s with volume := ⟨d, s.volume.map⟩ } := ⟨d, hd, rfl⟩
    refine ⟨_, ?_, hs.of_unmoved hunmoved, .inl ⟨e, herror, ?_, hunmoved⟩⟩
    · simp only [step, hwrite, refuse]
    · rw [hwrite]
      rfl
  · obtain ⟨haccepts, hplace⟩ := placement_eq_ok_iff.mp hplacement
    have hdata := inData_writeSteps hplace (isData_of_accepts haccepts)
    have hcontents := Storage.contents_of_view hs.working hview
      (fun step hstep => hdata step (hdone ▸ List.mem_append_left rest hstep)) hfits
    cases hend with
    | whole =>
      rw [List.append_nil] at hdone
      subst hdone
      have hclusters : ∀ c ∈ p.clusters, OnDevice n c := by
        intro c hc
        obtain ⟨bytes, hstore⟩ := exists_store_writeSteps hplace parent hc
        exact fits_store.mp (hfits _ hstore)
      obtain ⟨t, hstep, hvolume, hdirectories⟩ := step_of_write_ok houtcome
      refine ⟨t, hstep, ⟨hvolume ▸ hw, ?_, ?_⟩, .inr ⟨p, hplacement, .inl ⟨hclusters, houtcome⟩⟩⟩
      · rw [hvolume, hcontents, hdirectories]
        exact ⟨_, hx.write hparent hplace⟩
      · rw [hvolume, hcontents, hdirectories]
        exact hs.confined.write hx hparent hplace hclusters
    | @past step rest hpast =>
      obtain ⟨c, bytes, hc, rfl, hcontent⟩ := hs.stopped_at_store hparent hplace hdone hpast
      have hsaved := saved_contentSteps hx.saved hplace hcontent
      obtain ⟨leaked, -, hstructured, hagree⟩ := hx.write_stopped hplace hcontent
      rw [reload_eq hsaved] at hstructured hagree
      refine ⟨{ s with volume := (s.volume.write parent name data).volume }, ?_,
        ⟨hw, ?_, ?_⟩,
        .inr ⟨p, hplacement, .inr ⟨fun hall => ?_, houtcome⟩⟩⟩
      · have houtcome : (s.volume.write parent name data).outcome =
            .error (.device .outOfRange) := houtcome
        simp only [Session.step, houtcome]
      · rw [hcontents]
        exact ⟨_, hstructured⟩
      · rw [hcontents]
        exact hs.confined.of_agreeOff hx hagree (placement_clusters hplace).2.2.1
      · exact hpast (fits_store.mpr (hall c hc))

/-- A write is refused for want of space by the map alone, and by the device if it overruns it. -/
theorem outcome_write_iff (hB : S.Bounded) (hs : s.Contained S n) (hparent : parent ∈ s.directories)
    (name : ShortName) (data : Payload) :
    (∀ e, s.volume.outcome (.write parent name data) = .error (.device e) ↔
      e = .outOfRange ∧ s.Overruns S n (.write parent name data)) ∧
    (s.volume.outcome (.write parent name data) = .error .insufficientSpace ↔
      ¬ (S.contents s.volume).Holds parent name ∧ ¬ (S.contents s.volume).Full parent ∧
        s.volume.map.Crowded data.size) := by
  obtain ⟨files, hx⟩ := hs.structured
  have hopens := accepts_iff_opens.mp (hx.accepts parent hparent)
  obtain ⟨-, -, -, hspace, hplaced⟩ := (S.contents s.volume).placement_iff parent name data.size
  rw [Storage.map_contents] at hspace hplaced
  simp only [hopens, true_and] at hspace hplaced
  unfold Overruns
  rw [← hspace]
  obtain ⟨t, -, -, ⟨cause, hplacement, houtcome, -⟩ | ⟨p, hplacement, houtcome⟩⟩ :=
    hs.write hB hparent name data
  · have hnone : ∀ e, cause ≠ .device e := by
      rintro e rfl
      exact placement_ne_device e hplacement
    simp only [Volume.outcome, Reply.discard, houtcome, hplacement, Except.map, Except.error.injEq]
    simp only [hplacement, reduceCtorEq, exists_false, false_iff] at hplaced
    refine ⟨fun e => iff_of_false (hnone e) ?_, trivial⟩
    rintro ⟨-, hholds, hfull, hcrowded, -⟩
    exact hplaced ⟨hholds, hfull, hcrowded⟩
  · obtain ⟨hholds, hfull, hcrowded⟩ := hplaced.mp ⟨p, hplacement⟩
    have hfree := (place_spec (placement_eq_ok_iff.mp hplacement).2).2.2.2
    rw [forall_onDevice_iff hfree, Storage.map_contents] at houtcome
    rcases houtcome with ⟨hroom, houtcome⟩ | ⟨hshort, houtcome⟩
    · simp only [Volume.outcome, Reply.discard, houtcome, hplacement, Except.map, reduceCtorEq,
        false_iff, and_true]
      rintro e ⟨-, -, -, -, hfew⟩
      omega
    · simp only [Volume.outcome, Reply.discard, houtcome, hplacement, Except.map, reduceCtorEq,
        and_true, Except.error.injEq, FsError.device.injEq]
      refine fun e => ⟨fun he => ?_, fun he => he.1.symm⟩
      exact ⟨he.symm, hholds, hfull, hcrowded, Nat.not_le.mp hshort⟩

/-- What an action on a directory does. -/
theorem step (hB : S.Bounded) (hs : s.Contained S n) (ha : s.Addresses a) :
    ∃ t, s.step a = .ok t ∧ t.Contained S n ∧
      (∀ e, s.volume.outcome a = .error (.device e) ↔ e = .outOfRange ∧ s.Overruns S n a) ∧
      ∀ e, s.volume.outcome a = .error e → (∀ cause, e ≠ .device cause) → Unmoved S s t := by
  cases hchanges : a.changes with
  | false =>
    obtain ⟨t, hstep, hunmoved, hanswer⟩ := hs.look ha hchanges
    refine ⟨t, hstep, hs.of_unmoved hunmoved, fun e => iff_of_false (hanswer e) ?_,
      fun _ _ _ => hunmoved⟩
    rintro ⟨-, hoverruns⟩
    cases a with
    | write | delete => cases hchanges
    | read | readDirectory | stat | remount => exact hoverruns
  | true =>
    cases a with
    | read | readDirectory | stat | remount => cases hchanges
    | write parent name data =>
      have hparent := ha parent rfl
      obtain ⟨t, hstep, ht, hanswer⟩ := hs.write hB hparent name data
      refine ⟨t, hstep, ht, (hs.outcome_write_iff hB hparent name data).1, fun e he hne => ?_⟩
      rcases hanswer with ⟨-, -, -, hunmoved⟩ | ⟨p, -, ⟨-, houtcome⟩ | ⟨-, houtcome⟩⟩
      · exact hunmoved
      · simp only [Volume.outcome, Reply.discard, houtcome] at he
        cases he
      · simp only [Volume.outcome, Reply.discard, houtcome] at he
        exact absurd (Except.error.inj he).symm (hne .outOfRange)
    | delete parent name =>
      obtain ⟨t, hstep, ht, hanswer⟩ := hs.delete hB (ha parent rfl) name
      refine ⟨t, hstep, ht, fun e => iff_of_false (fun he => (hanswer _ he).2 e rfl) ?_,
        fun e he _ => (hanswer e he).1⟩
      rintro ⟨-, hoverruns⟩
      exact hoverruns

end Contained

/-- A device of 512 clusters has room for all that the map counts as free. -/
theorem not_overruns (hn : 2048 ≤ n) : ¬ s.Overruns S n a := by
  cases a with
  | write parent name data =>
    rintro ⟨-, -, hcrowded, hfew⟩
    rw [crowded_iff, not_or] at hcrowded
    rw [freeOn_eq_freeCount _ hn] at hfew
    omega
  | read | readDirectory | delete | stat | remount => exact id

theorem contained_of_run (hB : S.Bounded) (h : S.Working n d) {s₀ : Session D}
    (hfresh : fresh d = .ok s₀) {actions : List Action}
    (hrun : Run (fun s a _ => s.Addresses a) s₀ actions s) : s.Contained S n := by
  rcases fresh_working hB h with ⟨-, e, herror⟩ | ⟨-, e, hok, hs, -⟩
  · rw [herror] at hfresh
    cases hfresh
  · obtain rfl := Except.ok.inj (hok.symm.trans hfresh)
    refine hrun.invariant hs fun ht hstep ha => ?_
    obtain ⟨u, hu, hcontained, -⟩ := ht.step hB ha
    obtain rfl := Except.ok.inj (hu.symm.trans hstep)
    exact hcontained

/-- On a device of any size, an action of a run fails on the device exactly if it is a write that
passes every check and takes more clusters than the device has free, which no write does on 512
clusters. Every other refusal changes nothing, and a write is refused for want of space exactly if
the map counts too few free clusters. -/
theorem device_error_iff_overruns (hB : S.Bounded) (h : S.Working n d) {s₀ : Session D}
    (hfresh : fresh d = .ok s₀) {actions : List Action}
    (hrun : Run (fun s a _ => s.Addresses a) s₀ actions s) (ha : s.Addresses a) :
    ∃ t, s.step a = .ok t ∧
      (∀ e, s.volume.outcome a = .error (.device e) ↔ e = .outOfRange ∧ s.Overruns S n a) ∧
      (2048 ≤ n → ¬ s.Overruns S n a) ∧
      (∀ e, s.volume.outcome a = .error e → (∀ cause, e ≠ .device cause) → Unmoved S s t) ∧
      ∀ parent name data, a = .write parent name data →
        (s.volume.outcome a = .error .insufficientSpace ↔
          ¬ (S.contents s.volume).Holds parent name ∧ ¬ (S.contents s.volume).Full parent ∧
            s.volume.map.Crowded data.size) := by
  have hs := contained_of_run hB h hfresh hrun
  obtain ⟨t, hstep, -, hdevice, hunmoved⟩ := hs.step hB ha
  refine ⟨t, hstep, hdevice, not_overruns, hunmoved, ?_⟩
  rintro parent name data rfl
  exact (hs.outcome_write_iff hB (ha parent rfl) name data).2

/-- A first write into the root of a device that lacks one of the clusters it is given. -/
theorem first_write_past (hB : S.Bounded) (h : S.Working n d) {s₀ : Session D}
    (hfresh : fresh d = .ok s₀) (name : ShortName) {data : Payload}
    (hsize : requiredClusters data.size ≤ 509) (hshort : n < 4 * (requiredClusters data.size + 3)) :
    s₀.Addresses (.write rootCluster name data) ∧
      s₀.volume.outcome (.write rootCluster name data) = .error (.device .outOfRange) := by
  rcases fresh_working hB h with ⟨-, e, herror⟩ | ⟨-, e, hok, hs, htable⟩
  · rw [herror] at hfresh
    cases hfresh
  · obtain rfl := Except.ok.inj (hok.symm.trans hfresh)
    have hroot := Finset.mem_singleton_self rootCluster
    obtain ⟨files, hx⟩ := hs.structured
    have hplace := place_formatted rootName name rootCluster hsize
    rw [← htable] at hplace
    have hplacement := placement_eq_ok_iff.mpr ⟨hx.accepts _ hroot, hplace⟩
    refine ⟨fun parent hparent => Option.some.inj hparent ▸ hroot, ?_⟩
    obtain ⟨t, -, -, ⟨cause, herror, -⟩ | ⟨p, hp, hanswer⟩⟩ := hs.write hB hroot name data
    · cases hplacement.symm.trans herror
    · obtain rfl := Except.ok.inj (hplacement.symm.trans hp)
      obtain ⟨-, houtcome⟩ := hanswer.resolve_left fun hok => by
        have hpos := requiredClusters_pos data.size
        have hlast : UInt32.ofNat (requiredClusters data.size + 2) ∈
            (List.range' 3 (requiredClusters data.size)).map UInt32.ofNat :=
          List.mem_map_of_mem (by rw [List.mem_range'_1]; omega)
        have hon := onDevice_iff.mp (hok.1 _ hlast)
        rw [UInt32.toNat_ofNat_of_lt' (by show _ < 4294967296; omega)] at hon
        omega
      simp only [Volume.outcome, Reply.discard, houtcome]
      rfl

/-- A device of three clusters is formatted, and has none for a file. -/
theorem first_file_past_end :
    ∃ s₀, fresh (MemoryDisk.create 3) = .ok s₀ ∧
      s₀.Addresses (.write rootCluster (.ofParts [65] []) (.ofArray #[7])) ∧
      s₀.volume.outcome (.write rootCluster (.ofParts [65] []) (.ofArray #[7])) =
        .error (.device .outOfRange) := by
  have h : MemoryDisk.storage.Working 12 (.create 3) := MemoryDisk.working_create 3
  rcases fresh_working MemoryDisk.bounded_storage h with ⟨hsmall, -⟩ | ⟨-, e, hfresh, -⟩
  · omega
  · exact ⟨_, hfresh,
      first_write_past MemoryDisk.bounded_storage h hfresh _ (by decide) (by decide)⟩

/-- A file of two clusters overruns a device that has one for it, and the device serves the next
request. -/
theorem stat_after_overrun :
    ∃ s₀ s, fresh (MemoryDisk.create 4) = .ok s₀ ∧
      s₀.Overruns MemoryDisk.storage 16 (.write rootCluster (.ofParts [65] []) ⟨3000, fun _ => 7⟩) ∧
      Run (fun s a _ => s.Addresses a) s₀
        [.write rootCluster (.ofParts [65] []) ⟨3000, fun _ => 7⟩] s ∧
      ∀ e, s.volume.outcome (.stat rootCluster (.ofParts [65] [])) ≠ .error (.device e) := by
  have hB := MemoryDisk.bounded_storage
  have h : MemoryDisk.storage.Working 16 (.create 4) := MemoryDisk.working_create 4
  rcases fresh_working hB h with ⟨hsmall, -⟩ | ⟨-, e, hfresh, -⟩
  · omega
  · have hsize : requiredClusters (⟨3000, fun _ => 7⟩ : Payload).size ≤ 509 := by decide
    obtain ⟨ha, houtcome⟩ := first_write_past hB h hfresh (.ofParts [65] []) hsize (by decide)
    obtain ⟨s, hstep, hdevice, -⟩ := device_error_iff_overruns hB h hfresh .nil ha
    have hrun : Run (fun s a _ => s.Addresses a) (⟨⟨e, formatted⟩, {rootCluster}, ∅⟩ : Session _)
        [.write rootCluster (.ofParts [65] []) ⟨3000, fun _ => 7⟩] s := Run.nil.snoc hstep ha
    obtain ⟨files, hx⟩ := (contained_of_run hB h hfresh hrun).structured
    have hroot : s.Addresses (.stat rootCluster (.ofParts [65] [])) :=
      fun parent hparent => Option.some.inj hparent ▸ hx.root_mem
    obtain ⟨t, -, hanswer, -⟩ := device_error_iff_overruns hB h hfresh hrun hroot
    exact ⟨_, s, hfresh, ((hdevice _).mp houtcome).2, hrun, fun e he => ((hanswer e).mp he).2⟩

end Session

end ClusterFs
