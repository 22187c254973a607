import ClusterFs.Proofs.FileData
import ClusterFs.Proofs.Invariant

/-!
The outcome of a write on any volume. The parent, the name, the slots and the space are checked in
this order, and the first check that fails names the refusal. A write that passes all of them takes
the lowest free clusters in increasing order and the lowest slot of its parent.
-/
namespace ClusterFs
open AllocationMap

/-- Whether data of so many bytes has no room: its size is no 32-bit number, or it takes more
clusters than are free. -/
def AllocationMap.Crowded (m : AllocationMap) (size : Nat) : Prop :=
  4294967295 < size ∨ m.freeCount < max 1 ((size + 2047) / 2048)

/-- The used entry of a file or a directory: it has this name, size and cluster, and the fields that
are not about them are zero. -/
structure Entry.Registers (e : Entry) (n : ShortName) (attributes : UInt8) (size : Nat)
    (c : UInt32) : Prop where
  name : e.name = n
  attributes : e.attributes = attributes
  used : e.userAttributes = 0xAA
  undelete : e.undelete = 0
  created : e.createTime = 0 ∧ e.createDate = 0
  accessed : e.accessDate = 0
  modified : e.modifiedTime = 0 ∧ e.modifiedDate = 0
  cluster : 65536 * e.clusterHigh.toNat + e.clusterLow.toNat = c.toNat
  size : e.size.toNat = size

theorem Entry.registers_create (name : ShortName) (kind : EntryKind) (size c : UInt32) :
    (create name kind size c).Registers name kind.attributes size.toNat c where
  name := rfl
  attributes := rfl
  used := rfl
  undelete := rfl
  created := ⟨rfl, rfl⟩
  accessed := rfl
  modified := ⟨rfl, rfl⟩
  cluster := cluster_eq_iff.mp (cluster_create ..)
  size := rfl

namespace Contents
open Volume

/-- Whether a cluster may be a parent: a data cluster with the end mark whose table describes it. -/
structure Opens (x : Contents) (c : UInt32) : Prop where
  data : 2 ≤ c.toNat ∧ c.toNat < 512
  ends : x.map.entries[c.toNat]? = some 0x0FFFFFFF
  used : (x.table c).self.userAttributes = 0xAA
  directory : (x.table c).self.attributes &&& 0x10 ≠ 0
  own : 65536 * (x.table c).self.clusterHigh.toNat + (x.table c).self.clusterLow.toNat = c.toNat

/-- Whether a used child of a cluster has the name. -/
def Holds (x : Contents) (parent : UInt32) (name : ShortName) : Prop :=
  ∃ i, (x.child parent i).userAttributes = 0xAA ∧ (x.child parent i).name = name

def Full (x : Contents) (parent : UInt32) : Prop :=
  ∀ i, (x.child parent i).userAttributes = 0xAA

/-- The contents `y` after a write on `x` that took the slot `i` of its parent and the given
clusters. -/
structure Written (x y : Contents) (parent : UInt32) (name : ShortName) (data : Payload)
    (i : Fin 62) (first : UInt32) (clusters : List UInt32) : Prop where
  lowest : x.map.Lowest (max 1 ((data.size + 2047) / 2048)) clusters
  head : clusters.head? = some first
  chain : y.map.chain first = clusters
  saved : AllocationMap.decode (y.cluster 1) = y.map
  file : data.size ≠ 0 → y.bytes clusters =
    data.toArray ++ Array.replicate (clusters.length * 2048 - data.size) 0
  directory : data.size = 0 → (y.table first).self.Registers name 0x10 0 first
  childless : data.size = 0 → ∀ (j : Nat) (hj : j < 2048), 32 ≤ j → (y.cluster first)[j] = 0
  vacant : (x.child parent i).userAttributes ≠ 0xAA
  slots : ∀ j < i, (x.child parent j).userAttributes = 0xAA
  entry : (y.child parent i).Registers name (if data.size = 0 then 0x10 else 0) data.size first

variable {x : Contents} {parent : UInt32} {name : ShortName} {size : Nat} {data : Payload}
  {p : Placement}

theorem accepts_iff_opens : x.accepts parent = true ↔ x.Opens parent := by
  rw [accepts, Bool.and_eq_true, isTerminal_iff, isData_iff, Directory.describes_iff]
  constructor
  · rintro ⟨⟨hdata, hends⟩, hused, hdirectory, hown⟩
    exact ⟨hdata, hends, hused, hdirectory, hown⟩
  · rintro ⟨hdata, hends, hused, hdirectory, hown⟩
    exact ⟨⟨hdata, hends⟩, hused, hdirectory, hown⟩

theorem find?_eq_none_iff_not_holds :
    (x.table parent).find? name = none ↔ ¬ x.Holds parent name := by
  rw [Directory.find?_eq_none_iff]
  unfold Holds child
  simp only [Entry.isUsed_iff, not_exists, not_and, ne_eq]

theorem vacancy?_eq_none_iff_full : (x.table parent).vacancy? = none ↔ x.Full parent := by
  rw [Directory.vacancy?_eq_none_iff]
  unfold Full child
  simp only [Entry.isUsed_iff]

theorem crowded_iff (m : AllocationMap) :
    m.Crowded size ↔ wordLimit ≤ size ∨ m.freeCount < requiredClusters size := by
  rw [requiredClusters_eq_max]
  exact Iff.rfl

/-! ### The checks in their order -/

theorem placement_of_not_opens (h : ¬ x.Opens parent) :
    x.placement parent name size = .error .invalidParent := by
  rw [← accepts_iff_opens, Bool.not_eq_true] at h
  simp only [placement, directory_of_not_accepts h]

theorem placement_of_opens (h : x.Opens parent) :
    x.placement parent name size = place x.map (x.table parent) name size := by
  simp only [placement, directory_of_accepts (accepts_iff_opens.mpr h)]

theorem placement_of_holds (h : x.Opens parent) (hholds : x.Holds parent name) :
    x.placement parent name size = .error .alreadyExists := by
  have hfound : (x.table parent).find? name ≠ none :=
    mt find?_eq_none_iff_not_holds.mp (not_not_intro hholds)
  rw [placement_of_opens h, place, if_pos (Option.isSome_iff_ne_none.mpr hfound)]

theorem placement_of_full (h : x.Opens parent) (hholds : ¬ x.Holds parent name)
    (hfull : x.Full parent) : x.placement parent name size = .error .directoryFull := by
  have hfind := find?_eq_none_iff_not_holds.mpr hholds
  have hvacancy := vacancy?_eq_none_iff_full.mpr hfull
  rw [placement_of_opens h]
  simp only [place, hfind, hvacancy, Option.isSome_none, Bool.false_eq_true, if_false]

theorem exists_vacancy? (hfull : ¬ x.Full parent) : ∃ i, (x.table parent).vacancy? = some i :=
  Option.ne_none_iff_exists'.mp (mt vacancy?_eq_none_iff_full.mp hfull)

theorem placement_of_crowded (h : x.Opens parent) (hholds : ¬ x.Holds parent name)
    (hfull : ¬ x.Full parent) (hcrowded : x.map.Crowded size) :
    x.placement parent name size = .error .insufficientSpace := by
  have hfind := find?_eq_none_iff_not_holds.mpr hholds
  obtain ⟨i, hvacancy⟩ := exists_vacancy? hfull
  rw [placement_of_opens h]
  simp only [place, hfind, hvacancy, Option.isSome_none, Bool.false_eq_true, if_false]
  split_ifs with hword
  · rfl
  · have hfew := ((crowded_iff _).mp hcrowded).resolve_left hword
    rw [findFree_eq_error_iff.mpr hfew]

theorem exists_placement (h : x.Opens parent) (hholds : ¬ x.Holds parent name)
    (hfull : ¬ x.Full parent) (hcrowded : ¬ x.map.Crowded size) :
    ∃ p, x.placement parent name size = .ok p := by
  have hfind := find?_eq_none_iff_not_holds.mpr hholds
  obtain ⟨i, hvacancy⟩ := exists_vacancy? hfull
  rw [crowded_iff, not_or] at hcrowded
  have hfree := findFree_eq_ok_iff.mpr ⟨Nat.not_lt.mp hcrowded.2, rfl⟩
  refine ⟨⟨i, x.map.freeClusters.take (requiredClusters size)⟩, ?_⟩
  rw [placement_of_opens h]
  simp only [place, hfind, hvacancy, hfree, if_neg hcrowded.1, Option.isSome_none,
    Bool.false_eq_true, if_false]

/-- Each outcome of a placement by the first check that fails. -/
theorem placement_iff (x : Contents) (parent : UInt32) (name : ShortName) (size : Nat) :
    (x.placement parent name size = .error .invalidParent ↔ ¬ x.Opens parent) ∧
    (x.placement parent name size = .error .alreadyExists ↔
      x.Opens parent ∧ x.Holds parent name) ∧
    (x.placement parent name size = .error .directoryFull ↔
      x.Opens parent ∧ ¬ x.Holds parent name ∧ x.Full parent) ∧
    (x.placement parent name size = .error .insufficientSpace ↔
      x.Opens parent ∧ ¬ x.Holds parent name ∧ ¬ x.Full parent ∧ x.map.Crowded size) ∧
    ((∃ p, x.placement parent name size = .ok p) ↔
      x.Opens parent ∧ ¬ x.Holds parent name ∧ ¬ x.Full parent ∧ ¬ x.map.Crowded size) := by
  by_cases hopens : x.Opens parent
  · by_cases hholds : x.Holds parent name
    · simp [placement_of_holds hopens hholds, hopens, hholds]
    · by_cases hfull : x.Full parent
      · simp [placement_of_full hopens hholds hfull, hopens, hholds, hfull]
      · by_cases hcrowded : x.map.Crowded size
        · simp [placement_of_crowded hopens hholds hfull hcrowded, hopens, hholds, hfull, hcrowded]
        · obtain ⟨p, hp⟩ := exists_placement hopens hholds hfull hcrowded
          simp [hp, hopens, hholds, hfull, hcrowded]
  · simp [placement_of_not_opens hopens, hopens]

/-! ### What a write leaves -/

theorem registers_newEntry (name : ShortName) {data : Payload} (hword : data.size < wordLimit)
    (p : Placement) : (newEntry name data p).Registers name
      (if data.size = 0 then 0x10 else 0) data.size p.first := by
  have hregisters := Entry.registers_create name (kindFor data) (UInt32.ofNat data.size) p.first
  rw [UInt32.toNat_ofNat_of_lt' hword] at hregisters
  have hattributes : (kindFor data).attributes = if data.size = 0 then 0x10 else 0 := by
    rw [kindFor]
    split_ifs <;> rfl
  rwa [hattributes] at hregisters

/-- The clusters of a file hold its data and zeros, also after the parent table is stored. -/
theorem bytes_applyAll_writeSteps (haccepts : x.accepts parent = true)
    (hplace : place x.map (x.table parent) name data.size = .ok p) (hsize : data.size ≠ 0) :
    (x.applyAll (writeSteps parent (x.table parent) name data p)).bytes p.clusters =
      data.padded := by
  have hlength := (placement_clusters hplace).1
  rw [requiredClusters, if_neg hsize] at hlength
  rw [applyAll_writeSteps haccepts hplace]
  refine (bytes_congr fun c hc => ?_).trans
    (bytes_eq_padded ((stored_contentSteps hplace).file hsize).2 hlength)
  apply cluster_setEntry_of_ne
  rintro rfl
  exact notMem_clusters_of_accepts haccepts hplace hc

theorem written_writeSteps (haccepts : x.accepts parent = true)
    (hplace : place x.map (x.table parent) name data.size = .ok p) :
    x.Written (x.applyAll (writeSteps parent (x.table parent) name data p)) parent name data
      p.index p.first p.clusters := by
  have hstored := stored_contentSteps hplace
  obtain ⟨-, hvacancy, hword, hfree⟩ := place_spec hplace
  obtain ⟨hlength, -, -, hfirst⟩ := placement_clusters hplace
  have hparent := notMem_clusters_of_accepts haccepts hplace
  have hbytes := bytes_applyAll_writeSteps haccepts hplace
  have hslot := Directory.vacancy?_eq_some_iff.mp hvacancy
  have hlowest := lowest_findFree hfree
  rw [requiredClusters_eq_max] at hlowest
  have hhead : p.clusters.head? = some p.first := by
    cases hclusters : p.clusters with
    | nil => simp [hclusters] at hfirst
    | cons c rest => simp [Placement.first, hclusters]
  rw [applyAll_writeSteps haccepts hplace] at hbytes ⊢
  generalize x.applyAll (contentSteps name data p) = y at *
  have hentry : (y.setEntry parent p.index (newEntry name data p)).child parent p.index =
      newEntry name data p := by
    rw [child_setEntry, if_pos ⟨rfl, rfl⟩]
  have htable (hsize : data.size = 0) :
      (y.setEntry parent p.index (newEntry name data p)).cluster p.first =
        (Directory.create name p.first).encode := by
    have hne : p.first ≠ parent := fun h => hparent (h ▸ hfirst)
    rw [cluster_setEntry_of_ne _ _ _ hne, (hstored.directory hsize).2.2]
  constructor
  case lowest => exact hlowest
  case head => exact hhead
  case chain => rw [map_setEntry, hstored.chain_eq hplace]
  case saved =>
    have hne : mapCluster ≠ parent := (isData_ne_mapCluster (isData_of_accepts haccepts)).symm
    rw [cluster_setEntry_of_ne _ _ _ hne, map_setEntry, hstored.saved,
      AllocationMap.decode_encode]
  case file =>
    intro hsize
    rw [hbytes hsize, Payload.padded, hlength, requiredClusters, if_neg hsize]
    rfl
  case directory =>
    intro hsize
    rw [table, htable hsize, Directory.decode_encode]
    exact Entry.registers_create name .directory 0 p.first
  case childless =>
    intro hsize j hj hlater
    simp only [htable hsize, Directory.getElem_encode_create name p.first hj hlater]
  case vacant =>
    unfold child
    exact Entry.isUsed_eq_false_iff.mp hslot.1
  case slots =>
    unfold child
    exact fun j hj => Entry.isUsed_iff.mp (hslot.2 j hj)
  case entry =>
    rw [hentry]
    exact registers_newEntry name hword p

end Contents

namespace Volume
open Contents

variable {D : Type} [BlockDevice D] {S : Storage D} {v : Volume D}

/-- On a device that takes every write, a write ends as its placement does. -/
theorem write_placed (h : S.Usable v.disk) (hleft : S.writesLeft v.disk = none) (parent : UInt32)
    (name : ShortName) (data : Payload) :
    (∃ e, (v.write parent name data).outcome = .error e ∧
      (S.contents v).placement parent name data.size = .error e) ∨
    ∃ p, (v.write parent name data).outcome = .ok p.first ∧
      (S.contents v).placement parent name data.size = .ok p ∧
      S.contents (v.write parent name data).volume = (S.contents v).applyAll
        (writeSteps parent ((S.contents v).table parent) name data p) := by
  rcases Storage.write_spec h parent name data with
    ⟨e, d, hwrite, -, hplacement⟩ | ⟨p, done, rest, hplacement, hdone, hadvance, hcontents, hend⟩
  · exact .inl ⟨e, by rw [hwrite]; rfl, hplacement⟩
  · rcases hend with ⟨rfl, houtcome⟩ | ⟨hrest, -⟩
    · rw [List.append_nil] at hdone
      exact .inr ⟨p, houtcome, hplacement, hdone ▸ hcontents⟩
    · exact absurd (hadvance.writesLeft_eq_none hleft).2 hrest

/-- The complete outcome of a write: which refusal it meets, or what it leaves. -/
theorem write_complete (h : S.Usable v.disk) (hleft : S.writesLeft v.disk = none) (parent : UInt32)
    (name : ShortName) (data : Payload) :
    let x := S.contents v
    let r := v.write parent name data
    (r.outcome = .error .invalidParent ↔ ¬ x.Opens parent) ∧
    (r.outcome = .error .alreadyExists ↔ x.Opens parent ∧ x.Holds parent name) ∧
    (r.outcome = .error .directoryFull ↔
      x.Opens parent ∧ ¬ x.Holds parent name ∧ x.Full parent) ∧
    (r.outcome = .error .insufficientSpace ↔
      x.Opens parent ∧ ¬ x.Holds parent name ∧ ¬ x.Full parent ∧ v.map.Crowded data.size) ∧
    ((∃ first, r.outcome = .ok first) ↔
      x.Opens parent ∧ ¬ x.Holds parent name ∧ ¬ x.Full parent ∧ ¬ v.map.Crowded data.size) ∧
    ∀ first, r.outcome = .ok first →
      ∃ i clusters, x.Written (S.contents r.volume) parent name data i first clusters := by
  intro x r
  obtain ⟨hparent, hname, hslots, hspace, hplaced⟩ := x.placement_iff parent name data.size
  have hmap : x.map = v.map := rfl
  rw [hmap] at hspace hplaced
  rw [← hparent, ← hname, ← hslots, ← hspace, ← hplaced]
  rcases write_placed h hleft parent name data with
    ⟨e, houtcome, hplacement⟩ | ⟨p, houtcome, hplacement, hcontents⟩
  · have houtcome : r.outcome = .error e := houtcome
    have hplacement : x.placement parent name data.size = .error e := hplacement
    simp [houtcome, hplacement]
  · have houtcome : r.outcome = .ok p.first := houtcome
    have hplacement : x.placement parent name data.size = .ok p := hplacement
    simp only [houtcome, hplacement, reduceCtorEq, Except.ok.injEq, exists_eq', true_and]
    rintro first rfl
    obtain ⟨haccepts, hplace⟩ := placement_eq_ok_iff.mp hplacement
    refine ⟨p.index, p.clusters, ?_⟩
    rw [hcontents]
    exact written_writeSteps haccepts hplace

/-- A first file of 3000 bytes on a formatted disk takes two clusters. -/
theorem write_complete_two_clusters :
    ∃ v : Volume MemoryDisk, MemoryDisk.storage.Usable v.disk ∧
      MemoryDisk.storage.writesLeft v.disk = none ∧
      let data : Payload := ⟨3000, fun _ => 7⟩
      let r := v.write rootCluster (.ofParts [65] []) data
      r.outcome = .ok 3 ∧
        ∃ i clusters, (MemoryDisk.storage.contents v).Written (MemoryDisk.storage.contents r.volume)
          rootCluster (.ofParts [65] []) data i 3 clusters ∧ clusters.length = 2 := by
  obtain ⟨e, hfresh, -, -⟩ := Session.fresh_eq (MemoryDisk.usable_create (Nat.le_refl 512)) rfl
  obtain ⟨hs, houtcome⟩ := Session.first_write_ok (MemoryDisk.usable_create (Nat.le_refl 512)) rfl
    hfresh (.ofParts [65] []) ⟨3000, fun _ => 7⟩ (by decide)
  refine ⟨⟨e, formatted⟩, hs.usable, hs.writes, houtcome, ?_⟩
  obtain ⟨-, -, -, -, -, hwritten⟩ :=
    write_complete hs.usable hs.writes rootCluster (.ofParts [65] []) ⟨3000, fun _ => 7⟩
  obtain ⟨i, clusters, hwritten⟩ := hwritten 3 houtcome
  exact ⟨i, clusters, hwritten, hwritten.lowest.length⟩

end Volume

end ClusterFs
