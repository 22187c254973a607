import ClusterFs.Proofs.Frame
import ClusterFs.Proofs.Invariant
import ClusterFs.Proofs.Mirror
import ClusterFs.Proofs.Reachable

/-!
Requests on a device that fails while they run. A failed request leaves the map in memory beside
tables that may be older or newer, and every entry that the tables list from the root on has its
whole chain in that map, with one exception: a delete that released the chain in memory and then
failed to store the table of the parent.
-/
namespace ClusterFs
open AllocationMap Volume

/-! ### Steps on a device that fails -/

namespace Medium

variable {D : Type} [BlockDevice D] {M : Medium D} {v : Volume D} {parent : UInt32}
  {name : ShortName} {i : Fin 62}

/-- A device that writes every sector whole or not at all, whether or not the write succeeds. -/
def Sectorwise (M : Medium D) : Prop :=
  ∀ d bytes lba count n,
    (∀ k, k / sectorSize = n →
      (M.image (BlockDevice.write d bytes lba count).1)[k]? = (M.image d)[k]?) ∨
    ∀ k, k / sectorSize = n →
      (M.image (BlockDevice.write d bytes lba count).1)[k]? = bytes[k - lba * sectorSize]?

theorem getElem_contents (v : Volume D) (c : UInt32) {j : Nat} (hj : j < 2048) :
    ((M.contents v).cluster c)[j] =
      ((M.image v.disk)[clusterLba c * sectorSize + j]?).getD 0 := by
  simp [contents, Contents.ofImage]

/-- A write to one cluster leaves the others, whether or not it succeeds. -/
theorem cluster_writeCluster_of_ne (M : Medium D) (d : D) (m : AllocationMap) {c q : UInt32}
    (bytes : Cluster) (h : q ≠ c) :
    (M.contents ⟨(writeCluster d c bytes).1, m⟩).cluster q = (M.contents ⟨d, m⟩).cluster q := by
  ext j hj
  rw [getElem_contents, getElem_contents]
  rcases M.byte_writeCluster d c bytes (clusterLba q * sectorSize + j) with
    hsame | ⟨l, hl, hk, -⟩
  · rw [hsame]
  · have hin : InCluster c (clusterLba q * sectorSize + j) := by
      rw [hk]
      exact inCluster_of_lt hl
    exact absurd (hin.eq (inCluster_of_lt hj)) h

theorem cluster_perform {P : UInt32 → Prop} {steps : List Step} (v : Volume D)
    (hsteps : ∀ step ∈ steps, step.Within P) {q : UInt32} (hq : ¬ P q) (hne : q ≠ mapCluster) :
    (M.contents (v.perform steps).1).cluster q = (M.contents v).cluster q := by
  refine perform_invariant
    (motive := fun u => (M.contents u).cluster q = (M.contents v).cluster q) ?_ rfl
  intro step hstep u hu
  rw [← hu]
  cases step with
  | link c next => rfl
  | saveMap => exact M.cluster_writeCluster_of_ne u.disk u.map _ hne
  | store c bytes =>
    exact M.cluster_writeCluster_of_ne u.disk u.map _ fun h => hq (h ▸ hsteps _ hstep)

/-- A write to a cluster that changes bytes of one sector only leaves the cluster or replaces it. -/
theorem Sectorwise.cluster_writeCluster (hM : M.Sectorwise) (v : Volume D) (c : UInt32)
    (bytes : Cluster) (n : Nat)
    (hold : ∀ j (hj : j < 2048), j / sectorSize ≠ n → bytes[j] = ((M.contents v).cluster c)[j]) :
    (M.contents ⟨(writeCluster v.disk c bytes).1, v.map⟩).cluster c = (M.contents v).cluster c ∨
      (M.contents ⟨(writeCluster v.disk c bytes).1, v.map⟩).cluster c = bytes := by
  have hrest (j : Nat) (hj : j < 2048) (hsector : j / sectorSize ≠ n) :
      ((M.contents ⟨(writeCluster v.disk c bytes).1, v.map⟩).cluster c)[j] =
        ((M.contents v).cluster c)[j] := by
    rw [getElem_contents, getElem_contents]
    rcases M.byte_writeCluster v.disk c bytes (clusterLba c * sectorSize + j) with
      hsame | ⟨l, hl, hk, hbyte⟩
    · rw [hsame]
    · obtain rfl : j = l := Nat.add_left_cancel hk
      rw [hbyte, Option.getD_some, hold j hj hsector, getElem_contents]
  have hin {j : Nat} (hsector : j / sectorSize = n) :
      (clusterLba c * sectorSize + j) / sectorSize = clusterLba c + n := by
    rw [Nat.mul_comm, Nat.mul_add_div (by decide), hsector]
  rcases hM v.disk bytes.toArray (clusterLba c) sectorsPerCluster (clusterLba c + n) with
    hkept | hwritten
  · refine .inl (Vector.ext fun j hj => ?_)
    by_cases hsector : j / sectorSize = n
    · rw [getElem_contents, getElem_contents]
      exact congrArg (·.getD 0) (hkept _ (hin hsector))
    · exact hrest j hj hsector
  · refine .inr (Vector.ext fun j hj => ?_)
    by_cases hsector : j / sectorSize = n
    · have hnew : bytes.toArray[j]? = some bytes[j] := by
        rw [Array.getElem?_eq_getElem (by rwa [Vector.size_toArray]), Vector.getElem_toArray]
      have hbyte := hwritten _ (hin hsector)
      rw [Nat.add_sub_cancel_left, hnew] at hbyte
      rw [getElem_contents]
      exact congrArg (·.getD 0) hbyte
    · rw [hrest j hj hsector, hold j hj hsector]

/-- To store a table with one child exchanged, which lies in one sector, either leaves the clusters
or exchanges that child. -/
theorem Sectorwise.cluster_setChild (hM : M.Sectorwise) (v : Volume D) (parent : UInt32)
    (i : Fin 62) (e : Entry) {bytes : Cluster}
    (hbytes : bytes = (((M.contents v).table parent).setChild i e).encode) :
    (∀ q, (M.contents ⟨(writeCluster v.disk parent bytes).1, v.map⟩).cluster q =
      (M.contents v).cluster q) ∨
    ∀ q, (M.contents ⟨(writeCluster v.disk parent bytes).1, v.map⟩).cluster q =
      ((M.contents v).setEntry parent i e).cluster q := by
  have hother (q : UInt32) (hq : q ≠ parent) :=
    M.cluster_writeCluster_of_ne v.disk v.map bytes hq
  have hold (j : Nat) (hj : j < 2048) (hsector : j / sectorSize ≠ Directory.slotOf i / 16) :
      bytes[j] = ((M.contents v).cluster parent)[j] := by
    have hslot : j / 32 ≠ Directory.slotOf i := by
      intro hslot
      rw [← hslot, Nat.div_div_eq_div_mul] at hsector
      exact hsector rfl
    subst hbytes
    rw [Directory.getElem_encode_setChild _ i e hj hslot, Contents.table, Directory.encode_decode]
  refine (hM.cluster_writeCluster v parent bytes _ hold).imp (fun hkept q => ?_) fun hnew q => ?_
  · by_cases hq : q = parent
    · rw [hq, hkept]
    · exact hother q hq
  · by_cases hq : q = parent
    · rw [hq, hnew, hbytes, Contents.setEntry, Contents.cluster_store_self]
    · rw [hother q hq, Contents.cluster_setEntry_of_ne _ i e hq]

theorem accepts_of_openDirectory {c : UInt32} {table : Directory}
    (h : (v.openDirectory c).2 = .ok table) :
    (M.contents v).accepts c = true ∧ table = (M.contents v).table c := by
  obtain ⟨hterminal, rfl⟩ := M.openDirectory_ok h
  have hload {found : Directory} (hfound : (v.loadTable c).2 = .ok found) :
      found = (M.contents v).table c := M.loadTable_ok hfound
  refine ⟨?_, rfl⟩
  unfold Volume.openDirectory at h
  rw [if_pos hterminal] at h
  generalize v.loadTable c = loaded at h hload
  obtain ⟨u, _ | found⟩ := loaded
  · cases h
  · simp only at h
    split_ifs at h with hdescribes
    rw [hload rfl] at hdescribes
    exact Bool.and_eq_true_iff.mpr ⟨hterminal, hdescribes⟩

/-! ### What a request leaves backed -/

variable {w : Volume D} {directories files : Finset UInt32}

theorem backed_of_same (h : (M.contents v).Structured directories files) (hsame : M.Same v w) :
    (M.contents w).Backed := by
  rw [hsame.contents]
  exact h.backed_of_agree (fun _ _ => rfl) fun _ _ _ _ _ _ => rfl

/-- A write leaves every entry backed, wherever the device fails: until the parent table is stored
it changes free clusters only, and what the new entry refers to is there before. -/
theorem Sectorwise.backed_write (hM : M.Sectorwise)
    (h : (M.contents v).Structured directories files) (name : ShortName) (data : Payload)
    (hparent : (M.contents v).accepts parent = true → parent ∈ directories) :
    (M.contents (v.write parent name data).volume).Backed := by
  have hopen := M.same_openDirectory v parent
  rcases v.write_cases parent name data with ⟨e, hwrite⟩ | ⟨table, p, htable, hplace, hw, -⟩
  · rw [hwrite]
    exact backed_of_same h hopen
  obtain ⟨haccepts, rfl⟩ := M.accepts_of_openDirectory htable
  have hmem := hparent haccepts
  have hfree := (placement_clusters hplace).2.2.1
  have hwithin := within_contentSteps hplace
  have hdata : ∀ step ∈ contentSteps name data p, step.Within (isData · = true) :=
    fun step hstep => (hwithin step hstep).mono fun c hc => (hfree c hc).1
  rw [hw, writeSteps_eq, perform_append]
  generalize (v.openDirectory parent).1 = u at hopen
  have hx := hopen.contents
  have hdone := M.perform_ok u hdata
  have hcluster := fun q => M.cluster_perform u hwithin (q := q)
  have hentry := fun c => get?_perform u (fun step hstep => (hwithin step hstep).links) (c := c)
  rw [hx] at hdone
  rw [hopen.map] at hentry
  generalize u.perform (contentSteps name data p) = performed at hdone hcluster hentry
  obtain ⟨y, _ | _⟩ := performed
  · -- the device failed before the parent table was to be stored
    refine h.backed_of_agree (fun q hq => ?_) fun q hq j hused c hc => hentry c fun hmem => ?_
    · have hnot := h.not_of_free hfree (.inl hq)
      rw [← hx]
      exact Contents.table_congr (hcluster q hnot (h.ne_mapCluster hq))
    · have hin := (h.extent (h.mem_of_reachable hq) hused).2.2 c hc
      exact h.not_of_free hfree hin hmem
  · have hy := hdone rfl
    have hstored := Contents.stored_contentSteps (x := M.contents v) hplace
    have hwritten := h.write hmem hplace
    rw [h.applyAll_writeSteps hmem hplace, ← hy] at hwritten
    rw [← hy] at hstored
    have htable := h.table_of_agreeOff hstored.agree hfree hmem
    rw [perform_singleton]
    rcases hM.cluster_setChild y parent p.index (newEntry name data p) (by rw [htable]) with
      hkept | hnew
    · refine (h.of_stored hplace hstored).backed_of_agree (fun q _ => ?_) fun _ _ _ _ _ _ => rfl
      exact Contents.table_congr (hkept q)
    · refine hwritten.backed_of_agree (fun q _ => ?_) fun _ _ _ _ _ _ => rfl
      exact Contents.table_congr (hnew q)

/-- A delete in a reachable directory that changed the map in memory, but not the table of the
directory on the device. -/
def HalfDeleted (M : Medium D) (v w : Volume D) : Action → Prop
  | .delete parent _ => (M.contents v).Reachable parent ∧ w.map ≠ v.map ∧
      (M.contents w).table parent = (M.contents v).table parent
  | _ => False

/-- The steps of a delete leave the tables or remove the child, wherever the device fails. -/
theorem Sectorwise.cluster_deleteSteps (hM : M.Sectorwise) (v : Volume D) (parent : UInt32)
    (i : Fin 62) {bytes : Cluster}
    (hbytes : bytes = (((M.contents v).table parent).setChild i .empty).encode) :
    (v.perform [.store parent bytes, .saveMap]).1.map = v.map ∧
      ((∀ q, q ≠ mapCluster →
          (M.contents (v.perform [.store parent bytes, .saveMap]).1).cluster q =
            (M.contents v).cluster q) ∨
        ∀ q, q ≠ mapCluster →
          (M.contents (v.perform [.store parent bytes, .saveMap]).1).cluster q =
            ((M.contents v).setEntry parent i .empty).cluster q) := by
  have hstored := hM.cluster_setChild v parent i .empty hbytes
  have hsaved (u : Volume D) (q : UInt32) (hq : q ≠ mapCluster) :
      (M.contents (u.perform [.saveMap]).1).cluster q = (M.contents u).cluster q := by
    rw [perform_singleton]
    exact M.cluster_writeCluster_of_ne u.disk u.map _ hq
  simp only [perform, Step.apply] at hsaved ⊢
  generalize writeCluster v.disk parent bytes = written at hstored ⊢
  obtain ⟨d, _ | _⟩ := written
  · exact ⟨rfl, hstored.imp (fun h q _ => h q) fun h q _ => h q⟩
  · have hsaved := hsaved ⟨d, v.map⟩
    simp only at hsaved ⊢
    generalize writeCluster d mapCluster v.map.encode = written at hsaved ⊢
    obtain ⟨d', _ | _⟩ := written
    · exact ⟨rfl, hstored.imp (fun h q hq => (hsaved q hq).trans (h q))
        fun h q hq => (hsaved q hq).trans (h q)⟩
    · exact ⟨rfl, hstored.imp (fun h q hq => (hsaved q hq).trans (h q))
        fun h q hq => (hsaved q hq).trans (h q)⟩

/-- A delete leaves every entry backed, wherever the device fails, unless it has released the chain
in memory while the table of a reachable parent still lists the entry. -/
theorem Sectorwise.backed_delete_iff (hM : M.Sectorwise)
    (h : (M.contents v).Structured directories files) (name : ShortName)
    (hparent : (M.contents v).accepts parent = true → parent ∈ directories) :
    (M.contents (v.delete parent name).volume).Backed ↔
      ¬ M.HalfDeleted v (v.delete parent name).volume (.delete parent name) := by
  have hopen := M.same_openDirectory v parent
  have hrefused {w : Volume D} (hsame : M.Same v w) :
      (M.contents w).Backed ↔ ¬ M.HalfDeleted v w (.delete parent name) :=
    iff_of_true (backed_of_same h hsame) fun hhalf => hhalf.2.1 hsame.map
  rcases v.delete_cases parent name with ⟨e, hdelete⟩ | ⟨table, i, htable, hfind, hrest⟩
  · rw [hdelete]
    exact hrefused hopen
  obtain ⟨haccepts, rfl⟩ := M.accepts_of_openDirectory htable
  have hmem := hparent haccepts
  have hlook := hopen.trans
    (M.same_countOrphans _ (((M.contents v).table parent).children.get i))
  rcases hrest with ⟨e, -, hdelete⟩ | ⟨hw, -⟩
  · rw [hdelete]
    exact hrefused hlook
  have hused := (Contents.find?_eq_some hfind).1
  rw [hw]
  rw [← Contents.child] at hlook ⊢
  generalize ((v.openDirectory parent).1.countOrphans ((M.contents v).child parent i)).1 = u
    at hlook
  generalize hfreed : (v.map.freeChain ((M.contents v).child parent i).cluster).1 = freed
  -- the volume with the chain released, before the parent table is stored
  have hx : (M.contents ⟨u.disk, freed⟩).cluster = (M.contents v).cluster := by
    simp only [contents, hlook.image]
    rfl
  have hkept : (M.contents ⟨u.disk, freed⟩).table parent = (M.contents v).table parent :=
    Contents.table_congr (congrFun hx parent)
  have hset : ((M.contents ⟨u.disk, freed⟩).setEntry parent i .empty).cluster =
      ((M.contents v).setEntry parent i .empty).cluster := by
    simp only [Contents.setEntry, Contents.store, hx, hkept]
  obtain ⟨hmap, hcluster⟩ := hM.cluster_deleteSteps ⟨u.disk, freed⟩ parent i (by rw [hkept])
  rw [hx, hset] at hcluster
  refine h.backed_iff hmem hused (hmap.trans hfreed.symm) (hcluster.imp ?_ ?_)
  · exact fun hold q hq => Contents.table_congr (hold q (h.ne_mapCluster hq))
  · exact fun hnew q hq => Contents.table_congr (hnew q (h.ne_mapCluster hq))

/-- A write takes no cluster of a chain that is whole, and leaves the chain. -/
theorem chain_write (M : Medium D) (v : Volume D) (parent : UInt32) (name : ShortName)
    (data : Payload) {e : Entry} (he : v.map.Holds e) :
    (v.write parent name data).volume.map.chain e.cluster = v.map.chain e.cluster ∧
      ∀ c ∈ v.map.taken (v.write parent name data).volume.map, c ∉ v.map.chain e.cluster := by
  constructor
  · refine chain_congr he.linked fun c hc => ?_
    rcases (M.requests_framed v parent name).1 data with hsame | ⟨i, -, hframed⟩
    · rw [hsame.map]
    · exact hframed.entry c fun hfree => get?_ne_unused_of_mem_chain hc hfree.2
  · exact fun c hc hmem => get?_ne_unused_of_mem_chain hmem (mem_taken.mp hc).2.1

theorem same_of_mount (h : (M.contents v).Structured directories files)
    (hmount : (Volume.mount v.disk).volume = .ok w) : M.Same v w := by
  rcases M.mount_cases hmount with ⟨himage, -, hmap, -⟩ | ⟨hunsigned, -⟩
  · have hcluster : (M.contents w).cluster mapCluster = (M.contents v).cluster mapCluster := by
      simp only [contents, Contents.ofImage, himage]
    refine ⟨himage, ?_⟩
    rw [hmap, savedMap, hcluster, h.saved, AllocationMap.decode_encode, map_contents]
  · exact absurd h.signed hunsigned

end Medium

/-- A disk in memory moves all sectors of a transfer or none. -/
theorem MemoryDisk.sectorwise : medium.Sectorwise := by
  intro d bytes lba count n
  show (∀ k, k / sectorSize = n → (d.write bytes lba count).1.image[k]? = d.image[k]?) ∨
    ∀ k, k / sectorSize = n → (d.write bytes lba count).1.image[k]? = bytes[k - lba * sectorSize]?
  unfold write
  split
  · exact .inl fun _ _ => rfl
  rename_i hrefusal
  have hnone : d.refusal lba count bytes.size = none := by
    split_ifs at hrefusal
    exact hrefusal
  have hrange := le_of_refusal_eq_none hnone
  have hbuffer : count * sectorSize ≤ bytes.size := by
    unfold refusal at hnone
    split_ifs at hnone with hshort
    exact Nat.not_lt.mp hshort
  have hsize : (bytes.extract 0 (count * sectorSize)).size = count * sectorSize := by
    rw [Array.size_extract]
    omega
  simp only [sectorSize] at hrange hbuffer hsize ⊢
  by_cases hn : lba ≤ n ∧ n < lba + count
  · right
    intro k hk
    rw [Image.getElem?_patch, hsize, if_pos (by omega), Array.getElem?_extract, if_pos (by omega),
      Nat.zero_add]
  · left
    intro k hk
    rw [Image.getElem?_patch, hsize, if_neg (by omega)]

/-- A second child of a new table is found nowhere and goes to the second slot. -/
theorem Directory.setChild_create_spec (parent : ShortName) (c : UInt32) {e : Entry} {n : ShortName}
    (hused : e.isUsed = true) (hne : e.name ≠ n) :
    ((create parent c).setChild 0 e).find? n = none ∧
      ((create parent c).setChild 0 e).vacancy? = some 1 := by
  refine ⟨?_, vacancy?_setChild_create parent c hused⟩
  rw [find?_setChild (fun hold => ?_) fun _ => hne, find?_create]
  rw [get_children_create] at hold
  contradiction

theorem Volume.exists_place {map : AllocationMap} {table : Directory} {name : ShortName}
    {i : Fin 62} (hfind : table.find? name = none) (hvacancy : table.vacancy? = some i) (size : Nat)
    (hsize : size < wordLimit) (hfree : requiredClusters size ≤ map.freeClusters.length) :
    ∃ p, place map table name size = .ok p := by
  simp only [place, hfind, hvacancy, findFree, if_pos hfree, if_neg (Nat.not_le.mpr hsize)]
  exact ⟨_, rfl⟩

namespace Session

variable {D : Type} [BlockDevice D] {S : Storage D} {d : D}

/-- A first file of one byte is child 0 of the root and takes cluster 3. -/
theorem exists_first_file (hd : S.Usable d) (hwrites : S.writesLeft d = none) (name : ShortName)
    (data : Payload) (hsize : data.size = 1) :
    ∃ s₀ s, fresh d = .ok s₀ ∧
      Run (fun s a _ => s.Admits a) s₀ [.write rootCluster name data] s ∧ s.Healthy S ∧
      (S.contents s.volume).table rootCluster =
        (Directory.create Volume.rootName rootCluster).setChild 0 (Entry.create name .file 1 3) ∧
      ∀ c, s.volume.map.get? c = if c = 3 then some endOfChain else formatted.get? c := by
  obtain ⟨e, hfresh, hs₀, htable⟩ := fresh_eq hd hwrites
  have hcount : requiredClusters data.size = 1 := by rw [hsize]; rfl
  have hadmits := hs₀.admits_root name data
  obtain ⟨-, hwrite⟩ := first_write_ok hd hwrites hfresh name data (by omega)
  obtain ⟨s, hstep, -, -, heffect⟩ := step_effect hs₀ (hadmits.parentsIn hs₀)
  have hs := (hs₀.step (hadmits.parentsIn hs₀) hstep).1
  refine ⟨_, s, hfresh, Run.nil.snoc hstep hadmits, hs, ?_⟩
  obtain ⟨p, -, hparent, hplace, hcontents, -⟩ := heffect.of_write_ok hwrite
  have hempty : place formatted (Directory.create Volume.rootName rootCluster) name data.size =
      .ok ⟨0, [3]⟩ := by
    rw [Volume.place_formatted _ _ _ (by omega), hcount]
    rfl
  rw [← htable] at hempty
  obtain rfl : p = ⟨0, [3]⟩ := Except.ok.inj (hplace.symm.trans hempty)
  have hfree := (placement_clusters hplace).2.2.1
  have hstored := Contents.stored_contentSteps (x := S.contents ⟨e, formatted⟩) hplace
  have hentry : newEntry name data ⟨0, [3]⟩ = Entry.create name .file 1 3 := by
    simp [newEntry, kindFor, hsize, Placement.first]
  rw [hs₀.structured.applyAll_writeSteps hparent hplace, hentry] at hcontents
  constructor
  · rw [hcontents, Contents.table_setEntry, if_pos rfl,
      hs₀.structured.table_of_agreeOff hstored.agree hfree hparent, htable]
  · intro c
    have hmap := congrArg (fun x => x.map.get? c) hcontents
    simp only [Storage.map_contents, Contents.map_setEntry] at hmap
    rw [hmap]
    by_cases hc : c = 3
    · have hlinked := (hstored.file (by omega)).1
      rw [if_pos hc, hc]
      exact hlinked
    · rw [if_neg hc]
      exact hstored.agree.entry c (by simpa using hc)

/-- Where the root lists one file and the map is that of a formatted volume, the file is still
found, and a write takes cluster 3. -/
theorem write_over_listed {v : Volume D} (hv : S.Usable v.disk)
    (hwrites : S.writesLeft v.disk = none) (hmap : v.map = formatted) {e : Entry}
    (htable : (S.contents v).table rootCluster =
      (Directory.create Volume.rootName rootCluster).setChild 0 e) (hused : e.isUsed = true)
    (n : ShortName) (hne : e.name ≠ n) (data : Payload) (hsize : data.size = 1) :
    (v.stat rootCluster e.name).2 = .ok e ∧ (v.write rootCluster n data).outcome = .ok 3 := by
  have hend : v.map.get? rootCluster = some endOfChain := by
    rw [hmap]
    exact (get?_formatted (by decide)).trans rfl
  have haccepts : (S.contents v).accepts rootCluster = true := by
    refine Bool.and_eq_true_iff.mpr ⟨isTerminal_iff.mpr ⟨by decide, hend⟩, ?_⟩
    rw [htable, Directory.describes_setChild, Directory.describes_create]
  constructor
  · have hfind : ((Directory.create Volume.rootName rootCluster).setChild 0 e).find? e.name =
        some 0 := by
      rw [Directory.find?_eq_some_iff, Directory.get_setChild, if_pos rfl]
      exact ⟨⟨hused, rfl⟩, fun j hj => absurd hj (Nat.not_lt_zero _)⟩
    rw [Storage.stat_snd hv, Contents.lookup_of_accepts haccepts, htable]
    simp only [hfind, Contents.child, htable, Directory.get_setChild, if_true]
  · obtain ⟨hfind, hvacancy⟩ :=
      Directory.setChild_create_spec Volume.rootName rootCluster hused hne
    have hcount : requiredClusters data.size = 1 := by rw [hsize]; rfl
    have hplace := Volume.place_empty hfind hvacancy
      (Nat.le_trans (Nat.le_of_eq hcount) (by decide))
    rw [hcount, ← hmap, ← htable] at hplace
    have hplacement := Contents.placement_eq_ok_iff.mpr ⟨haccepts, hplace⟩
    rcases Storage.write_spec hv rootCluster n data with
      ⟨cause, _, -, -, herror⟩ | ⟨p, done, rest, hp, -, hadvance, -, hend⟩
    · cases hplacement.symm.trans herror
    · obtain rfl := Except.ok.inj (hplacement.symm.trans hp)
      rcases hend with ⟨-, houtcome⟩ | ⟨hrest, -⟩
      · exact houtcome
      · exact absurd (hadvance.writesLeft_eq_none hwrites).2 hrest

/-- On a device that may fail in any way, every request leaves what is listed backed, but for a
delete that stops between the map in memory and the table of the parent. -/
theorem Healthy.backed_step_iff {s t : Session D} {a : Action} (hs : s.Healthy S) {M : Medium D}
    (hM : M.Sectorwise) (hadmits : s.Admits a) {e : D} (himage : M.image e = S.image s.volume.disk)
    (hstep : (s.on e).step a = .ok t) :
    (M.contents t.volume).Backed ↔ ¬ M.HalfDeleted (s.on e).volume t.volume a := by
  have hx : M.contents (s.on e).volume = S.contents s.volume := by
    simp only [Medium.contents, on, himage, Storage.contents_eq]
  have h : (M.contents (s.on e).volume).Structured s.directories s.files := hx ▸ hs.structured
  have hparents (parent : UInt32) (hparent : a.parent? = some parent)
      (haccepts : (M.contents (s.on e).volume).accepts parent = true) : parent ∈ s.directories :=
    hadmits.parentsIn hs parent hparent (hx ▸ haccepts)
  cases a with
  | write parent name data =>
    rw [← volume_of_step_write hstep]
    exact iff_of_true (hM.backed_write h name data (hparents parent rfl)) id
  | delete parent name =>
    obtain rfl := Except.ok.inj hstep
    exact hM.backed_delete_iff h name (hparents parent rfl)
  | read parent name capacity =>
    obtain rfl := Except.ok.inj hstep
    exact iff_of_true (Medium.backed_of_same h (M.same_read _ parent name capacity)) id
  | readDirectory parent name capacity =>
    obtain rfl := Except.ok.inj hstep
    exact iff_of_true (Medium.backed_of_same h (M.same_readDirectory _ parent name capacity)) id
  | stat parent name =>
    obtain rfl := Except.ok.inj hstep
    exact iff_of_true (Medium.backed_of_same h (M.same_stat _ parent name)) id
  | remount =>
    simp only [Session.step] at hstep
    cases hmount : (Volume.mount (s.on e).volume.disk).volume with
    | error cause =>
      rw [hmount] at hstep
      cases hstep
    | ok w =>
      rw [hmount] at hstep
      obtain rfl := Except.ok.inj hstep
      exact iff_of_true (Medium.backed_of_same h (Medium.same_of_mount h hmount)) id

/-- In every session that a run reaches from a formatted volume, and on a device with the same bytes
that may fail in any way, a request leaves every entry that is listed from the root on backed by its
whole chain in memory, unless it is a delete that released the chain and left the table of the
parent. A later write takes no cluster of these chains. -/
theorem backed_iff_not_halfDeleted {d : D} (hd : S.Usable d) (hwrites : S.writesLeft d = none)
    {M : Medium D} (hM : M.Sectorwise) :
    ∃ s₀, fresh d = .ok s₀ ∧
      ∀ actions s, Run (fun s a _ => s.Admits a) s₀ actions s →
        ∀ a, s.Admits a → ∀ e, M.image e = S.image s.volume.disk →
          ∀ t, (s.on e).step a = .ok t →
            ((M.contents t.volume).Backed ↔ ¬ M.HalfDeleted (s.on e).volume t.volume a) ∧
            ((M.contents t.volume).Backed →
              ∀ p, (M.contents t.volume).Reachable p → ∀ i,
                ((M.contents t.volume).child p i).isUsed = true →
                  let chain := t.volume.map.chain ((M.contents t.volume).child p i).cluster
                  ∀ f parent name data,
                    let w := ((t.on f).volume.write parent name data).volume
                    w.map.chain ((M.contents t.volume).child p i).cluster = chain ∧
                      ∀ c ∈ t.volume.map.taken w.map, c ∉ chain) := by
  obtain ⟨_, hfresh, hhealthy, -⟩ := fresh_eq hd hwrites
  refine ⟨_, hfresh, fun actions s hrun a hadmits e himage t hstep => ⟨?_, ?_⟩⟩
  · exact (hhealthy.run hrun).backed_step_iff hM hadmits himage hstep
  · exact fun hbacked p hp i hused f parent name data =>
      M.chain_write (t.on f).volume parent name data (hbacked p hp i hused)

/-- A disk that takes no write refuses a second file, and the first one keeps its cluster. -/
theorem backed_after_failed_write :
    ∃ s₀ s t, fresh (MemoryDisk.create 512) = .ok s₀ ∧
      Run (fun s a _ => s.Admits a) s₀ [.write rootCluster (.ofParts [65] []) (.ofArray #[7])] s ∧
      (s.on (s.volume.disk.failWritesAfter (some 0))).volume.outcome
        (.write rootCluster (.ofParts [66] []) (.ofArray #[8])) = .error (.device .fault) ∧
      (s.on (s.volume.disk.failWritesAfter (some 0))).step
        (.write rootCluster (.ofParts [66] []) (.ofArray #[8])) = .ok t ∧
      (MemoryDisk.medium.contents t.volume).Backed := by
  have hd := MemoryDisk.usable_create (Nat.le_refl 512)
  obtain ⟨s₀, hfresh, hall⟩ := backed_iff_not_halfDeleted hd rfl MemoryDisk.sectorwise
  obtain ⟨s₀', s, hfresh', hrun, hs, htable, hmap⟩ :=
    exists_first_file hd rfl (.ofParts [65] []) (.ofArray #[7]) rfl
  obtain rfl := Except.ok.inj (hfresh'.symm.trans hfresh)
  have hd' := MemoryDisk.usable_failWritesAfter hs.usable (some 0)
  have hleft := MemoryDisk.writesLeft_failWritesAfter s.volume.disk 0
  obtain ⟨hfind, hvacancy⟩ := Directory.setChild_create_spec Volume.rootName rootCluster
    (e := Entry.create (.ofParts [65] []) .file 1 3) (n := .ofParts [66] []) rfl (by decide)
  have hfour : 4 ∈ s.volume.map.freeClusters := by
    rw [mem_freeClusters, hmap, if_neg (by decide), get?_formatted (by decide)]
    exact ⟨by decide, rfl⟩
  obtain ⟨p, hplace⟩ := Volume.exists_place hfind hvacancy
    (Payload.ofArray #[8]).size (by decide) (List.length_pos_of_mem hfour)
  rw [← htable] at hplace
  have hsize : (Payload.ofArray #[8]).size ≠ 0 := by decide
  have hstores := Volume.storesAll_writeSteps rootCluster
    ((MemoryDisk.storage.contents s.volume).table rootCluster) (.ofParts [66] []) hsize p
  obtain ⟨houtcome, -⟩ := hs.write_unfinished hs.structured.root_mem hplace hd' rfl hleft (by omega)
  obtain ⟨t, hstep⟩ : ∃ t, (s.on (s.volume.disk.failWritesAfter (some 0))).step
      (.write rootCluster (.ofParts [66] []) (.ofArray #[8])) = .ok t := by
    simp only [step, houtcome]
    exact ⟨_, rfl⟩
  have hbacked := hall _ s hrun _ (hs.admits_root _ _)
    (s.volume.disk.failWritesAfter (some 0)) rfl t hstep
  exact ⟨s₀', s, t, hfresh, hrun, Reply.discard_eq_error_iff.mpr houtcome, hstep,
    hbacked.1.mpr id⟩

/-- A delete whose store of the parent table fails leaves the file listed on a free cluster, and the
next write takes this cluster. -/
theorem listed_file_reused :
    ∃ s₀ s t e, fresh (MemoryDisk.create 512) = .ok s₀ ∧
      Run (fun s a _ => s.Admits a) s₀ [.write rootCluster (.ofParts [65] []) (.ofArray #[7])] s ∧
      s.Admits (.delete rootCluster (.ofParts [65] [])) ∧
      (s.on (s.volume.disk.failWritesAfter (some 0))).volume.outcome
        (.delete rootCluster (.ofParts [65] [])) = .error (.device .fault) ∧
      (s.on (s.volume.disk.failWritesAfter (some 0))).step
        (.delete rootCluster (.ofParts [65] [])) = .ok t ∧
      ¬ (MemoryDisk.medium.contents t.volume).Backed ∧
      let v := (t.on (t.volume.disk.failWritesAfter none)).volume
      (v.stat rootCluster (.ofParts [65] [])).2 = .ok e ∧ e.cluster = 3 ∧
        (v.write rootCluster (.ofParts [66] []) (.ofArray #[8])).outcome = .ok 3 := by
  have hd := MemoryDisk.usable_create (Nat.le_refl 512)
  obtain ⟨s₀, s, hfresh, hrun, hs, htable, hmap⟩ :=
    exists_first_file hd rfl (.ofParts [65] []) (.ofArray #[7]) rfl
  have hroot := hs.structured.root_mem
  have hchild : (MemoryDisk.storage.contents s.volume).child rootCluster 0 =
      Entry.create (.ofParts [65] []) .file 1 3 := by
    rw [Contents.child, htable, Directory.get_setChild, if_pos rfl]
  have hfind : ((MemoryDisk.storage.contents s.volume).table rootCluster).find?
      (.ofParts [65] []) = some 0 := by
    rw [htable, Directory.find?_eq_some_iff, Directory.get_setChild, if_pos rfl]
    exact ⟨⟨rfl, rfl⟩, fun j hj => absurd hj (Nat.not_lt_zero _)⟩
  have hlocate : (MemoryDisk.storage.contents s.volume).locate rootCluster (.ofParts [65] []) =
      .ok 0 := by
    rw [Contents.locate_of_accepts (hs.structured.accepts _ hroot)]
    simp only [hfind]
  -- the map is that of a formatted volume again
  have hfreed : (s.volume.map.freeChain
      ((MemoryDisk.storage.contents s.volume).child rootCluster 0).cluster).1 = formatted := by
    have hdata : isData 3 = true := by decide
    rw [hchild, Entry.cluster_create, freeChain_of_end hdata ((hmap 3).trans (if_pos rfl))]
    refine ext_get? fun c => ?_
    rw [get?_set _ _ _ hdata, hmap]
    by_cases hc : c = 3
    · rw [if_pos hc, hc, get?_formatted (by decide)]
      rfl
    · rw [if_neg hc, if_neg hc]
  obtain ⟨houtcome, hafter, hcontents⟩ := hs.delete_unstored hroot hlocate
    (MemoryDisk.usable_failWritesAfter hs.usable (some 0)) rfl
    (MemoryDisk.writesLeft_failWritesAfter s.volume.disk 0)
  obtain ⟨t, hstep, ht⟩ : ∃ t, (s.on (s.volume.disk.failWritesAfter (some 0))).step
      (.delete rootCluster (.ofParts [65] [])) = .ok t ∧
      t.volume = ((s.on (s.volume.disk.failWritesAfter (some 0))).volume.delete rootCluster
        (.ofParts [65] [])).volume := ⟨_, rfl, rfl⟩
  rw [hfreed, ← ht] at hcontents
  rw [← ht] at hafter
  have hlisted : (MemoryDisk.storage.contents t.volume).table rootCluster =
      (Directory.create Volume.rootName rootCluster).setChild 0
        (Entry.create (.ofParts [65] []) .file 1 3) := by
    rw [hcontents, ← htable]
    exact Contents.table_congr rfl
  have hformatted : t.volume.map = formatted := congrArg Contents.map hcontents
  obtain ⟨hstat, hwrite⟩ := write_over_listed
    (v := (t.on (t.volume.disk.failWritesAfter none)).volume)
    (MemoryDisk.usable_failWritesAfter hafter none) rfl hformatted hlisted rfl (.ofParts [66] [])
    (by decide) (.ofArray #[8]) rfl
  refine ⟨s₀, s, t, _, hfresh, hrun, hs.admits fun _ h => Option.some.inj h ▸ hroot, houtcome,
    hstep, fun hbacked => ?_, hstat, Entry.cluster_create .., hwrite⟩
  have hchild : (MemoryDisk.medium.contents t.volume).child rootCluster 0 =
      Entry.create (.ofParts [65] []) .file 1 3 := by
    have hsame : MemoryDisk.medium.contents t.volume = MemoryDisk.storage.contents t.volume := rfl
    rw [hsame, Contents.child, hlisted, Directory.get_setChild, if_pos rfl]
  have hholds := hbacked rootCluster .root 0 (by rw [hchild, Entry.isUsed_create])
  rw [hchild, Medium.map_contents, hformatted] at hholds
  exact hholds.get?_cluster_ne_unused ((get?_formatted (by decide)).trans rfl)

end Session

end ClusterFs
