import ClusterFs.Proofs.Extent
import ClusterFs.Proofs.Tables
import Mathlib.Data.List.Sort

/-!
The forms on disk. Entries, tables and the allocation map are determined by their bytes and the
bytes by them, also when they are stored on a device and loaded again. A user program that walks
over the slots of a table, of whatever length, sees the used children of the decoded table.
-/
namespace ClusterFs

/-- Bytes that are put back where they were read change nothing. -/
theorem Image.patch_window (image : Image) (n offset : Nat) :
    patch image offset (window n image offset).toArray = image := by
  apply Array.ext_getElem?
  intro k
  rw [getElem?_patch, Vector.size_toArray]
  split_ifs with hk
  · rw [Vector.getElem?_toArray, Vector.getElem?_eq_getElem (by omega), getElem_window,
      Array.getD_eq_getD_getElem?, Nat.add_sub_cancel' hk.1, Array.getElem?_eq_getElem hk.2.2,
      Option.getD_some]
  · rfl

/-- The halves of a cluster number are those it was put together from. -/
theorem Entry.withCluster_cluster (e : Entry) : e.withCluster e.cluster = e := by
  have hhigh := e.clusterHigh.toNat_lt
  have hlow := e.clusterLow.toNat_lt
  have hcluster : e.cluster.toNat = 65536 * e.clusterHigh.toNat + e.clusterLow.toNat := by
    rw [cluster, UInt32.toNat_ofNat']
    omega
  have hhigh' : UInt16.ofNat (e.cluster.toNat / 65536) = e.clusterHigh := by
    apply UInt16.toNat_inj.mp
    rw [UInt16.toNat_ofNat', hcluster]
    omega
  have hlow' : UInt16.ofNat e.cluster.toNat = e.clusterLow := by
    apply UInt16.toNat_inj.mp
    rw [UInt16.toNat_ofNat', hcluster]
    omega
  rw [withCluster, hhigh', hlow']

/-! ### The children of a table -/

namespace Directory

variable {t : Directory} {slot : Nat} {e : Entry}

/-- The used children with their slot numbers, in the order of the slots. -/
def listing (t : Directory) : List (Nat × Entry) :=
  (List.finRange 62).filterMap fun i =>
    let e := t.children.get i
    if e.isUsed then some (slotOf i, e) else none

theorem mem_listing : (slot, e) ∈ t.listing ↔
    ∃ i : Fin 62, slotOf i = slot ∧ t.children.get i = e ∧ e.isUsed = true := by
  simp only [listing, List.mem_filterMap, List.mem_finRange, true_and,
    Option.ite_none_right_eq_some, Option.some.injEq, Prod.mk.injEq]
  refine exists_congr fun i => ⟨?_, ?_⟩
  · rintro ⟨hused, hslot, rfl⟩
    exact ⟨hslot, rfl, hused⟩
  · rintro ⟨hslot, rfl, hused⟩
    exact ⟨hused, hslot, rfl⟩

theorem increasing_listing (t : Directory) : t.listing.Pairwise (·.1 < ·.1) := by
  rw [listing, List.pairwise_filterMap]
  refine (List.pairwise_lt_finRange 62).imp fun {i j} hij a ha b hb => ?_
  simp only [Option.ite_none_right_eq_some, Option.some.injEq] at ha hb
  rw [← ha.2, ← hb.2]
  exact Nat.add_lt_add_left hij firstChildSlot

theorem get_children_decode (raw : Cluster) (i : Fin 62) :
    (decode raw).children.get i = Entry.atSlot raw.toArray (slotOf i) := by
  show (Vector.ofFn fun j : Fin 62 => Entry.atSlot raw.toArray (slotOf j))[i.1] = _
  rw [Vector.getElem_ofFn]

end Directory

namespace Entry

variable {table : Array UInt8} {slot : Nat} {e : Entry}

/-- The walk visits the whole slots from the first child's to the last of a table. -/
theorem mem_slots {size : Nat} :
    slot ∈ (List.range (min tableSlots (size / entrySize))).drop firstChildSlot ↔
      firstChildSlot ≤ slot ∧ slot < tableSlots ∧ entrySize * (slot + 1) ≤ size := by
  rw [List.range_eq_range', List.drop_range', List.mem_range'_1]
  simp only [firstChildSlot, tableSlots, entrySize]
  omega

theorem mem_children : (slot, e) ∈ children table ↔
    (firstChildSlot ≤ slot ∧ slot < tableSlots ∧ entrySize * (slot + 1) ≤ table.size) ∧
      atSlot table slot = e ∧ e.isUsed = true := by
  simp only [children, List.mem_filterMap, mem_slots, Option.ite_none_right_eq_some,
    Option.some.injEq, Prod.mk.injEq]
  constructor
  · rintro ⟨k, hslot, hused, rfl, rfl⟩
    exact ⟨hslot, rfl, hused⟩
  · rintro ⟨hslot, rfl, hused⟩
    exact ⟨slot, hslot, hused, rfl, rfl⟩

/-- The walk goes up the slots. -/
theorem increasing_children (table : Array UInt8) :
    (children table).Pairwise (·.1 < ·.1) := by
  rw [children, List.pairwise_filterMap]
  refine (List.pairwise_lt_range.drop (i := firstChildSlot)).imp fun {j k} hjk a ha b hb => ?_
  simp only [Option.ite_none_right_eq_some, Option.some.injEq] at ha hb
  rw [← ha.2, ← hb.2]
  exact hjk

/-- A slot of a table is decoded from the same bytes after the table was filled up or cut to a
cluster. -/
theorem atSlot_window (table : Array UInt8) (h : slot < tableSlots) :
    atSlot (Image.window 2048 table 0).toArray slot = atSlot table slot := by
  have hwindow : Image.window 32 (Image.window 2048 table 0).toArray (entrySize * slot) =
      Image.window 32 table (entrySize * slot) := by
    ext k hk
    have hlt : entrySize * slot + k < 2048 := by
      simp only [tableSlots, entrySize] at h ⊢
      omega
    rw [Image.getElem_window, Image.getElem_window, Array.getD_eq_getD_getElem?,
      Vector.getElem?_toArray, Vector.getElem?_eq_getElem hlt, Option.getD_some,
      Image.getElem_window, Nat.zero_add]
  rw [atSlot, atSlot, hwindow]

/-- The walk over a table of any length meets the used children, of the table filled up or cut to a
cluster, whose slots are whole. -/
theorem children_eq (table : Array UInt8) :
    children table = (Directory.decode (Image.window 2048 table 0)).listing.filter
      fun child => entrySize * (child.1 + 1) ≤ table.size := by
  have : Std.Antisymm fun a b : Nat × Entry => a.1 < b.1 :=
    ⟨fun _ _ h h' => absurd h' (Nat.lt_asymm h)⟩
  have : Std.Irrefl fun a b : Nat × Entry => a.1 < b.1 := ⟨fun a => Nat.lt_irrefl a.1⟩
  -- both lists go up the slots, so they are equal if they have the same elements
  refine (increasing_children table).eq_of_mem_iff
    ((Directory.increasing_listing _).filter _) fun child => ?_
  obtain ⟨slot, e⟩ := child
  rw [mem_children, List.mem_filter, Directory.mem_listing, decide_eq_true_eq]
  constructor
  · rintro ⟨⟨hfirst, hlast, hwhole⟩, hslot, hused⟩
    have hindex : Directory.slotOf (slot - firstChildSlot) = slot := Nat.add_sub_cancel' hfirst
    have hlt : slot - firstChildSlot < 62 := by
      simp only [tableSlots, firstChildSlot] at hfirst hlast ⊢
      omega
    refine ⟨⟨⟨slot - firstChildSlot, hlt⟩, hindex, ?_, hused⟩, hwhole⟩
    rw [Directory.get_children_decode, hindex, atSlot_window table hlast, hslot]
  · rintro ⟨⟨i, rfl, hchild, hused⟩, hwhole⟩
    have hlast : Directory.slotOf i < tableSlots := Nat.add_lt_add_left i.2 firstChildSlot
    refine ⟨⟨Nat.le_add_right .., hlast, hwhole⟩, ?_, hused⟩
    rw [← hchild, Directory.get_children_decode, atSlot_window table hlast]

theorem children_toArray (raw : Cluster) :
    children raw.toArray = (Directory.decode raw).listing := by
  rw [children_eq, Image.window_toArray, List.filter_eq_self]
  rintro ⟨slot, e⟩ hmem
  obtain ⟨i, rfl, -⟩ := Directory.mem_listing.mp hmem
  rw [Vector.size_toArray, decide_eq_true_eq]
  simp only [Directory.slotOf, firstChildSlot, entrySize]
  omega

end Entry

/-! ### Stored and loaded -/

namespace Storage
open Volume

variable {D : Type} [BlockDevice D] (S : Storage D)

/-- A cluster in which tables are stored and found again as they were. -/
structure KeepsTables (v : Volume D) (c : UInt32) : Prop where
  load_store : ∀ t : Directory, ∃ u w, (Step.store c t.encode).apply v = (u, .ok ()) ∧
    u.loadTable c = (w, .ok t)
  store_load : ∃ u w t, v.loadTable c = (u, .ok t) ∧
    (Step.store c t.encode).apply u = (w, .ok ()) ∧ S.image w.disk = S.image v.disk

/-- A volume whose map is found again as it was saved. -/
structure KeepsMap (v : Volume D) : Prop where
  load_save : ∃ u d raw, Step.saveMap.apply v = (u, .ok ()) ∧
    readCluster u.disk mapCluster = (d, .ok raw) ∧ AllocationMap.decode raw = v.map
  save_load : ∃ d raw w, readCluster v.disk mapCluster = (d, .ok raw) ∧
    Step.saveMap.apply ⟨d, .decode raw⟩ = (w, .ok ()) ∧ S.image w.disk = S.image v.disk

variable {S}

theorem readCluster_image {d : D} (h : S.Ready d) {c : UInt32} (hc : S.Has d c) :
    ∃ e, readCluster d c = (e, .ok (Image.window 2048 (S.image d) (clusterLba c * sectorSize))) ∧
      S.Kept d e := by
  have hroom : sectorsPerCluster * sectorSize ≤ clusterSize := by decide
  obtain ⟨e, hread, hready, himage, hsectors, hleft⟩ := S.read_eq h hc hroom
  refine ⟨e, ?_, hready, himage, hsectors, hleft⟩
  simp only [readCluster, hread, Except.map]
  exact congrArg (fun bytes => (e, Except.ok bytes)) (Image.window_extract ..)

/-- The bytes stored in a cluster are read again. -/
theorem readCluster_of_written {d : D} (h : S.Ready d) {c : UInt32} (hc : S.Has d c)
    (hleft : S.writesLeft d ≠ some 0) (bytes : Cluster) :
    ∃ e f, writeCluster d c bytes = (e, .ok ()) ∧ readCluster e c = (f, .ok bytes) := by
  obtain ⟨e, hready, hsectors, ⟨-, hwrite, himage, -⟩ | ⟨hzero, -⟩⟩ := writeCluster_image h hc bytes
  · have hhas : S.Has e c := by
      unfold Has
      rw [hsectors]
      exact hc
    obtain ⟨f, hread, -⟩ := readCluster_image hready hhas
    rw [himage, Image.window_patch _ _ (hc.cluster_le h)] at hread
    exact ⟨e, f, hwrite, hread⟩
  · exact absurd hzero hleft

/-- The bytes read from a cluster are stored there without a change. -/
theorem writeCluster_of_read {d : D} (h : S.Ready d) {c : UInt32} (hc : S.Has d c)
    (hleft : S.writesLeft d ≠ some 0) :
    ∃ e bytes f, readCluster d c = (e, .ok bytes) ∧ writeCluster e c bytes = (f, .ok ()) ∧
      S.image f = S.image d := by
  obtain ⟨e, hread, hkept⟩ := readCluster_image h hc
  obtain ⟨f, -, -, ⟨-, hwrite, himage, -⟩ | ⟨hzero, -⟩⟩ :=
    writeCluster_image hkept.ready (hkept.has hc)
      (Image.window 2048 (S.image d) (clusterLba c * sectorSize))
  · refine ⟨e, _, f, hread, hwrite, ?_⟩
    rw [himage, hkept.image, Image.patch_window]
  · exact absurd (hkept.writesLeft.symm.trans hzero) hleft

theorem keepsTables {v : Volume D} (h : S.Ready v.disk) {c : UInt32} (hc : S.Has v.disk c)
    (hleft : S.writesLeft v.disk ≠ some 0) : S.KeepsTables v c := by
  constructor
  · intro t
    obtain ⟨e, f, hwrite, hread⟩ := readCluster_of_written h hc hleft t.encode
    refine ⟨⟨e, v.map⟩, ⟨f, v.map⟩, ?_, ?_⟩
    · simp only [Step.apply, hwrite]
    · simp only [loadTable, hread, Except.map, Directory.decode_encode]
  · obtain ⟨e, bytes, f, hread, hwrite, himage⟩ := writeCluster_of_read h hc hleft
    refine ⟨⟨e, v.map⟩, ⟨f, v.map⟩, .decode bytes, ?_, ?_, himage⟩
    · simp only [loadTable, hread, Except.map]
    · simp only [Step.apply, Directory.encode_decode, hwrite]

theorem keepsMap {v : Volume D} (h : S.Ready v.disk) (hc : S.Has v.disk mapCluster)
    (hleft : S.writesLeft v.disk ≠ some 0) : S.KeepsMap v := by
  constructor
  · obtain ⟨e, f, hwrite, hread⟩ := readCluster_of_written h hc hleft v.map.encode
    refine ⟨⟨e, v.map⟩, f, v.map.encode, ?_, hread, v.map.decode_encode⟩
    simp only [Step.apply, hwrite]
  · obtain ⟨e, bytes, f, hread, hwrite, himage⟩ := writeCluster_of_read h hc hleft
    refine ⟨e, bytes, ⟨f, .decode bytes⟩, hread, ?_, himage⟩
    simp only [Step.apply, AllocationMap.encode_decode, hwrite]

/-- Decoding undoes encoding and encoding undoes decoding, for entries, tables and maps, and for the
cluster number in an entry. On every device that takes one more write, this goes for the tables in
each of its clusters and for the map. A walk over a cluster lists the used children of its table in
the order of their slots, and a walk over any other bytes lists those whose slots are whole. -/
theorem formats_exact (S : Storage D) :
    (Function.LeftInverse Entry.decode Entry.encode ∧
      Function.RightInverse Entry.decode Entry.encode) ∧
    (Function.LeftInverse Directory.decode Directory.encode ∧
      Function.RightInverse Directory.decode Directory.encode) ∧
    (Function.LeftInverse AllocationMap.decode AllocationMap.encode ∧
      Function.RightInverse AllocationMap.decode AllocationMap.encode) ∧
    (∀ (e : Entry) (c : UInt32), (e.withCluster c).cluster = c ∧ e.withCluster e.cluster = e) ∧
    (∀ v : Volume D, S.Ready v.disk → S.writesLeft v.disk ≠ some 0 →
      (∀ c, S.Has v.disk c → S.KeepsTables v c) ∧ (S.Has v.disk mapCluster → S.KeepsMap v)) ∧
    (∀ raw : Cluster, Entry.children raw.toArray = (Directory.decode raw).listing) ∧
    ∀ bytes : Array UInt8, Entry.children bytes =
      (Directory.decode (Image.window 2048 bytes 0)).listing.filter
        fun child => entrySize * (child.1 + 1) ≤ bytes.size := by
  refine ⟨⟨Entry.decode_encode, Entry.encode_decode⟩,
    ⟨Directory.decode_encode, Directory.encode_decode⟩,
    ⟨AllocationMap.decode_encode, AllocationMap.encode_decode⟩,
    fun e c => ⟨Entry.cluster_withCluster e c, Entry.withCluster_cluster e⟩,
    fun v hready hleft => ⟨fun c hc => ?_, fun hc => ?_⟩,
    Entry.children_toArray, Entry.children_eq⟩
  · exact keepsTables hready hc hleft
  · exact keepsMap hready hc hleft

end Storage

/-- On a zeroed disk of eight clusters, the last cluster keeps tables and the map is kept. -/
theorem MemoryDisk.zeroed_disk_keeps :
    storage.Ready (create 8) ∧ storage.writesLeft (create 8) ≠ some 0 ∧
      storage.Has (create 8) 7 ∧ storage.Has (create 8) mapCluster ∧
      storage.KeepsTables ⟨create 8, .formatted⟩ 7 ∧ storage.KeepsMap ⟨create 8, .formatted⟩ := by
  have h := working_create 8
  have hlast : storage.Has (create 8) 7 := h.has_iff.mpr (by decide)
  have hmap : storage.Has (create 8) mapCluster := h.has_iff.mpr (by decide)
  obtain ⟨-, -, -, -, hdevice, -⟩ := Storage.formats_exact storage
  obtain ⟨htables, hkeeps⟩ := hdevice ⟨create 8, .formatted⟩ h.ready h.writesLeft_ne
  exact ⟨h.ready, h.writesLeft_ne, hlast, hmap, htables 7 hlast, hkeeps hmap⟩

end ClusterFs
