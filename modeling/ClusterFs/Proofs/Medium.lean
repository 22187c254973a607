import ClusterFs.Proofs.Contents
import ClusterFs.Proofs.Requests

/-!
Devices without a promise to work. A `Medium` says what a device does to its bytes whether or not a
transfer succeeds: a read changes none, and a write changes none outside the sectors it names and
puts only given bytes inside. A transfer of at least one sector that succeeds is whole. A disk in
memory is such a device in all its states.
-/
namespace ClusterFs

structure Medium (D : Type) [BlockDevice D] where
  image : D → Image
  image_read : ∀ d lba count capacity, image (BlockDevice.read d lba count capacity).1 = image d
  read_ok : ∀ {d d' lba count capacity bytes}, 0 < count →
    BlockDevice.read d lba count capacity = (d', ⟨bytes, .ok ()⟩) →
    lba * sectorSize + count * sectorSize ≤ (image d).size ∧
      bytes = (image d).extract (lba * sectorSize) (lba * sectorSize + count * sectorSize)
  size_write : ∀ d bytes lba count,
    (image (BlockDevice.write d bytes lba count).1).size = (image d).size
  byte_write : ∀ d bytes lba count k,
    (image (BlockDevice.write d bytes lba count).1)[k]? = (image d)[k]? ∨
      lba * sectorSize ≤ k ∧ k < lba * sectorSize + count * sectorSize ∧
        (image (BlockDevice.write d bytes lba count).1)[k]? = bytes[k - lba * sectorSize]?
  write_ok : ∀ {d d' bytes lba count}, 0 < count →
    BlockDevice.write d bytes lba count = (d', .ok ()) →
    lba * sectorSize + count * sectorSize ≤ (image d).size ∧
      image d' = Image.patch (image d) (lba * sectorSize) (bytes.extract 0 (count * sectorSize))

namespace MemoryDisk

theorem le_of_refusal_eq_none {d : MemoryDisk} {lba count bufferSize : Nat}
    (h : d.refusal lba count bufferSize = none) :
    lba * sectorSize + count * sectorSize ≤ d.image.size := by
  unfold refusal at h
  split_ifs at h with hbuffer hrange
  omega

variable {d d' : MemoryDisk} {lba count capacity : Nat} {bytes : Array UInt8}

theorem image_read (d : MemoryDisk) (lba count capacity : Nat) :
    (d.read lba count capacity).1.image = d.image := by
  simp only [read]
  split <;> rfl

theorem of_read_ok (h : d.read lba count capacity = (d', ⟨bytes, .ok ()⟩)) :
    lba * sectorSize + count * sectorSize ≤ d.image.size ∧
      bytes = d.image.extract (lba * sectorSize) (lba * sectorSize + count * sectorSize) := by
  simp only [read] at h
  split at h
  · cases (Delivery.mk.inj (Prod.mk.inj h).2).2
  · rename_i hrefusal
    have hnone : d.refusal lba count capacity = none := by
      split_ifs at hrefusal
      exact hrefusal
    obtain ⟨-, hbytes⟩ := Prod.mk.inj h
    exact ⟨le_of_refusal_eq_none hnone, (Delivery.mk.inj hbytes).1.symm⟩

theorem size_write (d : MemoryDisk) (bytes : Array UInt8) (lba count : Nat) :
    (d.write bytes lba count).1.image.size = d.image.size := by
  unfold write
  split
  · rfl
  · exact Image.size_patch ..

theorem byte_write (d : MemoryDisk) (bytes : Array UInt8) (lba count k : Nat) :
    (d.write bytes lba count).1.image[k]? = d.image[k]? ∨
      lba * sectorSize ≤ k ∧ k < lba * sectorSize + count * sectorSize ∧
        (d.write bytes lba count).1.image[k]? = bytes[k - lba * sectorSize]? := by
  unfold write
  split
  · exact .inl rfl
  · simp only [Image.getElem?_patch, Array.size_extract, Nat.sub_zero]
    split_ifs with hk
    · refine .inr ⟨hk.1, by omega, ?_⟩
      rw [Array.getElem?_extract, if_pos (by omega), Nat.zero_add]
    · exact .inl rfl

theorem of_write_ok (h : d.write bytes lba count = (d', .ok ())) :
    lba * sectorSize + count * sectorSize ≤ d.image.size ∧
      d'.image = Image.patch d.image (lba * sectorSize) (bytes.extract 0 (count * sectorSize)) := by
  unfold write at h
  split at h
  · cases (Prod.mk.inj h).2
  · rename_i hrefusal
    have hnone : d.refusal lba count bytes.size = none := by
      split_ifs at hrefusal
      exact hrefusal
    rw [← (Prod.mk.inj h).1]
    exact ⟨le_of_refusal_eq_none hnone, rfl⟩

/-- A disk in memory, with whatever transfers made to fail. -/
def medium : Medium MemoryDisk where
  image d := d.image
  image_read := image_read
  read_ok _ := of_read_ok
  size_write := size_write
  byte_write := byte_write
  write_ok _ := of_write_ok

end MemoryDisk

namespace Medium

variable {D : Type} [BlockDevice D] (M : Medium D) {v w : Volume D} {c : UInt32}

def contents (v : Volume D) : Contents := .ofImage (M.image v.disk) v.map

@[simp] theorem map_contents (v : Volume D) : (M.contents v).map = v.map := rfl

/-- The map that the device holds. -/
def savedMap (v : Volume D) : AllocationMap := .decode ((M.contents v).cluster mapCluster)

/-- Two volumes with the same bytes and the same map. -/
structure Same (v w : Volume D) : Prop where
  image : M.image w.disk = M.image v.disk
  map : w.map = v.map

variable {M}

theorem Same.refl (v : Volume D) : M.Same v v := ⟨rfl, rfl⟩

theorem Same.trans {u : Volume D} (h : M.Same u v) (h' : M.Same v w) : M.Same u w :=
  ⟨h'.image.trans h.image, h'.map.trans h.map⟩

theorem Same.contents (h : M.Same v w) : M.contents w = M.contents v := by
  simp only [Medium.contents, h.image, h.map]

/-! ### Reading -/

theorem readSector_ok {d d' : D} {sector : Sector}
    (h : readSector d bootSector = (d', .ok sector)) :
    M.image d' = M.image d ∧ sector = Image.window 512 (M.image d) 0 := by
  have himage := M.image_read d bootSector 1 sectorSize
  unfold readSector at h
  generalize hread : BlockDevice.read d bootSector 1 sectorSize = got at h himage
  obtain ⟨e, bytes, _ | _⟩ := got
  · cases (Prod.mk.inj h).2
  · obtain ⟨rfl, hsector⟩ := Prod.mk.inj h
    obtain ⟨-, rfl⟩ := M.read_ok (by decide) hread
    exact ⟨himage, (Except.ok.inj hsector).symm.trans (Image.window_extract 512 _ 0)⟩

theorem readCluster_ok {d d' : D} {raw : Cluster} (h : readCluster d c = (d', .ok raw)) :
    M.image d' = M.image d ∧ clusterLba c * sectorSize + 2048 ≤ (M.image d).size ∧
      raw = Image.window 2048 (M.image d) (clusterLba c * sectorSize) := by
  have himage := M.image_read d (clusterLba c) sectorsPerCluster clusterSize
  unfold readCluster at h
  generalize hread : BlockDevice.read d (clusterLba c) sectorsPerCluster clusterSize = got
    at h himage
  obtain ⟨e, bytes, _ | _⟩ := got
  · cases (Prod.mk.inj h).2
  · obtain ⟨rfl, hraw⟩ := Prod.mk.inj h
    obtain ⟨hsize, rfl⟩ := M.read_ok (by decide) hread
    exact ⟨himage, hsize, (Except.ok.inj hraw).symm.trans (Image.window_extract 2048 _ _)⟩

theorem keptByReads_same (M : Medium D) (v : Volume D) : Volume.KeptByReads (M.Same v) :=
  fun _ _ _ _ hu => ⟨(M.image_read ..).trans hu.image, hu.map⟩

theorem loadTable_ok {table : Directory} (h : (v.loadTable c).2 = .ok table) :
    table = (M.contents v).table c := by
  simp only [Volume.loadTable] at h
  generalize hread : readCluster v.disk c = got at h
  obtain ⟨d, _ | raw⟩ := got
  · cases h
  · obtain ⟨-, -, rfl⟩ := M.readCluster_ok hread
    rw [← Except.ok.inj h, Contents.table]
    rfl

theorem same_openDirectory (v : Volume D) (c : UInt32) : M.Same v (v.openDirectory c).1 :=
  (M.keptByReads_same v).openDirectory (.refl v) c

theorem openDirectory_ok {table : Directory} (h : (v.openDirectory c).2 = .ok table) :
    v.map.isTerminal c = true ∧ table = (M.contents v).table c := by
  have hload (found : Directory) (h : (v.loadTable c).2 = .ok found) :
      found = (M.contents v).table c := loadTable_ok h
  unfold Volume.openDirectory at h
  split at h
  · rename_i hterminal
    generalize v.loadTable c = loaded at h hload
    obtain ⟨u, _ | found⟩ := loaded
    · cases h
    · simp only at h
      split_ifs at h
      obtain rfl := Except.ok.inj h
      exact ⟨hterminal, hload found rfl⟩
  · cases h

theorem same_countOrphans (v : Volume D) (e : Entry) : M.Same v (v.countOrphans e).1 :=
  (M.keptByReads_same v).countOrphans (.refl v) e

theorem same_stat (v : Volume D) (parent : UInt32) (name : ShortName) :
    M.Same v (v.stat parent name).1 :=
  (M.keptByReads_same v).stat (.refl v) parent name

theorem same_read (v : Volume D) (parent : UInt32) (name : ShortName) (capacity : Nat) :
    M.Same v (v.read parent name capacity).volume :=
  (M.keptByReads_same v).read (.refl v) parent name capacity

theorem same_readDirectory (v : Volume D) (parent : UInt32) (name : ShortName) (capacity : Nat) :
    M.Same v (v.readDirectory parent name capacity).volume :=
  (M.keptByReads_same v).readDirectory (.refl v) parent name capacity

/-! ### Writing -/

theorem writeCluster_ok {d d' : D} {bytes : Cluster}
    (h : writeCluster d c bytes = (d', .ok ())) :
    clusterLba c * sectorSize + 2048 ≤ (M.image d).size ∧
      M.image d' = Image.patch (M.image d) (clusterLba c * sectorSize) bytes.toArray := by
  obtain ⟨hsize, himage⟩ := M.write_ok (by decide) h
  have hall : bytes.toArray.extract 0 (sectorsPerCluster * sectorSize) = bytes.toArray := by
    simp [sectorsPerCluster, sectorSize]
  exact ⟨hsize, hall ▸ himage⟩

theorem apply_ok {step : Volume.Step} (hstep : step.Within (AllocationMap.isData · = true))
    (h : step.apply v = (w, .ok ())) : M.contents w = (M.contents v).apply step := by
  have hstore {c : UInt32} {bytes : Cluster} (hpos : 0 < c.toNat)
      (hwrite : (writeCluster v.disk c bytes).2 = .ok ()) :
      M.contents ⟨(writeCluster v.disk c bytes).1, v.map⟩ = (M.contents v).store c bytes := by
    obtain ⟨hsize, himage⟩ := M.writeCluster_ok (Prod.ext rfl hwrite)
    simp only [contents, himage]
    exact Contents.ofImage_patch v.map bytes hpos hsize
  cases step with
  | link c next =>
    rw [← (Prod.mk.inj h).1]
    rfl
  | saveMap =>
    obtain ⟨rfl, hwrite⟩ := Prod.mk.inj h
    exact hstore (by decide) hwrite
  | store c bytes =>
    obtain ⟨rfl, hwrite⟩ := Prod.mk.inj h
    have hc := AllocationMap.isData_iff.mp hstep
    exact hstore (by omega) hwrite

/-- Steps that all succeed have their effect on the contents. -/
theorem perform_ok (v : Volume D) {steps : List Volume.Step}
    (hsteps : ∀ step ∈ steps, step.Within (AllocationMap.isData · = true))
    (h : (v.perform steps).2 = .ok ()) :
    M.contents (v.perform steps).1 = (M.contents v).applyAll steps := by
  induction steps generalizing v with
  | nil => rfl
  | cons step steps ih =>
    have happly := M.apply_ok (v := v) (w := (step.apply v).1) (hsteps step (by simp))
    have hrest : ∀ step ∈ steps, step.Within (AllocationMap.isData · = true) :=
      fun s hs => hsteps s (List.mem_cons_of_mem _ hs)
    unfold Volume.perform at h ⊢
    generalize step.apply v = applied at h happly
    obtain ⟨u, _ | _⟩ := applied
    · cases h
    · rw [ih u hrest h, happly rfl, Contents.applyAll_cons]

theorem size_perform (v : Volume D) (steps : List Volume.Step) :
    (M.image (v.perform steps).1.disk).size = (M.image v.disk).size := by
  refine Volume.perform_invariant
    (motive := fun u => (M.image u.disk).size = (M.image v.disk).size) ?_ rfl
  intro step _ u hu
  rw [← hu]
  cases step with
  | link c next => rfl
  | saveMap => exact M.size_write ..
  | store c bytes => exact M.size_write ..

/-- A map that was saved fits on the device. -/
theorem size_of_perform_saveMap {steps : List Volume.Step}
    (h : (v.perform (.saveMap :: steps)).2 = .ok ()) : 4096 ≤ (M.image v.disk).size := by
  unfold Volume.perform at h
  generalize hstep : Volume.Step.apply v .saveMap = applied at h
  obtain ⟨u, _ | _⟩ := applied
  · cases h
  · exact (M.writeCluster_ok (Prod.ext rfl (Prod.mk.inj hstep).2)).1

end Medium

end ClusterFs
