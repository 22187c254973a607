import ClusterFs.Proofs.Invariant
import ClusterFs.Proofs.Likeness
import ClusterFs.Proofs.Medium

/-!
The map in memory is the map on the device. Whatever a mounted device held, and whatever is then
requested of it, the signature stays and every request that does not fail leaves its map saved. So
mounting the device again writes nothing, gives the same map, and no later request tells the
difference.
-/
namespace ClusterFs
open AllocationMap Volume

namespace Medium

variable {D : Type} [BlockDevice D] {M : Medium D} {v w : Volume D} {d : D} {parent : UInt32}
  {name : ShortName} {data : Payload}

/-- A signed volume whose map is saved. -/
structure Mirrored (M : Medium D) (v : Volume D) : Prop where
  signed : (M.contents v).boot = BootSector.signature
  saved : (M.contents v).cluster mapCluster = v.map.encode
  size : 4096 ≤ (M.image v.disk).size

/-- A mirrored volume that another one was changed to, with the same reserved entries of the map. -/
structure Mirrors (M : Medium D) (v w : Volume D) : Prop extends Mirrored M w where
  reserved : w.map.get? 0 = v.map.get? 0 ∧ w.map.get? 1 = v.map.get? 1

theorem Mirrored.of_same (h : M.Mirrored v) (hsame : M.Same v w) : M.Mirrors v w := by
  refine ⟨⟨?_, ?_, ?_⟩, ?_⟩
  · rw [hsame.contents, h.signed]
  · rw [hsame.contents, hsame.map, h.saved]
  · rw [hsame.image]
    exact h.size
  · rw [hsame.map]
    exact ⟨rfl, rfl⟩

theorem mirrored_format (h : (Volume.format d).volume = .ok v) : M.Mirrored v := by
  unfold Volume.format at h
  generalize hwrite : BlockDevice.write d BootSector.signature.toArray bootSector 1 = x at h
  obtain ⟨e, _ | _⟩ := x
  · cases h
  obtain ⟨hlarge, himage⟩ := M.write_ok (by decide) hwrite
  have hall : BootSector.signature.toArray.extract 0 (1 * sectorSize) =
      BootSector.signature.toArray := by
    simp [sectorSize]
  have hboot : (M.contents ⟨e, .formatted⟩).boot = BootSector.signature := by
    simp only [contents, Contents.ofImage, himage, hall, bootSector, Nat.zero_mul] at hlarge ⊢
    exact Image.window_patch _ _ hlarge
  have hsteps : ∀ step ∈ formatSteps, step.Within (isData · = true) := by
    simp only [formatSteps, List.forall_mem_cons]
    exact ⟨trivial, isData_iff.mpr (by decide), by simp⟩
  simp only at h
  generalize hperform : (⟨e, .formatted⟩ : Volume D).perform formatSteps = performed at h
  obtain ⟨u, _ | _⟩ := performed
  · cases h
  have hdone := congrArg Prod.snd hperform
  have hx := M.perform_ok ⟨e, .formatted⟩ hsteps hdone
  have hfits := M.size_of_perform_saveMap hdone
  rw [← M.size_perform _ formatSteps, hperform] at hfits
  rw [hperform] at hx
  obtain rfl : u = v := Except.ok.inj h
  have hmap : u.map = .formatted := congrArg Contents.map hx
  refine ⟨?_, ?_, hfits⟩
  · rw [hx]
    exact hboot
  · rw [hx, hmap]
    simp only [formatSteps, Contents.applyAll_cons, Contents.applyAll_nil, Contents.apply]
    rw [Contents.cluster_store_of_ne _ _ (by decide), Contents.cluster_saveMap_self]
    rfl

/-- A mount that succeeds takes the map of a signed device, or formats one that is not signed. -/
theorem mount_cases (h : (Volume.mount d).volume = .ok v) :
    (M.image v.disk = M.image d ∧ (M.contents v).boot = BootSector.signature ∧
      v.map = M.savedMap v ∧ 4096 ≤ (M.image v.disk).size) ∨
    Image.window 512 (M.image d) 0 ≠ BootSector.signature ∧
      ∃ e, (Volume.format e).volume = .ok v := by
  unfold Volume.mount at h
  generalize hboot : readSector d bootSector = x at h
  obtain ⟨e, _ | sector⟩ := x
  · cases h
  obtain ⟨hsame, hsector⟩ := M.readSector_ok hboot
  simp only at h
  split_ifs at h with hsigned
  · generalize hread : readCluster e mapCluster = y at h
    obtain ⟨f, _ | raw⟩ := y
    · cases h
    obtain ⟨himage, hsize, hraw⟩ := M.readCluster_ok hread
    obtain rfl : ⟨f, .decode raw⟩ = v := Except.ok.inj h
    refine .inl ⟨himage.trans hsame, ?_, ?_, ?_⟩
    · simp only [contents, Contents.ofImage, himage, hsame, ← hsector, hsigned]
    · simp only [savedMap, contents, Contents.ofImage, himage, ← hraw]
    · rw [himage]
      exact hsize
  · exact .inr ⟨hsector ▸ hsigned, e, h⟩

theorem mirrored_mount (h : (Volume.mount d).volume = .ok v) : M.Mirrored v := by
  rcases M.mount_cases h with ⟨-, hsigned, hmap, hsize⟩ | ⟨-, e, hformat⟩
  · refine ⟨hsigned, ?_, hsize⟩
    rw [hmap, savedMap, AllocationMap.encode_decode]
  · exact mirrored_format hformat

theorem Mirrored.remount (h : M.Mirrored v) (hmount : (Volume.mount v.disk).volume = .ok w) :
    M.Mirrors v w := by
  rcases M.mount_cases hmount with ⟨himage, -, hmap, -⟩ | ⟨hunsigned, -⟩
  · refine h.of_same ⟨himage, hmap.trans ?_⟩
    have hcluster : (M.contents w).cluster mapCluster = (M.contents v).cluster mapCluster := by
      simp only [contents, Contents.ofImage, himage]
    rw [savedMap, hcluster, h.saved, AllocationMap.decode_encode]
  · exact absurd h.signed hunsigned

/-- A write that does not fail saves the map after its last link. -/
theorem Mirrored.write (h : M.Mirrored v)
    (hdevice : ∀ e, (v.write parent name data).outcome ≠ .error (.device e)) :
    M.Mirrors v (v.write parent name data).volume := by
  have hopen := M.same_openDirectory v parent
  rcases v.write_cases parent name data with ⟨e, hwrite⟩ | ⟨table, p, htable, hplace, hw, hout⟩
  · rw [hwrite]
    exact h.of_same hopen
  cases hdone : ((v.openDirectory parent).1.perform (writeSteps parent table name data p)).2 with
  | error e =>
    rw [hdone] at hout
    exact absurd hout (hdevice e)
  | ok _ =>
    have hdata := (isTerminal_iff.mp (isTerminal_of_openDirectory htable)).1
    have hx := M.perform_ok _ (inData_writeSteps hplace hdata) hdone
    rw [hopen.contents, writeSteps_eq, Contents.applyAll_append] at hx
    have hstored := Contents.stored_contentSteps (x := M.contents v) hplace
    have hfree := (placement_clusters hplace).2.2.1
    rw [hw]
    generalize (M.contents v).applyAll (contentSteps name data p) = y at hx hstored
    have hentry {c : UInt32} (hc : isData c = false) :
        ((v.openDirectory parent).1.perform (writeSteps parent table name data p)).1.map.get? c =
          v.map.get? c := by
      rw [get?_perform _ (links_writeSteps hplace parent), hopen.map]
      intro hmem
      rw [(hfree c hmem).1] at hc
      cases hc
    refine ⟨⟨?_, ?_, ?_⟩, hentry rfl, hentry rfl⟩
    · rw [writeSteps_eq, hx]
      exact hstored.agree.boot.trans h.signed
    · have hmap := congrArg Contents.map hx
      rw [map_contents] at hmap
      rw [writeSteps_eq, hx, hmap]
      exact (Contents.cluster_store_of_ne _ _ (isData_ne_mapCluster hdata).symm).trans hstored.saved
    · rw [size_perform, hopen.image]
      exact h.size

/-- A delete that does not fail ends with the map saved. -/
theorem Mirrored.delete (h : M.Mirrored v)
    (hdevice : ∀ e, (v.delete parent name).outcome ≠ .error (.device e)) :
    M.Mirrors v (v.delete parent name).volume := by
  have hopen := M.same_openDirectory v parent
  rcases v.delete_cases parent name with ⟨e, hdelete⟩ | ⟨table, i, htable, -, hrest⟩
  · rw [hdelete]
    exact h.of_same hopen
  have hlook := hopen.trans (M.same_countOrphans _ (table.children.get i))
  simp only at hrest
  rcases hrest with ⟨e, -, hdelete⟩ | ⟨hw, hout⟩
  · rw [hdelete]
    exact h.of_same hlook
  generalize ((v.openDirectory parent).1.countOrphans (table.children.get i)).1 = u
    at hlook hw hout
  generalize hm : (v.map.freeChain (table.children.get i).cluster).1 = m at hw hout
  cases hdone : (Volume.perform ({ u with map := m } : Volume D)
    [.store parent (table.setChild i .empty).encode, .saveMap]).2 with
  | error e =>
    rw [hdone] at hout
    exact absurd hout (hdevice e)
  | ok _ =>
    have hdata := (isTerminal_iff.mp (isTerminal_of_openDirectory htable)).1
    have hx := M.perform_ok _ (within_deleteSteps table i hdata) hdone
    have hentry {c : UInt32} (hc : isData c = false) :
        (Volume.perform ({ u with map := m } : Volume D)
          [.store parent (table.setChild i .empty).encode, .saveMap]).1.map.get? c =
            v.map.get? c := by
      rw [get?_perform _ (links_deleteSteps parent table i) id, ← hm]
      refine get?_freeChain_of_notMem_chain fun hmem => ?_
      rw [isData_of_mem_chain hmem] at hc
      cases hc
    have hstart : (M.contents { u with map := m }).boot = BootSector.signature := by
      rw [← h.signed, ← hlook.contents]
      rfl
    simp only [Contents.applyAll_cons, Contents.applyAll_nil, Contents.apply] at hx
    rw [hw]
    refine ⟨⟨?_, ?_, ?_⟩, hentry rfl, hentry rfl⟩
    · rw [hx]
      exact hstart
    · have hmap := congrArg Contents.map hx
      rw [map_contents, Contents.map_saveMap] at hmap
      rw [hx, hmap, Contents.cluster_saveMap_self]
    · rw [size_perform, hlook.image]
      exact h.size

/-- A relation between devices of which nothing that is read or written tells them apart. A device
related to itself answers every read of its bytes, and reading leaves no trace on it. -/
structure Steady (M : Medium D) where
  Alike : D → D → Prop
  read : ∀ {d e} lba count capacity, Alike d e →
    Coupled Alike (BlockDevice.read d lba count capacity) (BlockDevice.read e lba count capacity)
  write : ∀ {d e} bytes lba count, Alike d e →
    Coupled Alike (BlockDevice.write d bytes lba count) (BlockDevice.write e bytes lba count)
  trace : ∀ {d e} lba count capacity, Alike d e →
    Alike d (BlockDevice.read e lba count capacity).1
  read_ok : ∀ {d lba count} capacity, Alike d d →
    lba * sectorSize + count * sectorSize ≤ (M.image d).size → count * sectorSize ≤ capacity →
    (BlockDevice.read d lba count capacity).2.outcome = .ok ()

/-- Steady devices are alike in every cluster. -/
def Steady.likeness (T : M.Steady) : Likeness D where
  Alike _ := T.Alike
  mono h _ := h
  readCluster h _ _ := T.read _ _ _ h
  writeCluster _ _ h _ _ := ⟨T.write _ _ _ h, fun _ => (T.write _ _ _ h).ends⟩
  readBoot h := T.read _ _ _ h
  writeBoot _ h := T.write _ _ _ h

/-- Mounting a mirrored volume again takes two reads and gives the map in memory. -/
theorem Mirrored.mount_eq (T : M.Steady) (h : M.Mirrored v) (hd : T.Alike v.disk v.disk) :
    ∃ e, Volume.mount v.disk = ⟨e, .ok v.map, [.mounted v.map.freeCount]⟩ ∧
      e = (BlockDevice.read (BlockDevice.read v.disk bootSector 1 sectorSize).1
        (clusterLba mapCluster) sectorsPerCluster clusterSize).1 ∧
      T.Alike v.disk e := by
  have hsector : bootSector * sectorSize + 1 * sectorSize ≤ (M.image v.disk).size := by
    have hsize := h.size
    simp only [bootSector, sectorSize]
    omega
  have hboot := T.read_ok sectorSize hd hsector (by decide)
  have himage := M.image_read v.disk bootSector 1 sectorSize
  have hfirst := (T.read bootSector 1 sectorSize hd).ends
  have htrace := T.trace bootSector 1 sectorSize hd
  generalize hgot : BlockDevice.read v.disk bootSector 1 sectorSize = got
    at hboot himage hfirst htrace ⊢
  obtain ⟨d, bytes, outcome⟩ := got
  obtain rfl : outcome = .ok () := hboot
  have hcluster : clusterLba mapCluster * sectorSize + sectorsPerCluster * sectorSize ≤
      (M.image d).size := by
    have hend : clusterLba mapCluster * sectorSize + sectorsPerCluster * sectorSize = 4096 := by
      decide
    rw [hend, himage]
    exact h.size
  have hmap := T.read_ok clusterSize hfirst hcluster (by decide)
  have htrace' := T.trace (clusterLba mapCluster) sectorsPerCluster clusterSize htrace
  generalize hgot' : BlockDevice.read d (clusterLba mapCluster) sectorsPerCluster clusterSize =
    got at hmap htrace' ⊢
  obtain ⟨e, raw, outcome⟩ := got
  obtain rfl : outcome = .ok () := hmap
  rw [(M.read_ok (by decide) hgot).2] at hgot
  rw [(M.read_ok (by decide) hgot').2] at hgot'
  refine ⟨e, ?_, rfl, htrace'⟩
  have hsigned : readSector v.disk bootSector = (d, .ok BootSector.signature) := by
    rw [readSector, hgot, ← h.signed]
    exact congrArg (fun w => (d, Except.ok w)) (Image.window_extract 512 _ 0)
  have hsaved : readCluster d mapCluster = (e, .ok v.map.encode) := by
    rw [readCluster, hgot', ← h.saved]
    simp only [contents, Contents.ofImage, ← himage]
    exact congrArg (fun w => (e, Except.ok w)) (Image.window_extract 2048 _ _)
  simp only [Volume.mount, hsigned, hsaved, if_true, AllocationMap.decode_encode]

end Medium

namespace MemoryDisk

/-- The writes that a disk still takes. -/
def room (d : MemoryDisk) : Option Nat := d.writeLimit.map (· - d.writes)

theorem writesFail_eq (d : MemoryDisk) : d.writesFail = (d.room == some 0) := by
  unfold writesFail room
  cases d.writeLimit with
  | none => rfl
  | some limit =>
    rw [Bool.eq_iff_iff, decide_eq_true_eq, Option.map_some, beq_iff_eq, Option.some.injEq,
      Nat.sub_eq_zero_iff_le]

/-- Disks in memory that read without fault, with the same bytes and room for as many writes. -/
structure Alike (d e : MemoryDisk) : Prop where
  reads : d.readsLeft = none ∧ e.readsLeft = none
  image : e.image = d.image
  room : e.room = d.room

theorem Alike.refusal {d e : MemoryDisk} (h : d.Alike e) (lba count size : Nat) :
    e.refusal lba count size = d.refusal lba count size := by
  simp only [MemoryDisk.refusal, h.image]

theorem read_of_reads {d : MemoryDisk} (h : d.readsLeft = none) (lba count capacity : Nat) :
    d.read lba count capacity =
      match d.refusal lba count capacity with
      | some e =>
        ({ d with transfers := d.transfers.push (.read lba count (.error e)) }, ⟨#[], .error e⟩)
      | none =>
        ({ d with transfers := d.transfers.push (.read lba count (.ok ())) },
          ⟨d.image.extract (lba * sectorSize) (lba * sectorSize + count * sectorSize),
            .ok ()⟩) := by
  obtain ⟨image, writes, limit, left, transfers⟩ := d
  obtain rfl : left = none := h
  rfl

theorem Alike.read {d e : MemoryDisk} (h : d.Alike e) (lba count capacity : Nat) :
    Coupled Alike (d.read lba count capacity) (e.read lba count capacity) := by
  have hrefusal := h.refusal lba count capacity
  obtain ⟨⟨hd, he⟩, himage, hroom⟩ := h
  rw [read_of_reads hd, read_of_reads he, hrefusal, himage]
  split
  · exact ⟨rfl, ⟨hd, he⟩, rfl, hroom⟩
  · exact ⟨rfl, ⟨hd, he⟩, rfl, hroom⟩

theorem Alike.write {d e : MemoryDisk} (h : d.Alike e) (bytes : Array UInt8) (lba count : Nat) :
    Coupled Alike (d.write bytes lba count) (e.write bytes lba count) := by
  have hrefusal := h.refusal lba count bytes.size
  obtain ⟨⟨hd, he⟩, himage, hroom⟩ := h
  simp only [MemoryDisk.write, writesFail_eq, himage, hrefusal, hroom]
  split
  · exact ⟨rfl, ⟨hd, he⟩, rfl, hroom⟩
  · refine ⟨rfl, ⟨hd, he⟩, rfl, ?_⟩
    have hless (f : MemoryDisk) : f.writeLimit.map (· - (f.writes + 1)) = f.room.map (· - 1) := by
      simp only [MemoryDisk.room, Option.map_map, Function.comp_def, Nat.sub_sub]
    exact (hless e).trans (hroom ▸ (hless d).symm)

theorem Alike.trace {d e : MemoryDisk} (h : d.Alike e) (lba count capacity : Nat) :
    d.Alike (e.read lba count capacity).1 := by
  obtain ⟨⟨hd, he⟩, himage, hroom⟩ := h
  rw [read_of_reads he]
  split
  · exact ⟨⟨hd, he⟩, himage, hroom⟩
  · exact ⟨⟨hd, he⟩, himage, hroom⟩

theorem Alike.read_ok {d : MemoryDisk} (h : d.Alike d) {lba count capacity : Nat}
    (hrange : lba * sectorSize + count * sectorSize ≤ d.image.size)
    (hroom : count * sectorSize ≤ capacity) : (d.read lba count capacity).2.outcome = .ok () := by
  have hnone : d.refusal lba count capacity = none := by
    unfold MemoryDisk.refusal
    rw [if_neg (by omega), if_neg (by omega)]
  rw [read_of_reads h.reads.1, hnone]

/-- A disk in memory that reads without fault leaves no trace of it but in what it records. -/
def steady : medium.Steady where
  Alike := Alike
  read lba count capacity h := h.read lba count capacity
  write bytes lba count h := h.write bytes lba count
  trace lba count capacity h := h.trace lba count capacity
  read_ok _ h hrange hroom := h.read_ok hrange hroom

end MemoryDisk

namespace Session
open Medium

variable {D : Type} [BlockDevice D] {M : Medium D} {s₀ s t : Session D} {a : Action}

theorem mirrors_step (h : M.Mirrored s.volume) (hstep : s.step a = .ok t)
    (hdevice : ∀ e, s.volume.outcome a ≠ .error (.device e)) : M.Mirrors s.volume t.volume := by
  cases a with
  | write parent name data =>
    rw [← volume_of_step_write hstep]
    exact h.write fun e he => hdevice e (Reply.discard_eq_error_iff.mpr he)
  | delete parent name =>
    obtain rfl := Except.ok.inj hstep
    exact h.delete hdevice
  | read parent name capacity =>
    obtain rfl := Except.ok.inj hstep
    exact h.of_same (M.same_read ..)
  | readDirectory parent name capacity =>
    obtain rfl := Except.ok.inj hstep
    exact h.of_same (M.same_readDirectory ..)
  | stat parent name =>
    obtain rfl := Except.ok.inj hstep
    exact h.of_same (M.same_stat ..)
  | remount =>
    simp only [step] at hstep
    cases hmount : (Volume.mount s.volume.disk).volume with
    | error e =>
      rw [hmount] at hstep
      cases hstep
    | ok w =>
      rw [hmount] at hstep
      obtain rfl := Except.ok.inj hstep
      exact h.remount hmount

/-- From any device that mounts, requests of which none fails on the device keep the signature, the
map in memory equal to that on the device, and its reserved entries. Where the device reads without
fault, mounting it again takes two reads, gives the map in memory, and is not noticed later. -/
theorem remount_invisible (M : Medium D) (T : M.Steady) {d : D} {actions : List Action}
    (hmount : (Volume.mount d).volume = .ok s₀.volume)
    (hrun : Run (fun s a _ => ∀ e, s.volume.outcome a ≠ .error (.device e)) s₀ actions s) :
    (M.contents s.volume).boot = BootSector.signature ∧
      M.savedMap s.volume = s.volume.map ∧
      s.volume.map.get? 0 = s₀.volume.map.get? 0 ∧ s.volume.map.get? 1 = s₀.volume.map.get? 1 ∧
      (T.Alike s.volume.disk s.volume.disk →
        ∃ w, Volume.mount s.volume.disk = ⟨w.disk, .ok w.map, [.mounted w.map.freeCount]⟩ ∧
          w.map = s.volume.map ∧
          w.disk = (BlockDevice.read (BlockDevice.read s.volume.disk bootSector 1 sectorSize).1
            (clusterLba mapCluster) sectorsPerCluster clusterSize).1 ∧
          ∀ later, answers { s with volume := w } later = s.answers later) := by
  have hstart : M.Mirrors s₀.volume s₀.volume := (mirrored_mount hmount).of_same (.refl _)
  have hmirrors : M.Mirrors s₀.volume s.volume := by
    refine hrun.invariant (motive := fun t => M.Mirrors s₀.volume t.volume) hstart ?_
    intro t u a ht hstep hdevice
    have hnext := mirrors_step ht.toMirrored hstep hdevice
    exact ⟨hnext.toMirrored, hnext.reserved.1.trans ht.reserved.1,
      hnext.reserved.2.trans ht.reserved.2⟩
  have hs := hmirrors.toMirrored
  refine ⟨hs.signed, ?_, hmirrors.reserved.1, hmirrors.reserved.2, fun hreads => ?_⟩
  · rw [savedMap, hs.saved, AllocationMap.decode_encode]
  · obtain ⟨e, hagain, he, halike⟩ := hs.mount_eq T hreads
    refine ⟨⟨e, s.volume.map⟩, hagain, rfl, he, fun later => ?_⟩
    exact answers_alike (A := T.likeness) (s := s) (w := ⟨e, s.volume.map⟩) ⟨rfl, halike⟩
      (fun _ _ _ h => T.read _ _ _ h) later

/-- A zeroed disk, mounted, with one file written to it. -/
theorem remount_after_first_write :
    ∃ s₀ s w, (Volume.mount (MemoryDisk.create 512)).volume = .ok s₀.volume ∧
      Run (fun s a _ => ∀ e, s.volume.outcome a ≠ .error (.device e)) s₀
        [.write rootCluster (.ofParts [65] []) (.ofArray #[7])] s ∧
      (Volume.mount s.volume.disk).volume = .ok w ∧ w.map = s.volume.map ∧
      ∀ later, answers { s with volume := w } later = s.answers later := by
  obtain ⟨d, s₀, hd, hwrites, hfresh, hmount⟩ :=
    mount_unsigned (MemoryDisk.usable_create (Nat.le_refl 512)) rfl
      (BootSector.window_replicate_ne_signature _)
  obtain ⟨hs, hok⟩ :=
    first_write_ok hd hwrites hfresh (.ofParts [65] []) (.ofArray #[7]) (by decide)
  have hadmits := hs.admits_root (.ofParts [65] []) (.ofArray #[7])
  obtain ⟨s, hstep, husable, -⟩ := step_effect hs (hadmits.parentsIn hs)
  have hrun : Run (fun s a _ => ∀ e, s.volume.outcome a ≠ .error (.device e)) s₀
      [.write rootCluster (.ofParts [65] []) (.ofArray #[7])] s :=
    Run.nil.snoc hstep fun e => outcome_write_ne_error hok (.device e)
  obtain ⟨-, -, -, -, hagain⟩ := remount_invisible MemoryDisk.medium MemoryDisk.steady hmount hrun
  obtain ⟨w, hw, hmap, -, hlater⟩ := hagain ⟨⟨husable.ready, husable.ready⟩, rfl, rfl⟩
  exact ⟨s₀, s, w, hmount, hrun, by rw [hw]; rfl, hmap, hlater⟩

end Session

end ClusterFs
