import ClusterFs.Proofs.WriteOutcome

/-!
Formats that stop early. The signature is written before the map and the table of the root. A format
of which no write reached the device is made again by the next mount; once the signature is there
the next mount takes the map and the root as they are, which makes an empty volume only if what the
format did not reach happened to be that of one.
-/
namespace ClusterFs
open AllocationMap

theorem AllocationMap.freeCount_formatted : formatted.freeCount = 509 := by
  rw [freeCount_eq, freeClusters_formatted, List.length_map, List.length_range']

/-- A cluster of zeros, taken for a map, has empty entries only. -/
theorem AllocationMap.decode_zeros :
    decode (Vector.replicate 2048 0) = ⟨Vector.replicate 512 unused⟩ := by
  have hword : LittleEndian.word32 0 0 0 0 = unused := by decide
  apply ext_get?
  intro c
  simp only [decode, get?, LittleEndian.word32At, Vector.getElem_replicate, hword,
    Vector.getElem?_ofFn, Vector.getElem?_replicate, dite_eq_ite]

theorem AllocationMap.freeCount_empty : freeCount ⟨Vector.replicate 512 unused⟩ = 510 := by
  rw [freeCount, Vector.toList_replicate, List.drop_replicate, List.count_replicate_self]

theorem AllocationMap.get?_empty_ne (c : UInt32) :
    get? ⟨Vector.replicate 512 unused⟩ c ≠ some endOfChain := by
  intro h
  obtain ⟨hc, hentry⟩ := Vector.getElem?_eq_some_iff.mp h
  rw [Vector.getElem_replicate] at hentry
  exact absurd hentry (by decide)

namespace Volume
open Contents

variable {D : Type} [BlockDevice D] {S : Storage D} {d e : D} {v : Volume D} {k : Nat}

/-- An empty volume: its root is accepted and holds no name, 509 clusters are free, and a write of
any data that they hold succeeds. -/
structure Blank (v : Volume D) : Prop where
  opens : ∃ table, (v.openDirectory rootCluster).2 = .ok table
  free : v.map.freeCount = 509
  lacks : ∀ name, (v.stat rootCluster name).2 = .error .notFound
  takes : ∀ (name : ShortName) (data : Payload), requiredClusters data.size ≤ 509 →
    ∃ first, (v.write rootCluster name data).outcome = .ok first

theorem blank_iff (h : S.Usable v.disk) (hleft : S.writesLeft v.disk = none) :
    v.Blank ↔ (S.contents v).accepts rootCluster = true ∧
      (∀ i, ((S.contents v).child rootCluster i).isUsed = false) ∧ v.map.freeCount = 509 := by
  constructor
  · intro hblank
    obtain ⟨table, htable⟩ := hblank.opens
    obtain ⟨d, hopen, -⟩ := Storage.openDirectory_eq h rootCluster
    rw [hopen] at htable
    have haccepts := (directory_eq_ok htable).1
    refine ⟨haccepts, fun i => ?_, hblank.free⟩
    -- a used child would be found under its name
    by_contra hused
    rw [Bool.not_eq_false] at hused
    have hlacks := hblank.lacks ((S.contents v).child rootCluster i).name
    rw [Storage.stat_snd h, lookup_of_accepts haccepts] at hlacks
    have hfound : ¬ ((S.contents v).table rootCluster).find?
        ((S.contents v).child rootCluster i).name = none :=
      fun hnone => find?_eq_none_iff_not_holds.mp hnone ⟨i, Entry.isUsed_iff.mp hused, rfl⟩
    obtain ⟨j, hj⟩ := Option.ne_none_iff_exists'.mp hfound
    simp [hj] at hlacks
  · rintro ⟨haccepts, hunused, hfree⟩
    have hopens := accepts_iff_opens.mp haccepts
    have hholds (name : ShortName) : ¬ (S.contents v).Holds rootCluster name := by
      rintro ⟨i, hused, -⟩
      exact Entry.isUsed_eq_false_iff.mp (hunused i) hused
    have hfull : ¬ (S.contents v).Full rootCluster := fun hfull =>
      Entry.isUsed_eq_false_iff.mp (hunused 0) (hfull 0)
    refine ⟨?_, hfree, fun name => ?_, fun name data hsize => ?_⟩
    · obtain ⟨d, hopen, -⟩ := Storage.openDirectory_eq h rootCluster
      exact ⟨_, by rw [hopen, directory_of_accepts haccepts]⟩
    · rw [Storage.stat_snd h, lookup_of_accepts haccepts,
        find?_eq_none_iff_not_holds.mpr (hholds name)]
    · have hroom : ¬ (S.contents v).map.Crowded data.size := by
        rw [crowded_iff, Storage.map_contents, hfree, not_or]
        rw [requiredClusters_eq_max, clustersFor] at hsize ⊢
        simp only [wordLimit, clusterSize] at hsize ⊢
        omega
      obtain ⟨p, hp⟩ := exists_placement hopens (hholds name) hfull hroom
      rcases write_placed h hleft rootCluster name data with
        ⟨e, -, herror⟩ | ⟨q, houtcome, -, -⟩
      · rw [hp] at herror
        cases herror
      · exact ⟨_, houtcome⟩

/-- Of steps that take one write each, a device with `k` writes left carries out the first `k`. -/
theorem done_eq_take {steps done rest : List Step} (hsteps : steps = done ++ rest)
    (hstores : ∀ step ∈ steps, step.stores = 1) (h : S.Advance d e done rest)
    (hleft : S.writesLeft d = some k) : done = steps.take k := by
  have hlength : Step.storesAll done = done.length := by
    have hdone : ∀ step ∈ done, step.stores = 1 := fun step hstep =>
      hstores step (hsteps ▸ List.mem_append_left _ hstep)
    clear hsteps h
    induction done with
    | nil => rfl
    | cons step done ih =>
      obtain ⟨hstep, hdone⟩ := List.forall_mem_cons.mp hdone
      rw [Step.storesAll, hstep, ih hdone, List.length_cons, Nat.add_comm]
  have hfits := h.fits k hleft
  rw [hlength] at hfits
  rw [hsteps]
  by_cases hrest : rest = []
  · rw [hrest, List.append_nil, List.take_of_length_le hfits]
  · have hstopped := hleft.symm.trans (h.stopped hrest)
    rw [hlength, Option.some.injEq] at hstopped
    rw [hstopped, List.take_left]

theorem map_applyAll_take_formatSteps (x : Contents) (j : Nat) :
    (x.applyAll (formatSteps.take j)).map = x.map := by
  rcases j with _ | _ | j
  · rfl
  · rfl
  · simp only [formatSteps, List.take_succ_cons, List.take_nil]
    rfl

/-- A format on a device with `k` writes left: no write reached the device, or the signature and the
first `k - 1` of the other writes. -/
theorem format_stopped (h : S.Usable d) (hleft : S.writesLeft d = some k) :
    S.Usable (format d).disk ∧ (k = 0 ∧ S.image (format d).disk = S.image d ∨
      ∃ (j : Nat) (x : Contents), k = j + 1 ∧ x.boot = BootSector.signature ∧ x.map = formatted ∧
        (∀ c, 0 < c.toNat → x.cluster c = (S.contents ⟨d, formatted⟩).cluster c) ∧
        S.contents ⟨(format d).disk, formatted⟩ = x.applyAll (formatSteps.take j)) := by
  have hpos : bootSector + 1 ≤ S.sectors d := Nat.lt_of_lt_of_le (by decide) h.sectors
  cases k with
  | zero =>
    have hsector : BootSector.signature.toArray.size = 1 * sectorSize := by simp
    obtain ⟨f, hwrite, hready, himage, hsectors, -⟩ := S.write_fault h.ready hpos hsector hleft
    rw [format, hwrite]
    exact ⟨⟨hready, hsectors ▸ h.sectors⟩, .inl ⟨rfl, himage⟩⟩
  | succ j =>
    obtain ⟨f, hwrite, hready, hsectors, hf, hboot, hcluster⟩ :=
      Storage.writeSignature_eq h.ready hpos (by simp [hleft]) formatted
    rw [hleft] at hf
    change S.writesLeft f = some j at hf
    obtain ⟨w, outcome, done, rest, hperform, hdone, hadvance, hx, -⟩ :=
      Storage.perform_spec (v := ⟨f, formatted⟩) ⟨hready, hsectors ▸ h.sectors⟩
        Storage.inData_formatSteps
    obtain rfl := done_eq_take hdone (by simp [formatSteps, Step.stores]) hadvance hf
    obtain ⟨e, map⟩ := w
    obtain rfl : map = formatted := by
      have hmap := congrArg Contents.map hx
      rwa [map_applyAll_take_formatSteps] at hmap
    have hdisk : (format d).disk = e := by
      rw [format, hwrite]
      simp only [hperform]
      cases outcome <;> rfl
    rw [hdisk]
    exact ⟨hadvance.usable, .inr ⟨j, S.contents ⟨f, formatted⟩, rfl, hboot, rfl, hcluster, hx⟩⟩

/-- Mounting an unsigned device formats it. -/
theorem disk_mount_unsigned (h : S.Usable d)
    (hunsigned : Image.window 512 (S.image d) 0 ≠ BootSector.signature) :
    ∃ f, S.Unchanged d f ∧ (mount d).disk = (format f).disk := by
  obtain ⟨f, hsector, hf⟩ := Storage.readSector_eq (v := ⟨d, formatted⟩) h
  refine ⟨f, hf, ?_⟩
  simp only [mount, hsector, Storage.contents, if_neg hunsigned]

/-- A fresh volume is blank. -/
theorem blank_fresh {s : Session D} (h : S.Usable d) (hleft : S.writesLeft d = none)
    (hfresh : Session.fresh d = .ok s) : s.volume.Blank := by
  obtain ⟨e, he, hs, htable⟩ := Session.fresh_eq h hleft
  obtain rfl := Except.ok.inj (he.symm.trans hfresh)
  refine (blank_iff hs.usable hs.writes).mpr ⟨?_, fun i => ?_, freeCount_formatted⟩
  · exact hs.structured.accepts _ (Finset.mem_singleton_self _)
  · rw [child, htable, Directory.get_children_create, Entry.isUsed_empty]

/-- A signed device is mounted with the map and the root that it holds. -/
theorem blank_mount_signed (h : S.Usable e) (hleft : S.writesLeft e = none)
    (hsigned : (S.contents ⟨e, formatted⟩).boot = BootSector.signature) :
    ∃ w, (mount e).volume = .ok w ∧ w.map = (S.contents ⟨e, formatted⟩).reload.map ∧
      (w.Blank ↔ (S.contents ⟨e, formatted⟩).reload.accepts rootCluster = true ∧
        (∀ i, ((S.contents ⟨e, formatted⟩).reload.child rootCluster i).isUsed = false) ∧
        (S.contents ⟨e, formatted⟩).reload.map.freeCount = 509) := by
  obtain ⟨f, hmount, hf⟩ := Storage.mount_eq (v := ⟨e, formatted⟩) h hsigned
  refine ⟨⟨f, (S.contents ⟨e, formatted⟩).reload.map⟩, ?_, rfl, ?_⟩
  · rw [hmount]
    rfl
  · have hcontents : S.contents ⟨f, (S.contents ⟨e, formatted⟩).reload.map⟩ =
        (S.contents ⟨e, formatted⟩).reload := by
      rw [hf.contents, reload]
      rfl
    rw [blank_iff hf.usable (hf.writesLeft.trans hleft), hcontents]

/-- What the next mount takes of the first `j` steps of a format: the old map or an empty one, and
the old root or an empty one. -/
theorem reload_take_formatSteps {x : Contents} (hmap : x.map = formatted) (j : Nat) :
    (x.applyAll (formatSteps.take j)).boot = x.boot ∧
      (x.applyAll (formatSteps.take j)).reload.map =
        (if j = 0 then .decode (x.cluster mapCluster) else formatted) ∧
      (x.applyAll (formatSteps.take j)).reload.table rootCluster =
        (if j ≤ 1 then x.table rootCluster else Directory.create rootName rootCluster) := by
  have htable (y : Contents) : y.reload.table rootCluster = y.table rootCluster := by
    simp only [table, cluster_reload]
  rw [map_reload, htable]
  rcases j with _ | _ | j
  · exact ⟨rfl, rfl, rfl⟩
  · simp only [formatSteps, List.take_succ_cons, List.take_zero, applyAll_cons, applyAll_nil, apply]
    refine ⟨rfl, ?_, ?_⟩
    · rw [cluster_saveMap_self, hmap, AllocationMap.decode_encode]
      rfl
    · simp only [table, cluster_saveMap_of_ne _ (show rootCluster ≠ mapCluster by decide)]
      rfl
  · obtain ⟨hboot, hsaved, hroot⟩ := Storage.applyAll_formatSteps x
    have hall : formatSteps.take (j + 1 + 1) = formatSteps := by
      simp only [formatSteps, List.take_succ_cons, List.take_nil]
    rw [hall, table, hsaved, hroot, hmap, AllocationMap.decode_encode, Directory.decode_encode,
      if_neg (Nat.succ_ne_zero _), if_neg (by omega)]
    exact ⟨hboot, rfl, rfl⟩

/-- The next mount after a format that wrote the signature and `j` of its other steps, in terms of
what the device held before. -/
theorem blank_after_signature {j : Nat} (hd : S.Usable d) (hleft : S.writesLeft d = some (j + 1))
    (he : S.Usable e) (hnone : S.writesLeft e = none)
    (himage : S.image e = S.image (format d).disk) :
    let old := (S.contents ⟨d, formatted⟩).reload
    ∃ w, (mount e).volume = .ok w ∧ w.map = (if j = 0 then old.map else formatted) ∧
      (w.Blank ↔ 2 ≤ j ∨
        (old.table rootCluster).describes rootCluster = true ∧
        (∀ i, (old.child rootCluster i).isUsed = false) ∧
        (j = 1 ∨ old.map.get? rootCluster = some endOfChain ∧ old.map.freeCount = 509)) := by
  intro old
  obtain ⟨_, x, hj, hboot, hmap, hcluster, hx⟩ :=
    (format_stopped hd hleft).2.resolve_left fun h => Nat.succ_ne_zero j h.1
  obtain rfl := Nat.succ.inj hj
  have hcontents : S.contents ⟨e, formatted⟩ = x.applyAll (formatSteps.take j) := by
    rw [← hx, Storage.contents_eq, Storage.contents_eq, himage]
  obtain ⟨hsigned, hnewMap, hnewTable⟩ := reload_take_formatSteps hmap j
  rw [← hcontents] at hsigned hnewMap hnewTable
  have holdMap : old.map = .decode (x.cluster mapCluster) := by
    rw [map_reload, hcluster _ (by decide)]
  have holdTable : old.table rootCluster = x.table rootCluster := by
    simp only [table, hcluster rootCluster (by decide), old, cluster_reload]
  obtain ⟨w, hmount, hmap, hblank⟩ := blank_mount_signed he hnone (hsigned.trans hboot)
  refine ⟨w, hmount, by rw [hmap, hnewMap, holdMap], ?_⟩
  have hdata : isData rootCluster = true := by decide
  have hend : formatted.get? rootCluster = some endOfChain := by
    rw [get?_formatted (by decide)]
    rfl
  rw [hblank]
  simp only [accepts, Bool.and_eq_true, isTerminal_iff, child, hnewMap, hnewTable, holdMap,
    holdTable, hdata, true_and]
  rcases j with _ | _ | j
  · -- both the map and the root are those that the device held
    simp only [if_true, Nat.zero_le]
    constructor
    · rintro ⟨⟨hentry, hdescribes⟩, hunused, hfree⟩
      exact .inr ⟨hdescribes, hunused, .inr ⟨hentry, hfree⟩⟩
    · rintro (h | ⟨hdescribes, hunused, h | ⟨hentry, hfree⟩⟩)
      · omega
      · omega
      · exact ⟨⟨hentry, hdescribes⟩, hunused, hfree⟩
  · -- the map is the new one
    rw [if_neg (Nat.succ_ne_zero 0), if_pos (Nat.le_refl 1)]
    constructor
    · rintro ⟨⟨-, hdescribes⟩, hunused, -⟩
      exact .inr ⟨hdescribes, hunused, .inl rfl⟩
    · rintro (h | ⟨hdescribes, hunused, -⟩)
      · omega
      · exact ⟨⟨hend, hdescribes⟩, hunused, freeCount_formatted⟩
  · rw [if_neg (Nat.succ_ne_zero _), if_neg (by omega)]
    refine iff_of_true ⟨⟨hend, Directory.describes_create ..⟩, fun i => ?_, freeCount_formatted⟩
      (.inl (by omega))
    rw [Directory.get_children_create, Entry.isUsed_empty]

/-- The volume after a format that stopped with `k` writes done is empty exactly if none or all of
them were, or the old table of the root describes an empty root and the map that the next mount
takes is an empty one, as written or, with the signature alone, as it happened to be before. -/
theorem blank_after_stopped_format (hd : S.Usable d) (hleft : S.writesLeft d = some k)
    (hunsigned : Image.window 512 (S.image d) 0 ≠ BootSector.signature) (he : S.Usable e)
    (hnone : S.writesLeft e = none)
    (himage : S.image e = S.image (mount d).disk ∨ S.image e = S.image (format d).disk) :
    let old := (S.contents ⟨d, formatted⟩).reload
    ∃ w, (mount e).volume = .ok w ∧
      (w.Blank ↔ k = 0 ∨ 3 ≤ k ∨
        (old.table rootCluster).describes rootCluster = true ∧
        (∀ i, (old.child rootCluster i).isUsed = false) ∧
        (k = 2 ∨ old.map.get? rootCluster = some endOfChain ∧ old.map.freeCount = 509)) := by
  intro old
  -- a mount of the unsigned device formats it
  obtain ⟨f, hf, himage⟩ : ∃ f, S.Unchanged d f ∧ S.image e = S.image (format f).disk := by
    rcases himage with himage | himage
    · obtain ⟨f, hf, hmount⟩ := disk_mount_unsigned hd hunsigned
      exact ⟨f, hf, hmount ▸ himage⟩
    · exact ⟨d, .refl hd, himage⟩
  have hleft' := hf.writesLeft.trans hleft
  cases k with
  | zero =>
    obtain ⟨-, hsame⟩ := (format_stopped hf.usable hleft').2.resolve_right fun ⟨_, _, h, _⟩ =>
      Nat.succ_ne_zero _ h.symm
    rw [hsame, hf.image] at himage
    obtain ⟨g, s, hg, hgnone, hfresh, hmount⟩ :=
      Session.mount_unsigned he hnone (himage ▸ hunsigned)
    exact ⟨s.volume, hmount, iff_of_true (blank_fresh hg hgnone hfresh) (.inl rfl)⟩
  | succ j =>
    obtain ⟨w, hmount, -, hblank⟩ := blank_after_signature hf.usable hleft' he hnone himage
    rw [hf.contents] at hblank
    refine ⟨w, hmount, hblank.trans ⟨?_, ?_⟩⟩
    · rintro (h | ⟨hdescribes, hunused, h⟩)
      · exact .inr (.inl (by omega))
      · exact .inr (.inr ⟨hdescribes, hunused, h.imp_left (congrArg (· + 1))⟩)
    · rintro (h | h | ⟨hdescribes, hunused, h⟩)
      · omega
      · exact .inl (by omega)
      · exact .inr ⟨hdescribes, hunused, h.imp_left Nat.succ.inj⟩

variable {m : MemoryDisk}

/-- A disk in memory on which a mount began to format, once it takes writes again. -/
theorem usable_after_stopped_mount (h : MemoryDisk.storage.Usable m)
    (hleft : MemoryDisk.storage.writesLeft m = some k)
    (hunsigned : Image.window 512 m.image 0 ≠ BootSector.signature) :
    MemoryDisk.storage.Usable ((mount m).disk.failWritesAfter none) := by
  obtain ⟨f, hf, hmount⟩ := disk_mount_unsigned h hunsigned
  rw [hmount]
  exact MemoryDisk.usable_failWritesAfter
    (format_stopped hf.usable (hf.writesLeft.trans hleft)).1 none

/-- A zeroed disk that refused every write of a format, mounted once it takes writes. -/
theorem blank_after_refused_format :
    ∃ w, (mount ((mount ((MemoryDisk.create 512).failWritesAfter (some 0))).disk.failWritesAfter
        none)).volume = .ok w ∧ w.Blank := by
  have hd := MemoryDisk.usable_failWritesAfter (MemoryDisk.usable_create (Nat.le_refl 512)) (some 0)
  have hleft := MemoryDisk.writesLeft_failWritesAfter (MemoryDisk.create 512) 0
  have hunsigned := BootSector.window_replicate_ne_signature (512 * clusterSize)
  obtain ⟨w, hmount, hblank⟩ := blank_after_stopped_format hd hleft hunsigned
    (usable_after_stopped_mount hd hleft hunsigned) rfl
    (.inl (MemoryDisk.image_failWritesAfter _ none))
  exact ⟨w, hmount, hblank.mpr (.inl rfl)⟩

/-- A zeroed disk takes the signature and no more: the next mount finds it and takes the zeros for a
map, by which all clusters are free and the root is no directory. -/
theorem signature_alone_not_blank :
    Image.window 512 (MemoryDisk.create 512).image 0 ≠ BootSector.signature ∧
      ∃ w, (mount ((mount ((MemoryDisk.create 512).failWritesAfter (some 1))).disk.failWritesAfter
          none)).volume = .ok w ∧ w.map.freeCount = 510 ∧
        (w.openDirectory rootCluster).2 = .error .invalidParent ∧ ¬ w.Blank := by
  have hd := MemoryDisk.usable_failWritesAfter (MemoryDisk.usable_create (Nat.le_refl 512)) (some 1)
  have hleft := MemoryDisk.writesLeft_failWritesAfter (MemoryDisk.create 512) 1
  have hunsigned := BootSector.window_replicate_ne_signature (512 * clusterSize)
  have he := usable_after_stopped_mount hd hleft hunsigned
  obtain ⟨f, hf, hmount⟩ := disk_mount_unsigned hd hunsigned
  have himage := congrArg MemoryDisk.storage.image hmount
  obtain ⟨w, hw, hmap, -⟩ := blank_after_signature hf.usable (hf.writesLeft.trans hleft) he rfl
    ((MemoryDisk.image_failWritesAfter _ none).trans himage)
  have hzeros : (MemoryDisk.storage.contents
      ⟨(MemoryDisk.create 512).failWritesAfter (some 1), formatted⟩).cluster mapCluster =
        Vector.replicate 2048 0 :=
    Image.window_replicate 2048 (512 * clusterSize) (clusterLba mapCluster * sectorSize)
  rw [if_pos rfl, hf.contents, map_reload, hzeros, decode_zeros] at hmap
  have hterminal : w.map.isTerminal rootCluster = false := by
    rw [← Bool.not_eq_true, isTerminal_iff, hmap]
    exact fun h => get?_empty_ne rootCluster h.2
  have hrefused : (w.openDirectory rootCluster).2 = .error .invalidParent := by
    rw [openDirectory, if_neg (Bool.eq_false_iff.mp hterminal)]
  refine ⟨hunsigned, w, hw, hmap ▸ freeCount_empty, hrefused, fun hblank => ?_⟩
  obtain ⟨table, hopens⟩ := hblank.opens
  cases hrefused.symm.trans hopens

end Volume

end ClusterFs
