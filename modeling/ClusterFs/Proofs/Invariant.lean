import ClusterFs.Proofs.Transitions

/-!
The structure of a volume over whole runs. A volume that was just formatted has only an empty root,
and every run of requests that name no cluster of a file as their parent keeps the structure.
-/
namespace ClusterFs
open AllocationMap

/-- A zeroed device is not signed. -/
theorem BootSector.window_replicate_ne_signature (n : Nat) :
    Image.window 512 (Array.replicate n 0) 0 ≠ signature := by
  rw [Image.window_replicate]
  intro h
  -- the signature ends in a byte that is not zero
  have hlast := congrArg (fun v => v[511]) h
  simp only [Vector.getElem_replicate, signature, Vector.getElem_ofFn] at hlast
  exact absurd hlast (by decide)

/-- An empty map has room for up to 509 clusters. -/
theorem Volume.place_empty {table : Directory} {name : ShortName} {i : Fin 62} {size : Nat}
    (hfind : table.find? name = none) (hvacancy : table.vacancy? = some i)
    (h : requiredClusters size ≤ 509) :
    place formatted table name size =
      .ok ⟨i, (List.range' 3 (requiredClusters size)).map UInt32.ofNat⟩ := by
  have hword : ¬ wordLimit ≤ size := by
    rw [requiredClusters_eq_max, clustersFor] at h
    simp only [wordLimit, clusterSize] at h ⊢
    omega
  have hfree : formatted.findFree (requiredClusters size) =
      .ok ((List.range' 3 (requiredClusters size)).map UInt32.ofNat) := by
    rw [findFree, freeClusters_formatted, List.length_map, List.length_range', if_pos h,
      ← List.map_take, List.take_range'_of_length_ge h]
  simp only [place, hfind, hvacancy, hfree, if_neg hword]
  rfl

/-- An empty volume has room for a first write of up to 509 clusters. -/
theorem Volume.place_formatted (parent name : ShortName) (c : UInt32) {size : Nat}
    (h : requiredClusters size ≤ 509) :
    place formatted (Directory.create parent c) name size =
      .ok ⟨0, (List.range' 3 (requiredClusters size)).map UInt32.ofNat⟩ :=
  place_empty (Directory.find?_create ..) (Directory.vacancy?_create ..) h

/-- An empty root on an empty map is structured. -/
theorem Contents.structured_formatted {x : Contents} (hboot : x.boot = BootSector.signature)
    (hmap : x.map = formatted) (hsaved : x.cluster mapCluster = formatted.encode)
    (hroot : x.cluster rootCluster = (Directory.create Volume.rootName rootCluster).encode) :
    x.Structured {rootCluster} ∅ := by
  have hend : x.map.get? rootCluster = some endOfChain := by
    rw [hmap, get?_formatted (by decide)]
    rfl
  obtain ⟨haccepts, hempty⟩ := accepts_of_create (by decide) hend hroot
  constructor
  · exact hboot
  · rw [hmap, hsaved]
  · rw [hmap, get?_formatted (by decide), get?_formatted (by decide)]
    exact ⟨rfl, rfl⟩
  · exact Finset.mem_singleton_self _
  · exact Finset.disjoint_empty_right _
  · intro c
    simp only [Finset.mem_singleton, Finset.notMem_empty, or_false]
    constructor
    · rintro rfl
      refine ⟨by decide, ?_⟩
      rw [hend]
      decide
    · rintro ⟨hdata, hused⟩
      obtain ⟨hlow, hhigh⟩ := isData_iff.mp hdata
      rw [hmap, get?_formatted hhigh, if_neg (by omega), if_neg (by omega)] at hused
      by_contra hne
      have htwo : c.toNat ≠ 2 := fun h => hne (UInt32.toNat_inj.mp h)
      rw [if_neg htwo] at hused
      contradiction
  · intro c hc
    rw [Finset.mem_singleton.mp hc]
    exact haccepts
  · intro p hp i hused
    rw [Finset.mem_singleton.mp hp, hempty] at hused
    contradiction
  · intro p hp i j hused
    rw [Finset.mem_singleton.mp hp, hempty] at hused
    contradiction
  · intro p hp q hq i j c hused
    rw [Finset.mem_singleton.mp hp, hempty] at hused
    contradiction
  · intro p hp i hused
    rw [Finset.mem_singleton.mp hp, hempty] at hused
    contradiction

namespace Session
open Contents

variable {D : Type} [BlockDevice D] {S : Storage D} {s t : Session D}

/-- A fresh session is healthy, and its root has no children. -/
theorem fresh_eq {d : D} (hd : S.Usable d) (hwrites : S.writesLeft d = none) :
    ∃ e, fresh d = .ok ⟨⟨e, formatted⟩, {rootCluster}, ∅⟩ ∧
      (⟨⟨e, formatted⟩, {rootCluster}, ∅⟩ : Session D).Healthy S ∧
      (S.contents ⟨e, formatted⟩).table rootCluster =
        Directory.create Volume.rootName rootCluster := by
  obtain ⟨e, hformat, he, hnone, hboot, hsaved, hroot⟩ := Storage.format_eq hd hwrites
  refine ⟨e, ?_, ⟨he, hnone, structured_formatted hboot rfl hsaved hroot⟩, ?_⟩
  · simp only [fresh, hformat, Volume.Mounting.volume]
    rfl
  · unfold Contents.table
    rw [hroot, Directory.decode_encode]

/-- Mounting a device without the signature formats it. -/
theorem mount_unsigned {d : D} (hd : S.Usable d) (hwrites : S.writesLeft d = none)
    (hunsigned : Image.window 512 (S.image d) 0 ≠ BootSector.signature) :
    ∃ e s₀, S.Usable e ∧ S.writesLeft e = none ∧ fresh e = .ok s₀ ∧
      (Volume.mount d).volume = .ok s₀.volume := by
  obtain ⟨e, hsector, he⟩ := Storage.readSector_eq (v := ⟨d, formatted⟩) hd
  have hleft := he.writesLeft.trans hwrites
  obtain ⟨f, hfresh, -, -⟩ := fresh_eq he.usable hleft
  refine ⟨e, _, he.usable, hleft, hfresh, ?_⟩
  unfold fresh at hfresh
  cases hformat : (Volume.format e).volume with
  | error cause =>
    rw [hformat] at hfresh
    cases hfresh
  | ok v =>
    rw [hformat] at hfresh
    rw [← Except.ok.inj hfresh, ← hformat]
    simp only [Volume.mount, hsector, Storage.contents, if_neg hunsigned]
    rfl

/-- A write whose placement is found is carried out. -/
theorem Healthy.write_ok (hs : s.Healthy S) {parent : UInt32} {name : ShortName} {data : Payload}
    {p : Volume.Placement} (hparent : parent ∈ s.directories)
    (hplace : Volume.place s.volume.map ((S.contents s.volume).table parent) name data.size =
      .ok p) :
    (s.volume.write parent name data).outcome = .ok p.first := by
  have hplacement : (S.contents s.volume).placement parent name data.size = .ok p :=
    placement_eq_ok_iff.mpr ⟨hs.structured.accepts parent hparent, hplace⟩
  rcases Storage.write_spec hs.usable parent name data with
    ⟨e, d, -, -, herror⟩ | ⟨q, done, rest, hq, -, hadvance, -, hend⟩
  · rw [hplacement] at herror
    contradiction
  · obtain rfl := Except.ok.inj (hq.symm.trans hplacement)
    rcases hend with ⟨-, houtcome⟩ | ⟨hne, -⟩
    · exact houtcome
    · exact absurd (hadvance.writesLeft_eq_none hs.writes).2 hne

/-- A first write of up to 509 clusters into the root succeeds. -/
theorem first_write_ok {d : D} (hd : S.Usable d) (hwrites : S.writesLeft d = none)
    (hs : fresh d = .ok s) (name : ShortName) (data : Payload)
    (hsize : requiredClusters data.size ≤ 509) :
    s.Healthy S ∧ (s.volume.write rootCluster name data).outcome = .ok 3 := by
  obtain ⟨e, hfresh, hhealthy, htable⟩ := fresh_eq hd hwrites
  obtain rfl := Except.ok.inj (hfresh.symm.trans hs)
  have hpos := requiredClusters_pos data.size
  have hplace := Volume.place_formatted Volume.rootName name rootCluster hsize
  rw [← htable] at hplace
  have hwrite := hhealthy.write_ok (Finset.mem_singleton_self _) hplace
  obtain ⟨count, hcount⟩ := Nat.exists_eq_add_of_lt hpos
  rw [hcount] at hwrite
  exact ⟨hhealthy, hwrite.trans (by simp [Volume.Placement.first, List.range'_succ])⟩

theorem Healthy.admits_root (hs : s.Healthy S) (name : ShortName) (data : Payload) :
    s.Admits (.write rootCluster name data) :=
  hs.admits fun _ h => Option.some.inj h ▸ hs.structured.root_mem

/-- The session after a first write into the root, and the place of the new entry. -/
theorem exists_first_write {d : D} (hd : S.Usable d) (hwrites : S.writesLeft d = none)
    (hs : fresh d = .ok s) (name : ShortName) (data : Payload)
    (hsize : requiredClusters data.size ≤ 509) :
    ∃ t i, s.step (.write rootCluster name data) = .ok t ∧
      Run (fun s a _ => s.Admits a) s [.write rootCluster name data] t ∧ t.Healthy S ∧
      (S.contents t.volume).locate rootCluster name = .ok i ∧
      ((S.contents t.volume).child rootCluster i).isDirectory = decide (data.size = 0) := by
  obtain ⟨hhealthy, hwrite⟩ := first_write_ok hd hwrites hs name data hsize
  have hadmits := hhealthy.admits_root name data
  obtain ⟨t, hstep, -, -, heffect⟩ := step_effect hhealthy (hadmits.parentsIn hhealthy)
  have ht := (hhealthy.step (hadmits.parentsIn hhealthy) hstep).1
  obtain ⟨p, -, hparent, hplace, hcontents, -⟩ := heffect.of_write_ok hwrite
  have hlookup := hhealthy.structured.lookup_write hparent hplace
  rw [← hcontents] at hlookup
  obtain ⟨i, hlocate, hchild⟩ := exists_locate_of_lookup hlookup
  refine ⟨t, i, hstep, Run.nil.snoc hstep hadmits, ht, hlocate, ?_⟩
  rw [hchild, isDirectory_newEntry]

theorem Healthy.run (hs : s.Healthy S) {actions : List Action}
    (h : Run (fun s a _ => s.Admits a) s actions t) : t.Healthy S :=
  h.invariant hs fun ht hstep hadmits => (ht.step (hadmits.parentsIn ht) hstep).1

/-! ### Devices that stop -/

/-- The session with its device in another state, such as one that fails. -/
def on (s : Session D) (d : D) : Session D := { s with volume := ⟨d, s.volume.map⟩ }

theorem contents_on {e : D} (himage : S.image e = S.image s.volume.disk) :
    S.contents (s.on e).volume = S.contents s.volume := by
  simp only [Storage.contents, on, himage]

/-- A write that takes more writes to the device than are left fails. -/
theorem Healthy.write_unfinished (hs : s.Healthy S) {parent : UInt32} {name : ShortName}
    {data : Payload} {p : Volume.Placement} (hparent : parent ∈ s.directories)
    (hplace : Volume.place s.volume.map ((S.contents s.volume).table parent) name data.size = .ok p)
    {e : D} (he : S.Usable e) (himage : S.image e = S.image s.volume.disk) {k : Nat}
    (hleft : S.writesLeft e = some k)
    (hfew : k < Volume.Step.storesAll
      (Volume.writeSteps parent ((S.contents s.volume).table parent) name data p)) :
    ((s.on e).volume.write parent name data).outcome = .error (.device .fault) ∧
      S.Usable ((s.on e).volume.write parent name data).volume.disk := by
  have hplacement : (S.contents s.volume).placement parent name data.size = .ok p :=
    placement_eq_ok_iff.mpr ⟨hs.structured.accepts parent hparent, hplace⟩
  have hspec := Storage.write_spec (v := (s.on e).volume) he parent name data
  rw [contents_on himage] at hspec
  rcases hspec with ⟨cause, _, -, -, herror⟩ | ⟨q, done, rest, hq, hdone, hadvance, -, hend⟩
  · cases hplacement.symm.trans herror
  · obtain rfl := Except.ok.inj (hplacement.symm.trans hq)
    have houtcome := hend.resolve_left fun h => by
      have hfits := hadvance.fits k hleft
      rw [h.1, List.append_nil] at hdone
      rw [← hdone] at hfits
      exact Nat.not_le.mpr hfew hfits
    exact ⟨houtcome.2, hadvance.usable⟩

/-- On a device that takes no write, a delete releases the chain in memory and stores nothing. -/
theorem Healthy.delete_unstored (hs : s.Healthy S) {parent : UInt32}
    {name : ShortName} {i : Fin 62} (hparent : parent ∈ s.directories)
    (hlocate : (S.contents s.volume).locate parent name = .ok i) {e : D} (he : S.Usable e)
    (himage : S.image e = S.image s.volume.disk) (hleft : S.writesLeft e = some 0) :
    ((s.on e).volume.delete parent name).outcome = .error (.device .fault) ∧
      S.Usable ((s.on e).volume.delete parent name).volume.disk ∧
      S.contents ((s.on e).volume.delete parent name).volume = (S.contents s.volume).withMap
        (s.volume.map.freeChain ((S.contents s.volume).child parent i).cluster).1 := by
  have hspec := Storage.delete_spec (v := (s.on e).volume) he parent name
  rw [contents_on himage] at hspec
  rcases hspec fun j hj hdir => covers_of_lookup hs (fun _ => hparent)
    (exists_child_of_locate hj).2.2.2 hdir with
    ⟨cause, _, -, -, herror⟩ | ⟨j, done, rest, hj, hdone, hadvance, hcontents, hend⟩
  · cases hlocate.symm.trans herror
  · obtain rfl := Except.ok.inj (hlocate.symm.trans hj)
    -- no write is let through, so not even the parent table was stored
    have hfits := hadvance.fits 0 hleft
    obtain rfl : done = [] := by
      cases done with
      | nil => rfl
      | cons step done =>
        obtain ⟨rfl, -⟩ := List.cons.inj hdone
        simp only [Volume.Step.storesAll, Volume.Step.stores] at hfits
        omega
    have houtcome := hend.resolve_left fun h => by
      rw [h.1] at hdone
      cases hdone
    exact ⟨houtcome.2, hadvance.usable, hcontents⟩

/-! ### Runs -/

/-- In every session that a run reaches from a formatted volume, each directory ends its chain and
describes itself, each used child leads to a directory or to the linked clusters of a file, no
cluster has two owners, and every further request is answered. -/
theorem structured_of_run {d : D} (hd : S.Usable d) (hwrites : S.writesLeft d = none) :
    ∃ s₀, fresh d = .ok s₀ ∧
      ∀ actions s, Run (fun s a _ => s.Admits a) s₀ actions s →
        (∀ c ∈ s.directories, s.volume.map.get? c = some endOfChain ∧
          ((S.contents s.volume).table c).describes c = true) ∧
        (∀ c ∈ s.directories, ∀ i, ((S.contents s.volume).child c i).isUsed = true →
          let e := (S.contents s.volume).child c i
          let chain := s.volume.map.chain e.cluster
          e.isDirectory = true ∧ e.size = 0 ∧ e.cluster ∈ s.directories ∨
          e.isDirectory = false ∧ 1 ≤ e.size.toNat ∧ chain.length = clustersFor e.size.toNat ∧
            chain.Nodup ∧ (∀ c ∈ chain, 3 ≤ c.toNat ∧ c.toNat ≤ 511) ∧
            s.volume.map.Linked chain) ∧
        (S.contents s.volume).Structured s.directories s.files ∧
        ∀ a, s.Admits a → ∃ t, s.step a = .ok t := by
  obtain ⟨e, hfresh, hhealthy, -⟩ := fresh_eq hd hwrites
  refine ⟨_, hfresh, fun actions s hrun => ?_⟩
  have hs := hhealthy.run hrun
  have hx := hs.structured
  refine ⟨fun c hc => ?_, fun c hc i hused => ?_, hx, fun a hadmits => ?_⟩
  · obtain ⟨hterminal, hdescribes⟩ := Bool.and_eq_true_iff.mp (hx.accepts c hc)
    exact ⟨(isTerminal_iff.mp hterminal).2, hdescribes⟩
  · have hsound := hx.sound c hc i hused
    cases hdir : ((S.contents s.volume).child c i).isDirectory with
    | true =>
      obtain ⟨hsize, hmem, -⟩ := hsound.directory hdir
      exact .inl ⟨hdir, hsize, hmem⟩
    | false =>
      obtain ⟨hsize, hlength, hnodup, hlinked, hfiles⟩ := hsound.file hdir
      refine .inr ⟨hdir, hsize, hlength, hnodup, fun b hb => ?_, hlinked⟩
      -- the clusters of a file are data clusters, and cluster 2 is the root
      have hrange := isData_iff.mp (hx.isData_of_mem (.inr (hfiles b hb)))
      have hroot : b.toNat ≠ rootCluster.toNat := fun h =>
        Finset.disjoint_left.mp hx.apart hx.root_mem (UInt32.toNat_inj.mp h ▸ hfiles b hb)
      have htwo : rootCluster.toNat = 2 := rfl
      omega
  · obtain ⟨t, hstep, -⟩ := step_effect hs (hadmits.parentsIn hs)
    exact ⟨t, hstep⟩

/-- A run that writes a file into the root of a formatted disk in memory. -/
theorem structured_after_first_write :
    ∃ s₀ s, fresh (MemoryDisk.create 512) = .ok s₀ ∧
      Run (fun s a _ => s.Admits a) s₀ [.write rootCluster (.ofParts [65] []) (.ofArray #[1])] s ∧
      (MemoryDisk.storage.contents s.volume).Structured s.directories s.files := by
  obtain ⟨s₀, hfresh, hall⟩ := structured_of_run (MemoryDisk.usable_create (Nat.le_refl 512)) rfl
  obtain ⟨s, -, -, hrun, -⟩ := exists_first_write (MemoryDisk.usable_create (Nat.le_refl 512)) rfl
    hfresh (.ofParts [65] []) (.ofArray #[1]) (by decide)
  exact ⟨s₀, s, hfresh, hrun, (hall _ s hrun).2.2.1⟩

end Session

end ClusterFs
