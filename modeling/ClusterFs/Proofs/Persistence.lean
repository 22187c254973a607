import ClusterFs.Proofs.FileData
import ClusterFs.Proofs.Invariant

/-!
Files last until they are deleted. Whatever other names are written and deleted afterwards, and
however often the device is mounted again, a read delivers the bytes of the write.
-/
namespace ClusterFs.Session
open AllocationMap Contents

variable {D : Type} [BlockDevice D] {S : Storage D} {s t u : Session D} {a : Action}
  {parent : UInt32} {name : ShortName} {data : Payload}

/-- An action that neither deletes a name nor releases its directory. -/
def Spares (parent : UInt32) (name : ShortName) (s : Session D) (a : Action) (t : Session D) :
    Prop :=
  ∀ q n, a = .delete q n →
    ¬ (q = parent ∧ n = name ∧ (s.volume.delete q n).outcome = .ok ()) ∧
      parent ∉ t.volume.map.taken s.volume.map

/-- A delete that was carried out released the chain of its entry. -/
theorem mem_taken_of_deleted (hs : (S.contents s.volume).Structured s.directories s.files)
    {q c : UInt32} {i : Fin 62} (hq : q ∈ s.directories)
    (hused : ((S.contents s.volume).child q i).isUsed = true)
    (hcontents : S.contents t.volume = ((S.contents s.volume).withMap
      (s.volume.map.freeChain ((S.contents s.volume).child q i).cluster).1).applyAll
        ((S.contents s.volume).deleteSteps q i)) :
    c ∈ t.volume.map.taken s.volume.map ↔
      c ∈ s.volume.map.chain ((S.contents s.volume).child q i).cluster := by
  obtain ⟨hlinked, hnodup, -⟩ := hs.extent hq hused
  have hmap : t.volume.map =
      (s.volume.map.freeChain ((S.contents s.volume).child q i).cluster).1 :=
    congrArg Contents.map hcontents
  rw [hmap]
  exact mem_released hlinked hnodup

/-- One action that spares a name leaves its view. -/
theorem Effect.sameView (h : Effect S s a t)
    (hs : (S.contents s.volume).Structured s.directories s.files)
    (hspares : s.Spares parent name a t) (hparent : parent ∈ s.directories) {e : Entry}
    (hlookup : (S.contents s.volume).lookup parent name = .ok e) :
    parent ∈ t.directories ∧
      SameView parent name (S.contents s.volume) (S.contents t.volume) := by
  cases h with
  | same hcontents hdirectories _ _ =>
    rw [hcontents, hdirectories]
    exact ⟨hparent, .refl ..⟩
  | @wrote q n data t p hq hplace hcontents hdirectories _ _ =>
    rw [hcontents, hdirectories]
    refine ⟨Finset.mem_union_left _ hparent, hs.sameView_write hq hplace hparent ?_⟩
    rintro ⟨rfl, rfl⟩
    rw [lookup_of_place (hs.accepts _ hparent) hplace] at hlookup
    contradiction
  | @deleted q n t i hq hlocate hcontents hdirectories _ houtcome =>
    obtain ⟨hnot, hkept⟩ := hspares q n rfl
    obtain ⟨-, hused, -, -⟩ := exists_child_of_locate hlocate
    have hchain := fun hc => hkept ((mem_taken_of_deleted hs hq hused hcontents).mpr hc)
    rw [hcontents, hdirectories]
    refine ⟨Finset.mem_filter.mpr ⟨hparent, hchain⟩,
      hs.sameView_delete hlocate hq hparent hchain ?_⟩
    rintro ⟨rfl, rfl⟩
    exact hnot ⟨rfl, rfl, houtcome⟩

/-- A run that spares a name leaves its view. -/
theorem Run.sameView {actions : List Action}
    (h : Run (fun s a t => s.Admits a ∧ s.Spares parent name a t) s actions t) (hs : s.Healthy S)
    (hparent : parent ∈ s.directories) {e : Entry}
    (hlookup : (S.contents s.volume).lookup parent name = .ok e) :
    t.Healthy S ∧ parent ∈ t.directories ∧
      SameView parent name (S.contents s.volume) (S.contents t.volume) := by
  apply h.invariant (motive := fun t => t.Healthy S ∧ parent ∈ t.directories ∧
    SameView parent name (S.contents s.volume) (S.contents t.volume))
  · exact ⟨hs, hparent, .refl ..⟩
  · rintro t u a ⟨ht, hmem, hview⟩ hstep ⟨hadmits, hspares⟩
    obtain ⟨hu, heffect⟩ := ht.step (hadmits.parentsIn ht) hstep
    have hfound := hview.lookup.trans hlookup
    obtain ⟨hmem', hview'⟩ := heffect.sameView ht.structured hspares hmem hfound
    exact ⟨hu, hmem', hview.trans hview'⟩

/-- A file that was written is read back whole, with zeros up to whole clusters, from every later
session in which neither the file was deleted nor its directory released. -/
theorem read_after_write {d : D} (hd : S.Usable d) (hwrites : S.writesLeft d = none) :
    ∃ s₀, fresh d = .ok s₀ ∧
      ∀ before s parent name (data : Payload) first t after u,
        Run (fun s a _ => s.Admits a) s₀ before s → s.Admits (.write parent name data) →
        0 < data.size → (s.volume.write parent name data).outcome = .ok first →
        s.step (.write parent name data) = .ok t →
        Run (fun s a t => s.Admits a ∧ s.Spares parent name a t) t after u →
        ∀ old : Array UInt8,
          let r := u.volume.read parent name old.size
          (r.outcome.map UInt32.toNat, r.buffer old) =
            if readBufferSize data.size ≤ old.size then
              (.ok data.size, data.toArray ++
                Array.replicate (readBufferSize data.size - data.size) 0 ++
                old.extract (readBufferSize data.size))
            else (.error .bufferTooSmall, old) := by
  obtain ⟨e, hfresh, hhealthy, -⟩ := fresh_eq hd hwrites
  refine ⟨_, hfresh, ?_⟩
  intro before s parent name data first t after u hbefore hadmits hsize houtcome hstep hafter old
  have hs := hhealthy.run hbefore
  obtain ⟨ht, heffect⟩ := hs.step (hadmits.parentsIn hs) hstep
  obtain ⟨p, -, hparent, hplace, hcontents, hdirectories, -⟩ := heffect.of_write_ok houtcome
  have hlookup := hs.structured.lookup_write hparent hplace
  have hread := hs.structured.readFile_write hparent hplace (Nat.ne_of_gt hsize) old.size
  rw [← hcontents] at hlookup hread
  have hmem : parent ∈ t.directories := hdirectories ▸ Finset.mem_union_left _ hparent
  obtain ⟨hu, -, hview⟩ := hafter.sameView ht hmem hlookup
  have hanswer := Storage.read_answer hu.usable parent name old.size
  rw [hview.readFile, hread, fileAnswer] at hanswer
  have hword := (Volume.place_spec hplace).2.2.1
  simp only [Volume.Reply.buffer]
  by_cases hroom : readBufferSize data.size ≤ old.size
  · rw [if_neg (Nat.not_lt.mpr hroom)] at hanswer
    rw [if_pos hroom]
    obtain ⟨hok, hfilled⟩ := Prod.mk.inj hanswer
    rw [hok, hfilled, data.patch_padded hroom, Except.map, UInt32.toNat_ofNat_of_lt' hword,
      Payload.padded]
  · rw [if_pos (Nat.lt_of_not_le hroom)] at hanswer
    rw [if_neg hroom]
    obtain ⟨herror, hfilled⟩ := Prod.mk.inj hanswer
    rw [herror, hfilled]
    rfl

/-- A file of one byte, read after the disk was mounted again. -/
theorem read_after_first_write :
    ∃ s₀ t u, fresh (MemoryDisk.create 512) = .ok s₀ ∧
      s₀.step (.write rootCluster (.ofParts [65] []) (.ofArray #[7])) = .ok t ∧
      Run (fun s a t => s.Admits a ∧ s.Spares rootCluster (.ofParts [65] []) a t) t [.remount] u ∧
      (u.volume.read rootCluster (.ofParts [65] []) 2048).outcome.map UInt32.toNat = .ok 1 := by
  have hd := MemoryDisk.usable_create (Nat.le_refl 512)
  obtain ⟨s₀, hfresh, hall⟩ := read_after_write hd rfl
  obtain ⟨hs, hok⟩ := first_write_ok hd rfl hfresh (.ofParts [65] []) (.ofArray #[7]) (by decide)
  have hadmits := hs.admits_root (.ofParts [65] []) (.ofArray #[7])
  obtain ⟨t, -, hstep, -, ht, -⟩ :=
    exists_first_write hd rfl hfresh (.ofParts [65] []) (.ofArray #[7]) (by decide)
  have hremount : t.Admits .remount := fun _ h => nomatch h
  obtain ⟨u, hu, -⟩ := step_effect ht (hremount.parentsIn ht)
  have hrun : Run (fun s a t => s.Admits a ∧ s.Spares rootCluster (.ofParts [65] []) a t) t
      [.remount] u := Run.nil.snoc hu ⟨hremount, fun _ _ h => nomatch h⟩
  refine ⟨s₀, t, u, hfresh, hstep, hrun, ?_⟩
  have hread := hall [] s₀ _ _ _ 3 t _ u .nil hadmits (by decide) hok hstep hrun
    (Array.replicate 2048 9)
  rw [if_pos (by rw [Array.size_replicate]; decide), Array.size_replicate] at hread
  exact (Prod.mk.inj hread).1

end ClusterFs.Session
