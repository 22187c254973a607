import ClusterFs.Proofs.CallMemory

/-!
What the value of a system call tells the program. It decodes to the result that the call produced,
if there is a call by that number. The value for any other number is not the code of an invalid
request but that of a buffer that is too small.
-/
namespace ClusterFs

theorem Outcome.map_ofRegister (outcome : Outcome ResultCode) :
    (outcome.map ResultCode.toRegister).map ResultCode.ofRegister = outcome := by
  cases outcome with
  | returned code => exact congrArg _ (ResultCode.ofRegister_toRegister code)
  | halted => rfl
  | waiting => rfl

/-! ### Refusals of the requests -/

namespace Volume

variable {D : Type} [BlockDevice D] {v : Volume D} {parent : UInt32} {name : ShortName}
  {e : FsError}

theorem error_of_openDirectory (h : (v.openDirectory parent).2 = .error e) :
    e = .invalidParent ∨ ∃ cause, e = .device cause := by
  unfold openDirectory at h
  split at h
  · generalize v.loadTable parent = loaded at h
    obtain ⟨u, cause | table⟩ := loaded
    · exact .inr ⟨cause, (Except.error.inj h).symm⟩
    · simp only at h
      split at h
      · cases h
      · exact .inl (Except.error.inj h).symm
  · exact .inl (Except.error.inj h).symm

theorem error_of_stat (h : (v.stat parent name).2 = .error e) :
    e = .invalidParent ∨ e = .notFound ∨ ∃ cause, e = .device cause := by
  rcases hopen : v.openDirectory parent with ⟨u, cause | table⟩
  · simp only [stat, hopen] at h
    obtain rfl := Except.error.inj h
    exact (error_of_openDirectory (congrArg Prod.snd hopen)).imp_right .inr
  · simp only [stat, hopen] at h
    cases hfind : table.find? name with
    | none =>
      rw [hfind] at h
      exact .inr (.inl (Except.error.inj h).symm)
    | some i =>
      rw [hfind] at h
      cases h

theorem error_of_write {data : Payload} (h : (v.write parent name data).outcome = .error e) :
    e = .invalidParent ∨ (e = .alreadyExists ∨ e = .directoryFull ∨ e = .insufficientSpace) ∨
      ∃ cause, e = .device cause := by
  rcases hopen : v.openDirectory parent with ⟨u, cause | table⟩
  · simp only [write, hopen] at h
    obtain rfl := Except.error.inj h
    exact (error_of_openDirectory (congrArg Prod.snd hopen)).imp_right .inr
  · simp only [write, hopen] at h
    cases hplace : place u.map table name data.size with
    | error cause =>
      rw [hplace] at h
      obtain rfl := Except.error.inj h
      exact .inr (.inl (place_error hplace))
    | ok p =>
      simp only [hplace] at h
      generalize u.perform _ = performed at h
      obtain ⟨w, cause | _⟩ := performed
      · exact .inr (.inr ⟨cause, (Except.error.inj h).symm⟩)
      · cases h

theorem error_of_delete (h : (v.delete parent name).outcome = .error e) :
    e = .invalidParent ∨ e = .notFound ∨ ∃ cause, e = .device cause := by
  rcases hopen : v.openDirectory parent with ⟨u, cause | table⟩
  · simp only [delete, hopen] at h
    obtain rfl := Except.error.inj h
    exact (error_of_openDirectory (congrArg Prod.snd hopen)).imp_right .inr
  · simp only [delete, hopen] at h
    cases hfind : table.find? name with
    | none =>
      rw [hfind] at h
      exact .inr (.inl (Except.error.inj h).symm)
    | some i =>
      simp only [hfind] at h
      generalize u.countOrphans (table.children.get i) = looked at h
      obtain ⟨w, cause | orphans⟩ := looked
      · exact .inr (.inr ⟨cause, (Except.error.inj h).symm⟩)
      · simp only at h
        generalize Volume.perform (D := D) _ _ = performed at h
        obtain ⟨w, cause | _⟩ := performed
        · exact .inr (.inr ⟨cause, (Except.error.inj h).symm⟩)
        · cases h

theorem stat_ne_tooSmall (v : Volume D) (parent : UInt32) (name : ShortName) :
    (v.stat parent name).2 ≠ .error .bufferTooSmall := by
  intro h
  rcases error_of_stat h with h | h | ⟨_, h⟩ <;> cases h

/-- Whether a call finds its target and the buffer is too small for it. A read needs room for the
file in whole clusters, a listing for one cluster. -/
def TooSmall (v : Volume D) (call : Call) (parent : UInt32) (name : ShortName) (capacity : Nat) :
    Prop :=
  ∃ entry, (v.stat parent name).2 = .ok entry ∧
    match call with
    | .read => entry.isDirectory = false ∧ capacity < readBufferSize entry.size.toNat
    | .readDirectory => entry.isDirectory = true ∧ capacity < clusterSize
    | .write | .delete => False

theorem read_tooSmall_iff (v : Volume D) (parent : UInt32) (name : ShortName) (capacity : Nat) :
    (v.read parent name capacity).outcome = .error .bufferTooSmall ↔
      v.TooSmall .read parent name capacity := by
  have hstat := v.stat_ne_tooSmall parent name
  unfold read TooSmall
  generalize v.stat parent name = found at hstat
  obtain ⟨u, e | entry⟩ := found
  · refine iff_of_false (fun h => hstat (congrArg _ (Except.error.inj h))) ?_
    rintro ⟨_, h, -⟩
    cases h
  · have hroom : capacity / clusterSize < clustersFor entry.size.toNat ↔
        capacity < readBufferSize entry.size.toNat := by
      rw [readBufferSize, Nat.div_lt_iff_lt_mul (by decide)]
    simp only [Except.ok.injEq, exists_eq_left', hroom]
    by_cases hdir : entry.isDirectory = true
    · rw [if_pos hdir, hdir]
      exact iff_of_false (fun h => by cases h) fun h => by cases h.1
    · rw [if_neg hdir]
      by_cases hsmall : capacity < readBufferSize entry.size.toNat
      · rw [if_pos hsmall]
        exact iff_of_true rfl ⟨Bool.eq_false_iff.mpr hdir, hsmall⟩
      · rw [if_neg hsmall]
        refine iff_of_false ?_ fun h => hsmall h.2
        generalize readClusters u.disk _ #[] = got
        obtain ⟨d, bytes, _ | _⟩ := got
        · exact fun h => by cases h
        · exact fun h => by cases h

theorem readDirectory_tooSmall_iff (v : Volume D) (parent : UInt32) (name : ShortName)
    (capacity : Nat) : (v.readDirectory parent name capacity).outcome = .error .bufferTooSmall ↔
      v.TooSmall .readDirectory parent name capacity := by
  have hstat := v.stat_ne_tooSmall parent name
  unfold readDirectory TooSmall
  generalize v.stat parent name = found at hstat
  obtain ⟨u, e | entry⟩ := found
  · refine iff_of_false (fun h => hstat (congrArg _ (Except.error.inj h))) ?_
    rintro ⟨_, h, -⟩
    cases h
  · simp only [Except.ok.injEq, exists_eq_left']
    cases hdir : entry.isDirectory with
    | false => exact iff_of_false (fun h => by cases h) fun h => by cases h.1
    | true =>
      simp only [Bool.not_true, Bool.false_eq_true, if_false, true_and]
      by_cases hsmall : capacity < clusterSize
      · rw [if_pos hsmall]
        exact iff_of_true rfl hsmall
      · rw [if_neg hsmall]
        refine iff_of_false ?_ hsmall
        generalize readClusters u.disk [entry.cluster] #[] = got
        obtain ⟨d, bytes, _ | _⟩ := got
        · exact fun h => by cases h
        · exact fun h => by cases h

theorem serve_tooSmall_iff (v : Volume D) (call : Call) (parent : UInt32) (name : ShortName)
    (buffer : Payload) : (v.serve call name parent buffer).outcome = .error .bufferTooSmall ↔
      v.TooSmall call parent name buffer.size := by
  cases call with
  | read => exact Reply.discard_eq_error_iff.trans (v.read_tooSmall_iff parent name buffer.size)
  | readDirectory => exact v.readDirectory_tooSmall_iff parent name buffer.size
  | write =>
    refine iff_of_false (fun h => ?_) fun ⟨_, _, h⟩ => h
    rcases error_of_write (Reply.discard_eq_error_iff.mp h) with
      h | (h | h | h) | ⟨_, h⟩ <;> cases h
  | delete =>
    refine iff_of_false (fun h => ?_) fun ⟨_, _, h⟩ => h
    rcases error_of_delete h with h | h | ⟨_, h⟩ <;> cases h

end Volume

/-! ### Calls -/

namespace Kernel

variable {k : Kernel} {c : SystemCall}

/-- Whether the volume serves a call that finds its target and has too small a buffer for it. -/
def TooSmall (k : Kernel) (c : SystemCall) : Prop :=
  ∃ j v, k.job? c = some j ∧ k.volume? = some v ∧
    v.TooSmall j.call j.request.parent j.request.name j.buffer.size

theorem tooSmall_iff : (k.call c).2.2.map ResultCode.ofRegister = .returned .bufferTooSmall ↔
    k.handler? c.number = none ∨ k.TooSmall c := by
  have hhandled := k.handled c
  generalize k.call c = after at hhandled ⊢
  cases hhandled with
  | unknown hhandler => exact iff_of_true rfl (.inl hhandler)
  | rejected hhandler hjob =>
    exact iff_of_false (fun h => by cases h) (by simp [TooSmall, hhandler, hjob])
  | unmounted hjob hvolume =>
    exact iff_of_false (fun h => by cases h) (by simp [TooSmall, (job?_spec hjob).1, hvolume])
  | @served j v t hjob hvolume =>
    have hcode : UserCalls.seen (j.serve v).outcome = .returned .bufferTooSmall ↔
        (j.serve v).outcome = .error .bufferTooSmall :=
      UserCalls.seen_eq_iff (e := .bufferTooSmall) fun cause h => by cases h
    rw [UserCalls.map_ending, (job?_spec hjob).1, or_iff_right (fun h => by cases h)]
    refine hcode.trans ((v.serve_tooSmall_iff ..).trans ⟨fun h => ⟨j, v, hjob, hvolume, h⟩, ?_⟩)
    rintro ⟨i, w, hi, hw, h⟩
    obtain rfl := Option.some.inj (hi.symm.trans hjob)
    obtain rfl := Option.some.inj (hw.symm.trans hvolume)
    exact h

/-- A call whose number is known decodes to the result that serving it produced. Any other number
decodes to a buffer that is too small, which is otherwise the result of exactly those calls that
found their target and had too small a buffer for it. -/
theorem decoded_result (k : Kernel) (c : SystemCall) :
    let decoded := (k.call c).2.2.map ResultCode.ofRegister
    (∀ call, k.handler? c.number = some call →
      decoded = (k.serveCall c.memory call c.address).2.2) ∧
    (k.handler? c.number = none → decoded = .returned .bufferTooSmall) ∧
    (decoded = .returned .bufferTooSmall ↔ k.handler? c.number = none ∨ k.TooSmall c) := by
  refine ⟨fun call hhandler => ?_, fun hhandler => tooSmall_iff.mpr (.inl hhandler), tooSmall_iff⟩
  rw [call_of_handler hhandler]
  exact Outcome.map_ofRegister _

theorem job?_emptyRead (hk : k.callsInstalled = true) (parent : UInt32) (name : ShortName) :
    k.job? (requestCall .read ⟨0, name, parent, 0⟩) =
      some ⟨.read, ⟨0, name, parent, 0⟩, .empty⟩ :=
  job?_eq_some hk rfl rfl (request_requestCall ..) (if_pos (.inr rfl))

/-- After the boot a program writes a file of a cluster. Reading it into no bytes, the program
learns that its buffer is too small. -/
theorem small_buffer_told :
    ∃ k₀, ({ drive := zeroedDrive 2048 } : Kernel).boot = (k₀, .returned ()) ∧
      let k := (k₀.call (programCall .write rootCluster (.ofParts [65] [])
        (Vector.replicate 2048 7))).1
      let c := requestCall .read ⟨0, .ofParts [65] [], rootCluster, 0⟩
      (k.call c).2.2.map ResultCode.ofRegister = .returned .bufferTooSmall := by
  obtain ⟨k₀, s, e, hboot, hinstalled, hmounted, he, hfresh⟩ :=
    boot_eq (k := { drive := zeroedDrive 2048 }) (works_zeroedDrive 2048) rfl (by decide)
      (BootSector.window_replicate_ne_signature _)
  obtain ⟨data, hwrite, hsize, -⟩ := job?_programCall hinstalled .write (by decide) rootCluster
    (.ofParts [65] []) (Vector.replicate 2048 7)
  obtain ⟨hs, houtcome⟩ := Session.first_write_ok he rfl hfresh (.ofParts [65] []) data (by
    rw [hsize]
    decide)
  have hparents := (hs.admits_root (.ofParts [65] []) data).parentsIn hs
  obtain ⟨t, hstep, -⟩ := Session.step_effect hs hparents
  obtain ⟨ht, heffect⟩ := hs.step hparents hstep
  obtain ⟨p, -, hparent, hplace, hcontents, -⟩ := heffect.of_write_ok houtcome
  have hlookup := hs.structured.lookup_write hparent hplace
  rw [← hcontents] at hlookup
  obtain ⟨-, hmounted'⟩ := hmounted.step hwrite hstep id
  obtain ⟨-, hinstalled', -⟩ := call_of_job hwrite hmounted.volume
  have hfile : (Volume.newEntry (.ofParts [65] []) data p).isDirectory = false := by
    simp [Volume.newEntry, Volume.kindFor, hsize]
  have hroom : 0 < readBufferSize (Volume.newEntry (.ofParts [65] []) data p).size.toNat := by
    simp only [Volume.newEntry, Entry.size_create, hsize]
    decide
  exact ⟨k₀, hboot, (decoded_result _ _).2.2.mpr (.inr ⟨_, _,
    job?_emptyRead (hinstalled'.trans hinstalled) _ _, hmounted'.volume, _,
    (Storage.stat_snd ht.usable _ _).trans hlookup, hfile, hroom⟩)⟩

/-- The kernel answers a number that is not known with the code of a buffer that is too small. -/
theorem unknown_call_misread :
    ∃ k, ({ drive := zeroedDrive 2048 } : Kernel).boot = (k, .returned ()) ∧
      k.callsInstalled = true ∧ k.handler? 200 = none ∧
      (k.call ⟨⟨0, #[]⟩, 200, Vector.replicate 6 0⟩).2.2.map ResultCode.ofRegister ≠
        .returned .invalidRequest := by
  obtain ⟨k, -, -, hboot, hinstalled, -⟩ :=
    boot_eq (k := { drive := zeroedDrive 2048 }) (works_zeroedDrive 2048) rfl (by decide)
      (BootSector.window_replicate_ne_signature _)
  have hhandler : k.handler? 200 = none := by
    rw [handler?, if_pos hinstalled]
    rfl
  have hdecoded : (k.call ⟨⟨0, #[]⟩, 200, Vector.replicate 6 0⟩).2.2.map ResultCode.ofRegister =
      .returned .bufferTooSmall := tooSmall_iff.mpr (.inl hhandler)
  refine ⟨k, hboot, hinstalled, hhandler, ?_⟩
  rw [hdecoded]
  exact fun h => by cases h

end Kernel

end ClusterFs
