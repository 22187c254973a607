import ClusterFs.Proofs.Deliveries
import ClusterFs.Proofs.Medium

/-!
Refused requests, on any device and on any volume. Whatever an error other than a failing device is
raised for, it is raised before the first change: the device has only been read, and the map and the
caller's buffer are as they were. Requests that only read do so even when the device fails.
-/
namespace ClusterFs.Volume

variable {D : Type} [BlockDevice D] {M : Medium D} {v w : Volume D} {parent : UInt32}
  {name : ShortName} {e : FsError}

/-- The volumes that reads of the device lead to, with no write and no change of the map. -/
inductive Looked (v : Volume D) : Volume D → Prop where
  | same : v.Looked v
  | read {u : Volume D} (lba count capacity : Nat) (looked : v.Looked u) :
      v.Looked ⟨(BlockDevice.read u.disk lba count capacity).1, u.map⟩

theorem keptByReads_looked (v : Volume D) : KeptByReads v.Looked :=
  fun _ lba count capacity => .read lba count capacity

/-- On a device that keeps its bytes when it is read, looking changes nothing. -/
theorem Looked.medium_same (h : v.Looked w) : M.Same v w := by
  induction h with
  | same => exact .refl v
  | read lba count capacity _ ih => exact M.keptByReads_same v _ lba count capacity ih

/-- What a request that leaves no trace answers with: it only looked, so the device and the map are
as before, and it put nothing into the caller's buffer. -/
structure Traceless {α : Type} (M : Medium D) (v : Volume D) (r : Reply D α) : Prop where
  looked : v.Looked r.volume
  same : M.Same v r.volume
  buffer : ∀ old, r.buffer old = old

theorem Traceless.of_looked {α : Type} {r : Reply D α} (hlooked : v.Looked r.volume)
    (hfilled : r.filled = #[]) : Traceless M v r where
  looked := hlooked
  same := hlooked.medium_same
  buffer old := by rw [Reply.buffer, hfilled, Image.patch_empty]

/-! ### Refused requests -/

/-- A read that the device does not fail puts nothing into the buffer before it is refused. -/
theorem filled_read_of_refused {capacity : Nat}
    (h : (v.read parent name capacity).outcome = .error e) (he : ∀ cause, e ≠ .device cause) :
    (v.read parent name capacity).filled = #[] := by
  unfold read at h ⊢
  generalize v.stat parent name = found at h ⊢
  obtain ⟨u, _ | entry⟩ := found
  · rfl
  simp only at h ⊢
  split_ifs at h ⊢
  · rfl
  · rfl
  all_goals
    -- what is left got to the device, and answers well or with the device's failure
    generalize readClusters u.disk _ #[] = got at h
    obtain ⟨d, bytes, cause | _⟩ := got
    · exact absurd (Except.error.inj h).symm (he cause)
    · cases h

theorem filled_readDirectory_of_refused {capacity : Nat}
    (h : (v.readDirectory parent name capacity).outcome = .error e)
    (he : ∀ cause, e ≠ .device cause) : (v.readDirectory parent name capacity).filled = #[] := by
  unfold readDirectory at h ⊢
  generalize v.stat parent name = found at h ⊢
  obtain ⟨u, _ | entry⟩ := found
  · rfl
  simp only at h ⊢
  split_ifs at h ⊢
  · rfl
  · rfl
  · generalize readClusters u.disk [entry.cluster] #[] = got at h
    obtain ⟨d, bytes, cause | _⟩ := got
    · exact absurd (Except.error.inj h).symm (he cause)
    · cases h

/-- Steps that were begun end well or with the device's failure. -/
theorem finish_ne_error {α : Type} (value : α) (outcome : Except DiskError Unit)
    (he : ∀ cause, e ≠ .device cause) : finish value outcome ≠ .error e := by
  cases outcome with
  | error cause => exact fun h => he cause (Except.error.inj h).symm
  | ok _ => exact fun h => by cases h

theorem looked_write {data : Payload} (h : (v.write parent name data).outcome = .error e)
    (he : ∀ cause, e ≠ .device cause) : v.Looked (v.write parent name data).volume := by
  rcases v.write_cases parent name data with ⟨_, hrefused⟩ | ⟨table, p, -, -, -, houtcome⟩
  · rw [hrefused]
    exact v.keptByReads_looked.openDirectory .same parent
  · exact absurd (houtcome.symm.trans h) (finish_ne_error _ _ he)

theorem looked_delete (h : (v.delete parent name).outcome = .error e)
    (he : ∀ cause, e ≠ .device cause) : v.Looked (v.delete parent name).volume := by
  have hopen := v.keptByReads_looked.openDirectory .same parent
  rcases v.delete_cases parent name with
    ⟨_, hrefused⟩ | ⟨table, i, -, -, ⟨_, -, hrefused⟩ | ⟨-, houtcome⟩⟩
  · rw [hrefused]
    exact hopen
  · rw [hrefused]
    exact v.keptByReads_looked.countOrphans hopen _
  · exact absurd (houtcome.symm.trans h) (finish_ne_error _ _ he)

theorem filled_serve_of_refused {call : Call} {buffer : Payload}
    (h : (v.serve call name parent buffer).outcome = .error e) (he : ∀ cause, e ≠ .device cause) :
    (v.serve call name parent buffer).filled = #[] := by
  cases call with
  | read => exact filled_read_of_refused (Reply.discard_eq_error_iff.mp h) he
  | readDirectory => exact filled_readDirectory_of_refused h he
  | write => exact v.filled_write parent name buffer
  | delete => exact v.filled_delete parent name

theorem looked_serve_of_refused {call : Call} {buffer : Payload}
    (h : (v.serve call name parent buffer).outcome = .error e) (he : ∀ cause, e ≠ .device cause) :
    v.Looked (v.serve call name parent buffer).volume := by
  cases call with
  | read => exact v.keptByReads_looked.read .same parent name buffer.size
  | readDirectory => exact v.keptByReads_looked.readDirectory .same parent name buffer.size
  | write => exact looked_write (Reply.discard_eq_error_iff.mp h) he
  | delete => exact looked_delete h he

/-- A call that is refused for anything but a failing device leaves no trace. -/
theorem serve_refused (M : Medium D) {call : Call} {buffer : Payload}
    (h : (v.serve call name parent buffer).outcome = .error e) (he : ∀ cause, e ≠ .device cause) :
    Traceless M v (v.serve call name parent buffer) :=
  .of_looked (looked_serve_of_refused h he) (filled_serve_of_refused h he)

/-- On every device and every volume: a call that returns an error other than a device's only looked
at the device, and leaves its bytes, the map and the caller's buffer as they were. A read of a file
or a table and a `stat` only look, whatever they return. -/
theorem refused_without_trace (M : Medium D) (v : Volume D) (parent : UInt32) (name : ShortName) :
    (∀ call buffer e, (v.serve call name parent buffer).outcome = .error e →
      (∀ cause, e ≠ .device cause) → Traceless M v (v.serve call name parent buffer)) ∧
    (∀ call buffer, call = .read ∨ call = .readDirectory →
      v.Looked (v.serve call name parent buffer).volume ∧
        M.Same v (v.serve call name parent buffer).volume) ∧
    v.Looked (v.stat parent name).1 ∧ M.Same v (v.stat parent name).1 := by
  have hstat := v.keptByReads_looked.stat .same parent name
  refine ⟨fun _ _ _ => serve_refused M, fun call buffer hcall => ?_, hstat, hstat.medium_same⟩
  have hlooked : v.Looked (v.serve call name parent buffer).volume := by
    rcases hcall with rfl | rfl
    · exact v.keptByReads_looked.read .same parent name buffer.size
    · exact v.keptByReads_looked.readDirectory .same parent name buffer.size
  exact ⟨hlooked, hlooked.medium_same⟩

/-- A write below a free cluster of a disk in memory is refused, and leaves no trace there. -/
theorem write_below_free_cluster_refused :
    let v : Volume MemoryDisk := ⟨.create 3, .formatted⟩
    let r := v.serve .write .empty 7 (.ofArray #[1])
    r.outcome = .error .invalidParent ∧ Traceless MemoryDisk.medium v r := by
  intro v r
  have hterminal : v.map.isTerminal 7 = false := by decide +kernel
  have houtcome : r.outcome = .error .invalidParent := by
    simp only [r, serve, write, openDirectory, hterminal, Bool.false_eq_true, if_false]
    rfl
  exact ⟨houtcome, (refused_without_trace MemoryDisk.medium v 7 .empty).1 .write (.ofArray #[1]) _
    houtcome fun _ h => by cases h⟩

end ClusterFs.Volume
