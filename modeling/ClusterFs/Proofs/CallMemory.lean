import ClusterFs.Proofs.CallPointers
import ClusterFs.Proofs.Formatting
import ClusterFs.Proofs.Refusals

/-!
What system calls change in the memory of a program. A call puts the bytes that its request delivers
at the start of the buffer, and nothing else anywhere; a call that answers with an error delivers
none, since whatever it refuses it refuses before the first byte.
-/
namespace ClusterFs

namespace Kernel

variable {k : Kernel} {c : SystemCall} {v : Volume Ata.Disk} {j : Job}

theorem size_requestBuffer_le {mem : UserMemory} {call : Call} {request : Request} {p : Payload}
    (h : requestBuffer mem call request = some p) : p.size ≤ request.size.toNat := by
  unfold requestBuffer at h
  split_ifs at h
  · obtain rfl := Option.some.inj h
    exact Nat.zero_le _
  · obtain rfl := Option.some.inj h
    exact Nat.le_refl _

/-- How many bytes from its buffer on a call may change. -/
def room (k : Kernel) (c : SystemCall) : Nat :=
  match k.handler? c.number with
  | some .read => c.request.size.toNat
  | some .readDirectory => min c.request.size.toNat clusterSize
  | some .write | some .delete | none => 0

theorem size_filled_le_room (hjob : k.job? c = some j) (v : Volume Ata.Disk) :
    (j.serve v).filled.size ≤ k.room c := by
  obtain ⟨hhandler, -, hbuffer⟩ := job?_spec hjob
  have hsize := size_requestBuffer_le hbuffer
  obtain ⟨call, request, buffer⟩ := j
  unfold room
  rw [hhandler]
  cases call with
  | read => exact (v.size_filled_read_le Ata.delivers_disk ..).trans hsize
  | readDirectory =>
    exact (v.size_filled_readDirectory_le Ata.delivers_disk ..).trans
      (min_le_min_right clusterSize hsize)
  | write => exact (congrArg Array.size (v.filled_write ..)).le
  | delete => exact (congrArg Array.size (v.filled_delete ..)).le

/-- A call writes into memory once, at its buffer, at most the bytes that there is room for, and
none if it answers with an error. -/
theorem call_fills (k : Kernel) (c : SystemCall) :
    ∃ filled : Array UInt8,
      (k.call c).2.1 = c.memory.write c.request.buffer.toNat filled ∧ filled.size ≤ k.room c ∧
      ∀ code, (k.call c).2.2.map ResultCode.ofRegister = .returned code → code ≠ .ok →
        filled = #[] := by
  have hidle : c.memory = c.memory.write c.request.buffer.toNat #[] :=
    (UserMemory.write_empty ..).symm
  have hhandled := k.handled c
  generalize k.call c = after at hhandled
  cases hhandled with
  | unknown => exact ⟨#[], hidle, Nat.zero_le _, fun _ _ _ => rfl⟩
  | rejected => exact ⟨#[], hidle, Nat.zero_le _, fun _ _ _ => rfl⟩
  | unmounted => exact ⟨#[], hidle, Nat.zero_le _, fun _ _ _ => rfl⟩
  | @served j v t hjob =>
    obtain ⟨-, hrequest, -⟩ := job?_spec hjob
    refine ⟨_, by rw [hrequest], size_filled_le_room hjob v, fun code hcode hne => ?_⟩
    rw [UserCalls.map_ending] at hcode
    obtain ⟨e, herror, -, he⟩ := UserCalls.error_of_seen hcode hne
    exact Volume.filled_serve_of_refused herror he

/-- Whatever kernel, call and memory: a write, a delete and an unknown call leave the memory of the
program as it was, a read changes it in the buffer of its request only, and a listing in the first
cluster of the buffer. The request is the one found when the call is made, also if the buffer
overlaps it. A call that answers with an error leaves all of the memory as it was. -/
theorem memory_framed (k : Kernel) (c : SystemCall) :
    let after := k.call c
    let buffer := c.request.buffer.toNat
    (k.handler? c.number ≠ some .read → k.handler? c.number ≠ some .readDirectory →
      after.2.1 = c.memory) ∧
    (k.handler? c.number = some .read → ∀ a,
      ¬ (buffer ≤ a ∧ a < buffer + c.request.size.toNat) → after.2.1.byte a = c.memory.byte a) ∧
    (k.handler? c.number = some .readDirectory → ∀ a,
      ¬ (buffer ≤ a ∧ a < buffer + min c.request.size.toNat clusterSize) →
        after.2.1.byte a = c.memory.byte a) ∧
    (∀ code, after.2.2.map ResultCode.ofRegister = .returned code → code ≠ .ok →
      after.2.1 = c.memory) := by
  intro after buffer
  obtain ⟨filled, hmemory, hroom, herror⟩ := k.call_fills c
  have hempty (h : filled = #[]) : after.2.1 = c.memory := by
    rw [hmemory, h, UserMemory.write_empty]
  have houtside (a : Nat) (ha : ¬ (buffer ≤ a ∧ a < buffer + k.room c)) :
      after.2.1.byte a = c.memory.byte a := by
    rw [hmemory]
    exact UserMemory.byte_write_of_outside (by omega)
  refine ⟨fun hread hlist => ?_, fun hread a ha => ?_, fun hlist a ha => ?_,
    fun code hcode hne => hempty (herror code hcode hne)⟩
  · have hzero : k.room c = 0 := by
      unfold room
      split
      · exact absurd ‹_› hread
      · exact absurd ‹_› hlist
      all_goals rfl
    exact hempty (Array.size_eq_zero_iff.mp (Nat.le_zero.mp (hzero ▸ hroom)))
  · have hroom : k.room c = c.request.size.toNat := by rw [room, hread]
    exact houtside a (hroom ▸ ha)
  · have hroom : k.room c = min c.request.size.toNat clusterSize := by rw [room, hlist]
    exact houtside a (hroom ▸ ha)

/-- Right after the kernel has booted, a program reads a file that is not there, and finds its
memory as it was. -/
theorem missing_file_unread :
    ∃ k, ({ drive := zeroedDrive 2048 } : Kernel).boot = (k, .returned ()) ∧
      let c := programCall .read rootCluster (.ofParts [65] []) (Vector.replicate 2048 7)
      (k.call c).2.2.map ResultCode.ofRegister = .returned .notFound ∧
        (k.call c).2.1 = c.memory := by
  obtain ⟨k, s, e, hboot, hinstalled, hmounted, he, hfresh⟩ :=
    boot_eq (k := { drive := zeroedDrive 2048 }) (works_zeroedDrive 2048) rfl (by decide)
      (BootSector.window_replicate_ne_signature _)
  refine ⟨k, hboot, ?_⟩
  intro c
  obtain ⟨buffer, hjob, -, -⟩ := job?_programCall hinstalled .read (by decide) rootCluster
    (.ofParts [65] []) (Vector.replicate 2048 7)
  have hlacks := (Volume.blank_fresh he rfl hfresh).lacks (.ofParts [65] [])
  have hread : (s.volume.read rootCluster (.ofParts [65] []) buffer.size).outcome =
      .error .notFound := by
    unfold Volume.read
    generalize s.volume.stat rootCluster (.ofParts [65] []) = found at hlacks
    obtain ⟨u, answer⟩ := found
    obtain rfl : answer = .error .notFound := hlacks
    rfl
  have hcode : (k.call c).2.2.map ResultCode.ofRegister = .returned .notFound := by
    rw [(call_of_job hjob hmounted.volume).1, UserCalls.map_ending]
    exact congrArg UserCalls.seen (Volume.Reply.discard_eq_error_iff.mpr hread)
  exact ⟨hcode, (memory_framed k c).2.2.2 .notFound hcode (by decide)⟩

end Kernel

end ClusterFs
