import ClusterFs.Kernel.Boot
import ClusterFs.Kernel.Dispatch
import ClusterFs.Proofs.Requests
import ClusterFs.Proofs.RoundTrip

/-!
System calls as requests on the mounted volume. A call either is turned away before the volume is
asked, or it has the volume serve one request; how that ends decides whether the call returns. The
kernel's reports change nothing but what was logged.
-/
namespace ClusterFs

namespace UserMemory

theorem write_empty (m : UserMemory) (address : Nat) : m.write address #[] = m := by
  rw [write, Array.extract_empty]
  rfl

theorem byte_add (base : Nat) (bytes : Array UInt8) (i : Nat) :
    (⟨base, bytes⟩ : UserMemory).byte (base + i) = bytes.getD i 0 := by
  rw [byte, if_pos (Nat.le_add_right base i), Nat.add_sub_cancel_left]

/-- Bytes at the start of the memory are seen through a window there. -/
theorem window_base {n : Nat} (base : Nat) (v : Vector UInt8 n) (rest : Array UInt8) :
    (⟨base, v.toArray ++ rest⟩ : UserMemory).window n base = v := by
  apply Vector.ext
  intro i hi
  simp only [window, Vector.getElem_ofFn, byte_add, Array.getD_eq_getD_getElem?,
    Array.getElem?_append, Vector.size_toArray, if_pos hi]
  simp [hi]

/-- A cluster further on in the memory is the payload from there on. -/
theorem cluster_payload {n : Nat} (base : Nat) (v : Vector UInt8 n) (data : Cluster) :
    ((⟨base, v.toArray ++ data.toArray⟩ : UserMemory).payload (base + n) 2048).cluster 0 =
      data := by
  apply Vector.ext
  intro i hi
  simp only [payload, Payload.cluster, Vector.getElem_ofFn, Nat.mul_zero, Nat.zero_add, if_pos hi,
    Nat.add_assoc, byte_add, Array.getD_eq_getD_getElem?, Array.getElem?_append,
    Vector.size_toArray, if_neg (Nat.not_lt.mpr (Nat.le_add_right n i)), Nat.add_sub_cancel_left]
  simp [hi]

end UserMemory

/-- A system call with the memory of the program that makes it. -/
structure SystemCall where
  memory : UserMemory
  number : UInt64
  args : Vector UInt64 6

/-- Where a filesystem call has its request. -/
def SystemCall.address (c : SystemCall) : UInt64 := c.args.head

/-- The request as it lies in memory when the call is made. -/
def SystemCall.request (c : SystemCall) : Request :=
  Request.decode (c.memory.window 32 c.address.toNat)

/-- A filesystem call that passed the checks. -/
structure Job where
  call : Call
  request : Request
  buffer : Payload

namespace Job

/-- What the job asks of the volume. -/
def action (j : Job) : Action :=
  match j.call with
  | .read => .read j.request.parent j.request.name j.buffer.size
  | .readDirectory => .readDirectory j.request.parent j.request.name j.buffer.size
  | .write => .write j.request.parent j.request.name j.buffer
  | .delete => .delete j.request.parent j.request.name

def serve {D : Type} [BlockDevice D] (j : Job) (v : Volume D) : Volume.Reply D Unit :=
  v.serve j.call j.request.name j.request.parent j.buffer

variable {D : Type} [BlockDevice D]

theorem outcome_serve (j : Job) (v : Volume D) : (j.serve v).outcome = v.outcome j.action := by
  obtain ⟨call, request, buffer⟩ := j
  cases call <;> rfl

theorem volume_serve {s t : Session D} {j : Job} (hstep : s.step j.action = .ok t) :
    (j.serve s.volume).volume = t.volume := by
  obtain ⟨call, request, buffer⟩ := j
  cases call with
  | write => exact Session.volume_of_step_write hstep
  | read =>
    obtain rfl := Except.ok.inj hstep
    rfl
  | readDirectory =>
    obtain rfl := Except.ok.inj hstep
    rfl
  | delete =>
    obtain rfl := Except.ok.inj hstep
    rfl

end Job

namespace Kernel

/-- The mounted volume. -/
def volume? (k : Kernel) : Option (Volume Ata.Disk) :=
  k.mounted.map fun m => ⟨⟨m.sectors, k.drive⟩, m.map⟩

/-- The call that a number stands for, once the calls are installed. -/
def handler? (k : Kernel) (number : UInt64) : Option Call :=
  if k.callsInstalled then Call.ofNumber? number.toNat else none

/-- What a call makes of its number, its arguments and its memory, if it passes the checks. -/
def job? (k : Kernel) (c : SystemCall) : Option Job :=
  match if k.callsInstalled then Call.ofNumber? c.number.toNat else none with
  | none => none
  | some call =>
    if UserMemory.accepts c.address 32 then
      let request := Request.decode (c.memory.window 32 c.address.toNat)
      (requestBuffer c.memory call request).map fun buffer => ⟨call, request, buffer⟩
    else none

theorem job?_eq_some {k : Kernel} {c : SystemCall} {call : Call} {request : Request}
    {buffer : Payload} (hk : k.callsInstalled = true)
    (hcall : Call.ofNumber? c.number.toNat = some call)
    (haccepts : UserMemory.accepts c.address 32 = true)
    (hrequest : Request.decode (c.memory.window 32 c.address.toNat) = request)
    (hbuffer : requestBuffer c.memory call request = some buffer) :
    k.job? c = some ⟨call, request, buffer⟩ := by
  simp only [job?, if_pos hk, hcall, if_pos haccepts, hrequest, hbuffer, Option.map_some]

theorem job?_of_handler {k : Kernel} {c : SystemCall} {call : Call}
    (hhandler : k.handler? c.number = some call) :
    k.job? c = if UserMemory.accepts c.address 32 then
      (requestBuffer c.memory call c.request).map fun buffer => ⟨call, c.request, buffer⟩
    else none := by
  unfold handler? at hhandler
  simp only [job?, hhandler]
  rfl

theorem job?_spec {k : Kernel} {c : SystemCall} {j : Job} (hjob : k.job? c = some j) :
    k.handler? c.number = some j.call ∧ j.request = c.request ∧
      requestBuffer c.memory j.call c.request = some j.buffer := by
  cases hhandler : k.handler? c.number with
  | none =>
    unfold handler? at hhandler
    simp only [job?, hhandler] at hjob
    cases hjob
  | some call =>
    rw [job?_of_handler hhandler] at hjob
    split_ifs at hjob
    obtain ⟨buffer, hbuffer, rfl⟩ := Option.map_eq_some_iff.mp hjob
    exact ⟨rfl, rfl, hbuffer⟩

def call (k : Kernel) (c : SystemCall) : Kernel × UserMemory × Outcome UInt64 :=
  k.dispatch c.memory c.number c.args

/-- How a call ends whose request had this outcome. -/
def ending : Except FsError Unit → Outcome UInt64
  | .error (.device .unresponsive) => .waiting
  | .error (.device _) => .halted
  | outcome => .returned (ResultCode.ofOutcome outcome).toRegister

/-! ### Reports -/

/-- Kernels that differ in what was logged. -/
structure SameState (k t : Kernel) : Prop where
  drive : t.drive = k.drive
  probed : t.probed = k.probed
  mounted : t.mounted = k.mounted
  callsInstalled : t.callsInstalled = k.callsInstalled

theorem SameState.refl (k : Kernel) : SameState k k := ⟨rfl, rfl, rfl, rfl⟩

theorem SameState.trans {k t u : Kernel} (h : SameState k t) (h' : SameState t u) :
    SameState k u :=
  ⟨h'.drive.trans h.drive, h'.probed.trans h.probed, h'.mounted.trans h.mounted,
    h'.callsInstalled.trans h.callsInstalled⟩

theorem SameState.volume? {k t : Kernel} (h : SameState k t) : t.volume? = k.volume? := by
  unfold Kernel.volume?
  rw [h.mounted, h.drive]

theorem sameState_log (k : Kernel) (r : Record) : SameState k (k.log r) := by
  unfold log
  split
  · cases k.sink <;> exact ⟨rfl, rfl, rfl, rfl⟩
  · exact .refl k

theorem sameState_logAll (k : Kernel) (records : List Record) : SameState k (k.logAll records) := by
  induction records generalizing k with
  | nil => exact .refl k
  | cons r rest ih => exact (k.sameState_log r).trans (ih (k.log r))

/-! ### Calls -/

/-- Serving a request leaves the served volume, and ends as the request does. -/
theorem serveOn_spec (k : Kernel) (mem : UserMemory) (m : MountedVolume) (j : Job) :
    let reply := j.serve (⟨⟨m.sectors, k.drive⟩, m.map⟩ : Volume Ata.Disk)
    let served := k.serveOn mem m j.call j.request j.buffer
    served.2.2.map ResultCode.toRegister = ending reply.outcome ∧
      SameState { k with
        drive := reply.volume.disk.drive
        mounted := some ⟨m.sectors, reply.volume.map⟩ } served.1 := by
  unfold serveOn Job.serve
  simp only
  generalize (⟨⟨m.sectors, k.drive⟩, m.map⟩ : Volume Ata.Disk).serve j.call j.request.name
    j.request.parent j.buffer = reply
  generalize ({ k with
    drive := reply.volume.disk.drive
    mounted := some ⟨m.sectors, reply.volume.map⟩ } : Kernel) = t
  have hlogged := t.sameState_logAll
    ((Volume.report j.call j.request.name j.request.parent reply).map Volume.Notice.record)
  cases houtcome : reply.outcome with
  | ok value => exact ⟨rfl, hlogged⟩
  | error cause =>
    cases cause with
    | device e =>
      cases e with
      | unresponsive => exact ⟨rfl, t.sameState_logAll _⟩
      | _ => exact ⟨rfl, hlogged.trans (sameState_log ..)⟩
    | _ => exact ⟨rfl, hlogged⟩

/-- A call with a job has the mounted volume serve it. -/
theorem call_eq_serveOn {k : Kernel} {c : SystemCall} {j : Job} {m : MountedVolume}
    (hjob : k.job? c = some j) (hm : k.mounted = some m) :
    k.call c =
      let served := k.serveOn c.memory m j.call j.request j.buffer
      (served.1, served.2.1, served.2.2.map ResultCode.toRegister) := by
  unfold job? at hjob
  cases hcall : if k.callsInstalled then Call.ofNumber? c.number.toNat else none with
  | none =>
    rw [hcall] at hjob
    cases hjob
  | some call =>
    simp only [hcall] at hjob
    split_ifs at hjob with haccepts
    obtain ⟨buffer, hbuffer, rfl⟩ := Option.map_eq_some_iff.mp hjob
    have haddress : c.args[0] = c.address := rfl
    unfold Kernel.call dispatch
    simp only [hcall, haddress, serveCall, if_pos haccepts, hbuffer, hm]

/-- A call with a job has it served by the mounted volume, and ends as the job does. -/
theorem call_of_job {k : Kernel} {c : SystemCall} {j : Job} {v : Volume Ata.Disk}
    (hjob : k.job? c = some j) (hvolume : k.volume? = some v) :
    (k.call c).2.2 = ending (j.serve v).outcome ∧
      (k.call c).1.callsInstalled = k.callsInstalled ∧
      (k.call c).1.volume? =
        some ⟨⟨v.disk.sectors, (j.serve v).volume.disk.drive⟩, (j.serve v).volume.map⟩ := by
  obtain ⟨m, hm, rfl⟩ := Option.map_eq_some_iff.mp hvolume
  obtain ⟨hends, hstate⟩ := k.serveOn_spec c.memory m j
  rw [call_eq_serveOn hjob hm]
  refine ⟨hends, hstate.callsInstalled, ?_⟩
  rw [volume?, hstate.mounted, hstate.drive]
  rfl

/-- The bytes that a job delivers are all that it changes in memory. -/
theorem memory_call_of_job {k : Kernel} {c : SystemCall} {j : Job} {v : Volume Ata.Disk}
    (hjob : k.job? c = some j) (hvolume : k.volume? = some v) :
    (k.call c).2.1 = c.memory.write j.request.buffer.toNat (j.serve v).filled := by
  obtain ⟨m, hm, rfl⟩ := Option.map_eq_some_iff.mp hvolume
  rw [call_eq_serveOn hjob hm]
  unfold serveOn Job.serve
  simp only
  generalize Volume.serve (D := Ata.Disk) _ _ _ _ _ = reply
  have hmemory : (if reply.filled.isEmpty = true then c.memory
      else c.memory.write j.request.buffer.toNat reply.filled) =
        c.memory.write j.request.buffer.toNat reply.filled := by
    split_ifs with hempty
    · rw [Array.isEmpty_iff.mp hempty, UserMemory.write_empty]
    · rfl
  rw [hmemory]
  split
  · rfl
  · split <;> rfl

/-- What becomes of a call. Its number is unknown; or its request is rejected, before the volume is
asked; or there is no volume to ask; or the volume serves its job. -/
inductive Handled (k : Kernel) (c : SystemCall) : Kernel × UserMemory × Outcome UInt64 → Prop
  | unknown (hhandler : k.handler? c.number = none) :
      Handled k c (k.note (.unknownCall c.number.toNat), c.memory, .returned unknownCallValue)
  | rejected {call : Call} (hhandler : k.handler? c.number = some call) (hjob : k.job? c = none) :
      Handled k c (k, c.memory, .returned ResultCode.invalidRequest.toRegister)
  | unmounted {j : Job} (hjob : k.job? c = some j) (hvolume : k.volume? = none) :
      Handled k c (k, c.memory, .returned ResultCode.deviceError.toRegister)
  | served {j : Job} {v : Volume Ata.Disk} (t : Kernel) (hjob : k.job? c = some j)
      (hvolume : k.volume? = some v) :
      Handled k c (t, c.memory.write j.request.buffer.toNat (j.serve v).filled,
        ending (j.serve v).outcome)

/-- A call with a handler is served with the request that its first argument points to. -/
theorem call_of_handler {k : Kernel} {c : SystemCall} {call : Call}
    (hhandler : k.handler? c.number = some call) :
    k.call c =
      let served := k.serveCall c.memory call c.address
      (served.1, served.2.1, served.2.2.map ResultCode.toRegister) := by
  have haddress : c.args[0] = c.address := rfl
  unfold handler? at hhandler
  simp only [Kernel.call, dispatch, hhandler, haddress]

theorem handled (k : Kernel) (c : SystemCall) : k.Handled c (k.call c) := by
  cases hhandler : k.handler? c.number with
  | none =>
    have hcall : k.call c =
        (k.note (.unknownCall c.number.toNat), c.memory, .returned unknownCallValue) := by
      unfold handler? at hhandler
      simp only [call, dispatch, hhandler]
    exact hcall ▸ .unknown hhandler
  | some call =>
    cases hjob : k.job? c with
    | none =>
      have hcall : k.call c = (k, c.memory, .returned ResultCode.invalidRequest.toRegister) := by
        rw [job?_of_handler hhandler] at hjob
        rw [call_of_handler hhandler, serveCall]
        split_ifs at hjob ⊢ with haccepts
        · have hbuffer := Option.map_eq_none_iff.mp hjob
          unfold SystemCall.request at hbuffer
          simp only [hbuffer, Outcome.map]
        · rfl
      exact hcall ▸ .rejected hhandler hjob
    | some j =>
      cases hvolume : k.volume? with
      | none =>
        have hcall : k.call c = (k, c.memory, .returned ResultCode.deviceError.toRegister) := by
          have hmounted : k.mounted = none := Option.map_eq_none_iff.mp hvolume
          rw [job?_of_handler hhandler] at hjob
          rw [call_of_handler hhandler, serveCall]
          split_ifs at hjob ⊢ with haccepts
          obtain ⟨buffer, hbuffer, -⟩ := Option.map_eq_some_iff.mp hjob
          unfold SystemCall.request at hbuffer
          simp only [hbuffer, hmounted, Outcome.map]
        exact hcall ▸ .unmounted hjob hvolume
      | some v =>
        have hcall : k.call c = ((k.call c).1,
            c.memory.write j.request.buffer.toNat (j.serve v).filled,
            ending (j.serve v).outcome) := by
          rw [← memory_call_of_job hjob hvolume, ← (call_of_job hjob hvolume).1]
        exact hcall ▸ .served _ hjob hvolume

/-- A call that is turned away, or finds no volume, returns and changes nothing. -/
theorem call_of_idle {k : Kernel} {c : SystemCall} (h : k.job? c = none ∨ k.volume? = none) :
    ∃ value, (k.call c).2.2 = .returned value ∧ SameState k (k.call c).1 := by
  have hhandled := k.handled c
  generalize k.call c = after at hhandled
  cases hhandled with
  | unknown => exact ⟨_, rfl, k.sameState_log _⟩
  | rejected => exact ⟨_, rfl, .refl k⟩
  | unmounted => exact ⟨_, rfl, .refl k⟩
  | served t hjob hvolume =>
    rw [hjob, hvolume] at h
    rcases h with h | h <;> cases h

end Kernel

end ClusterFs
