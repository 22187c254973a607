import ClusterFs.Kernel.Basic
import ClusterFs.UserMemory
import ClusterFs.Volume.Serve

/-!
System calls. A call is found by its number, its request is read from user memory, and every address
in it is checked before it is used.
-/
namespace ClusterFs.Kernel

/-- Returned for a number without a call. -/
def unknownCallValue : UInt64 := 0xFFFFFFFFFFFFFFFF

/-- The caller's buffer, if the request names an acceptable one. A delete and an empty request take
none. -/
def requestBuffer (mem : UserMemory) (call : Call) (request : Request) : Option Payload :=
  if call = .delete ∨ request.size = 0 then some .empty
  else if UserMemory.accepts request.buffer request.size.toUInt64 then
    some (mem.payload request.buffer.toNat request.size.toNat)
  else none

/-- Runs a checked request on the mounted volume. A device error halts the kernel. -/
def serveOn (k : Kernel) (mem : UserMemory) (m : MountedVolume) (call : Call) (request : Request)
    (buffer : Payload) : Kernel × UserMemory × Outcome ResultCode :=
  let volume : Volume Ata.Disk := ⟨⟨m.sectors, k.drive⟩, m.map⟩
  let reply := volume.serve call request.name request.parent buffer
  let mem := if reply.filled.isEmpty then mem else mem.write request.buffer.toNat reply.filled
  let k := { k with
    drive := reply.volume.disk.drive
    mounted := some ⟨m.sectors, reply.volume.map⟩ }
  match reply.outcome with
  | .error (.device .unresponsive) =>
    (k.logAll (reply.notices.map Volume.Notice.record), mem, .waiting)
  | outcome =>
    let notices := Volume.report call request.name request.parent reply
    let k := k.logAll (notices.map Volume.Notice.record)
    match ResultCode.ofOutcome outcome with
    | .deviceError => (k.note (.halting call.label), mem, .halted)
    | code => (k, mem, .returned code)

/-- A filesystem call whose request lies at an address in user memory. -/
def serveCall (k : Kernel) (mem : UserMemory) (call : Call) (address : UInt64) :
    Kernel × UserMemory × Outcome ResultCode :=
  if UserMemory.accepts address 32 then
    let request := Request.decode (mem.window 32 address.toNat)
    match requestBuffer mem call request with
    | none => (k, mem, .returned .invalidRequest)
    | some buffer =>
      match k.mounted with
      | none => (k, mem, .returned .deviceError)
      | some m => k.serveOn mem m call request buffer
  else (k, mem, .returned .invalidRequest)

/-- A system call by number. Its value is left in a register. -/
def dispatch (k : Kernel) (mem : UserMemory) (number : UInt64) (args : Vector UInt64 6) :
    Kernel × UserMemory × Outcome UInt64 :=
  match if k.callsInstalled then Call.ofNumber? number.toNat else none with
  | some call =>
    let (k, mem, outcome) := k.serveCall mem call args[0]
    (k, mem, outcome.map ResultCode.toRegister)
  | none => (k.note (.unknownCall number.toNat), mem, .returned unknownCallValue)

end ClusterFs.Kernel
