import ClusterFs.Kernel.Dispatch

/-!
The filesystem calls as a user program makes them. Each writes a request at an address of the
program's own memory and passes that address to the kernel.
-/
namespace ClusterFs.UserCalls

/-- Makes a call with a request written at `address`. -/
def issue (k : Kernel) (mem : UserMemory) (address : UInt64) (call : Call) (request : Request) :
    Kernel × UserMemory × Outcome ResultCode :=
  let mem := mem.write address.toNat request.encode.toArray
  let (k, mem, outcome) :=
    k.dispatch mem (UInt64.ofNat call.number) #v[address, 0, 0, 0, 0, 0]
  (k, mem, outcome.map ResultCode.ofRegister)

/-- Reads a file into `length` bytes at `buffer`. -/
def read (k : Kernel) (mem : UserMemory) (address : UInt64) (parent : UInt32) (name : ShortName)
    (buffer : UInt64) (length : Nat) : Kernel × UserMemory × Outcome ResultCode :=
  if length < wordLimit then
    issue k mem address .read ⟨buffer, name, parent, UInt32.ofNat length⟩
  else (k, mem, .returned .invalidRequest)

/-- Copies the table of a subdirectory into the cluster at `buffer`. -/
def readDirectory (k : Kernel) (mem : UserMemory) (address : UInt64) (parent : UInt32)
    (name : ShortName) (buffer : UInt64) : Kernel × UserMemory × Outcome ResultCode :=
  issue k mem address .readDirectory ⟨buffer, name, parent, UInt32.ofNat clusterSize⟩

/-- Creates a file from `length` bytes at `buffer`, of which there must be some. -/
def write (k : Kernel) (mem : UserMemory) (address : UInt64) (parent : UInt32) (name : ShortName)
    (buffer : UInt64) (length : Nat) : Kernel × UserMemory × Outcome ResultCode :=
  if 0 < length ∧ length < wordLimit then
    issue k mem address .write ⟨buffer, name, parent, UInt32.ofNat length⟩
  else (k, mem, .returned .invalidRequest)

def makeDirectory (k : Kernel) (mem : UserMemory) (address : UInt64) (parent : UInt32)
    (name : ShortName) : Kernel × UserMemory × Outcome ResultCode :=
  issue k mem address .write ⟨0, name, parent, 0⟩

def delete (k : Kernel) (mem : UserMemory) (address : UInt64) (parent : UInt32) (name : ShortName) :
    Kernel × UserMemory × Outcome ResultCode :=
  issue k mem address .delete ⟨0, name, parent, 0⟩

end ClusterFs.UserCalls
