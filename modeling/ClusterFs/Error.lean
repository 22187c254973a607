/-!
Causes of failure on a device and on a volume, and the result codes of the system calls. A code is a
signed number that travels in an unsigned register.
-/
namespace ClusterFs

/-- An `unresponsive` drive will never answer, so a caller that polls it waits for ever. -/
inductive DiskError where
  | outOfRange
  | shortBuffer
  | fault
  | unresponsive
  deriving DecidableEq

def DiskError.label : DiskError → String
  | .outOfRange => "OutOfRange"
  | .shortBuffer => "ShortBuffer"
  | .fault => "Fault"
  | .unresponsive => "Unresponsive"

inductive FsError where
  | invalidParent
  | alreadyExists
  | notFound
  | wrongType
  | bufferTooSmall
  | directoryFull
  | insufficientSpace
  | device (cause : DiskError)
  deriving DecidableEq

def FsError.label : FsError → String
  | .invalidParent => "InvalidParent"
  | .alreadyExists => "AlreadyExists"
  | .notFound => "NotFound"
  | .wrongType => "WrongType"
  | .bufferTooSmall => "BufferTooSmall"
  | .directoryFull => "DirectoryFull"
  | .insufficientSpace => "InsufficientSpace"
  | .device cause => "Device(" ++ cause.label ++ ")"

inductive ResultCode where
  | ok
  | alreadyExists
  | invalidParent
  | notFound
  | wrongType
  | bufferTooSmall
  | directoryFull
  | insufficientSpace
  | deviceError
  | invalidRequest
  deriving DecidableEq

namespace ResultCode

def label : ResultCode → String
  | ok => "Ok"
  | alreadyExists => "AlreadyExists"
  | invalidParent => "InvalidParent"
  | notFound => "NotFound"
  | wrongType => "WrongType"
  | bufferTooSmall => "BufferTooSmall"
  | directoryFull => "DirectoryFull"
  | insufficientSpace => "InsufficientSpace"
  | deviceError => "DeviceError"
  | invalidRequest => "InvalidRequest"

def code : ResultCode → Int
  | ok => 0
  | alreadyExists => 1
  | invalidParent => 2
  | notFound => 3
  | wrongType => 4
  | bufferTooSmall => -1
  | directoryFull => -2
  | insufficientSpace => -3
  | deviceError => -4
  | invalidRequest => -5

/-- Numbers that are no code are read as an invalid request. -/
def ofCode : Int → ResultCode
  | 0 => ok
  | 1 => alreadyExists
  | 2 => invalidParent
  | 3 => notFound
  | 4 => wrongType
  | -1 => bufferTooSmall
  | -2 => directoryFull
  | -3 => insufficientSpace
  | -4 => deviceError
  | _ => invalidRequest

/-- The register that carries a code, in two's complement. -/
def toRegister (r : ResultCode) : UInt64 := ⟨BitVec.ofInt 64 r.code⟩

def ofRegister (register : UInt64) : ResultCode := ofCode register.toBitVec.toInt

theorem ofCode_code (r : ResultCode) : ofCode r.code = r := by
  cases r <;> rfl

theorem ofRegister_toRegister (r : ResultCode) : ofRegister r.toRegister = r := by
  have hcode : (BitVec.ofInt 64 r.code).toInt = r.code := by cases r <;> rfl
  rw [ofRegister, toRegister, hcode, ofCode_code]

end ResultCode

def FsError.result : FsError → ResultCode
  | .invalidParent => .invalidParent
  | .alreadyExists => .alreadyExists
  | .notFound => .notFound
  | .wrongType => .wrongType
  | .bufferTooSmall => .bufferTooSmall
  | .directoryFull => .directoryFull
  | .insufficientSpace => .insufficientSpace
  | .device _ => .deviceError

/-- The code of an outcome. -/
def ResultCode.ofOutcome {α : Type} : Except FsError α → ResultCode
  | .ok _ => .ok
  | .error e => e.result

end ClusterFs
