import ClusterFs.Ata.Disk
import ClusterFs.Serial
import ClusterFs.Volume.Mount

/-!
The kernel: the hardware it runs on, its logger, the drive it found, the volume it mounted, and
whether the system calls are installed.
-/
namespace ClusterFs

/-- Where log records go. The kernel installs the serial line unless another logger was there
first. -/
inductive LogSink where
  | none
  | serial
  | other
  deriving DecidableEq

/-- The volume in use: the size of the drive when it was mounted, and the map in memory. -/
structure MountedVolume where
  sectors : Nat
  map : AllocationMap

structure Kernel where
  drive : Ata.Drive
  serial : Array UInt8 := #[]
  sink : LogSink := .none
  limit : Option Level := none
  collected : Array Record := #[]
  probed : Option Nat := none
  mounted : Option MountedVolume := none
  callsInstalled : Bool := false

/-- What becomes of the kernel in a step: a value, a halt, or a wait that never ends. -/
inductive Outcome (α : Type) where
  | returned (value : α)
  | halted
  | waiting
  deriving DecidableEq

def Outcome.map {α β : Type} (f : α → β) : Outcome α → Outcome β
  | .returned value => .returned (f value)
  | .halted => .halted
  | .waiting => .waiting

namespace Kernel

def version : String := "0.1.0"

/-- What the kernel itself reports. -/
inductive Notice where
  | loggerKept
  | started
  | driveAbsent
  | driveRefused
  | driveFound (sectors : Nat)
  | noDisk
  | mounting (sectors : Nat)
  | mountFailed (cause : DiskError)
  | halting (during : String)
  | unknownCall (number : Nat)
  deriving DecidableEq

namespace Notice

def level : Notice → Level
  | loggerKept | driveRefused | noDisk => .warn
  | mountFailed _ | halting _ | unknownCall _ => .error
  | _ => .info

def target : Notice → String
  | loggerKept | started => "kernel"
  | driveAbsent | driveRefused | driveFound _ => "kernel::drivers::disk"
  | unknownCall _ => "kernel::syscall_handlers"
  | _ => "kernel::filesystem"

def message : Notice → String
  | loggerKept => "logger already initialized"
  | started => "kernel v" ++ version
  | driveAbsent => "disk::init: no ATA drive detected"
  | driveRefused => "disk::init: IDENTIFY returned ERR, not a plain ATA drive"
  | driveFound sectors =>
    let kib := sectors / 2
    s!"disk::init: ATA drive found, {sectors} sectors ({kib} KiB)"
  | noDisk => "filesystem::init: no disk, filesystem calls will fail"
  | mounting sectors => s!"filesystem::init: mounting {sectors} sectors"
  | mountFailed cause => "filesystem::init: " ++ cause.label
  | halting during => "filesystem: device error during " ++ during ++ ", halting"
  | unknownCall number => s!"SYSCALL: unknown syscall number {number}"

def record (n : Notice) : Record := ⟨n.level, n.target, [n.message]⟩

end Notice

/-- The drive that was found, as a block device. -/
def disk? (k : Kernel) : Option Ata.Disk := k.probed.map fun sectors => ⟨sectors, k.drive⟩

/-- Free clusters of the mounted volume. -/
def freeCount? (k : Kernel) : Option Nat := k.mounted.map fun m => m.map.freeCount

/-- Hands a record to the logger if its level passes the limit. -/
def log (k : Kernel) (r : Record) : Kernel :=
  if r.level.passes k.limit then
    match k.sink with
    | .none => k
    | .serial => { k with serial := k.serial ++ Serial.Line.standard.recordBytes r }
    | .other => { k with collected := k.collected.push r }
  else k

def logAll (k : Kernel) (records : List Record) : Kernel := records.foldl log k

def note (k : Kernel) (n : Notice) : Kernel := k.log n.record

end Kernel

end ClusterFs
