import ClusterFs.Call
import ClusterFs.Entry
import ClusterFs.Error
import ClusterFs.Log

/-! What a volume has to report, and the log records that report it. -/
namespace ClusterFs.Volume

inductive Notice where
  | unsigned
  | formatted (free : Nat)
  | mounted (free : Nat)
  | reading (name : ShortName) (size cluster : UInt32)
  | chainTooLong (name : ShortName)
  | listing (name : ShortName) (cluster : UInt32)
  | wrote (kind : EntryKind) (name : ShortName) (size clusters : Nat) (first : UInt32) (slot : Nat)
  | orphans (name : ShortName) (entries : Nat)
  | deleted (name : ShortName) (clusters : Nat)
  | refused (call : Call) (name : ShortName) (parent : UInt32) (cause : FsError)
  deriving DecidableEq

namespace Notice

def level : Notice → Level
  | unsigned | formatted _ | mounted _ => .info
  | chainTooLong _ | orphans _ _ => .warn
  | _ => .debug

/-- Refusals are reported by the calls and everything else by the volume. -/
def target : Notice → String
  | refused _ _ _ _ => "fat32::syscall"
  | _ => "fat32::driver"

def pieces : Notice → List String
  | unsigned => ["fat32: no signature in sector 0, formatting"]
  | formatted free => [s!"fat32: formatted, {free} free clusters"]
  | mounted free => [s!"fat32: mounted, {free} free clusters"]
  | reading name size cluster =>
    ["fat32: read "] ++ name.pieces ++ [s!" ({size} bytes) from cluster {cluster}"]
  | chainTooLong name =>
    ["fat32: chain of "] ++ name.pieces ++ [" is longer than its size"]
  | listing name cluster =>
    ["fat32: read_directory "] ++ name.pieces ++ [s!" at cluster {cluster}"]
  | wrote kind name size clusters first slot =>
    ["fat32: wrote ", kind.label, " "] ++ name.pieces ++
      [s!" ({size} bytes, {clusters} clusters from {first}) in slot {slot}"]
  | orphans name entries =>
    ["fat32: deleting "] ++ name.pieces ++ [s!" orphans {entries} entries"]
  | deleted name clusters =>
    ["fat32: deleted "] ++ name.pieces ++ [s!" ({clusters} clusters)"]
  | refused call name parent cause =>
    ["fat32: ", call.label, " "] ++ name.pieces ++
      [s!" in cluster {parent} -> ", cause.label]

def record (n : Notice) : Record := ⟨n.level, n.target, n.pieces⟩

end Notice

end ClusterFs.Volume
