import ClusterFs.Image
import ClusterFs.LittleEndian
import ClusterFs.ShortName

/-!
The filesystem calls and the request that a program passes to them by address.
-/
namespace ClusterFs

open LittleEndian

inductive Call where
  | read
  | readDirectory
  | write
  | delete
  deriving DecidableEq

namespace Call

def all : List Call := [read, readDirectory, write, delete]

def number : Call → Nat
  | read => 0
  | readDirectory => 1
  | write => 2
  | delete => 3

def ofNumber? : Nat → Option Call
  | 0 => some read
  | 1 => some readDirectory
  | 2 => some write
  | 3 => some delete
  | _ => none

def label : Call → String
  | read => "FsRead"
  | readDirectory => "FsReadDirectory"
  | write => "FsWrite"
  | delete => "FsDelete"

theorem ofNumber?_number (c : Call) : ofNumber? c.number = some c := by
  cases c <;> rfl

end Call

/-- A request: the caller's buffer and its size, and the target by name and parent cluster. A write
of size 0 makes a directory, and a delete ignores the buffer. -/
structure Request where
  buffer : UInt64
  name : ShortName
  parent : UInt32
  size : UInt32
  deriving DecidableEq

namespace Request

/-- Bytes that a request takes in memory. -/
abbrev byteSize : Nat := 32

/-- The request in memory; a byte after the name and the last four bytes are padding. -/
def encode (r : Request) : Vector UInt8 32 :=
  let n := r.name
  #v[byteOf r.buffer.toNat 0, byteOf r.buffer.toNat 1, byteOf r.buffer.toNat 2,
    byteOf r.buffer.toNat 3, byteOf r.buffer.toNat 4, byteOf r.buffer.toNat 5,
    byteOf r.buffer.toNat 6, byteOf r.buffer.toNat 7,
    n.byte 0, n.byte 1, n.byte 2, n.byte 3, n.byte 4, n.byte 5, n.byte 6, n.byte 7,
    n.byte 8, n.byte 9, n.byte 10, 0,
    byteOf r.parent.toNat 0, byteOf r.parent.toNat 1, byteOf r.parent.toNat 2,
    byteOf r.parent.toNat 3,
    byteOf r.size.toNat 0, byteOf r.size.toNat 1, byteOf r.size.toNat 2, byteOf r.size.toNat 3,
    0, 0, 0, 0]

def decode (raw : Vector UInt8 32) : Request where
  buffer := word64At raw 0
  name := .atOffset raw 8
  parent := word32At raw 20
  size := word32At raw 24

end Request

end ClusterFs
