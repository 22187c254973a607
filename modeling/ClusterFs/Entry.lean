import ClusterFs.Geometry
import ClusterFs.Image
import ClusterFs.LittleEndian
import ClusterFs.ShortName

/-!
Directory entries and their 32-byte form. The fields lie one after another in the order of the
structure, words little-endian. The cluster number is stored in two halves.
-/
namespace ClusterFs

open LittleEndian

abbrev RawEntry := Vector UInt8 32

inductive EntryKind where
  | file
  | directory
  deriving DecidableEq

def EntryKind.label : EntryKind → String
  | .file => "File"
  | .directory => "Directory"

/-- Attribute byte of an entry of this kind. -/
def EntryKind.attributes : EntryKind → UInt8
  | .file => 0
  | .directory => 0x10

structure Entry where
  name : ShortName
  attributes : UInt8
  userAttributes : UInt8
  undelete : UInt8
  createTime : UInt16
  createDate : UInt16
  accessDate : UInt16
  clusterHigh : UInt16
  modifiedTime : UInt16
  modifiedDate : UInt16
  clusterLow : UInt16
  size : UInt32
  deriving DecidableEq

namespace Entry

/-- User attributes of an entry in use. -/
def usedMark : UInt8 := 0xAA

def empty : Entry := ⟨.empty, 0, 0, 0, 0, 0, 0, 0, 0, 0, 0, 0⟩

def cluster (e : Entry) : UInt32 :=
  UInt32.ofNat (65536 * e.clusterHigh.toNat + e.clusterLow.toNat)

def withCluster (e : Entry) (cluster : UInt32) : Entry :=
  { e with
    clusterHigh := UInt16.ofNat (cluster.toNat / 65536)
    clusterLow := UInt16.ofNat cluster.toNat }

def isUsed (e : Entry) : Bool := e.userAttributes == usedMark

def isDirectory (e : Entry) : Bool := e.attributes &&& EntryKind.directory.attributes != 0

def kind (e : Entry) : EntryKind := if e.isDirectory then .directory else .file

/-- The used entry for a new file or directory; the fields not given are zero. -/
def create (name : ShortName) (kind : EntryKind) (size cluster : UInt32) : Entry :=
  { empty with
    name
    attributes := kind.attributes
    userAttributes := usedMark
    size }.withCluster cluster

def encode (e : Entry) : RawEntry :=
  let n := e.name
  #v[n.byte 0, n.byte 1, n.byte 2, n.byte 3, n.byte 4, n.byte 5, n.byte 6, n.byte 7,
    n.byte 8, n.byte 9, n.byte 10,
    e.attributes, e.userAttributes, e.undelete,
    byteOf e.createTime.toNat 0, byteOf e.createTime.toNat 1,
    byteOf e.createDate.toNat 0, byteOf e.createDate.toNat 1,
    byteOf e.accessDate.toNat 0, byteOf e.accessDate.toNat 1,
    byteOf e.clusterHigh.toNat 0, byteOf e.clusterHigh.toNat 1,
    byteOf e.modifiedTime.toNat 0, byteOf e.modifiedTime.toNat 1,
    byteOf e.modifiedDate.toNat 0, byteOf e.modifiedDate.toNat 1,
    byteOf e.clusterLow.toNat 0, byteOf e.clusterLow.toNat 1,
    byteOf e.size.toNat 0, byteOf e.size.toNat 1, byteOf e.size.toNat 2, byteOf e.size.toNat 3]

def decode (raw : RawEntry) : Entry where
  name := .atOffset raw 0
  attributes := raw[11]
  userAttributes := raw[12]
  undelete := raw[13]
  createTime := word16At raw 14
  createDate := word16At raw 16
  accessDate := word16At raw 18
  clusterHigh := word16At raw 20
  modifiedTime := word16At raw 22
  modifiedDate := word16At raw 24
  clusterLow := word16At raw 26
  size := word32At raw 28

/-- The entry in a slot of a table given as bytes. -/
def atSlot (table : Array UInt8) (slot : Nat) : Entry :=
  decode (Image.window 32 table (entrySize * slot))

/-- The used child slots of a table as a user program sees it, with their slot numbers. Only whole
slots count, and a table has at most 64. -/
def children (table : Array UInt8) : List (Nat × Entry) :=
  ((List.range (min tableSlots (table.size / entrySize))).drop firstChildSlot).filterMap fun slot =>
    let e := atSlot table slot
    if e.isUsed then some (slot, e) else none

/-- The cluster in slot 0 of a table, which describes the table itself. -/
def tableCluster (table : Cluster) : UInt32 := (atSlot table.toArray 0).cluster

end Entry

end ClusterFs
