import ClusterFs.Entry

/-!
Directory tables. A table fills one cluster: an entry for itself, a reserved entry, and 62 children.
-/
namespace ClusterFs

structure Directory where
  self : Entry
  reserved : Entry
  children : Vector Entry 62
  deriving DecidableEq

namespace Directory

/-- The empty table of a directory. -/
def create (name : ShortName) (cluster : UInt32) : Directory where
  self := Entry.create name .directory 0 cluster
  reserved := .empty
  children := Vector.replicate 62 .empty

/-- Slot number of a child. -/
def slotOf (index : Nat) : Nat := firstChildSlot + index

def slot (t : Directory) (slot : Nat) : Entry :=
  if slot = 0 then t.self
  else if slot = 1 then t.reserved
  else t.children.getD (slot - firstChildSlot) .empty

def decode (raw : Cluster) : Directory where
  self := .atSlot raw.toArray 0
  reserved := .atSlot raw.toArray 1
  children := Vector.ofFn fun i : Fin 62 => .atSlot raw.toArray (slotOf i)

def encode (t : Directory) : Cluster :=
  let rows : Vector RawEntry 64 := Vector.ofFn fun i : Fin 64 => (t.slot i).encode
  Vector.ofFn fun k : Fin 2048 => rows[k.1 / 32][k.1 % 32]

/-- Index of the used child with exactly this name. -/
def find? (t : Directory) (name : ShortName) : Option (Fin 62) :=
  t.children.findFinIdx? fun e => e.isUsed && e.name == name

/-- Index of the first unused child. -/
def vacancy? (t : Directory) : Option (Fin 62) := t.children.findFinIdx? fun e => !e.isUsed

def setChild (t : Directory) (index : Fin 62) (e : Entry) : Directory :=
  { t with children := t.children.set index e }

/-- Whether slot 0 marks the table as the directory stored at `cluster`. -/
def describes (t : Directory) (cluster : UInt32) : Bool :=
  t.self.isUsed && t.self.isDirectory && t.self.cluster == cluster

def usedCount (t : Directory) : Nat := t.children.countP Entry.isUsed

end Directory

end ClusterFs
