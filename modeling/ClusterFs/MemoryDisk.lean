import ClusterFs.BlockDevice

/-!
A disk in memory that counts its writes, can be told to fail, and records the transfers made on it.
A transfer moves all its sectors or none.
-/
namespace ClusterFs

/-- One transfer as the device saw it; a write that succeeded shows the bytes it stored. -/
inductive Transfer where
  | read (lba count : Nat) (outcome : Except DiskError Unit)
  | write (lba count : Nat) (outcome : Except DiskError (Array UInt8))

/-- Writes fail once `writes` reaches `writeLimit`; reads fail once `readsLeft` is used up. -/
structure MemoryDisk where
  image : Image
  writes : Nat
  writeLimit : Option Nat
  readsLeft : Option Nat
  transfers : Array Transfer

namespace MemoryDisk

/-- A zeroed disk of the given number of clusters. -/
def create (clusters : Nat) : MemoryDisk where
  image := Array.replicate (clusters * clusterSize) 0
  writes := 0
  writeLimit := none
  readsLeft := none
  transfers := #[]

def failWritesAfter (d : MemoryDisk) (n : Option Nat) : MemoryDisk :=
  { d with writeLimit := n.map (d.writes + ·) }

def failReadsAfter (d : MemoryDisk) (n : Option Nat) : MemoryDisk := { d with readsLeft := n }

/-- Why a transfer is refused, the buffer being checked before the range. -/
def refusal (d : MemoryDisk) (lba count bufferSize : Nat) : Option DiskError :=
  if bufferSize < count * sectorSize then some .shortBuffer
  else if d.image.size < lba * sectorSize + count * sectorSize then some .outOfRange
  else none

def read (d : MemoryDisk) (lba count capacity : Nat) : MemoryDisk × Delivery :=
  let fails := d.readsLeft == some 0
  let d := { d with readsLeft := d.readsLeft.map (· - 1) }
  match if fails then some .fault else d.refusal lba count capacity with
  | some e =>
    ({ d with transfers := d.transfers.push (.read lba count (.error e)) }, ⟨#[], .error e⟩)
  | none =>
    let bytes := d.image.extract (lba * sectorSize) (lba * sectorSize + count * sectorSize)
    ({ d with transfers := d.transfers.push (.read lba count (.ok ())) }, ⟨bytes, .ok ()⟩)

def writesFail (d : MemoryDisk) : Bool :=
  match d.writeLimit with
  | none => false
  | some limit => limit ≤ d.writes

def write (d : MemoryDisk) (bytes : Array UInt8) (lba count : Nat) :
    MemoryDisk × Except DiskError Unit :=
  match if d.writesFail then some .fault else d.refusal lba count bytes.size with
  | some e => ({ d with transfers := d.transfers.push (.write lba count (.error e)) }, .error e)
  | none =>
    let stored := bytes.extract 0 (count * sectorSize)
    ({ d with
        image := Image.patch d.image (lba * sectorSize) stored
        writes := d.writes + 1
        transfers := d.transfers.push (.write lba count (.ok stored)) }, .ok ())

instance : BlockDevice MemoryDisk where
  read := read
  write := write

end MemoryDisk

end ClusterFs
