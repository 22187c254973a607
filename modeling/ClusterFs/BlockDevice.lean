import ClusterFs.Error
import ClusterFs.Geometry
import ClusterFs.Image

/-!
Block devices. A read delivers the start of the caller's buffer, all of it or as much as came before
a failure; a write takes the bytes to store. Clusters are moved as runs of four sectors.
-/
namespace ClusterFs

/-- The bytes that a read put at the start of the buffer, and how it ended. -/
structure Delivery where
  bytes : Array UInt8
  outcome : Except DiskError Unit

/-- The caller's buffer after the delivery. -/
def Delivery.buffer (d : Delivery) (old : Array UInt8) : Array UInt8 := Image.patch old 0 d.bytes

/-- Storage in sectors. A read is told the size of the caller's buffer. -/
class BlockDevice (D : Type) where
  read (device : D) (lba count capacity : Nat) : D × Delivery
  write (device : D) (bytes : Array UInt8) (lba count : Nat) : D × Except DiskError Unit

variable {D : Type} [BlockDevice D]

/-- One sector; bytes that the device leaves out read as zero. -/
def readSector (device : D) (lba : Nat) : D × Except DiskError Sector :=
  let (device, got) := BlockDevice.read device lba 1 sectorSize
  (device, got.outcome.map fun _ => Image.window 512 got.bytes 0)

def readCluster (device : D) (cluster : UInt32) : D × Except DiskError Cluster :=
  let (device, got) := BlockDevice.read device (clusterLba cluster) sectorsPerCluster clusterSize
  (device, got.outcome.map fun _ => Image.window 2048 got.bytes 0)

def writeCluster (device : D) (cluster : UInt32) (bytes : Cluster) : D × Except DiskError Unit :=
  BlockDevice.write device bytes.toArray (clusterLba cluster) sectorsPerCluster

/-- The clusters of a list one after another, added to the bytes already delivered. -/
def readClusters (device : D) (clusters : List UInt32) (delivered : Array UInt8) : D × Delivery :=
  match clusters with
  | [] => (device, ⟨delivered, .ok ()⟩)
  | cluster :: rest =>
    let (device, got) := BlockDevice.read device (clusterLba cluster) sectorsPerCluster clusterSize
    match got.outcome with
    | .error e => (device, ⟨delivered ++ got.bytes, .error e⟩)
    | .ok () => readClusters device rest (delivered ++ got.bytes)

end ClusterFs
