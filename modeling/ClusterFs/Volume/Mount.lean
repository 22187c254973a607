import ClusterFs.BootSector
import ClusterFs.Volume.Basic

/-!
Mounting and formatting. A device whose sector 0 carries the signature is mounted with the map it
holds; any other is formatted first.
-/
namespace ClusterFs.Volume

variable {D : Type} [BlockDevice D]

/-- The device after an attempt to mount it, and the map if the attempt succeeded. -/
structure Mounting (D : Type) where
  disk : D
  map : Except DiskError AllocationMap
  notices : List Notice := []

def Mounting.volume (m : Mounting D) : Except DiskError (Volume D) :=
  m.map.map fun map => ⟨m.disk, map⟩

def rootName : ShortName := .ofParts [82, 79, 79, 84] []

/-- What formatting writes after the signature. -/
def formatSteps : List Step :=
  [.saveMap, .store rootCluster (Directory.create rootName rootCluster).encode]

def format (disk : D) : Mounting D :=
  match BlockDevice.write disk BootSector.signature.toArray bootSector 1 with
  | (disk, .error e) => ⟨disk, .error e, []⟩
  | (disk, .ok ()) =>
    match (⟨disk, .formatted⟩ : Volume D).perform formatSteps with
    | (v, .error e) => ⟨v.disk, .error e, []⟩
    | (v, .ok ()) => ⟨v.disk, .ok v.map, [.formatted v.map.freeCount]⟩

def mount (disk : D) : Mounting D :=
  match readSector disk bootSector with
  | (disk, .error e) => ⟨disk, .error e, []⟩
  | (disk, .ok sector) =>
    if sector = BootSector.signature then
      match readCluster disk mapCluster with
      | (disk, .error e) => ⟨disk, .error e, []⟩
      | (disk, .ok raw) =>
        let map := AllocationMap.decode raw
        ⟨disk, .ok map, [.mounted map.freeCount]⟩
    else
      let m := format disk
      { m with notices := .unsigned :: m.notices }

end ClusterFs.Volume
