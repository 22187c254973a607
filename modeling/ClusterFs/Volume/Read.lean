import ClusterFs.Volume.Basic

/-!
Reading files and directory tables. Only whole clusters are copied, so the buffer must hold the file
rounded up to clusters.
-/
namespace ClusterFs.Volume

variable {D : Type} [BlockDevice D]

/-- Reads a file into a buffer of `capacity` bytes and answers with the file's size. A chain that
goes on past the buffer is cut. -/
def read (v : Volume D) (parent : UInt32) (name : ShortName) (capacity : Nat) : Reply D UInt32 :=
  match v.stat parent name with
  | (v, .error e) => v.refuse e
  | (v, .ok entry) =>
    if entry.isDirectory then v.refuse .wrongType
    else
      let room := capacity / clusterSize
      if room < clustersFor entry.size.toNat then v.refuse .bufferTooSmall
      else
        let chain := v.map.chain entry.cluster
        let start := Notice.reading name entry.size entry.cluster
        let (disk, got) := readClusters v.disk (chain.take room) #[]
        let v : Volume D := ⟨disk, v.map⟩
        match got.outcome with
        | .error e => ⟨v, .error (.device e), got.bytes, [start]⟩
        | .ok () =>
          let cut := if room < chain.length then [Notice.chainTooLong name] else []
          ⟨v, .ok entry.size, got.bytes, start :: cut⟩

/-- Copies the table of a subdirectory into a buffer of `capacity` bytes. -/
def readDirectory (v : Volume D) (parent : UInt32) (name : ShortName) (capacity : Nat) :
    Reply D Unit :=
  match v.stat parent name with
  | (v, .error e) => v.refuse e
  | (v, .ok entry) =>
    if !entry.isDirectory then v.refuse .wrongType
    else if capacity < clusterSize then v.refuse .bufferTooSmall
    else
      let (disk, got) := readClusters v.disk [entry.cluster] #[]
      ⟨⟨disk, v.map⟩, got.outcome.mapError .device, got.bytes, [.listing name entry.cluster]⟩

end ClusterFs.Volume
