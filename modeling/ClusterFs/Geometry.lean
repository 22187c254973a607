/-!
Sizes of a volume. Sectors hold 512 bytes, clusters four sectors, a directory table 64 entries of 32
bytes, and the allocation map one 32-bit entry for each of 512 clusters.
-/
namespace ClusterFs

abbrev sectorSize : Nat := 512
abbrev sectorsPerCluster : Nat := 4
abbrev clusterSize : Nat := 2048
abbrev entrySize : Nat := 32
abbrev tableSlots : Nat := 64
abbrev mapEntries : Nat := 512

/-- Slot 0 of a table describes the table and slot 1 is reserved, so children start at slot 2. -/
abbrev firstChildSlot : Nat := 2
abbrev childSlots : Nat := 62

/-- Sizes and counts are 32-bit numbers. -/
abbrev wordLimit : Nat := 4294967296

/-- Sector 0 carries the signature. -/
abbrev bootSector : Nat := 0
abbrev mapCluster : UInt32 := 1
abbrev rootCluster : UInt32 := 2

abbrev Sector := Vector UInt8 512
abbrev Cluster := Vector UInt8 2048

/-- First sector of a cluster. -/
def clusterLba (cluster : UInt32) : Nat := cluster.toNat * sectorsPerCluster

/-- Clusters that hold `size` bytes. -/
def clustersFor (size : Nat) : Nat := (size + 2047) / clusterSize

/-- Clusters allocated by a write of `size` bytes. An empty write makes a directory, which takes
one. -/
def requiredClusters (size : Nat) : Nat := if size = 0 then 1 else clustersFor size

/-- Smallest buffer that a read of a file of `size` bytes accepts. -/
def readBufferSize (size : Nat) : Nat := clustersFor size * clusterSize

/-- A product past the range of its word is an error. -/
inductive ArithmeticError where
  | multiplyOverflow
  deriving DecidableEq

def ArithmeticError.message : ArithmeticError → String
  | .multiplyOverflow => "attempt to multiply with overflow"

/-- Number of sectors in `count` clusters. -/
def sectorCount (count : UInt32) : Except ArithmeticError Nat :=
  if count.toNat * sectorsPerCluster < wordLimit then .ok (count.toNat * sectorsPerCluster)
  else .error .multiplyOverflow

theorem requiredClusters_eq_max (size : Nat) :
    requiredClusters size = max 1 (clustersFor size) := by
  simp only [requiredClusters, clustersFor, clusterSize]
  split <;> omega

theorem requiredClusters_pos (size : Nat) : 0 < requiredClusters size := by
  rw [requiredClusters_eq_max]
  omega

theorem le_readBufferSize (size : Nat) : size ≤ readBufferSize size := by
  simp only [readBufferSize, clustersFor, clusterSize]
  omega

end ClusterFs
