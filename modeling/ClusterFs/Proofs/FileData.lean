import ClusterFs.Proofs.Views

/-!
What a written file reads as: the clusters of a payload one after another are its bytes and zeros up
to whole clusters, which is exactly what a read puts at the start of the caller's buffer.
-/
namespace ClusterFs

def Payload.toArray (data : Payload) : Array UInt8 :=
  Array.ofFn fun i : Fin data.size => data.byte i

/-- The bytes of a payload, filled up with zeros to whole clusters. -/
def Payload.padded (data : Payload) : Array UInt8 :=
  data.toArray ++ Array.replicate (readBufferSize data.size - data.size) 0

/-- The byte at a place of the padded payload. -/
def Payload.paddedByte (data : Payload) (k : Nat) : UInt8 :=
  if k < data.size then data.byte k else 0

theorem Payload.size_padded (data : Payload) : data.padded.size = readBufferSize data.size := by
  have hle := le_readBufferSize data.size
  simp only [padded, toArray, Array.size_append, Array.size_ofFn, Array.size_replicate]
  omega

theorem Payload.getElem?_padded (data : Payload) (k : Nat) :
    data.padded[k]? = if k < readBufferSize data.size then some (data.paddedByte k) else none := by
  have hle := le_readBufferSize data.size
  unfold padded paddedByte toArray
  rw [Array.getElem?_append, Array.size_ofFn]
  by_cases hk : k < data.size
  · rw [if_pos hk, if_pos (by omega), if_pos hk]
    simp [hk]
  · rw [if_neg hk, if_neg hk, Array.getElem?_replicate]
    by_cases hroom : k < readBufferSize data.size
    · rw [if_pos hroom, if_pos (by omega)]
    · rw [if_neg hroom, if_neg (by omega)]

/-- A buffer with room for the bytes put at its start holds them, and then its old bytes. -/
theorem Image.patch_start {bytes old : Array UInt8} (h : bytes.size ≤ old.size) :
    patch old 0 bytes = bytes ++ old.extract bytes.size := by
  apply Array.ext_getElem?
  intro k
  rw [getElem?_patch, Array.getElem?_append]
  by_cases hk : k < bytes.size
  · rw [if_pos (by omega), if_pos hk, Nat.sub_zero]
  · rw [if_neg (by omega), if_neg hk, Array.getElem?_extract]
    have hindex : bytes.size + (k - bytes.size) = k := by omega
    rw [hindex]
    by_cases hold : k < old.size
    · rw [if_pos (by omega)]
    · rw [if_neg (by omega), Array.getElem?_eq_none (by omega)]

theorem Payload.patch_padded (data : Payload) {old : Array UInt8}
    (h : readBufferSize data.size ≤ old.size) :
    Image.patch old 0 data.padded = data.padded ++ old.extract (readBufferSize data.size) := by
  rw [Image.patch_start (data.size_padded ▸ h), data.size_padded]

namespace Contents
open AllocationMap Volume

variable {x y : Contents} {directories files : Finset UInt32} {parent : UInt32}
  {name : ShortName} {data : Payload} {p : Placement}

theorem getElem?_bytes (x : Contents) (data : Payload) (i : Nat) {clusters : List UInt32}
    (h : ∀ j (hj : j < clusters.length), x.cluster clusters[j] = data.cluster (i + j)) (k : Nat) :
    (x.bytes clusters)[k]? =
      if k < clusters.length * clusterSize then some (data.paddedByte (clusterSize * i + k))
      else none := by
  induction clusters generalizing i k with
  | nil => simp [bytes]
  | cons c rest ih =>
    have hfirst : x.cluster c = data.cluster i := h 0 (by simp)
    have hrest := ih (i + 1) (k := k - clusterSize) fun j hj => by
      have hindex : i + 1 + j = i + (j + 1) := by omega
      rw [hindex]
      exact h (j + 1) (by simpa using hj)
    rw [bytes, Array.getElem?_append, Vector.size_toArray, hrest, hfirst, List.length_cons,
      Nat.add_mul, Nat.one_mul]
    by_cases hk : k < clusterSize
    · rw [if_pos hk, if_pos (by omega)]
      simp [Payload.cluster, Payload.paddedByte, hk]
    · rw [if_neg hk]
      have hindex : clusterSize * (i + 1) + (k - clusterSize) = clusterSize * i + k := by
        rw [Nat.mul_add, Nat.mul_one]
        omega
      rw [hindex]
      by_cases hlast : k < rest.length * clusterSize + clusterSize
      · rw [if_pos hlast, if_pos (by omega)]
      · rw [if_neg hlast, if_neg (by omega)]

/-- The clusters that a write fills hold the padded payload. -/
theorem bytes_eq_padded {clusters : List UInt32}
    (h : ∀ j (hj : j < clusters.length), x.cluster clusters[j] = data.cluster j)
    (hlength : clusters.length = clustersFor data.size) : x.bytes clusters = data.padded := by
  apply Array.ext_getElem?
  intro k
  rw [x.getElem?_bytes data 0 (by simpa using h), data.getElem?_padded, hlength]
  simp only [Nat.mul_zero, Nat.zero_add]
  rfl

/-- The answer to a read of the payload, and the bytes it delivers. -/
def fileAnswer (data : Payload) (capacity : Nat) : Except FsError UInt32 × Array UInt8 :=
  if capacity < readBufferSize data.size then (.error .bufferTooSmall, #[])
  else (.ok (UInt32.ofNat data.size), data.padded)

namespace Structured

/-- After a write of a file a read delivers its data. -/
theorem readFile_write (h : x.Structured directories files) (hparent : parent ∈ directories)
    (hplace : place x.map (x.table parent) name data.size = .ok p) (hsize : data.size ≠ 0)
    (capacity : Nat) :
    (x.applyAll (writeSteps parent (x.table parent) name data p)).readFile parent name capacity =
      fileAnswer data capacity := by
  obtain ⟨hlength, -, hfree, -⟩ := placement_clusters hplace
  rw [requiredClusters, if_neg hsize] at hlength
  have hword := (place_spec hplace).2.2.1
  have hstored := stored_contentSteps hplace
  have hlookup := h.lookup_write hparent hplace
  obtain ⟨hchain, -⟩ := h.sound_newEntry hplace hstored
  rw [h.applyAll_writeSteps hparent hplace] at hlookup ⊢
  have hbytes := bytes_eq_padded (hstored.file hsize).2 hlength
  generalize x.applyAll (contentSteps name data p) = y at *
  -- storing the parent table leaves the clusters of the file
  have hsame : (y.setEntry parent p.index (newEntry name data p)).bytes p.clusters =
      y.bytes p.clusters := by
    apply bytes_congr
    intro c hc
    apply cluster_setEntry_of_ne
    rintro rfl
    exact h.not_of_free hfree (.inl hparent) hc
  have hdir : (newEntry name data p).isDirectory = false := by
    simp [newEntry, kindFor, hsize]
  have htoNat : (newEntry name data p).size.toNat = data.size := by
    exact UInt32.toNat_ofNat_of_lt' hword
  have hroom : capacity / clusterSize < clustersFor data.size ↔
      capacity < readBufferSize data.size := by
    rw [readBufferSize, Nat.div_lt_iff_lt_mul (by decide)]
  simp only [readFile, hlookup, hdir, htoNat, hroom, fileAnswer, Bool.false_eq_true, if_false]
  split_ifs with hsmall
  · rfl
  · have hcluster : (newEntry name data p).cluster = p.first := Entry.cluster_create ..
    have htake : p.clusters.take (capacity / clusterSize) = p.clusters := by
      rw [List.take_eq_self_iff, hlength, ← Nat.not_lt, hroom]
      exact hsmall
    rw [hcluster, map_setEntry, hchain, htake, hsame, hbytes]
    rfl

end Structured

end Contents

end ClusterFs
