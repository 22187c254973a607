import ClusterFs.Proofs.Chain
import ClusterFs.Proofs.RoundTrip
import ClusterFs.Proofs.Storage

/-!
Tables and the allocation map with every range checked. Each function is written once more so that
an index, a slice, a copy or a sum that leaves its range stops it, and is shown to be the function
itself. So nothing that a device holds leads out of range.
-/
namespace ClusterFs

/-- What stops a program: an index or a slice past the end, a copy between different lengths, or a
number past its word. -/
inductive Trap where
  | index
  | slice
  | length
  | overflow
  deriving DecidableEq

/-- What a program computes unless it is stopped. -/
abbrev Checked (α : Type) := Except Trap α

namespace Checked
open AllocationMap LittleEndian

/-- Sizes and block addresses are 64-bit numbers. -/
abbrev longLimit : Nat := 18446744073709551616

variable {α : Type} {n : Nat}

def fit (limit number : Nat) : Checked Nat :=
  if number < limit then .ok number else .error .overflow

/-- An element that was looked for by its index. -/
def index : Option α → Checked α
  | some x => .ok x
  | none => .error .index

def assign (xs : Vector α n) (i : Nat) (x : α) : Checked (Vector α n) :=
  if h : i < n then .ok (xs.set i x) else .error .index

/-- The bounds of a slice of something of the given size. -/
def bounds (first last size : Nat) : Checked Unit :=
  if first ≤ last ∧ last ≤ size then .ok () else .error .slice

def slice (xs : Array α) (first last : Nat) : Checked (Array α) := do
  bounds first last xs.size
  return xs.extract first last

/-- A copy into an array of `n` bytes. -/
def copy (n : Nat) (bytes : Array UInt8) : Checked (Vector UInt8 n) :=
  if h : bytes.size = n then .ok ⟨bytes, h⟩ else .error .length

/-- An array with `bytes` from an offset on; what goes past the end is dropped. -/
def patched (raw : Vector UInt8 n) (offset : Nat) (bytes : Array UInt8) : Vector UInt8 n :=
  ⟨Image.patch raw.toArray offset bytes, by rw [Image.size_patch, Vector.size_toArray]⟩

/-- A copy into a slice of an array. -/
def put (raw : Vector UInt8 n) (first last : Nat) (bytes : Array UInt8) :
    Checked (Vector UInt8 n) := do
  let room ← slice raw.toArray first last
  if bytes.size = room.size then return patched raw first bytes
  throw .length

theorem ok_bind {β : Type} (x : α) (f : α → Checked β) : (Except.ok x >>= f) = f x := rfl

theorem fit_eq {limit number : Nat} (h : number < limit) : fit limit number = .ok number := if_pos h

theorem index_some (x : α) : index (some x) = .ok x := rfl

theorem assign_eq (xs : Vector α n) {i : Nat} (x : α) (h : i < n) :
    assign xs i x = .ok (xs.set i x) := dif_pos h

theorem bounds_eq {first last size : Nat} (h : first ≤ last) (hlast : last ≤ size) :
    bounds first last size = .ok () := if_pos ⟨h, hlast⟩

theorem slice_eq {xs : Array α} {first last : Nat} (h : first ≤ last) (hlast : last ≤ xs.size) :
    slice xs first last = .ok (xs.extract first last) := by
  rw [slice, bounds_eq h hlast]
  rfl

theorem copy_eq (v : Vector UInt8 n) : copy n v.toArray = .ok v := by
  rw [copy, dif_pos v.size_toArray]

theorem put_eq (raw : Vector UInt8 n) {first last : Nat} {bytes : Array UInt8}
    (h : first + bytes.size = last) (hlast : last ≤ n) :
    put raw first last bytes = .ok (patched raw first bytes) := by
  have hsize : bytes.size = (raw.toArray.extract first last).size := by
    rw [Array.size_extract, Vector.size_toArray]
    omega
  rw [put, slice_eq (by omega) (by rwa [Vector.size_toArray])]
  show (if bytes.size = (raw.toArray.extract first last).size then _ else _) = _
  rw [if_pos hsize]
  rfl

theorem getElem_patched (raw : Vector UInt8 n) (offset : Nat) (bytes : Array UInt8) {k : Nat}
    (hk : k < n) : (patched raw offset bytes)[k] =
      if h : offset ≤ k ∧ k < offset + bytes.size then bytes[k - offset] else raw[k] := by
  have hbyte := Image.getElem?_patch raw.toArray offset bytes k
  have hsize : k < (Image.patch raw.toArray offset bytes).size := by
    rwa [Image.size_patch, Vector.size_toArray]
  rw [Array.getElem?_eq_getElem hsize, Vector.size_toArray] at hbyte
  split_ifs with h
  · rw [if_pos ⟨h.1, h.2, hk⟩, Array.getElem?_eq_getElem (by omega)] at hbyte
    exact Option.some.inj hbyte
  · rw [if_neg fun hin => h ⟨hin.1, hin.2.1⟩, Vector.getElem?_toArray,
      Vector.getElem?_eq_getElem hk] at hbyte
    exact Option.some.inj hbyte

/-! ### Entries -/

def half (raw : Vector UInt8 n) (i : Nat) : Checked UInt16 := do
  let low ← index raw[i]?
  let high ← index raw[i + 1]?
  return word16 low high

def word (raw : Vector UInt8 n) (i : Nat) : Checked UInt32 := do
  let b0 ← index raw[i]?
  let b1 ← index raw[i + 1]?
  let b2 ← index raw[i + 2]?
  let b3 ← index raw[i + 3]?
  return word32 b0 b1 b2 b3

theorem half_eq (raw : Vector UInt8 n) {i : Nat} (h : i + 1 < n) :
    half raw i = .ok (word16At raw i h) := by
  rw [half, Vector.getElem?_eq_getElem h, Vector.getElem?_eq_getElem (by omega)]
  rfl

theorem word_eq (raw : Vector UInt8 n) {i : Nat} (h : i + 3 < n) :
    word raw i = .ok (word32At raw i h) := by
  rw [word, Vector.getElem?_eq_getElem h, Vector.getElem?_eq_getElem (by omega : i < n),
    Vector.getElem?_eq_getElem (by omega : i + 1 < n),
    Vector.getElem?_eq_getElem (by omega : i + 2 < n)]
  rfl

/-- A part of a name, cut or filled up with zeros. -/
def part (w : Nat) (bytes : Array UInt8) : Checked (Vector UInt8 w) := do
  let size := min bytes.size w
  let bytes ← slice bytes 0 size
  put (Vector.replicate w 0) 0 size bytes

theorem part_eq (w : Nat) (bytes : Array UInt8) :
    part w bytes = .ok (Vector.ofFn fun i => bytes.toList.getD i 0) := by
  have hsize : (bytes.extract 0 (min bytes.size w)).size = min bytes.size w := by
    rw [Array.size_extract]
    omega
  rw [part, slice_eq (Nat.zero_le _) (Nat.min_le_left ..), ok_bind,
    put_eq _ ((Nat.zero_add _).trans hsize) (Nat.min_le_right ..)]
  refine congrArg Except.ok (Vector.ext fun k hk => ?_)
  rw [getElem_patched _ _ _ hk, Vector.getElem_ofFn]
  by_cases hbyte : k < bytes.size
  · simp [hbyte, hk]
  · simp [hbyte]

def nameOfParts (base extension : Array UInt8) : Checked ShortName := do
  let base ← part 8 base
  let extension ← part 3 extension
  return ⟨base, extension⟩

theorem nameOfParts_eq (base extension : Array UInt8) :
    nameOfParts base extension = .ok (.ofParts base.toList extension.toList) := by
  rw [nameOfParts, part_eq, ok_bind, part_eq]
  rfl

def name (raw : RawEntry) : Checked ShortName := do
  let base ← slice raw.toArray 0 8
  let base ← copy 8 base
  let extension ← slice raw.toArray 8 11
  let extension ← copy 3 extension
  return ⟨base, extension⟩

theorem name_eq (raw : RawEntry) : name raw = .ok (ShortName.atOffset raw 0) := by
  have hbase : slice raw.toArray 0 8 = .ok (ShortName.atOffset raw 0).base.toArray := by
    rw [slice_eq (by decide) (by rw [Vector.size_toArray]; decide)]
    refine congrArg _ (Array.ext (by simp) fun k _ hk => ?_)
    rw [Vector.size_toArray] at hk
    simp [ShortName.atOffset]
  have hextension : slice raw.toArray 8 11 =
      .ok (ShortName.atOffset raw 0).extension.toArray := by
    rw [slice_eq (by decide) (by rw [Vector.size_toArray]; decide)]
    refine congrArg _ (Array.ext (by simp) fun k _ hk => ?_)
    rw [Vector.size_toArray] at hk
    simp [ShortName.atOffset]
  simp only [name, hbase, hextension, copy_eq, ok_bind]
  rfl

def entry (raw : RawEntry) : Checked Entry := do
  let name ← name raw
  let attributes ← index raw[11]?
  let userAttributes ← index raw[12]?
  let undelete ← index raw[13]?
  let createTime ← half raw 14
  let createDate ← half raw 16
  let accessDate ← half raw 18
  let clusterHigh ← half raw 20
  let modifiedTime ← half raw 22
  let modifiedDate ← half raw 24
  let clusterLow ← half raw 26
  let size ← word raw 28
  return { name, attributes, userAttributes, undelete, createTime, createDate, accessDate,
           clusterHigh, modifiedTime, modifiedDate, clusterLow, size }

theorem entry_eq (raw : RawEntry) : entry raw = .ok (Entry.decode raw) := by
  have hindex {i : Nat} (h : i < 32) : index raw[i]? = .ok raw[i] := by
    rw [Vector.getElem?_eq_getElem h, index_some]
  rw [entry, name_eq, hindex (i := 11) (by decide), hindex (i := 12) (by decide),
    hindex (i := 13) (by decide), half_eq raw (i := 14) (by decide),
    half_eq raw (i := 16) (by decide), half_eq raw (i := 18) (by decide),
    half_eq raw (i := 20) (by decide), half_eq raw (i := 22) (by decide),
    half_eq raw (i := 24) (by decide), half_eq raw (i := 26) (by decide),
    word_eq raw (i := 28) (by decide)]
  rfl

/-- The bytes of an entry, field by field. -/
def entryBytes (e : Entry) : Checked RawEntry := do
  let raw : RawEntry := Vector.replicate 32 0
  let raw ← put raw 0 8 e.name.base.toArray
  let raw ← put raw 8 11 e.name.extension.toArray
  let raw ← assign raw 11 e.attributes
  let raw ← assign raw 12 e.userAttributes
  let raw ← assign raw 13 e.undelete
  let raw ← put raw 14 16 #[byteOf e.createTime.toNat 0, byteOf e.createTime.toNat 1]
  let raw ← put raw 16 18 #[byteOf e.createDate.toNat 0, byteOf e.createDate.toNat 1]
  let raw ← put raw 18 20 #[byteOf e.accessDate.toNat 0, byteOf e.accessDate.toNat 1]
  let raw ← put raw 20 22 #[byteOf e.clusterHigh.toNat 0, byteOf e.clusterHigh.toNat 1]
  let raw ← put raw 22 24 #[byteOf e.modifiedTime.toNat 0, byteOf e.modifiedTime.toNat 1]
  let raw ← put raw 24 26 #[byteOf e.modifiedDate.toNat 0, byteOf e.modifiedDate.toNat 1]
  let raw ← put raw 26 28 #[byteOf e.clusterLow.toNat 0, byteOf e.clusterLow.toNat 1]
  put raw 28 32 (bytes32 e.size).toArray

theorem entryBytes_eq (e : Entry) : entryBytes e = .ok e.encode := by
  unfold entryBytes
  simp (disch := simp) only [put_eq, assign_eq, ok_bind]
  refine congrArg _ (Vector.ext fun k hk => ?_)
  interval_cases k <;> simp [getElem_patched, Entry.encode, ShortName.byte, bytes32, Vector.getD]

/-! ### Tables -/

theorem ofFnM_eq {m : Nat} {f : Fin m → Checked α} {g : Fin m → α} (h : ∀ i, f i = .ok (g i)) :
    Vector.ofFnM f = .ok (Vector.ofFn g) := by
  rw [funext h]
  exact Vector.ofFnM_pure

/-- The entry in a slot, copied out of the table. -/
def slot (raw : Cluster) (i : Nat) : Checked Entry := do
  let first ← fit longLimit (i * entrySize)
  let last ← fit longLimit (first + entrySize)
  let bytes ← slice raw.toArray first last
  let bytes ← copy 32 bytes
  entry bytes

theorem slot_eq (raw : Cluster) {i : Nat} (hi : i < 64) :
    slot raw i = .ok (Entry.atSlot raw.toArray i) := by
  have hsize : raw.toArray.size = 2048 := raw.size_toArray
  have hwindow := Image.toArray_window raw.toArray (by omega : 32 * i + 32 ≤ raw.toArray.size)
  have hfirst : i * entrySize = 32 * i := Nat.mul_comm ..
  rw [slot, hfirst, fit_eq (by unfold longLimit; omega), ok_bind,
    fit_eq (by unfold longLimit entrySize; omega), ok_bind,
    slice_eq (by omega) (by unfold entrySize; omega), ← hwindow, ok_bind, copy_eq, ok_bind,
    entry_eq]
  rfl

def table (raw : Cluster) : Checked Directory := do
  let self ← slot raw 0
  let reserved ← slot raw 1
  let children ← Vector.ofFnM fun i : Fin 62 => do
    let number ← fit longLimit (firstChildSlot + i)
    slot raw number
  return { self, reserved, children }

theorem table_eq (raw : Cluster) : table raw = .ok (Directory.decode raw) := by
  have hchildren : (Vector.ofFnM fun i : Fin 62 => do
      let number ← fit longLimit (firstChildSlot + i)
      slot raw number) = .ok (Directory.decode raw).children :=
    ofFnM_eq fun i => by
      rw [fit_eq (by unfold longLimit firstChildSlot; omega), ok_bind,
        slot_eq raw (by unfold firstChildSlot; omega)]
      rfl
  rw [table, slot_eq raw (by decide), ok_bind, slot_eq raw (by decide), ok_bind, hchildren]
  rfl

/-- The bytes of rows, one row after another. -/
def joined {m w : Nat} (size : Nat) (rows : Vector (Vector UInt8 w) m) : Vector UInt8 size :=
  Vector.ofFn fun k => (rows.getD (k.1 / w) (Vector.replicate w 0)).getD (k.1 % w) 0

theorem getElem_joined {m w size : Nat} (rows : Vector (Vector UInt8 w) m) {k : Nat}
    (hk : k < size) (hrow : k / w < m) (hbyte : k % w < w) :
    (joined size rows)[k] = rows[k / w][k % w] := by
  simp [joined, Vector.getD, hrow, hbyte]

def tableBytes (t : Directory) : Checked Cluster := do
  let rows ← Vector.ofFnM fun i : Fin 64 => do
    let bytes ← entryBytes (t.slot i)
    copy 32 bytes.toArray
  return joined 2048 rows

theorem tableBytes_eq (t : Directory) : tableBytes t = .ok t.encode := by
  have hrows : (Vector.ofFnM fun i : Fin 64 => do
      let bytes ← entryBytes (t.slot i)
      copy 32 bytes.toArray) = .ok (Vector.ofFn fun i : Fin 64 => (t.slot i).encode) :=
    ofFnM_eq fun i => by rw [entryBytes_eq, ok_bind, copy_eq]
  rw [tableBytes, hrows, ok_bind]
  refine congrArg Except.ok (Vector.ext fun k hk => ?_)
  rw [getElem_joined _ hk (by omega) (Nat.mod_lt k (by decide)), Vector.getElem_ofFn,
    Directory.encode, Vector.getElem_ofFn, Vector.getElem_ofFn]

/-! ### The allocation map -/

/-- The entries of the map, each taken from its four bytes. -/
def map (raw : Cluster) : Checked AllocationMap := do
  let entries ← Vector.ofFnM fun i : Fin 512 => word raw (4 * i.1)
  return ⟨entries⟩

theorem map_eq (raw : Cluster) : map raw = .ok (AllocationMap.decode raw) := by
  rw [map, ofFnM_eq fun i : Fin 512 => word_eq raw (by omega)]
  rfl

def mapBytes (m : AllocationMap) : Checked Cluster := do
  let rows ← Vector.ofFnM fun i : Fin 512 => copy 4 (bytes32 m.entries[i]).toArray
  return joined 2048 rows

theorem mapBytes_eq (m : AllocationMap) : mapBytes m = .ok m.encode := by
  have hbyte (w : UInt32) {j : Nat} (hj : j < 4) : (bytes32 w)[j] = byteOf w.toNat j := by
    interval_cases j <;> rfl
  rw [mapBytes, ofFnM_eq fun i : Fin 512 => copy_eq (bytes32 m.entries[i]), ok_bind]
  refine congrArg Except.ok (Vector.ext fun k hk => ?_)
  rw [getElem_joined _ hk (by omega) (Nat.mod_lt k (by decide)), Vector.getElem_ofFn, hbyte,
    AllocationMap.encode, Vector.getElem_ofFn]
  rfl

def freeCount (m : AllocationMap) : Checked Nat := do
  let data ← slice m.entries.toArray 2 m.entries.toArray.size
  return data.toList.count unused

theorem freeCount_eq (m : AllocationMap) : freeCount m = .ok m.freeCount := by
  have hsize : m.entries.toArray.size = 512 := m.entries.size_toArray
  rw [freeCount, slice_eq (by omega) (Nat.le_refl _), ok_bind, Array.toList_extract,
    List.extract_eq_take_drop, List.take_of_length_le (by simp)]
  rfl

/-- The search for free clusters, with the clusters found so far. -/
def scan (m : AllocationMap) (count : Nat) : List Nat → List UInt32 → Checked (List UInt32)
  | [], found => .ok found
  | i :: rest, found =>
    if found.length = count then .ok found
    else do
      let next ← index m.entries[i]?
      scan m count rest (if next = unused then found ++ [UInt32.ofNat i] else found)

theorem scan_eq (m : AllocationMap) (count : Nat) {numbers : List Nat}
    (hnumbers : ∀ i ∈ numbers, i < 512) {found : List UInt32} (hfound : found.length ≤ count) :
    scan m count numbers found = .ok ((found ++ numbers.filterMap fun i =>
      if m.entries[i]? = some unused then some (UInt32.ofNat i) else none).take count) := by
  induction numbers generalizing found with
  | nil => rw [scan, List.filterMap_nil, List.append_nil, List.take_of_length_le hfound]
  | cons i rest ih =>
    have hi := hnumbers i (by simp)
    have hrest := fun j hj => hnumbers j (List.mem_cons_of_mem i hj)
    rw [scan]
    -- a full list is a prefix already, and what is found later is cut from the plain list
    split_ifs with hfull
    · rw [List.take_append_of_le_length (Nat.le_of_eq hfull.symm),
        List.take_of_length_le (Nat.le_of_eq hfull)]
    · simp only [List.filterMap_cons, Vector.getElem?_eq_getElem hi, index_some, ok_bind,
        Option.some.injEq]
      split_ifs
      · have hroom : (found ++ [UInt32.ofNat i]).length ≤ count := by
          rw [List.length_append, List.length_singleton]
          omega
        rw [ih hrest hroom, List.append_assoc]
        rfl
      · exact ih hrest hfound

def findFree (m : AllocationMap) (count : Nat) : Checked (Except FsError (List UInt32)) :=
  if mapEntries < count then .ok (.error .insufficientSpace)
  else do
    let found ← scan m count ((List.range mapEntries).drop 2) []
    return if found.length < count then .error .insufficientSpace else .ok found

theorem findFree_eq (m : AllocationMap) (count : Nat) :
    findFree m count = .ok (m.findFree count) := by
  have hscan : scan m count ((List.range mapEntries).drop 2) [] =
      .ok (m.freeClusters.take count) := by
    rw [scan_eq m count (fun i hi => (mem_dataNumbers.mp hi).2) (by simp),
      List.nil_append, freeClusters]
  have hfree := m.length_freeClusters_le
  rw [findFree, hscan, ok_bind, List.length_take, AllocationMap.findFree]
  by_cases hroom : count ≤ m.freeClusters.length
  · rw [if_neg (by unfold mapEntries; omega), if_neg (by omega), if_pos hroom]
    rfl
  · rw [if_neg hroom]
    split_ifs
    · rfl
    · rfl
    · omega

/-- The walk along a chain; the steps taken are those of the map less those that are left. -/
def walk (m : AllocationMap) : Nat → UInt32 → Checked (List UInt32)
  | 0, _ => .ok []
  | left + 1, cluster =>
    if isData cluster then do
      let next ← index (m.get? cluster)
      if next = unused then return []
      let _ ← fit longLimit (mapEntries - (left + 1) + 1)
      if next = endOfChain then return [cluster]
      let rest ← walk m left next
      return cluster :: rest
    else .ok []

theorem walk_eq (m : AllocationMap) (left : Nat) (start : UInt32) :
    walk m left start = .ok (m.walk left start) := by
  induction left generalizing start with
  | zero => rfl
  | succ left ih =>
    unfold walk AllocationMap.walk
    split
    · rename_i hdata
      obtain ⟨next, hnext⟩ : ∃ next, m.get? start = some next :=
        ⟨_, Vector.getElem?_eq_getElem (isData_iff.mp hdata).2⟩
      simp only [hnext, index_some, ok_bind]
      split_ifs
      · rfl
      · rw [fit_eq (by unfold longLimit mapEntries; omega)]
        rfl
      · rw [fit_eq (by unfold longLimit mapEntries; omega), ok_bind, ih]
        rfl
    · rfl

def chain (m : AllocationMap) (start : UInt32) : Checked (List UInt32) := walk m mapEntries start

theorem chain_eq (m : AllocationMap) (start : UInt32) : chain m start = .ok (m.chain start) :=
  walk_eq m mapEntries start

/-- The release of a chain, with the clusters released so far. -/
def freeChain (m : AllocationMap) (cluster : UInt32) (freed : Nat) :
    Checked (AllocationMap × Nat) :=
  if isData cluster then
    match _h : m.get? cluster with
    | none => .error .index
    | some next =>
      if _hne : next = unused then .ok (m, freed)
      else do
        let _ ← assign m.entries cluster.toNat unused
        let freed ← fit longLimit (freed + 1)
        if next = endOfChain then return (m.set cluster unused, freed)
        freeChain (m.set cluster unused) next freed
  else .ok (m, freed)
termination_by m.usedEntries
decreasing_by exact usedEntries_set_unused m cluster next _h _hne

theorem freeChain_eq (m : AllocationMap) (start : UInt32) {freed : Nat}
    (h : freed + m.usedEntries < longLimit) :
    freeChain m start freed = .ok ((m.freeChain start).1, freed + (m.freeChain start).2) := by
  -- a turn empties an entry, so the count and the used entries that are left never add up to more
  fun_induction AllocationMap.freeChain m start generalizing freed with
  | case1 m start hdata hnone =>
    exact absurd hnone (by simp [get?, (isData_iff.mp hdata).2])
  | case2 m start hdata hunused =>
    rw [freeChain, if_pos hdata]
    split
    · simp_all
    · rename_i next hnext
      rw [dif_pos (Option.some.inj (hnext.symm.trans hunused)), Nat.add_zero]
  | case3 m start hdata hend hne =>
    have hfewer := usedEntries_set_unused m start _ hend hne
    rw [freeChain, if_pos hdata]
    split
    · simp_all
    · rename_i next hnext
      obtain rfl := Option.some.inj (hend.symm.trans hnext)
      rw [dif_neg hne, assign_eq _ _ (isData_iff.mp hdata).2, ok_bind, fit_eq (by omega), ok_bind,
        if_pos rfl]
      rfl
  | case4 m start hdata next hnext hne hend rest released hrest ih =>
    have hfewer := usedEntries_set_unused m start next hnext hne
    rw [freeChain, if_pos hdata]
    split
    · simp_all
    · rename_i found hfound
      obtain rfl := Option.some.inj (hnext.symm.trans hfound)
      rw [dif_neg hne, assign_eq _ _ (isData_iff.mp hdata).2, ok_bind, fit_eq (by omega), ok_bind,
        if_neg hend, ih (by omega), hrest, Nat.add_assoc, Nat.add_comm 1]
  | case5 m start hdata => rw [freeChain, if_neg hdata, Nat.add_zero]

end Checked

end ClusterFs
