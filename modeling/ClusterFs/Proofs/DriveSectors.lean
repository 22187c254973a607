import ClusterFs.Ata.Disk
import ClusterFs.Proofs.Words
import Mathlib.Tactic.SplitIfs

/-!
The sectors of a command, faults included. However many busy answers it gives, a drive moves them in
order, word by word, and stops at the first that it cannot move.
-/
namespace ClusterFs

/-- Patches of adjacent stretches are one patch. -/
theorem Image.patch_patch (image : Image) (offset : Nat) (a b : Array UInt8) :
    patch (patch image offset a) (offset + a.size) b = patch image offset (a ++ b) := by
  apply Array.ext_getElem?
  intro j
  simp only [getElem?_patch, size_patch, Array.size_append, Array.getElem?_append]
  by_cases hj : j < image.size
  · by_cases hlow : j < offset + a.size
    · by_cases hin : offset ≤ j
      · rw [if_neg (by omega), if_pos (by omega), if_pos (by omega), if_pos (by omega)]
      · rw [if_neg (by omega), if_neg (by omega), if_neg (by omega)]
    · have hindex : j - (offset + a.size) = j - offset - a.size := by omega
      by_cases hhigh : j < offset + a.size + b.size
      · rw [if_pos (by omega), if_pos (by omega), if_neg (by omega), hindex]
      · rw [if_neg (by omega), if_neg (by omega), if_neg (by omega)]
  · rw [if_neg (by omega), if_neg (by omega), if_neg (by omega)]

theorem extract_append_extract {α : Type} (xs : Array α) {i j k : Nat} (hij : i ≤ j) (hjk : j ≤ k) :
    xs.extract i j ++ xs.extract j k = xs.extract i k := by
  rw [Array.extract_append_extract, Nat.min_eq_left hij, Nat.max_eq_right hjk]

theorem Image.patch_empty (image : Image) (offset : Nat) : patch image offset #[] = image := rfl

/-- The bytes of `n` sectors. -/
def Image.sectors (image : Array UInt8) (lba n : Nat) : Array UInt8 :=
  image.extract (lba * sectorSize) ((lba + n) * sectorSize)

theorem Image.sectors_zero (image : Array UInt8) (lba : Nat) : sectors image lba 0 = #[] := by
  rw [← Array.size_eq_zero_iff]
  simp only [sectors, Array.size_extract, Nat.add_zero]
  omega

theorem Image.sectors_append (image : Array UInt8) (lba m n : Nat) :
    sectors image lba m ++ sectors image (lba + m) n = sectors image lba (m + n) := by
  unfold sectors
  rw [extract_append_extract _ (Nat.mul_le_mul_right _ (Nat.le_add_right lba m))
    (Nat.mul_le_mul_right _ (Nat.le_add_right (lba + m) n)), Nat.add_assoc]

theorem Image.size_sectors {image : Array UInt8} {lba n : Nat}
    (h : (lba + n) * sectorSize ≤ image.size) : (sectors image lba n).size = n * sectorSize := by
  rw [sectors, Array.size_extract, Nat.min_eq_left h, ← Nat.sub_mul, Nat.add_sub_cancel_left]

theorem Image.getElem?_sectors {image : Array UInt8} {lba n : Nat}
    (h : (lba + n) * sectorSize ≤ image.size) (j : Nat) :
    (sectors image lba n)[j]? =
      if j < n * sectorSize then image[lba * sectorSize + j]? else none := by
  rw [sectors, Array.getElem?_extract, Nat.min_eq_left h, ← Nat.sub_mul, Nat.add_sub_cancel_left]

/-- Patches of adjacent sectors are one patch. -/
theorem Image.patch_sectors (image : Image) {bytes : Array UInt8} (lba : Nat) {first m : Nat}
    (h : (first + m) * sectorSize ≤ bytes.size) (n : Nat) :
    patch (patch image (lba * sectorSize) (sectors bytes first m)) ((lba + m) * sectorSize)
        (sectors bytes (first + m) n) =
      patch image (lba * sectorSize) (sectors bytes first (m + n)) := by
  rw [← sectors_append, ← patch_patch, size_sectors h, Nat.add_mul lba m]

namespace Ata
open LittleEndian

namespace Drive

variable {d e f : Drive} {kind : TransferKind} {lba left n : Nat}

/-- What no command changes of a drive: that it is there, what it reports, its faults and its
size. -/
structure Kept (d e : Drive) : Prop where
  present : e.present = d.present
  reportedSectors : e.reportedSectors = d.reportedSectors
  flushFails : e.flushFails = d.flushFails
  badReads : e.badReads = d.badReads
  badWrites : e.badWrites = d.badWrites
  size : e.image.size = d.image.size

theorem Kept.refl (d : Drive) : Kept d d := ⟨rfl, rfl, rfl, rfl, rfl, rfl⟩

theorem Kept.trans (h : Kept d e) (h' : Kept e f) : Kept d f :=
  ⟨h'.present.trans h.present, h'.reportedSectors.trans h.reportedSectors,
    h'.flushFails.trans h.flushFails, h'.badReads.trans h.badReads,
    h'.badWrites.trans h.badWrites, h'.size.trans h.size⟩

theorem Kept.canMove (h : Kept d e) (kind : TransferKind) (lba : Nat) :
    e.canMove kind lba = d.canMove kind lba := by
  cases kind <;> simp only [Drive.canMove, h.badReads, h.badWrites, h.size]

/-- A drive `e` that took its next `n` delays after `d`, and still owes all of the last. -/
structure Delayed (d e : Drive) (n : Nat) : Prop where
  delays : e.delays = d.delays
  delaysUsed : e.delaysUsed = d.delaysUsed + n
  owed : e.owed = if n = 0 then d.owed else d.delays (d.delaysUsed + n - 1)

theorem Delayed.refl (d : Drive) : Delayed d d 0 := ⟨rfl, rfl, rfl⟩

theorem Delayed.trans {m : Nat} (h : Delayed d e m) (h' : Delayed e f n) :
    Delayed d f (m + n) where
  delays := h'.delays.trans h.delays
  delaysUsed := by rw [h'.delaysUsed, h.delaysUsed, Nat.add_assoc]
  owed := by
    rw [h'.owed, h.owed, h.delays, h.delaysUsed, Nat.add_assoc]
    by_cases hn : n = 0
    · rw [if_pos hn, hn, Nat.add_zero]
    · rw [if_neg hn, if_neg (by omega)]

theorem end_le_of_canMove (h : d.canMove kind lba = true) (hkind : kind ≠ .identify) :
    (lba + 1) * sectorSize ≤ d.image.size := by
  cases kind with
  | identify => exact absurd rfl hkind
  | read => exact of_decide_eq_true (Bool.and_eq_true_iff.mp h).1
  | write => exact of_decide_eq_true (Bool.and_eq_true_iff.mp h).1

/-- A drive without error at the first word of a sector, `left` sectors before the end of its
transfer. -/
structure Moving (d : Drive) (kind : TransferKind) (lba left : Nat) : Prop where
  failed : d.failed = false
  transfer : d.transfer = if left = 0 then none else some ⟨kind, lba, left, 0, #[]⟩
/-- A drive at the first word of a sector, or stopped by an error before it. -/
structure Begun (d : Drive) (kind : TransferKind) (lba left : Nat) : Prop where
  moving : (left ≠ 0 → d.canMove kind lba = true) → d.Moving kind lba left
  stopped : left ≠ 0 → d.canMove kind lba = false → d.failed = true

theorem begun_beginSector (kind : TransferKind) (lba left : Nat) (hfailed : d.failed = false) :
    (d.beginSector kind lba left).Begun kind lba left := by
  unfold beginSector
  split_ifs with hleft hcan
  · exact ⟨fun _ => ⟨hfailed, by rw [if_pos hleft]⟩, fun h => absurd hleft h⟩
  · refine ⟨fun _ => ⟨hfailed, by rw [if_neg hleft]⟩, fun _ hbad => ?_⟩
    cases kind <;> exact absurd (hcan.symm.trans hbad) (by decide)
  · refine ⟨fun h => ?_, fun _ _ => rfl⟩
    cases kind <;> exact absurd (h hleft) hcan

theorem canMove_read (h : (lba + 1) * sectorSize ≤ d.image.size) :
    d.canMove .read lba = !d.badReads.contains lba := by
  rw [canMove, decide_eq_true h, Bool.true_and]

theorem canMove_write (h : (lba + 1) * sectorSize ≤ d.image.size) :
    d.canMove .write lba = !d.badWrites.contains lba := by
  rw [canMove, decide_eq_true h, Bool.true_and]

/-- To begin a sector changes neither the image nor the commands taken. -/
theorem frame_beginSector (d : Drive) (kind : TransferKind) (lba left : Nat) :
    Kept d (d.beginSector kind lba left) ∧ (d.beginSector kind lba left).image = d.image ∧
      (d.beginSector kind lba left).commands = d.commands := by
  unfold beginSector
  split_ifs <;> exact ⟨⟨rfl, rfl, rfl, rfl, rfl, rfl⟩, rfl, rfl⟩

/-- To begin a sector takes no delay. -/
theorem Delayed.beginSector (h : Delayed d e n) (kind : TransferKind) (lba left : Nat) :
    Delayed d (e.beginSector kind lba left) n := by
  unfold Drive.beginSector
  split_ifs <;> exact ⟨h.delays, h.delaysUsed, h.owed⟩

/-- The sectors of a transfer before the first that the drive cannot move. -/
def movable (d : Drive) (kind : TransferKind) (lba : Nat) : Nat → Nat
  | 0 => 0
  | n + 1 => if d.canMove kind lba = true then d.movable kind (lba + 1) n + 1 else 0

theorem Kept.movable (h : Kept d e) (kind : TransferKind) (lba n : Nat) :
    e.movable kind lba n = d.movable kind lba n := by
  induction n generalizing lba with
  | zero => rfl
  | succ n ih => simp only [Drive.movable, h.canMove, ih]

theorem movable_le (d : Drive) (kind : TransferKind) (lba n : Nat) : d.movable kind lba n ≤ n := by
  induction n generalizing lba with
  | zero => exact Nat.le_refl 0
  | succ n ih =>
    rw [movable]
    split_ifs
    · exact Nat.succ_le_succ (ih (lba + 1))
    · exact Nat.zero_le _

theorem canMove_of_lt_movable {i : Nat} (hi : i < d.movable kind lba n) :
    d.canMove kind (lba + i) = true := by
  induction n generalizing lba i with
  | zero => exact absurd hi (Nat.not_lt_zero i)
  | succ n ih =>
    rw [movable] at hi
    split_ifs at hi with hcan
    · cases i with
      | zero => exact hcan
      | succ i =>
        rw [Nat.add_comm i, ← Nat.add_assoc]
        exact ih (Nat.lt_of_succ_lt_succ hi)
    · exact absurd hi (Nat.not_lt_zero i)

theorem canMove_movable (h : d.movable kind lba n < n) :
    d.canMove kind (lba + d.movable kind lba n) = false := by
  induction n generalizing lba with
  | zero => exact absurd h (Nat.lt_irrefl 0)
  | succ n ih =>
    by_cases hcan : d.canMove kind lba = true
    · rw [movable, if_pos hcan] at h ⊢
      rw [Nat.add_comm (movable ..), ← Nat.add_assoc]
      exact ih (Nat.lt_of_succ_lt_succ h)
    · rw [movable, if_neg hcan]
      exact Bool.eq_false_iff.mpr hcan

theorem movable_of_forall (h : ∀ i < n, d.canMove kind (lba + i) = true) :
    d.movable kind lba n = n := by
  rcases Nat.lt_or_eq_of_le (d.movable_le kind lba n) with hlt | heq
  · exact absurd ((h _ hlt).symm.trans (canMove_movable hlt)) (by decide)
  · exact heq

/-- The second part of a transfer counts once the first has moved. -/
theorem movable_add (d : Drive) (kind : TransferKind) (lba m n : Nat) :
    d.movable kind lba (m + n) =
      if d.movable kind lba m = m then m + d.movable kind (lba + m) n
      else d.movable kind lba m := by
  induction m generalizing lba with
  | zero => simp [movable]
  | succ m ih =>
    rw [Nat.add_right_comm m 1 n]
    by_cases hcan : d.canMove kind lba = true
    · simp only [movable, if_pos hcan, ih, Nat.add_right_cancel_iff]
      split_ifs
      · rw [Nat.add_right_comm, Nat.add_assoc lba 1 m, Nat.add_comm 1 m]
      · rfl
    · simp only [movable, if_neg hcan]
      rw [if_neg (Nat.succ_ne_zero m).symm]

/-- The next sector is begun whatever was under way. -/
theorem beginSector_turnBusy (d : Drive) (t : Option Transfer) (kind : TransferKind)
    (lba left : Nat) :
    (turnBusy { d with transfer := t }).beginSector kind lba left =
      d.turnBusy.beginSector kind lba left := by
  have hcan : (turnBusy { d with transfer := t }).canMove kind lba =
      d.turnBusy.canMove kind lba := by
    cases kind <;> rfl
  unfold beginSector
  rw [hcan]
  rfl

/-- The words that the drive gives for a sector. -/
def wordAt (d : Drive) : TransferKind → Nat → Nat → UInt16
  | .identify, _, word => d.identityWord word
  | .read, lba, word =>
    word16 (d.image.getD (lba * sectorSize + 2 * word) 0)
      (d.image.getD (lba * sectorSize + 2 * word + 1) 0)
  | .write, _, _ => 0

/-- The drive after a wait. -/
def settled (d : Drive) : Drive := { d with owed := 0 }

/-- The drive with the bytes of a sector stored. -/
def stored (d : Drive) (lba : Nat) (bytes : Array UInt8) : Drive :=
  { d with image := Image.patch d.image (lba * sectorSize) bytes }

theorem kept_settled (d : Drive) : Kept d d.settled.turnBusy :=
  ⟨rfl, rfl, rfl, rfl, rfl, rfl⟩

theorem kept_stored (d : Drive) (lba : Nat) (bytes : Array UInt8) :
    Kept d (d.settled.stored lba bytes).turnBusy :=
  ⟨rfl, rfl, rfl, rfl, rfl, Image.size_patch ..⟩

theorem delayed_stored (d : Drive) (lba : Nat) (bytes : Array UInt8) :
    Delayed d (d.settled.stored lba bytes).turnBusy 1 :=
  ⟨rfl, rfl, rfl⟩

theorem readData_eq {t : Transfer} (ht : d.transfer = some t) (hkind : t.kind ≠ .write) :
    d.readData = (d.advance t, d.wordAt t.kind t.lba t.word) := by
  obtain ⟨kind, lba, left, word, received⟩ := t
  simp only [readData, ht]
  cases kind with
  | identify => rfl
  | read => rfl
  | write => exact absurd rfl hkind

theorem advance_last {t : Transfer} (hword : t.word + 1 = 256) (hkind : t.kind ≠ .write) :
    d.advance t = d.turnBusy.beginSector t.kind (t.lba + 1) (t.left - 1) := by
  obtain ⟨kind, lba, left, word, received⟩ := t
  simp only [advance, hword, Nat.lt_irrefl, if_false]

end Drive

/-! ### Waiting -/

theorem waitNotBusy_eq {d : Drive} (hd : d.present = true) :
    waitNotBusy d = (d.settled, d.restingStatus) := by
  induction hn : d.owed generalizing d with
  | zero =>
    have hstatus : d.readStatus = (d, d.restingStatus) := by
      simp [Drive.readStatus, hd, hn]
    have hsame : d.settled = d := by rw [Drive.settled, ← hn]
    rw [waitNotBusy, hstatus, hsame]
    exact dif_pos d.restingStatus_not_busy
  | succ n ih =>
    have hstatus : d.readStatus = ({ d with owed := n }, statusBusy) := by
      simp [Drive.readStatus, hd, hn]
    have hbusy : ¬ statusBusy &&& statusBusy = 0 := by decide
    rw [waitNotBusy, hstatus, dif_neg hbusy]
    exact ih hd rfl

/-- A drive with a transfer under way answers ready to a wait for data. -/
theorem waitDataRequest_eq {d : Drive} (hd : d.present = true) (hfailed : d.failed = false)
    (htransfer : d.transfer.isSome = true) :
    waitDataRequest d = (d.settled, .ready) := by
  have hstatus : d.restingStatus = 0x58 := by
    simp [Drive.restingStatus, hfailed, htransfer]
  simp only [waitDataRequest, waitNotBusy_eq hd, hstatus]
  rfl

/-- A drive stopped by an error answers so. -/
theorem waitDataRequest_failed {d : Drive} (hd : d.present = true) (hfailed : d.failed = true) :
    waitDataRequest d = (d.settled, .failed) := by
  have hstatus : d.restingStatus = 0x51 := by simp [Drive.restingStatus, hfailed]
  simp only [waitDataRequest, waitNotBusy_eq hd, hstatus]
  rfl

/-! ### Words -/

theorem push_push {α : Type} (xs : Array α) (a b : α) : (xs.push a).push b = xs ++ #[a, b] := by
  rw [Array.push_eq_append, Array.push_eq_append, Array.append_assoc]
  rfl

/-- The bytes of `n` words. -/
def wordBytes (word : Nat → UInt16) (first : Nat) : Nat → Array UInt8
  | 0 => #[]
  | n + 1 =>
    #[byteOf (word first).toNat 0, byteOf (word first).toNat 1] ++ wordBytes word (first + 1) n

theorem getElem?_wordBytes (word : Nat → UInt16) (first n j : Nat) :
    (wordBytes word first n)[j]? =
      if j < 2 * n then some (byteOf (word (first + j / 2)).toNat (j % 2)) else none := by
  induction n generalizing first j with
  | zero => simp [wordBytes]
  | succ n ih =>
    rw [wordBytes, Array.getElem?_append, ih]
    match j with
    | 0 => simp
    | 1 =>
      have hone : 1 < 2 * (n + 1) := by omega
      simp [hone]
    | j + 2 =>
      have hhalf : first + (j + 2) / 2 = first + 1 + j / 2 := by omega
      have hbit : (j + 2) % 2 = j % 2 := by omega
      rw [hhalf, hbit]
      simp only [List.size_toArray, List.length_cons, List.length_nil, Nat.add_sub_cancel]
      rw [if_neg (by omega)]
      by_cases hj : j < 2 * n
      · rw [if_pos hj, if_pos (by omega)]
      · rw [if_neg hj, if_neg (by omega)]

/-- The rest of a sector, taken word by word. -/
theorem receiveWords_eq {d : Drive} {t : Transfer} {n : Nat} (ht : d.transfer = some t)
    (hkind : t.kind ≠ .write) (hword : t.word + (n + 1) = 256) (taken : Array UInt8) :
    receiveWords d (n + 1) taken =
      (d.turnBusy.beginSector t.kind (t.lba + 1) (t.left - 1),
        taken ++ wordBytes (d.wordAt t.kind t.lba) t.word (n + 1)) := by
  induction n generalizing d t taken with
  | zero =>
    simp only [receiveWords, Drive.readData_eq ht hkind, Drive.advance_last hword hkind, wordBytes,
      push_push]
    rfl
  | succ n ih =>
    have hadvance : d.advance t = { d with transfer := some { t with word := t.word + 1 } } :=
      if_pos (by omega)
    have hrest := ih (d := { d with transfer := some { t with word := t.word + 1 } })
      (t := { t with word := t.word + 1 }) rfl hkind (by simp only; omega)
    rw [receiveWords, Drive.readData_eq ht hkind, hadvance]
    simp only
    have hsame : ({ d with transfer := some { t with word := t.word + 1 } } : Drive).wordAt t.kind =
        d.wordAt t.kind := by
      cases t.kind <;> rfl
    rw [hrest, Drive.beginSector_turnBusy, hsame, push_push, Array.append_assoc]
    rfl

/-- The words of a sector are its bytes. -/
theorem wordBytes_read {d : Drive} {lba : Nat} (h : (lba + 1) * sectorSize ≤ d.image.size) :
    wordBytes (d.wordAt .read lba) 0 256 = Image.sectors d.image lba 1 := by
  simp only [Image.sectors, sectorSize, Nat.add_mul, Nat.one_mul] at h ⊢
  apply Array.ext_getElem?
  intro j
  rw [getElem?_wordBytes, Array.getElem?_extract]
  by_cases hj : j < 512
  · have hbyte : byteOf (d.wordAt .read lba (0 + j / 2)).toNat (j % 2) =
        d.image.getD (lba * 512 + j) 0 := by
      rw [Drive.wordAt, Nat.zero_add]
      rcases Nat.mod_two_eq_zero_or_one j with hbit | hbit
      · have hindex : lba * 512 + 2 * (j / 2) = lba * 512 + j := by omega
        rw [hbit, byteOf_word16 _ _ (by decide), ← hindex]
        rfl
      · have hindex : lba * 512 + 2 * (j / 2) + 1 = lba * 512 + j := by omega
        rw [hbit, byteOf_word16 _ _ (by decide), ← hindex]
        rfl
    have hin : lba * 512 + j < d.image.size := by omega
    rw [if_pos (by omega), if_pos (by omega), hbyte, Array.getD_eq_getD_getElem?,
      Array.getElem?_eq_getElem hin, Option.getD_some]
  · rw [if_neg (by omega), if_neg (by omega)]

theorem extract_pair {bytes : Array UInt8} {offset : Nat} (h : offset + 2 ≤ bytes.size) :
    bytes.extract offset (offset + 2) = #[bytes.getD offset 0, bytes.getD (offset + 1) 0] := by
  apply Array.ext
  · simp only [Array.size_extract, List.size_toArray, List.length_cons, List.length_nil]
    omega
  · intro i hi hi'
    rw [Array.getElem_extract]
    match i with
    | 0 => simp [show offset < bytes.size by omega]
    | 1 => simp [show offset + 1 < bytes.size by omega]

/-- The rest of a sector, given word by word, is stored with its last word. -/
theorem sendWords_eq {d : Drive} {lba left word n : Nat} {received : Array UInt8}
    (ht : d.transfer = some ⟨.write, lba, left, word, received⟩) (hword : word + (n + 1) = 256)
    {bytes : Array UInt8} {offset : Nat} (hsize : offset + 2 * (n + 1) ≤ bytes.size) :
    sendWords d bytes offset (n + 1) =
      (d.stored lba (received ++ bytes.extract offset (offset + 2 * (n + 1)))).turnBusy.beginSector
        .write (lba + 1) (left - 1) := by
  have hdata {d : Drive} {word offset : Nat} {received : Array UInt8}
      (ht : d.transfer = some ⟨.write, lba, left, word, received⟩)
      (hsize : offset + 2 ≤ bytes.size) :
      d.writeData (word16 (bytes.getD offset 0) (bytes.getD (offset + 1) 0)) =
        d.advance ⟨.write, lba, left, word, received ++ bytes.extract offset (offset + 2)⟩ := by
    have hlow (a b : UInt8) : byteOf (word16 a b).toNat 0 = a := byteOf_word16 a b (by decide)
    have hhigh (a b : UInt8) : byteOf (word16 a b).toNat 1 = b := byteOf_word16 a b (by decide)
    simp only [Drive.writeData, ht, hlow, hhigh, extract_pair hsize, push_push]
  induction n generalizing d word received offset with
  | zero =>
    rw [sendWords, hdata ht (by omega)]
    simp only [Drive.advance, hword, Nat.lt_irrefl, if_false, sendWords]
    rfl
  | succ n ih =>
    have hadvance (t : Transfer) (hword : t.word = word) :
        d.advance t = { d with transfer := some { t with word := t.word + 1 } } :=
      if_pos (by omega)
    rw [sendWords, hdata ht (by omega), hadvance _ rfl]
    simp only
    rw [ih rfl (by omega) (by omega), Array.append_assoc,
      extract_append_extract _ (by omega) (by omega)]
    have hend : offset + 2 + 2 * (n + 1) = offset + 2 * (n + 1 + 1) := by omega
    rw [hend]
    exact Drive.beginSector_turnBusy (d.stored lba _) _ _ _ _

/-! ### Sectors -/

/-- How a transfer ends of which `moved` sectors moved. -/
def transferOutcome (moved count : Nat) : Except DiskError Unit :=
  if moved = count then .ok () else .error .fault

theorem transferOutcome_add (moved count n : Nat) :
    transferOutcome (moved + n) (count + n) = transferOutcome moved count := by
  simp only [transferOutcome, Nat.add_right_cancel_iff]

theorem transferOutcome_zero (count : Nat) :
    transferOutcome 0 (count + 1) = .error .fault := if_neg (Nat.succ_ne_zero count).symm

/-- One sector of a transfer from the drive. -/
theorem receiveSector_eq {lba left : Nat} {d : Drive} (hd : d.present = true)
    (hmoving : d.Moving .read lba (left + 1)) (hmove : d.canMove .read lba = true)
    (taken : Array UInt8) :
    ∃ b e, waitDataRequest d = (b, .ready) ∧
      receiveWords b 256 taken = (e, taken ++ Image.sectors d.image lba 1) ∧
      e.Begun .read (lba + 1) left ∧ d.Kept e ∧ e.image = d.image ∧ e.commands = d.commands := by
  have htransfer : d.transfer = some ⟨.read, lba, left + 1, 0, #[]⟩ := hmoving.transfer
  obtain ⟨hkept, himage, hcommands⟩ := d.settled.turnBusy.frame_beginSector .read (lba + 1) left
  have hwords := receiveWords_eq (d := d.settled) (n := 255) htransfer nofun rfl taken
  have hsector : wordBytes (d.settled.wordAt .read lba) 0 256 = Image.sectors d.image lba 1 :=
    wordBytes_read (Drive.end_le_of_canMove (d := d) hmove (by decide))
  refine ⟨d.settled, _, waitDataRequest_eq hd hmoving.failed (by rw [htransfer]; rfl), ?_,
    Drive.begun_beginSector (d := d.settled.turnBusy) .read (lba + 1) left hmoving.failed,
    d.kept_settled.trans hkept, himage, hcommands⟩
  rw [← hsector]
  exact hwords

/-- The sectors left of a transfer from the drive, up to the first that cannot be read. -/
theorem receiveSectors_eq {n lba : Nat} {d : Drive} (hd : d.present = true)
    (hbegun : d.Begun .read lba n) (taken : Array UInt8) :
    ∃ e, receiveSectors d n taken =
        (e, ⟨taken ++ Image.sectors d.image lba (d.movable .read lba n),
          transferOutcome (d.movable .read lba n) n⟩) ∧
      d.Kept e ∧ e.image = d.image ∧ e.commands = d.commands := by
  induction n generalizing lba d taken with
  | zero =>
    refine ⟨d, ?_, .refl d, rfl, rfl⟩
    rw [receiveSectors, Drive.movable, Image.sectors_zero, Array.append_empty]
    rfl
  | succ n ih =>
    by_cases hcan : d.canMove .read lba = true
    · obtain ⟨b, e, hwait, hwords, hnext, hkept, himage, hcommands⟩ :=
        receiveSector_eq hd (hbegun.moving fun _ => hcan) hcan taken
      obtain ⟨f, hrest, hkept', himage', hcommands'⟩ := ih (hkept.present.trans hd) hnext
        (taken ++ Image.sectors d.image lba 1)
      refine ⟨f, ?_, hkept.trans hkept', himage'.trans himage, hcommands'.trans hcommands⟩
      simp only [receiveSectors, hwait, hwords, hrest, himage, hkept.movable, Drive.movable,
        if_pos hcan, transferOutcome_add, Array.append_assoc]
      rw [Image.sectors_append, Nat.add_comm 1]
    · have hstopped := hbegun.stopped (Nat.succ_ne_zero n) (Bool.eq_false_iff.mpr hcan)
      refine ⟨d.settled, ?_, ⟨rfl, rfl, rfl, rfl, rfl, rfl⟩, rfl, rfl⟩
      simp only [receiveSectors, waitDataRequest_failed hd hstopped, Drive.movable, if_neg hcan,
        transferOutcome_zero, Image.sectors_zero, Array.append_empty]

/-- One sector of a transfer to the drive. -/
theorem sendSector_eq {lba left first : Nat} {d : Drive} {bytes : Array UInt8}
    (hd : d.present = true) (hmoving : d.Moving .write lba (left + 1))
    (hsize : (first + 1) * sectorSize ≤ bytes.size) :
    ∃ b e, waitDataRequest d = (b, .ready) ∧ sendWords b bytes (first * sectorSize) 256 = e ∧
      e.Begun .write (lba + 1) left ∧ d.Kept e ∧
      e.image = Image.patch d.image (lba * sectorSize) (Image.sectors bytes first 1) ∧
      e.commands = d.commands ∧ d.Delayed e 1 := by
  have htransfer : d.transfer = some ⟨.write, lba, left + 1, 0, #[]⟩ := hmoving.transfer
  rw [Nat.succ_mul] at hsize
  have hwords := sendWords_eq (d := d.settled) (n := 255) htransfer rfl hsize
  have hsector : bytes.extract (first * sectorSize) (first * sectorSize + 2 * (255 + 1)) =
      Image.sectors bytes first 1 := by
    rw [Image.sectors, Nat.succ_mul first]
  rw [Array.empty_append, hsector] at hwords
  obtain ⟨hkept, himage, hcommands⟩ := Drive.frame_beginSector
    (d.settled.stored lba (Image.sectors bytes first 1)).turnBusy .write (lba + 1) left
  exact ⟨d.settled, _, waitDataRequest_eq hd hmoving.failed (by rw [htransfer]; rfl), hwords,
    Drive.begun_beginSector .write (lba + 1) left hmoving.failed,
    (d.kept_stored lba _).trans hkept, himage, hcommands, (d.delayed_stored lba _).beginSector ..⟩

/-- The sectors left of a transfer to the drive, up to the first that cannot be written. -/
theorem sendSectors_eq {n lba first : Nat} {d : Drive} {bytes : Array UInt8}
    (hd : d.present = true) (hbegun : d.Begun .write lba n)
    (hsize : (first + n) * sectorSize ≤ bytes.size) :
    ∃ e, sendSectors d bytes (first * sectorSize) n =
        (e, transferOutcome (d.movable .write lba n) n) ∧
      d.Kept e ∧
      e.image = Image.patch d.image (lba * sectorSize)
        (Image.sectors bytes first (d.movable .write lba n)) ∧
      e.commands = d.commands ∧ (d.movable .write lba n = n → d.Delayed e n) := by
  induction n generalizing lba first d with
  | zero =>
    refine ⟨d, rfl, .refl d, ?_, rfl, fun _ => .refl d⟩
    rw [Drive.movable, Image.sectors_zero, Image.patch_empty]
  | succ n ih =>
    by_cases hcan : d.canMove .write lba = true
    · have hsize' : (first + 1 + n) * sectorSize ≤ bytes.size := by
        rwa [Nat.add_assoc, Nat.add_comm 1 n]
      have hfirst : (first + 1) * sectorSize ≤ bytes.size :=
        Nat.le_trans (Nat.mul_le_mul_right _ (Nat.le_add_right ..)) hsize'
      obtain ⟨b, e, hwait, hwords, hnext, hkept, himage, hcommands, hdelayed⟩ :=
        sendSector_eq hd (hbegun.moving fun _ => hcan) hfirst
      obtain ⟨f, hrest, hkept', himage', hcommands', hdelayed'⟩ :=
        ih (hkept.present.trans hd) hnext hsize'
      rw [hkept.movable, Nat.succ_mul] at hrest
      rw [hkept.movable, himage, Image.patch_sectors _ _ hfirst, Nat.add_comm 1] at himage'
      rw [hkept.movable] at hdelayed'
      rw [Drive.movable, if_pos hcan, transferOutcome_add]
      refine ⟨f, by simp only [sendSectors, hwait, hwords, hrest], hkept.trans hkept', himage',
        hcommands'.trans hcommands, fun hall => ?_⟩
      rw [Nat.add_comm n]
      exact hdelayed.trans (hdelayed' (Nat.succ.inj hall))
    · have hstopped := hbegun.stopped (Nat.succ_ne_zero n) (Bool.eq_false_iff.mpr hcan)
      rw [Drive.movable, if_neg hcan, transferOutcome_zero]
      refine ⟨d.settled, by simp only [sendSectors, waitDataRequest_failed hd hstopped],
        ⟨rfl, rfl, rfl, rfl, rfl, rfl⟩, ?_, rfl, fun h => absurd h (Nat.succ_ne_zero n).symm⟩
      rw [Image.sectors_zero, Image.patch_empty]
      rfl

end Ata

end ClusterFs
