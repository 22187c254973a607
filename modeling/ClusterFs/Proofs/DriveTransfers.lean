import ClusterFs.Proofs.DriveSectors

/-!
The commands of a transfer. They follow one another without gap, each of at most 255 sectors, up to
the end of the transfer or to the first sector that does not move; a write that stored all its
sectors is flushed.
-/
namespace ClusterFs.Ata
open LittleEndian

/-! ### Commands -/

/-- The command code and the kind of transfer that it begins. -/
inductive Begins : UInt8 → TransferKind → Prop
  | read : Begins codeRead .read
  | write : Begins codeWrite .write

/-- The drive when it has taken a command byte. -/
def Drive.commanded (d : Drive) (code : UInt8) : Drive :=
  Drive.turnBusy { d with
    failed := false
    transfer := none
    commands := d.commands.push ⟨code, d.driveHead, d.address, d.count, d.owed⟩ }

theorem issue_eq {code : UInt8} {kind : TransferKind} (hcode : Begins code kind) (d : Drive) :
    d.issue code = (d.commanded code).beginSector kind d.address d.sectors := by
  cases hcode with
  | read =>
    unfold Drive.issue
    rw [if_neg (by decide), if_pos rfl]
    rfl
  | write =>
    unfold Drive.issue
    rw [if_neg (by decide), if_neg (by decide), if_pos rfl]
    rfl

theorem head_mod (b : UInt8) : (0xE0 ||| b &&& 0x0F : UInt8).toNat % 16 = b.toNat % 16 := by
  have hor := Nat.or_mod_two_pow (a := 224) (b := b.toNat &&& 15) (n := 4)
  have hand := Nat.and_two_pow_sub_one_eq_mod b.toNat 4
  simp only [Nat.reducePow, Nat.reduceMod, Nat.reduceSub, Nat.zero_or] at hor hand
  rw [UInt8.toNat_or, UInt8.toNat_and]
  rw [hand] at hor
  simp only [UInt8.reduceToNat, hand, hor, Nat.mod_mod]

/-- The registers of a command. -/
def Drive.addressed (d : Drive) (lba count : Nat) : Drive :=
  { d with
    driveHead := 0xE0 ||| byteOf lba 3 &&& 0x0F
    count := UInt8.ofNat count
    lbaLow := byteOf lba 0
    lbaMid := byteOf lba 1
    lbaHigh := byteOf lba 2 }

theorem address_addressed (d : Drive) {lba : Nat} (hlba : lba < addressLimit) (count : Nat) :
    (d.addressed lba count).address = lba := by
  unfold addressLimit at hlba
  simp only [Drive.address, Drive.addressed, head_mod, toNat_byteOf, Nat.reducePow]
  omega

theorem sectors_addressed (d : Drive) (lba : Nat) {count : Nat} (hpos : 0 < count)
    (hcount : count ≤ maxSectorsPerCommand) : (d.addressed lba count).sectors = count := by
  unfold maxSectorsPerCommand at hcount
  have htoNat : (UInt8.ofNat count).toNat = count := by
    rw [UInt8.toNat_ofNat']
    omega
  have hne : UInt8.ofNat count ≠ 0 := by
    intro h
    rw [h, UInt8.toNat_zero] at htoNat
    omega
  simp only [Drive.sectors, Drive.addressed, if_neg hne, htoNat]

theorem Drive.kept_commanded (d : Drive) (lba count : Nat) (code : UInt8) :
    Kept d ((d.settled.addressed lba count).commanded code) :=
  ⟨rfl, rfl, rfl, rfl, rfl, rfl⟩

theorem Drive.delayed_commanded (d : Drive) (lba count : Nat) (code : UInt8) :
    Delayed d ((d.settled.addressed lba count).commanded code) 1 :=
  ⟨rfl, rfl, rfl⟩

theorem start_eq (d : Drive) (hd : d.present = true) (lba count : Nat) (code : UInt8) :
    start d lba count code = (d.settled.addressed lba count).issue code := by
  unfold start
  have hwait := waitNotBusy_eq (d := { d with driveHead := 0xE0 ||| byteOf lba 3 &&& 0x0F }) hd
  rw [hwait]
  rfl

/-- The record of a command for `count` sectors. -/
def command (code : UInt8) (lba count : Nat) : Command :=
  ⟨code, 0xE0 ||| byteOf lba 3 &&& 0x0F, lba, UInt8.ofNat count, 0⟩

theorem count_command (code : UInt8) (lba : Nat) {count : Nat}
    (hcount : count ≤ maxSectorsPerCommand) : (command code lba count).count.toNat = count := by
  unfold maxSectorsPerCommand at hcount
  rw [command, UInt8.toNat_ofNat']
  omega

/-- A command begins at its first sector, and is recorded with that sector and its length. -/
theorem begun_start {code : UInt8} {kind : TransferKind} (hcode : Begins code kind) {d : Drive}
    (hd : d.present = true) {lba count : Nat} (hlba : lba < addressLimit) (hpos : 0 < count)
    (hcount : count ≤ maxSectorsPerCommand) :
    (start d lba count code).Begun kind lba count ∧ d.Kept (start d lba count code) ∧
      (start d lba count code).image = d.image ∧
      (start d lba count code).commands = d.commands.push (command code lba count) ∧
      d.Delayed (start d lba count code) 1 := by
  have haddress := address_addressed d.settled hlba count
  rw [start_eq d hd, issue_eq hcode, haddress, sectors_addressed _ _ hpos hcount]
  obtain ⟨hkept, himage, hcommands⟩ :=
    ((d.settled.addressed lba count).commanded code).frame_beginSector kind lba count
  refine ⟨Drive.begun_beginSector kind lba count rfl,
    (d.kept_commanded lba count code).trans hkept, himage, hcommands.trans ?_,
    (d.delayed_commanded lba count code).beginSector kind lba count⟩
  simp only [Drive.commanded, Drive.turnBusy, haddress]
  rfl

/-! ### Transfers -/

/-- Commands that follow one another without gap from one sector of a transfer to another. -/
def Tiles (first last : Nat) : List (Nat × Nat) → Prop
  | [] => first = last
  | (done, n) :: rest =>
    done = first ∧ 0 < n ∧ n ≤ maxSectorsPerCommand ∧ Tiles (first + n) last rest

theorem Tiles.le {first last : Nat} {batches : List (Nat × Nat)} (h : Tiles first last batches) :
    first ≤ last := by
  induction batches generalizing first with
  | nil => exact Nat.le_of_eq h
  | cons batch rest ih => exact Nat.le_of_add_right_le (ih h.2.2.2)

/-- The batches of a transfer cover it. -/
theorem tiles_batches (count : Nat) : Tiles 0 count (batches count) := by
  have hall (k i : Nat) (hk : i + k = (count + 254) / 255) :
      Tiles (min (255 * i) count) count ((List.range' i k).map fun i =>
        (maxSectorsPerCommand * i,
          min maxSectorsPerCommand (count - maxSectorsPerCommand * i))) := by
    induction k generalizing i with
    | zero =>
      simp only [List.range'_zero, List.map_nil, Tiles]
      omega
    | succ k ih =>
      have hrest := ih (i + 1) (by omega)
      have hnext : min (255 * i) count + min 255 (count - 255 * i) = min (255 * (i + 1)) count := by
        omega
      simp only [List.range'_succ, List.map_cons, Tiles, maxSectorsPerCommand]
      refine ⟨by omega, by omega, by omega, ?_⟩
      rw [hnext]
      exact hrest
  have hfirst := hall ((count + 254) / 255) 0 (by omega)
  rw [Nat.mul_zero, Nat.zero_min, ← List.range_eq_range'] at hfirst
  exact hfirst

theorem length_batches (count : Nat) : (batches count).length = (count + 254) / 255 := by
  rw [batches, List.length_map, List.length_range]

/-- The busy answers that the drive owes at the end of a transfer of `count` sectors: all of the
last delay, one having followed each command and each sector. If there are no sectors, what it owed
before. -/
def Drive.owedAfter (d : Drive) (count : Nat) : Nat :=
  if count = 0 then d.owed else d.delays (d.delaysUsed + ((count + 254) / 255 + count) - 1)

theorem owed_of_delayed {d e : Drive} {count : Nat}
    (h : d.Delayed e ((batches count).length + count)) : e.owed = d.owedAfter count := by
  rw [h.owed, Drive.owedAfter, length_batches]
  by_cases hcount : count = 0
  · rw [if_pos hcount, if_pos (by omega)]
  · rw [if_neg hcount, if_neg (by omega)]

/-- The commands of a transfer of `count` sectors from `lba` on, of which the first `moved` move.
Each is for 1 to 255 sectors and begins where the one before it ends; the last covers the end of the
transfer or the first sector that does not move. -/
inductive Issued (code : UInt8) : Nat → Nat → Nat → List Command → Prop
  | done (lba : Nat) : Issued code lba 0 0 []
  | next {c : Command} {rest : List Command} {lba count moved : Nat} (hcode : c.code = code)
      (hlba : c.lba = lba) (hpos : 0 < c.count.toNat)
      (hrest : Issued code (lba + c.count.toNat) count moved rest) :
      Issued code lba (c.count.toNat + count) (c.count.toNat + moved) (c :: rest)
  | stopped {c : Command} {lba count moved : Nat} (hcode : c.code = code) (hlba : c.lba = lba)
      (hmoved : moved < c.count.toNat) (hcount : c.count.toNat ≤ count) :
      Issued code lba count moved [c]

/-- The commands of a transfer whose first command is for `n` sectors. -/
theorem Issued.cons {code : UInt8} {lba n count moved : Nat} {rest : List Command} (hpos : 0 < n)
    (hn : n ≤ maxSectorsPerCommand) (hrest : Issued code (lba + n) count moved rest) :
    Issued code lba (n + count) (n + moved) (command code lba n :: rest) := by
  have hcount := count_command code lba hn
  have hnext := Issued.next (c := command code lba n) rfl rfl (by rwa [hcount])
    (by rwa [hcount])
  rwa [hcount] at hnext

theorem Issued.single {code : UInt8} {lba n count moved : Nat} (hn : n ≤ maxSectorsPerCommand)
    (hmoved : moved < n) (hcount : n ≤ count) :
    Issued code lba count moved [command code lba n] := by
  have heq := count_command code lba hn
  exact .stopped rfl rfl (by rwa [heq]) (by rwa [heq])

/-- One command of a transfer from the drive. -/
theorem readCommand_eq {d : Drive} {lba n : Nat} (hd : d.present = true)
    (hlba : lba < addressLimit) (hpos : 0 < n) (hn : n ≤ maxSectorsPerCommand)
    (taken : Array UInt8) :
    ∃ e, receiveSectors (start d lba n codeRead) n taken =
        (e, ⟨taken ++ Image.sectors d.image lba (d.movable .read lba n),
          transferOutcome (d.movable .read lba n) n⟩) ∧
      d.Kept e ∧ e.image = d.image ∧ e.commands = d.commands.push (command codeRead lba n) := by
  obtain ⟨hbegun, hkept, himage, hcommands, -⟩ := begun_start .read hd hlba hpos hn
  obtain ⟨e, hsectors, hkept', himage', hcommands'⟩ :=
    receiveSectors_eq (hkept.present.trans hd) hbegun taken
  rw [himage, hkept.movable] at hsectors
  exact ⟨e, hsectors, hkept.trans hkept', himage'.trans himage, hcommands'.trans hcommands⟩

/-- One command of a transfer to the drive. -/
theorem writeCommand_eq {d : Drive} {lba n first : Nat} {bytes : Array UInt8}
    (hd : d.present = true) (hlba : lba < addressLimit) (hpos : 0 < n)
    (hn : n ≤ maxSectorsPerCommand) (hsize : (first + n) * sectorSize ≤ bytes.size) :
    ∃ e, sendSectors (start d lba n codeWrite) bytes (first * sectorSize) n =
        (e, transferOutcome (d.movable .write lba n) n) ∧ d.Kept e ∧
      e.image = Image.patch d.image (lba * sectorSize)
        (Image.sectors bytes first (d.movable .write lba n)) ∧
      e.commands = d.commands.push (command codeWrite lba n) ∧
      (d.movable .write lba n = n → d.Delayed e (1 + n)) := by
  obtain ⟨hbegun, hkept, himage, hcommands, hdelayed⟩ := begun_start .write hd hlba hpos hn
  obtain ⟨e, hsectors, hkept', himage', hcommands', hdelayed'⟩ :=
    sendSectors_eq (hkept.present.trans hd) hbegun hsize
  rw [hkept.movable] at hsectors himage' hdelayed'
  rw [himage] at himage'
  exact ⟨e, hsectors, hkept.trans hkept', himage', hcommands'.trans hcommands,
    fun hall => hdelayed.trans (hdelayed' hall)⟩

/-- The sectors of a transfer are read in order up to the first that cannot be read. -/
theorem readBatches_eq {batches : List (Nat × Nat)} {first last lba : Nat} {d : Drive}
    (hbatches : Tiles first last batches) (hd : d.present = true)
    (hend : lba + last ≤ addressLimit) {moved : Nat}
    (hmoved : d.movable .read (lba + first) (last - first) = moved) (taken : Array UInt8) :
    ∃ e issued, readBatches d lba batches taken =
        (e, ⟨taken ++ Image.sectors d.image (lba + first) moved,
          transferOutcome moved (last - first)⟩) ∧
      d.Kept e ∧ e.image = d.image ∧ e.commands.toList = d.commands.toList ++ issued ∧
      Issued codeRead (lba + first) (last - first) moved issued ∧ ∀ c ∈ issued, c.owed = 0 := by
  induction batches generalizing first d moved taken with
  | nil =>
    obtain rfl : first = last := hbatches
    rw [Nat.sub_self] at hmoved ⊢
    subst hmoved
    refine ⟨d, [], ?_, .refl d, rfl, (List.append_nil _).symm, .done _, List.forall_mem_nil _⟩
    rw [readBatches, Drive.movable, Image.sectors_zero, Array.append_empty]
    rfl
  | cons batch rest ih =>
    obtain ⟨done, n⟩ := batch
    obtain ⟨rfl, hpos, hn, hrest⟩ := hbatches
    have hle := hrest.le
    have hsum : last - done = n + (last - (done + n)) := by omega
    obtain ⟨e, hcommand, hkept, himage, hcommands⟩ :=
      readCommand_eq hd (show lba + done < addressLimit by omega) hpos hn taken
    rw [hsum, d.movable_add] at hmoved
    by_cases hall : d.movable .read (lba + done) n = n
    · rw [if_pos hall] at hmoved
      obtain ⟨f, issued, hbatch, hkept', himage', hcommands', hissued, hidle⟩ := ih hrest
        (hkept.present.trans hd) rfl (taken ++ Image.sectors d.image (lba + done) n)
      rw [hkept.movable, ← Nat.add_assoc] at hbatch hissued
      rw [← hmoved, hsum]
      refine ⟨f, command codeRead (lba + done) n :: issued, ?_, hkept.trans hkept',
        himage'.trans himage, ?_, .cons hpos hn hissued, List.forall_mem_cons.mpr ⟨rfl, hidle⟩⟩
      · rw [readBatches, hcommand, hall, transferOutcome, if_pos rfl]
        simp only
        rw [hbatch, himage, Array.append_assoc, Image.sectors_append, Nat.add_comm n,
          Nat.add_comm n, transferOutcome_add]
      · rw [hcommands', hcommands, Array.toList_push, List.append_assoc]
        rfl
    · rw [if_neg hall] at hmoved
      have hlt := Nat.lt_of_le_of_ne (d.movable_le .read (lba + done) n) hall
      rw [hmoved] at hall hlt hcommand
      refine ⟨e, [command codeRead (lba + done) n], ?_, hkept, himage, ?_,
        .single hn hlt (by omega), List.forall_mem_singleton.mpr rfl⟩
      · rw [readBatches, hcommand, transferOutcome, if_neg hall, transferOutcome,
          if_neg (by omega)]
      · rw [hcommands, Array.toList_push]

/-- The sectors of a transfer are stored in order up to the first that cannot be written. -/
theorem writeBatches_eq {batches : List (Nat × Nat)} {first last lba : Nat} {d : Drive}
    {bytes : Array UInt8} (hbatches : Tiles first last batches) (hd : d.present = true)
    (hend : lba + last ≤ addressLimit) (hsize : last * sectorSize ≤ bytes.size) {moved : Nat}
    (hmoved : d.movable .write (lba + first) (last - first) = moved) :
    ∃ e issued, writeBatches d bytes lba batches = (e, transferOutcome moved (last - first)) ∧
      d.Kept e ∧
      e.image = Image.patch d.image ((lba + first) * sectorSize)
        (Image.sectors bytes first moved) ∧
      e.commands.toList = d.commands.toList ++ issued ∧
      Issued codeWrite (lba + first) (last - first) moved issued ∧ (∀ c ∈ issued, c.owed = 0) ∧
      (moved = last - first → d.Delayed e (batches.length + (last - first))) := by
  induction batches generalizing first d moved with
  | nil =>
    obtain rfl : first = last := hbatches
    rw [Nat.sub_self] at hmoved ⊢
    subst hmoved
    refine ⟨d, [], rfl, .refl d, ?_, (List.append_nil _).symm, .done _, List.forall_mem_nil _,
      fun _ => .refl d⟩
    rw [Drive.movable, Image.sectors_zero, Image.patch_empty]
  | cons batch rest ih =>
    obtain ⟨done, n⟩ := batch
    obtain ⟨rfl, hpos, hn, hrest⟩ := hbatches
    have hle := hrest.le
    have hsum : last - done = n + (last - (done + n)) := by omega
    have hbytes := Nat.le_trans (Nat.mul_le_mul_right sectorSize hle) hsize
    obtain ⟨e, hcommand, hkept, himage, hcommands, hdelayed⟩ :=
      writeCommand_eq hd (show lba + done < addressLimit by omega) hpos hn hbytes
    rw [hsum, d.movable_add] at hmoved
    by_cases hall : d.movable .write (lba + done) n = n
    · rw [if_pos hall] at hmoved
      rw [hall] at himage
      obtain ⟨f, issued, hbatch, hkept', himage', hcommands', hissued, hidle, hdelayed'⟩ :=
        ih hrest (hkept.present.trans hd) rfl
      rw [hkept.movable, ← Nat.add_assoc] at hbatch himage' hissued hdelayed'
      rw [himage, Image.patch_sectors _ _ hbytes] at himage'
      rw [← hmoved, hsum]
      refine ⟨f, command codeWrite (lba + done) n :: issued, ?_, hkept.trans hkept', himage', ?_,
        .cons hpos hn hissued, List.forall_mem_cons.mpr ⟨rfl, hidle⟩, fun hmoved => ?_⟩
      · rw [writeBatches, hcommand, hall, transferOutcome, if_pos rfl]
        simp only
        rw [hbatch, Nat.add_comm n, Nat.add_comm n, transferOutcome_add]
      · rw [hcommands', hcommands, Array.toList_push, List.append_assoc]
        rfl
      · have hlength : ((done, n) :: rest).length + (n + (last - (done + n))) =
            1 + n + (rest.length + (last - (done + n))) := by
          rw [List.length_cons]
          omega
        rw [hlength]
        exact (hdelayed hall).trans (hdelayed' (Nat.add_left_cancel hmoved))
    · rw [if_neg hall] at hmoved
      have hlt := Nat.lt_of_le_of_ne (d.movable_le .write (lba + done) n) hall
      rw [hmoved] at hall hlt hcommand himage
      refine ⟨e, [command codeWrite (lba + done) n], ?_, hkept, himage, ?_,
        .single hn hlt (by omega), List.forall_mem_singleton.mpr rfl, by omega⟩
      · rw [writeBatches, hcommand, transferOutcome, if_neg hall, transferOutcome,
          if_neg (by omega)]
      · rw [hcommands, Array.toList_push]

theorem issue_flush (d : Drive) :
    d.issue codeFlush = { d.commanded codeFlush with failed := d.flushFails } := by
  unfold Drive.issue
  rw [if_neg (by decide), if_neg (by decide), if_neg (by decide), if_pos rfl]
  rfl

/-- A flush is one command. It fails exactly if the drive reports an error after it. -/
theorem flush_eq {d : Drive} (hd : d.present = true) :
    ∃ e, flush d = (e, if d.flushFails = true then .error .fault else .ok ()) ∧ d.Kept e ∧
      e.image = d.image ∧
      e.commands = d.commands.push ⟨codeFlush, d.driveHead, d.address, d.count, d.owed⟩ := by
  have hstatus : (d.issue codeFlush).restingStatus =
      if d.flushFails = true then 0x51 else 0x50 := by
    rw [issue_flush]
    rfl
  have hwait := waitNotBusy_eq (d := d.issue codeFlush) (by rw [issue_flush]; exact hd)
  refine ⟨(d.issue codeFlush).settled, ?_, ?_⟩
  · rw [flush, hwait, hstatus]
    cases d.flushFails <;> rfl
  · rw [issue_flush]
    exact ⟨⟨rfl, rfl, rfl, rfl, rfl, rfl⟩, rfl, rfl⟩

namespace Disk

/-- A transfer that ends past the sectors found, or past those that can be addressed, is refused. -/
theorem refusal_eq {d : Disk} {lba count bufferSize : Nat} (h : count * sectorSize ≤ bufferSize) :
    d.refusal lba count bufferSize =
      if lba + count ≤ min d.sectors addressLimit then none else some .outOfRange := by
  unfold refusal
  rw [if_neg (Nat.not_lt.mpr h)]
  split_ifs with hpast hin hin
  · omega
  · rfl
  · rfl
  · omega

/-- A read delivers the sectors before the first that cannot be read. -/
theorem read_eq {d : Disk} {lba count capacity moved : Nat} (hd : d.drive.present = true)
    (hrange : lba + count ≤ min d.sectors addressLimit) (hroom : count * sectorSize ≤ capacity)
    (hmoved : d.drive.movable .read lba count = moved) :
    ∃ e issued, d.read lba count capacity =
        (⟨d.sectors, e⟩, ⟨Image.sectors d.drive.image lba moved, transferOutcome moved count⟩) ∧
      d.drive.Kept e ∧ e.image = d.drive.image ∧
      e.commands.toList = d.drive.commands.toList ++ issued ∧
      Issued codeRead lba count moved issued ∧ ∀ c ∈ issued, c.owed = 0 := by
  have hmoved : d.drive.movable .read (lba + 0) (count - 0) = moved := hmoved
  obtain ⟨e, issued, hbatches, hkept, himage, hcommands, hissued, hidle⟩ :=
    readBatches_eq (tiles_batches count) hd (by omega) hmoved #[]
  refine ⟨e, issued, ?_, hkept, himage, hcommands, hissued, hidle⟩
  rw [read, refusal_eq hroom, if_pos hrange]
  simp only [hbatches, Nat.add_zero, Nat.sub_zero, Array.empty_append]

/-- A write stores the sectors before the first that cannot be written, and is flushed if all are
stored. -/
theorem write_eq {d : Disk} {lba count moved : Nat} {bytes : Array UInt8}
    (hd : d.drive.present = true) (hrange : lba + count ≤ min d.sectors addressLimit)
    (hsize : count * sectorSize ≤ bytes.size)
    (hmoved : d.drive.movable .write lba count = moved) :
    ∃ e issued flushed, d.write bytes lba count =
        (⟨d.sectors, e⟩, if moved = count ∧ d.drive.flushFails = false then .ok ()
          else .error .fault) ∧
      d.drive.Kept e ∧
      e.image = Image.patch d.drive.image (lba * sectorSize) (Image.sectors bytes 0 moved) ∧
      e.commands.toList = d.drive.commands.toList ++ issued ++ flushed ∧
      Issued codeWrite lba count moved issued ∧
      flushed.map (·.code) = (if moved = count then [codeFlush] else []) ∧
      (∀ c ∈ issued, c.owed = 0) ∧ ∀ c ∈ flushed, c.owed = d.drive.owedAfter count := by
  have hmoved : d.drive.movable .write (lba + 0) (count - 0) = moved := hmoved
  obtain ⟨e, issued, hbatches, hkept, himage, hcommands, hissued, hidle, hdelayed⟩ :=
    writeBatches_eq (tiles_batches count) hd (by omega) hsize hmoved
  rw [Nat.sub_zero] at hbatches hissued hdelayed
  by_cases hall : moved = count
  · obtain ⟨f, hflush, hkept', himage', hcommands'⟩ := flush_eq (hkept.present.trans hd)
    rw [transferOutcome, if_pos hall] at hbatches
    rw [Array.push_eq_append, ← Array.toList_inj, Array.toList_append, hcommands] at hcommands'
    refine ⟨f, issued, _, ?_, hkept.trans hkept', himage'.trans himage, hcommands', hissued, ?_,
      hidle, List.forall_mem_singleton.mpr (owed_of_delayed (hdelayed hall))⟩
    · rw [write, refusal_eq hsize, if_pos hrange]
      simp only [hbatches, hflush, hkept.flushFails]
      cases d.drive.flushFails <;> simp [hall]
    · rw [if_pos hall]
      rfl
  · refine ⟨e, issued, [], ?_, hkept, himage, by rw [hcommands, List.append_nil], hissued, ?_,
      hidle, List.forall_mem_nil _⟩
    · rw [transferOutcome, if_neg hall] at hbatches
      rw [write, refusal_eq hsize, if_pos hrange, if_neg (hall ·.1)]
      simp only [hbatches]
    · rw [if_neg hall]
      rfl

end Disk

end ClusterFs.Ata
