import ClusterFs.Image
import ClusterFs.Geometry
import ClusterFs.LittleEndian

/-!
An ATA drive as its registers show it. A command starts a transfer of sectors that the host moves
word by word; before each sector the drive may answer busy any number of times.

Where drives may differ, this one does as follows. For a sector that cannot be moved it reports an
error in place of a request for data, so a sector that cannot be written is turned down before any
of it is sent. A command that meets a busy drive is carried out, and ends what was under way. Every
command clears the error of the one before. A drive that is not there takes registers and commands
as any other, and its status reads as zero.
-/
namespace ClusterFs.Ata

open LittleEndian

inductive TransferKind where
  | identify
  | read
  | write
  deriving DecidableEq

/-- A transfer under way: the sector being moved, how many are left with it, the words of it already
moved, and for a write the bytes received. -/
structure Transfer where
  kind : TransferKind
  lba : Nat
  left : Nat
  word : Nat
  received : Array UInt8

/-- A byte written to the command register, with the registers it met and the busy answers that the
drive still owed at that moment. -/
structure Command where
  code : UInt8
  driveHead : UInt8
  lba : Nat
  count : UInt8
  owed : Nat

/-- `delays i` is the number of busy answers after the `i`-th command or sector. -/
structure Drive where
  present : Bool := true
  image : Image
  reportedSectors : Nat
  delays : Nat → Nat := fun _ => 0
  identifyFails : Bool := false
  flushFails : Bool := false
  badReads : List Nat := []
  badWrites : List Nat := []
  count : UInt8 := 0
  lbaLow : UInt8 := 0
  lbaMid : UInt8 := 0
  lbaHigh : UInt8 := 0
  driveHead : UInt8 := 0
  owed : Nat := 0
  delaysUsed : Nat := 0
  failed : Bool := false
  transfer : Option Transfer := none
  commands : Array Command := #[]

/-- Status and command codes. -/
def statusBusy : UInt8 := 0x80
def statusDataRequest : UInt8 := 0x08
def statusError : UInt8 := 0x01

def codeIdentify : UInt8 := 0xEC
def codeRead : UInt8 := 0x20
def codeWrite : UInt8 := 0x30
def codeFlush : UInt8 := 0xE7

namespace Drive

/-- The 28-bit sector number in the address registers. -/
def address (d : Drive) : Nat :=
  d.driveHead.toNat % 16 * 16777216 + d.lbaHigh.toNat * 65536 + d.lbaMid.toNat * 256 +
    d.lbaLow.toNat

/-- The sector count register, where 0 stands for 256. -/
def sectors (d : Drive) : Nat := if d.count = 0 then 256 else d.count.toNat

/-- The drive turns busy for the next delay. -/
def turnBusy (d : Drive) : Drive :=
  { d with owed := d.delays d.delaysUsed, delaysUsed := d.delaysUsed + 1 }

/-- Whether a sector can be moved: it lies on the drive and is not bad in that direction. -/
def canMove (d : Drive) (kind : TransferKind) (lba : Nat) : Bool :=
  match kind with
  | .identify => true
  | .read => (lba + 1) * sectorSize ≤ d.image.size && !d.badReads.contains lba
  | .write => (lba + 1) * sectorSize ≤ d.image.size && !d.badWrites.contains lba

/-- Begins the next sector of a transfer, or ends it: after the last sector, or with an error. -/
def beginSector (d : Drive) (kind : TransferKind) (lba left : Nat) : Drive :=
  if left = 0 then { d with transfer := none }
  else if d.canMove kind lba then { d with transfer := some ⟨kind, lba, left, 0, #[]⟩ }
  else { d with transfer := none, failed := true }

/-- A byte written to the command register. It ends whatever was under way. -/
def issue (d : Drive) (code : UInt8) : Drive :=
  let command : Command := ⟨code, d.driveHead, d.address, d.count, d.owed⟩
  let d := { d with failed := false, transfer := none, commands := d.commands.push command }
  let d := d.turnBusy
  if code = codeIdentify then
    if d.identifyFails then { d with failed := true } else d.beginSector .identify 0 1
  else if code = codeRead then d.beginSector .read d.address d.sectors
  else if code = codeWrite then d.beginSector .write d.address d.sectors
  else if code = codeFlush then { d with failed := d.flushFails }
  else { d with failed := true }

/-- The status of a drive that is not busy. -/
def restingStatus (d : Drive) : UInt8 :=
  if d.failed then 0x51 else if d.transfer.isSome then 0x58 else 0x50

/-- The status register. Only a busy answer changes the drive. An absent drive reads as zero. -/
def readStatus (d : Drive) : Drive × UInt8 :=
  if !d.present then (d, 0)
  else if 0 < d.owed then ({ d with owed := d.owed - 1 }, statusBusy)
  else (d, d.restingStatus)

theorem restingStatus_not_busy (d : Drive) : d.restingStatus &&& statusBusy = 0 := by
  unfold restingStatus
  split
  · decide
  · split <;> decide

/-- Each busy answer brings the drive nearer to the end of its delay. -/
theorem owed_readStatus_lt {d : Drive} (h : d.readStatus.2 &&& statusBusy ≠ 0) :
    d.readStatus.1.owed < d.owed := by
  unfold readStatus at h ⊢
  by_cases hp : d.present
  · by_cases ho : 0 < d.owed
    · simp only [hp, ho, Bool.not_true, Bool.false_eq_true, if_false, if_true]
      omega
    · simp only [hp, ho, Bool.not_true, Bool.false_eq_true, if_false] at h
      exact absurd d.restingStatus_not_busy h
  · simp only [hp, Bool.not_false, if_true] at h
    exact absurd (by decide) h

/-- The transfer after one more word; a sector has 256. -/
def advance (d : Drive) (t : Transfer) : Drive :=
  if t.word + 1 < 256 then { d with transfer := some { t with word := t.word + 1 } }
  else
    match t.kind with
    | .write =>
      let image := Image.patch d.image (t.lba * sectorSize) t.received
      let d := { d with image }
      d.turnBusy.beginSector t.kind (t.lba + 1) (t.left - 1)
    | _ => d.turnBusy.beginSector t.kind (t.lba + 1) (t.left - 1)

/-- A word of the answer to IDENTIFY; words 60 and 61 hold the sector count. -/
def identityWord (d : Drive) (word : Nat) : UInt16 :=
  if word = 60 then UInt16.ofNat d.reportedSectors
  else if word = 61 then UInt16.ofNat (d.reportedSectors / 65536)
  else 0

/-- A word taken from the data register. -/
def readData (d : Drive) : Drive × UInt16 :=
  match d.transfer with
  | some t =>
    match t.kind with
    | .identify => (d.advance t, d.identityWord t.word)
    | .read =>
      let offset := t.lba * sectorSize + 2 * t.word
      let word := word16 (d.image.getD offset 0) (d.image.getD (offset + 1) 0)
      (d.advance t, word)
    | .write => (d, 0)
  | none => (d, 0)

/-- A word put into the data register. -/
def writeData (d : Drive) (word : UInt16) : Drive :=
  match d.transfer with
  | some t =>
    match t.kind with
    | .write =>
      let received := (t.received.push (byteOf word.toNat 0)).push (byteOf word.toNat 1)
      d.advance { t with received }
    | _ => d
  | none => d

end Drive

end ClusterFs.Ata
