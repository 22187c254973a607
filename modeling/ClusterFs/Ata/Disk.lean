import ClusterFs.Ata.Drive
import ClusterFs.BlockDevice

/-!
The ATA drive as a block device, by polling. Transfers are cut into commands of at most 255 sectors,
sectors are addressed by 28 bits, and every write ends with a flush of the drive's cache.
-/
namespace ClusterFs.Ata

open LittleEndian

/-- Reads the status until the drive is not busy. -/
def waitNotBusy (d : Drive) : Drive × UInt8 :=
  let answer := d.readStatus
  if _h : answer.2 &&& statusBusy = 0 then answer else waitNotBusy answer.1
termination_by d.owed
decreasing_by exact Drive.owed_readStatus_lt _h

/-- What a wait for data ends with. A drive that is idle and reports no error stays so, and the wait
never ends. -/
inductive Readiness where
  | ready
  | failed
  | never
  deriving DecidableEq

def waitDataRequest (d : Drive) : Drive × Readiness :=
  let (d, status) := waitNotBusy d
  (d, if status &&& statusError != 0 then .failed
    else if status &&& statusDataRequest != 0 then .ready
    else .never)

/-- Selects the drive, waits for it, sets the registers and issues a command. -/
def start (d : Drive) (lba count : Nat) (code : UInt8) : Drive :=
  let (d, _) := waitNotBusy { d with driveHead := 0xE0 ||| byteOf lba 3 &&& 0x0F }
  { d with
    count := UInt8.ofNat count
    lbaLow := byteOf lba 0
    lbaMid := byteOf lba 1
    lbaHigh := byteOf lba 2 }.issue code

/-- Takes `n` words from the drive and adds their bytes to those already taken. -/
def receiveWords (d : Drive) : Nat → Array UInt8 → Drive × Array UInt8
  | 0, taken => (d, taken)
  | n + 1, taken =>
    let (d, word) := d.readData
    receiveWords d n ((taken.push (byteOf word.toNat 0)).push (byteOf word.toNat 1))

/-- Gives the drive `n` words of `bytes`, from an offset on. -/
def sendWords (d : Drive) (bytes : Array UInt8) (offset : Nat) : Nat → Drive
  | 0 => d
  | n + 1 =>
    sendWords (d.writeData (word16 (bytes.getD offset 0) (bytes.getD (offset + 1) 0))) bytes
      (offset + 2) n

/-- Takes `n` sectors of the running command. -/
def receiveSectors (d : Drive) : Nat → Array UInt8 → Drive × Delivery
  | 0, taken => (d, ⟨taken, .ok ()⟩)
  | n + 1, taken =>
    match waitDataRequest d with
    | (d, .failed) => (d, ⟨taken, .error .fault⟩)
    | (d, .never) => (d, ⟨taken, .error .unresponsive⟩)
    | (d, .ready) =>
      let sector := receiveWords d 256 taken
      receiveSectors sector.1 n sector.2

/-- Gives `n` sectors of `bytes` to the running command. -/
def sendSectors (d : Drive) (bytes : Array UInt8) (offset : Nat) :
    Nat → Drive × Except DiskError Unit
  | 0 => (d, .ok ())
  | n + 1 =>
    match waitDataRequest d with
    | (d, .failed) => (d, .error .fault)
    | (d, .never) => (d, .error .unresponsive)
    | (d, .ready) => sendSectors (sendWords d bytes offset 256) bytes (offset + sectorSize) n

/-- Largest number of sectors in a command, and the end of the addressable range. -/
def maxSectorsPerCommand : Nat := 255
def addressLimit : Nat := 268435456

/-- The commands for a transfer, each given by its first sector within the transfer and its
length. -/
def batches (count : Nat) : List (Nat × Nat) :=
  (List.range ((count + 254) / 255)).map fun i =>
    (maxSectorsPerCommand * i, min maxSectorsPerCommand (count - maxSectorsPerCommand * i))

def readBatches (d : Drive) (lba : Nat) : List (Nat × Nat) → Array UInt8 → Drive × Delivery
  | [], taken => (d, ⟨taken, .ok ()⟩)
  | (done, n) :: rest, taken =>
    match receiveSectors (start d (lba + done) n codeRead) n taken with
    | (d, ⟨taken, .error e⟩) => (d, ⟨taken, .error e⟩)
    | (d, ⟨taken, .ok ()⟩) => readBatches d lba rest taken

def writeBatches (d : Drive) (bytes : Array UInt8) (lba : Nat) :
    List (Nat × Nat) → Drive × Except DiskError Unit
  | [] => (d, .ok ())
  | (done, n) :: rest =>
    match sendSectors (start d (lba + done) n codeWrite) bytes (done * sectorSize) n with
    | (d, .error e) => (d, .error e)
    | (d, .ok ()) => writeBatches d bytes lba rest

def flush (d : Drive) : Drive × Except DiskError Unit :=
  let (d, status) := waitNotBusy (d.issue codeFlush)
  (d, if status &&& statusError != 0 then .error .fault else .ok ())

/-- The answer to a probe of the drive. -/
inductive Probe where
  | absent
  | refused
  | unresponsive
  | found (sectors : Nat)
  deriving DecidableEq

/-- Asks the drive for its size by IDENTIFY. -/
def probe (d : Drive) : Drive × Probe :=
  let d := { d with driveHead := 0xA0, count := 0, lbaLow := 0, lbaMid := 0, lbaHigh := 0 }
  let (d, status) := (d.issue codeIdentify).readStatus
  if status = 0 then (d, .absent)
  else
    match waitDataRequest d with
    | (d, .failed) => (d, .refused)
    | (d, .never) => (d, .unresponsive)
    | (d, .ready) =>
      let answer := receiveWords d 256 #[]
      let bytes := answer.2
      let low := word16 (bytes.getD 120 0) (bytes.getD 121 0)
      let high := word16 (bytes.getD 122 0) (bytes.getD 123 0)
      (answer.1, .found (high.toNat * 65536 + low.toNat))

/-- A drive together with the size that a probe found. -/
structure Disk where
  sectors : Nat
  drive : Drive

namespace Disk

/-- Why a transfer is refused before any command, the buffer being checked before the range. -/
def refusal (d : Disk) (lba count bufferSize : Nat) : Option DiskError :=
  if bufferSize < count * sectorSize then some .shortBuffer
  else if d.sectors < lba + count ∨ addressLimit < lba + count then some .outOfRange
  else none

def read (d : Disk) (lba count capacity : Nat) : Disk × Delivery :=
  match d.refusal lba count capacity with
  | some e => (d, ⟨#[], .error e⟩)
  | none =>
    let (drive, got) := readBatches d.drive lba (batches count) #[]
    (⟨d.sectors, drive⟩, got)

def write (d : Disk) (bytes : Array UInt8) (lba count : Nat) : Disk × Except DiskError Unit :=
  match d.refusal lba count bytes.size with
  | some e => (d, .error e)
  | none =>
    match writeBatches d.drive bytes lba (batches count) with
    | (drive, .error e) => (⟨d.sectors, drive⟩, .error e)
    | (drive, .ok ()) =>
      let (drive, outcome) := flush drive
      (⟨d.sectors, drive⟩, outcome)

instance : BlockDevice Disk where
  read := read
  write := write

end Disk

end ClusterFs.Ata
