import ClusterFs.Kernel.Basic

/-!
Bringing the kernel up: the logger, the drive, the volume, and the system calls. Each part can also
be started alone, and again.
-/
namespace ClusterFs.Kernel

/-- Sets the level limit and installs the serial logger, unless there is a logger already. Tells
whether it was installed. -/
def startLogger (k : Kernel) : Kernel × Bool :=
  let k := { k with limit := some .debug }
  match k.sink with
  | .none => ({ k with sink := .serial }, true)
  | _ => (k, false)

/-- Probes the drive. What an earlier probe found is kept when this one finds nothing. -/
def probeDrive (k : Kernel) : Kernel × Outcome Unit :=
  let (drive, answer) := Ata.probe k.drive
  let k := { k with drive }
  match answer with
  | .absent => (k.note .driveAbsent, .returned ())
  | .refused => (k.note .driveRefused, .returned ())
  | .unresponsive => (k, .waiting)
  | .found sectors =>
    (note { k with probed := some sectors } (.driveFound sectors), .returned ())

/-- Mounts the volume on the drive that was found. A device that fails under it halts the kernel. -/
def mountVolume (k : Kernel) : Kernel × Outcome Unit :=
  match k.disk? with
  | none => (k.note .noDisk, .returned ())
  | some disk =>
    let k := k.note (.mounting disk.sectors)
    let ⟨disk, map, notices⟩ := Volume.mount disk
    let k := logAll { k with drive := disk.drive } (notices.map Volume.Notice.record)
    match map with
    | .ok map => ({ k with mounted := some ⟨disk.sectors, map⟩ }, .returned ())
    | .error .unresponsive => (k, .waiting)
    | .error cause => ((k.note (.mountFailed cause)).note (.halting "\"mount\""), .halted)

def installCalls (k : Kernel) : Kernel := { k with callsInstalled := true }

def boot (k : Kernel) : Kernel × Outcome Unit :=
  let (k, installed) := k.startLogger
  let k := if installed then k else k.note .loggerKept
  let k := k.note .started
  match k.probeDrive with
  | (k, .returned ()) =>
    match k.mountVolume with
    | (k, .returned ()) => (k.installCalls, .returned ())
    | stopped => stopped
  | stopped => stopped

end ClusterFs.Kernel
