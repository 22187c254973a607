import ClusterFs.Proofs.DriveStorage
import ClusterFs.Proofs.KernelCalls
import ClusterFs.Proofs.Parents

/-!
When a system call halts the kernel. On a drive that works a call halts the kernel exactly if it
follows an entry to a table past the end of the drive. An entry of a directory never leads there, so
no call halts before some file was written that passes as a directory.
-/
namespace ClusterFs
open AllocationMap

namespace Volume

variable {D : Type} [BlockDevice D] {v : Volume D} {parent : UInt32} {name : ShortName} {e : Entry}
  {cause : DiskError}

/-- A listing fails as the read of the table does. -/
theorem readDirectory_of_read_error (hstat : (v.stat parent name).2 = .ok e)
    (hdir : e.isDirectory = true) {capacity : Nat} (hroom : clusterSize ≤ capacity)
    (hread : (BlockDevice.read (v.stat parent name).1.disk (clusterLba e.cluster)
      sectorsPerCluster clusterSize).2.outcome = .error cause) :
    (v.readDirectory parent name capacity).outcome = .error (.device cause) := by
  unfold readDirectory
  generalize v.stat parent name = x at hstat hread
  obtain ⟨u, answer⟩ := x
  obtain rfl : answer = .ok e := hstat
  simp only [hdir, Bool.not_true, Bool.false_eq_true, if_false, if_neg (Nat.not_lt.mpr hroom),
    readClusters] at hread ⊢
  generalize BlockDevice.read u.disk (clusterLba e.cluster) sectorsPerCluster clusterSize = got
    at hread ⊢
  obtain ⟨d, bytes, outcome⟩ := got
  obtain rfl : outcome = .error cause := hread
  rfl

/-- A delete fails as the read of the table that it would remove does. -/
theorem delete_of_read_error (hstat : (v.stat parent name).2 = .ok e) (hdir : e.isDirectory = true)
    (hread : (BlockDevice.read (v.stat parent name).1.disk (clusterLba e.cluster)
      sectorsPerCluster clusterSize).2.outcome = .error cause) :
    (v.delete parent name).outcome = .error (.device cause) := by
  unfold stat at hstat hread
  unfold delete
  generalize v.openDirectory parent = x at hstat hread
  obtain ⟨u, _ | table⟩ := x
  · cases hstat
  cases hfind : table.find? name with
  | none =>
    simp only [hfind] at hstat
    cases hstat
  | some i =>
    simp only [hfind] at hstat hread ⊢
    obtain rfl := Except.ok.inj hstat
    simp only [countOrphans, hdir, if_true, loadTable, readCluster]
    generalize BlockDevice.read u.disk (clusterLba (table.children.get i).cluster)
      sectorsPerCluster clusterSize = got at hread ⊢
    obtain ⟨d, bytes, outcome⟩ := got
    obtain rfl : outcome = .error cause := hread
    rfl

/-- Whether a request follows an entry to a table that does not lie on the first `sectors` sectors.
A listing looks at the buffer first. -/
def Strays (v : Volume D) (sectors : Nat) : Action → Prop
  | .readDirectory parent name capacity =>
    clusterSize ≤ capacity ∧ ∃ e, (v.stat parent name).2 = .ok e ∧ e.isDirectory = true ∧
      sectors < clusterLba e.cluster + sectorsPerCluster
  | .delete parent name =>
    ∃ e, (v.stat parent name).2 = .ok e ∧ e.isDirectory = true ∧
      sectors < clusterLba e.cluster + sectorsPerCluster
  | _ => False

end Volume

namespace Ata

variable {n : Nat} {v : Volume Disk}

theorem covers_iff {c : UInt32} (h : (storage n).Usable v.disk) :
    (storage n).Covers c ↔ clusterLba c + sectorsPerCluster ≤ min n addressLimit :=
  ⟨fun hc => hc _ h, fun hc _ _ => hc⟩

/-- A request that strays fails on the device. -/
theorem serve_of_strays (h : (storage n).Usable v.disk) {j : Job}
    (hstrays : v.Strays (min n addressLimit) j.action) :
    (j.serve v).outcome = .error (.device .outOfRange) := by
  have hread (parent : UInt32) (name : ShortName) {c : UInt32}
      (hc : min n addressLimit < clusterLba c + sectorsPerCluster) :
      (BlockDevice.read (v.stat parent name).1.disk (clusterLba c) sectorsPerCluster
        clusterSize).2.outcome = .error .outOfRange := by
    obtain ⟨d, hstat, hd⟩ := Storage.stat_eq h parent name
    rw [hstat, read_outOfRange (hd.usable.ready.1.symm ▸ hc) (by decide)]
  obtain ⟨call, request, buffer⟩ := j
  rw [Job.outcome_serve]
  cases call with
  | readDirectory =>
    obtain ⟨hroom, e, hstat, hdir, hc⟩ := hstrays
    exact Volume.readDirectory_of_read_error hstat hdir hroom (hread _ _ hc)
  | delete =>
    obtain ⟨e, hstat, hdir, hc⟩ := hstrays
    exact Volume.delete_of_read_error hstat hdir (hread _ _ hc)
  | read => exact hstrays.elim
  | write => exact hstrays.elim

/-- A request that does not stray leaves the drive working and does not fail on it. -/
theorem serve_of_not_strays (h : (storage n).Usable v.disk) {j : Job}
    (hstrays : ¬ v.Strays (min n addressLimit) j.action) :
    (storage n).Usable (j.serve v).volume.disk ∧
      ∀ cause, (j.serve v).outcome ≠ .error (.device cause) := by
  have hcovers (parent : UInt32) (name : ShortName) (hlists : ¬ ∃ e,
      (v.stat parent name).2 = .ok e ∧ e.isDirectory = true ∧
        min n addressLimit < clusterLba e.cluster + sectorsPerCluster) (e : Entry)
      (he : ((storage n).contents v).lookup parent name = .ok e) (hdir : e.isDirectory = true) :
      (storage n).Covers e.cluster := by
    rw [covers_iff h, ← Nat.not_lt]
    rw [← Storage.stat_snd h] at he
    exact fun hc => hlists ⟨e, he, hdir, hc⟩
  obtain ⟨call, request, buffer⟩ := j
  cases call with
  | read =>
    obtain ⟨d, hvolume, -, hd⟩ := Storage.readFile_eq h request.parent request.name buffer.size
    refine ⟨?_, fun cause hcause => Storage.read_ne_device h _ _ _ cause
      (Volume.Reply.discard_eq_error_iff.mp hcause)⟩
    show (storage n).Usable (v.read request.parent request.name buffer.size).volume.disk
    rw [hvolume]
    exact hd.usable
  | readDirectory =>
    have hrange (hroom : clusterSize ≤ buffer.size) :=
      hcovers request.parent request.name fun he => hstrays ⟨hroom, he⟩
    obtain ⟨d, hvolume, -, hd⟩ := Storage.readTable_eq h request.parent request.name buffer.size
      hrange
    refine ⟨?_, Storage.readDirectory_ne_device h hrange⟩
    show (storage n).Usable (v.readDirectory request.parent request.name buffer.size).volume.disk
    rw [hvolume]
    exact hd.usable
  | write =>
    refine ⟨?_, fun cause hcause => Storage.write_ne_device h rfl _ _ _ cause
      (Volume.Reply.discard_eq_error_iff.mp hcause)⟩
    show (storage n).Usable (v.write request.parent request.name buffer).volume.disk
    rcases Storage.write_spec h request.parent request.name buffer with
      ⟨e, d, hwrite, hd, -⟩ | ⟨p, done, rest, -, -, hadvance, -⟩
    · rw [hwrite]
      exact hd.usable
    · exact hadvance.usable
  | delete =>
    have hrange (i : Fin 62)
        (hlocate : ((storage n).contents v).locate request.parent request.name = .ok i) :=
      hcovers _ _ hstrays _ (Contents.exists_child_of_locate hlocate).2.2.2
    refine ⟨?_, Storage.delete_ne_device h rfl hrange⟩
    show (storage n).Usable (v.delete request.parent request.name).volume.disk
    rcases Storage.delete_spec h request.parent request.name hrange with
      ⟨e, d, hdelete, hd, -⟩ | ⟨i, done, rest, -, -, hadvance, -⟩
    · rw [hdelete]
      exact hd.usable
    · exact hadvance.usable

end Ata

namespace Kernel
open Ata

variable {n : Nat} {k t : Kernel} {c : SystemCall} {calls : List SystemCall}
  {allowed : Kernel → SystemCall → Prop}

/-- Whether a call follows an entry to a table past the end of the drive. -/
def Strays (k : Kernel) (c : SystemCall) : Prop :=
  ∃ j v, k.job? c = some j ∧ k.volume? = some v ∧
    v.Strays (min v.disk.sectors addressLimit) j.action

/-- Whether a call writes a file that passes as a directory. -/
def Forges (k : Kernel) (c : SystemCall) : Prop :=
  ∃ (j : Job) (s : Session Disk), k.job? c = some j ∧ k.volume? = some s.volume ∧ s.Forges j.action

/-- Calls that the kernel returned from, one after another; between them programs do what they like
with their memory. -/
inductive Calls (allowed : Kernel → SystemCall → Prop) (k : Kernel) :
    List SystemCall → Kernel → Prop
  | nil : Calls allowed k [] k
  | snoc {calls : List SystemCall} {t : Kernel} {c : SystemCall} {value : UInt64}
      (run : Calls allowed k calls t) (hreturned : (t.call c).2.2 = .returned value)
      (hallowed : allowed t c) : Calls allowed k (calls ++ [c]) (t.call c).1

/-- A kernel with a volume on a drive that works. -/
structure Mounted (n : Nat) (k : Kernel) (v : Volume Disk) : Prop where
  volume : k.volume? = some v
  usable : (storage n).Usable v.disk

theorem Mounted.strays_iff {v : Volume Disk} (h : k.Mounted n v) {j : Job}
    (hjob : k.job? c = some j) : k.Strays c ↔ v.Strays (min n addressLimit) j.action := by
  rw [← h.usable.ready.1]
  constructor
  · rintro ⟨i, w, hi, hw, hstrays⟩
    obtain rfl := Option.some.inj (hi.symm.trans hjob)
    obtain rfl := Option.some.inj (hw.symm.trans h.volume)
    exact hstrays
  · exact fun hstrays => ⟨j, v, hjob, h.volume, hstrays⟩

/-- A call that strays halts. Any other returns, and leaves the served volume. -/
theorem Mounted.call {v : Volume Disk} (h : k.Mounted n v) (c : SystemCall) :
    k.Strays c ∧ (k.call c).2.2 = .halted ∨
    ¬ k.Strays c ∧ (∃ value, (k.call c).2.2 = .returned value) ∧
      ((k.call c).1.Mounted n v ∧ k.job? c = none ∨
        ∃ j, k.job? c = some j ∧ (k.call c).1.Mounted n (j.serve v).volume) := by
  cases hjob : k.job? c with
  | none =>
    obtain ⟨value, hreturned, hstate⟩ := call_of_idle (.inl hjob)
    refine .inr ⟨?_, ⟨value, hreturned⟩, .inl ⟨⟨hstate.volume?.trans h.volume, h.usable⟩, rfl⟩⟩
    rintro ⟨j, -, hj, -⟩
    rw [hjob] at hj
    cases hj
  | some j =>
    obtain ⟨hends, -, hvolume⟩ := call_of_job hjob h.volume
    rw [h.strays_iff hjob]
    by_cases hstrays : v.Strays (min n addressLimit) j.action
    · refine .inl ⟨hstrays, ?_⟩
      rw [hends, serve_of_strays h.usable hstrays]
      rfl
    · obtain ⟨husable, hdevice⟩ := serve_of_not_strays h.usable hstrays
      refine .inr ⟨hstrays, ?_, .inr ⟨j, rfl, ?_, husable⟩⟩
      · rw [hends]
        cases houtcome : (j.serve v).outcome with
        | ok value => exact ⟨_, rfl⟩
        | error cause =>
          cases cause with
          | device e => exact absurd houtcome (hdevice e)
          | _ => exact ⟨_, rfl⟩
      · have hsectors : v.disk.sectors = (j.serve v).volume.disk.sectors :=
          h.usable.ready.1.trans husable.ready.1.symm
        rw [hvolume, hsectors]

theorem Mounted.halted_iff {v : Volume Disk} (h : k.Mounted n v) (c : SystemCall) :
    (k.call c).2.2 = .halted ↔ k.Strays c := by
  rcases h.call c with ⟨hstrays, hhalted⟩ | ⟨hnot, ⟨value, hreturned⟩, -⟩
  · exact iff_of_true hhalted hstrays
  · refine iff_of_false (fun hhalted => ?_) hnot
    rw [hreturned] at hhalted
    cases hhalted

/-- A call that does not stray takes the volume to the next session. -/
theorem Mounted.step {s s' : Session Disk} (h : k.Mounted n s.volume) {j : Job}
    (hjob : k.job? c = some j) (hstep : s.step j.action = .ok s')
    (hnot : ¬ s.volume.Strays (min n addressLimit) j.action) :
    (∃ value, (k.call c).2.2 = .returned value) ∧ (k.call c).1.Mounted n s'.volume := by
  rcases h.call c with ⟨hstrays, -⟩ | ⟨-, hreturned, ⟨-, hnone⟩ | ⟨i, hi, hnext⟩⟩
  · exact absurd ((h.strays_iff hjob).mp hstrays) hnot
  · rw [hjob] at hnone
    cases hnone
  · obtain rfl := Option.some.inj (hjob.symm.trans hi)
    rw [Job.volume_serve hstep] at hnext
    exact ⟨hreturned, hnext⟩

/-- The drive works after any calls that returned. -/
theorem Mounted.run {v : Volume Disk} (h : k.Mounted n v) (hrun : Calls allowed k calls t) :
    ∃ w, t.Mounted n w := by
  induction hrun with
  | nil => exact ⟨v, h⟩
  | @snoc calls t c value _ hreturned _ ih =>
    obtain ⟨w, hw⟩ := ih
    rcases hw.call c with ⟨-, hhalted⟩ | ⟨-, -, ⟨hnext, -⟩ | ⟨j, -, hnext⟩⟩
    · rw [hreturned] at hhalted
      cases hhalted
    · exact ⟨w, hnext⟩
    · exact ⟨_, hnext⟩

/-- A kernel whose volume is that of a session in which no file passes as a directory. -/
structure Hosts (n : Nat) (k : Kernel) (s : Session Disk) : Prop where
  mounted : k.Mounted n s.volume
  healthy : s.Healthy (storage n)
  unforged : s.Unforged (storage n)

/-- There, no call strays. -/
theorem Hosts.not_strays {s : Session Disk} (h : k.Hosts n s) (c : SystemCall) :
    ¬ k.Strays c := by
  intro hstrays
  have ⟨j, _, hjob, _⟩ := hstrays
  rw [h.mounted.strays_iff hjob] at hstrays
  have hcovers {parent : UInt32} {name : ShortName} {e : Entry}
      (hstat : (s.volume.stat parent name).2 = .ok e) (hdir : e.isDirectory = true) :
      clusterLba e.cluster + sectorsPerCluster ≤ min n addressLimit := by
    rw [Storage.stat_snd h.healthy.usable] at hstat
    exact (covers_iff h.healthy.usable).mp (Session.covers_of_lookup h.healthy
      (h.unforged.parentsIn h.healthy (.stat parent name) parent rfl) hstat hdir)
  obtain ⟨call, request, buffer⟩ := j
  cases call with
  | readDirectory =>
    obtain ⟨-, e, hstat, hdir, hc⟩ := hstrays
    exact absurd (hcovers hstat hdir) (Nat.not_le.mpr hc)
  | delete =>
    obtain ⟨e, hstat, hdir, hc⟩ := hstrays
    exact absurd (hcovers hstat hdir) (Nat.not_le.mpr hc)
  | read => exact hstrays
  | write => exact hstrays

/-- A call that does not forge leaves it so. -/
theorem Hosts.call {s : Session Disk} (h : k.Hosts n s) (hforges : ¬ k.Forges c) :
    ∃ u, (k.call c).1.Hosts n u := by
  rcases h.mounted.call c with ⟨hstrays, -⟩ | ⟨-, -, ⟨hnext, -⟩ | ⟨j, hjob, hnext⟩⟩
  · exact absurd hstrays (h.not_strays c)
  · exact ⟨s, hnext, h.healthy, h.unforged⟩
  · obtain ⟨u, hstep, -⟩ := Session.step_effect h.healthy (h.unforged.parentsIn h.healthy j.action)
    obtain ⟨hu, hiff⟩ := h.unforged.step_iff h.healthy hstep
    rw [Job.volume_serve hstep] at hnext
    exact ⟨u, hnext, hu, hiff.mpr fun hs => hforges ⟨j, s, hjob, h.mounted.volume, hs⟩⟩

theorem Hosts.run {s : Session Disk} (h : k.Hosts n s)
    (hrun : Calls (fun t c => ¬ t.Forges c) k calls t) : ∃ u, t.Hosts n u := by
  induction hrun with
  | nil => exact ⟨s, h⟩
  | snoc _ _ hforges ih =>
    obtain ⟨u, hu⟩ := ih
    exact hu.call hforges

/-- On a volume that was just formatted no file passes as a directory. -/
theorem Mounted.hosts {s : Session Disk} (h : k.Mounted n s.volume) {e : Disk}
    (he : (storage n).Usable e) (hfresh : Session.fresh e = .ok s) : k.Hosts n s := by
  obtain ⟨f, hf, hs, -⟩ := Session.fresh_eq he rfl
  obtain rfl := Except.ok.inj (hf.symm.trans hfresh)
  exact ⟨h, hs, fun c hc => absurd hc (Finset.notMem_empty c)⟩

/-! ### Boot -/

theorem sameState_startLogger (k : Kernel) : SameState k k.startLogger.1 := by
  unfold startLogger
  cases k.sink <;> exact ⟨rfl, rfl, rfl, rfl⟩

/-- Mounting a drive that works and carries no signature formats it. -/
theorem mountVolume_eq {d : Drive} (hdrive : k.drive = d) (hprobed : k.probed = some n)
    (hworks : (storage n).Usable ⟨n, d⟩)
    (hunsigned : Image.window 512 d.image 0 ≠ BootSector.signature) :
    ∃ t s e, k.mountVolume = (t, .returned ()) ∧ t.Mounted n s.volume ∧
      (storage n).Usable e ∧ Session.fresh e = .ok s := by
  obtain ⟨e, s, he, hwrites, hfresh, hmount⟩ := Session.mount_unsigned hworks rfl hunsigned
  obtain ⟨f, hfresh', hs, -⟩ := Session.fresh_eq he hwrites
  obtain rfl := Except.ok.inj (hfresh'.symm.trans hfresh)
  have hdisk : k.disk? = some ⟨n, d⟩ := by
    rw [disk?, hprobed, hdrive]
    rfl
  unfold mountVolume
  rw [hdisk]
  simp only
  generalize Volume.mount (⟨n, d⟩ : Disk) = m at hmount ⊢
  obtain ⟨disk, _ | map, notices⟩ := m
  · cases hmount
  obtain ⟨rfl, rfl⟩ : disk = f ∧ map = formatted := by
    have hvolume := Except.ok.inj hmount
    exact ⟨congrArg Volume.disk hvolume, congrArg Volume.map hvolume⟩
  have hstate := sameState_logAll { k.note (.mounting n) with drive := disk.drive }
    (notices.map Volume.Notice.record)
  refine ⟨_, _, e, rfl, ⟨?_, hs.usable⟩, he, hfresh⟩
  simp only [volume?, hstate.drive]
  rfl

/-- A kernel that boots on a drive that works and carries no signature has formatted it. -/
theorem boot_eq (hworks : k.drive.Works (min k.drive.reported addressLimit))
    (hidentify : k.drive.identifyFails = false) (hsize : 2048 ≤ k.drive.reported)
    (hunsigned : Image.window 512 k.drive.image 0 ≠ BootSector.signature) :
    ∃ t s e, k.boot = (t, .returned ()) ∧ t.callsInstalled = true ∧
      t.Mounted k.drive.reported s.volume ∧ (storage k.drive.reported).Usable e ∧
      Session.fresh e = .ok s := by
  obtain ⟨e, hprobe, hkept, himage⟩ := probe_eq hworks.present hidentify
  have hready : (storage k.drive.reported).Usable ⟨k.drive.reported, e⟩ := by
    refine ⟨⟨rfl, hkept.works hworks⟩, ?_⟩
    simp only [storage, addressLimit]
    omega
  unfold boot
  have hlogged := k.sameState_startLogger
  generalize k.startLogger = started at hlogged ⊢
  obtain ⟨u, installed⟩ := started
  simp only at hlogged ⊢
  have hreported : SameState k
      (note (if installed = true then u else u.note .loggerKept) .started) := by
    refine (hlogged.trans ?_).trans (sameState_log ..)
    split
    · exact .refl u
    · exact u.sameState_log _
  generalize note (if installed = true then u else u.note .loggerKept) .started = w
    at hreported ⊢
  have hprobed : w.probeDrive =
      (note { w with drive := e, probed := some k.drive.reported }
        (.driveFound k.drive.reported), .returned ()) := by
    rw [probeDrive, hreported.drive, hprobe]
  have hfound := sameState_log { w with drive := e, probed := some k.drive.reported }
    (Notice.driveFound k.drive.reported).record
  obtain ⟨t, s, e, hmount, hmounted, hs⟩ :=
    mountVolume_eq hfound.drive hfound.probed hready (himage ▸ hunsigned)
  refine ⟨t.installCalls, s, e, ?_, rfl, ⟨hmounted.volume, hmounted.usable⟩, hs⟩
  rw [hprobed]
  simp only [note, hmount]

/-! ### A program with a forged table -/

/-- A zeroed drive. -/
def zeroedDrive (sectors : Nat) : Drive where
  image := Array.replicate (sectors * sectorSize) 0
  reportedSectors := sectors

theorem works_zeroedDrive (sectors : Nat) :
    (zeroedDrive sectors).Works (min (zeroedDrive sectors).reported addressLimit) := by
  refine ⟨rfl, rfl, fun lba hlba => ?_⟩
  have hlt : lba + 1 ≤ sectors := by
    have hmod := Nat.mod_le sectors 4294967296
    simp only [Drive.reported, zeroedDrive] at hlba
    omega
  have hsize : (lba + 1) * sectorSize ≤ (zeroedDrive sectors).image.size := by
    rw [zeroedDrive, Array.size_replicate]
    exact Nat.mul_le_mul_right _ hlt
  have hbad : ([] : List Nat).contains lba = false := rfl
  rw [Drive.canMove, Drive.canMove, decide_eq_true hsize]
  exact ⟨congrArg not hbad, congrArg not hbad⟩

/-- A program that has a request at the start of its memory and a cluster of data behind it, and
passes the request to a call. -/
def programCall (call : Call) (parent : UInt32) (name : ShortName) (data : Cluster) :
    SystemCall where
  memory := ⟨0x1000, (Request.encode ⟨0x1020, name, parent, 2048⟩).toArray ++ data.toArray⟩
  number := UInt64.ofNat call.number
  args := #v[0x1000, 0, 0, 0, 0, 0]

theorem job?_programCall (hk : k.callsInstalled = true) (call : Call) (hcall : call ≠ .delete)
    (parent : UInt32) (name : ShortName) (data : Cluster) :
    ∃ buffer, k.job? (programCall call parent name data) =
        some ⟨call, ⟨0x1020, name, parent, 2048⟩, buffer⟩ ∧
      buffer.size = 2048 ∧ buffer.cluster 0 = data := by
  have hnumber : Call.ofNumber? (programCall call parent name data).number.toNat = some call := by
    cases call <;> rfl
  have hrequest := (congrArg Request.decode (UserMemory.window_base 0x1000
    (Request.encode ⟨0x1020, name, parent, 2048⟩) data.toArray)).trans (Request.decode_encode _)
  refine ⟨_, job?_eq_some hk hnumber rfl hrequest ?_, rfl,
    UserMemory.cluster_payload 0x1000 (Request.encode ⟨0x1020, name, parent, 2048⟩) data⟩
  have haccepts : UserMemory.accepts 0x1020 2048 = true := by decide
  exact (if_neg (by simp [hcall])).trans (if_pos haccepts)

/-- The table of a directory at cluster 3 with one child, a directory past the end of a drive of
2048 sectors. -/
def forgedTable : Directory :=
  (Directory.create Volume.rootName 3).setChild 0
    (Entry.create (.ofParts [88] []) .directory 0 512)

theorem lookup_forgedTable {x : Contents} (haccepts : x.accepts 3 = true)
    (hcluster : x.cluster 3 = forgedTable.encode) :
    x.lookup 3 (.ofParts [88] []) = .ok (Entry.create (.ofParts [88] []) .directory 0 512) := by
  have htable : x.table 3 = forgedTable := by
    rw [Contents.table, hcluster, Directory.decode_encode]
  have hchild (i : Fin 62) : forgedTable.children.get i =
      if i = 0 then Entry.create (.ofParts [88] []) .directory 0 512 else Entry.empty := by
    rw [forgedTable, Directory.get_setChild, Directory.get_children_create]
  have hfind : forgedTable.find? (.ofParts [88] []) = some 0 := by
    refine Directory.find?_of_unique (by rw [hchild, if_pos rfl, Entry.isUsed_create])
      (by rw [hchild, if_pos rfl]; rfl) fun i hused _ => ?_
    by_contra hne
    rw [hchild, if_neg hne] at hused
    cases hused
  rw [Contents.lookup_of_accepts haccepts, htable, hfind]
  simp only [Contents.child, htable, hchild, if_true]

/-! ### Halting -/

/-- On a drive that works and that the boot formatted, a call halts the kernel exactly if it follows
an entry to a table past the end of the drive, and otherwise returns. As long as no call writes a
file that passes as a directory, every call returns. -/
theorem halted_iff_strays (hworks : k.drive.Works (min k.drive.reported addressLimit))
    (hidentify : k.drive.identifyFails = false) (hsize : 2048 ≤ k.drive.reported)
    (hunsigned : Image.window 512 k.drive.image 0 ≠ BootSector.signature) :
    ∃ k₀, k.boot = (k₀, .returned ()) ∧
      (∀ calls t, Calls (fun _ _ => True) k₀ calls t → ∀ c,
        ((t.call c).2.2 = .halted ↔ t.Strays c) ∧
        ((t.call c).2.2 ≠ .halted → ∃ value, (t.call c).2.2 = .returned value)) ∧
      (∀ calls t, Calls (fun t c => ¬ t.Forges c) k₀ calls t → ∀ c,
        ∃ value, (t.call c).2.2 = .returned value) := by
  obtain ⟨k₀, s, e, hboot, -, hmounted, he, hfresh⟩ := boot_eq hworks hidentify hsize hunsigned
  have hosts := hmounted.hosts he hfresh
  refine ⟨k₀, hboot, fun calls t hrun c => ?_, fun calls t hrun c => ?_⟩
  · obtain ⟨v, hv⟩ := hosts.mounted.run hrun
    refine ⟨hv.halted_iff c, fun hne => ?_⟩
    rcases hv.call c with ⟨-, hhalted⟩ | ⟨-, hreturned, -⟩
    · exact absurd hhalted hne
    · exact hreturned
  · obtain ⟨u, hu⟩ := hosts.run hrun
    rcases hu.mounted.call c with ⟨hstrays, -⟩ | ⟨-, hreturned, -⟩
    · exact absurd hstrays (hu.not_strays c)
    · exact hreturned

/-- A file of zeros forges nothing, so every call after it returns. -/
theorem returned_after_zeros :
    ∃ k₀ t, ({ drive := zeroedDrive 2048 } : Kernel).boot = (k₀, .returned ()) ∧
      Calls (fun t c => ¬ t.Forges c) k₀
        [programCall .write rootCluster (.ofParts [65] []) (Vector.replicate 2048 0)] t ∧
      ∀ c, ∃ value, (t.call c).2.2 = .returned value := by
  have hworks := works_zeroedDrive 2048
  have hunsigned := BootSector.window_replicate_ne_signature (2048 * sectorSize)
  obtain ⟨k₀, hboot, -, hreturns⟩ :=
    halted_iff_strays (k := { drive := zeroedDrive 2048 }) hworks rfl (by decide) hunsigned
  obtain ⟨k, -, -, hboot', hinstalled, -⟩ :=
    boot_eq (k := { drive := zeroedDrive 2048 }) hworks rfl (by decide) hunsigned
  obtain rfl : k = k₀ := congrArg Prod.fst (hboot'.symm.trans hboot)
  obtain ⟨data, hwrite, hsize, hdata⟩ := job?_programCall hinstalled .write (by decide)
    rootCluster (.ofParts [65] []) (Vector.replicate 2048 0)
  obtain ⟨value, hreturned⟩ := hreturns [] k .nil
    (programCall .write rootCluster (.ofParts [65] []) (Vector.replicate 2048 0))
  have hforges : ¬ k.Forges
      (programCall .write rootCluster (.ofParts [65] []) (Vector.replicate 2048 0)) := by
    rintro ⟨j, s, hj, -, hforges⟩
    obtain rfl := Option.some.inj (hwrite.symm.trans hj)
    obtain ⟨-, -, c, -, -, hdescribes⟩ := hforges
    simp only [hsize] at hdescribes
    have hunused : (Directory.decode (Vector.replicate 2048 0)).self.isUsed = false := by
      simp [Directory.decode, Entry.atSlot, Entry.decode, Entry.isUsed, Image.window,
        Entry.usedMark]
    rw [show clustersFor 2048 - 1 = 0 from rfl, hdata, Directory.describes, hunused] at hdescribes
    cases hdescribes
  have hrun : Calls (fun t c => ¬ t.Forges c) k _ _ := Calls.nil.snoc hreturned hforges
  exact ⟨k, _, hboot, hrun, hreturns _ _ hrun⟩

/-- A program can halt the kernel: it writes the table into a file, which is put in cluster 3, and
lists the child of cluster 3. -/
theorem halted_after_forged_file :
    ∃ k₀ t, ({ drive := zeroedDrive 2048 } : Kernel).boot = (k₀, .returned ()) ∧
      Calls (fun _ _ => True) k₀
        [programCall .write rootCluster (.ofParts [65] []) forgedTable.encode] t ∧
      (t.call (programCall .readDirectory 3 (.ofParts [88] []) forgedTable.encode)).2.2 =
        .halted := by
  obtain ⟨k₀, s, e, hboot, hinstalled, hmounted, he, hfresh⟩ :=
    boot_eq (k := { drive := zeroedDrive 2048 }) (works_zeroedDrive 2048) rfl (by decide)
      (BootSector.window_replicate_ne_signature _)
  obtain ⟨data, hwrite, hsize, hdata⟩ := job?_programCall hinstalled .write (by decide)
    rootCluster (.ofParts [65] []) forgedTable.encode
  obtain ⟨hs, houtcome⟩ := Session.first_write_ok he rfl hfresh (.ofParts [65] []) data (by
    rw [hsize]
    decide)
  have hparents := (hs.admits_root (.ofParts [65] []) data).parentsIn hs
  obtain ⟨-, t, hstep, ht, -, haccepts⟩ := Session.step_of_describes hs hparents
    (by rw [hsize]; rfl) (by omega) (by
      rw [hdata, Directory.decode_encode]
      simp [forgedTable]) houtcome
  have hcluster := Session.cluster_of_write hs hparents hstep (by omega) houtcome
  rw [hdata] at hcluster
  obtain ⟨⟨value, hreturned⟩, hmounted'⟩ := hmounted.step hwrite hstep id
  refine ⟨k₀, _, hboot, Calls.nil.snoc hreturned trivial, ?_⟩
  -- the listing finds the child of the forged table
  obtain ⟨-, hinstalled', -⟩ := call_of_job hwrite hmounted.volume
  obtain ⟨buffer, hlist, hroom, -⟩ := job?_programCall (hinstalled'.trans hinstalled)
    .readDirectory (by decide) 3 (.ofParts [88] []) forgedTable.encode
  have hstat := (Storage.stat_snd ht.usable 3 (.ofParts [88] [])).trans
    (lookup_forgedTable haccepts hcluster)
  rw [hmounted'.halted_iff, hmounted'.strays_iff hlist]
  exact ⟨hroom.ge, _, hstat, by decide, by decide⟩

end Kernel

end ClusterFs
