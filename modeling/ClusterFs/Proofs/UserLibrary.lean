import ClusterFs.UserCalls
import ClusterFs.Proofs.Deliveries
import ClusterFs.Proofs.Halting

/-!
The calls of a user program as requests on the volume. A request that is written into mapped memory
is read back by the kernel as it was, so a call answers, fills its buffer and leaves the volume as
the request does when it is made directly.
-/
namespace ClusterFs

/-! ### Memory -/

namespace UserMemory

variable {m : UserMemory} {address size : Nat}

/-- Whether a stretch of memory is mapped and may be named by a user program: it lies in the lower
half less the first page. -/
structure Mapped (m : UserMemory) (address size : Nat) : Prop where
  lowest : 0x1000 ≤ address
  limit : address + size ≤ 0x800000000000
  base : m.base ≤ address
  fits : address + size ≤ m.base + m.bytes.size

theorem accepts_of_mapped {address size : UInt64} (h : m.Mapped address.toNat size.toNat)
    (hpos : 0 < size.toNat) : accepts address size = true := by
  have hlow : lowest ≤ address.toNat := h.lowest
  have hlimit : address.toNat + size.toNat ≤ limit := h.limit
  have haddress : address ≠ 0 := by
    rintro rfl
    exact absurd hlow (by decide)
  have hsize : size ≠ 0 := by
    rintro rfl
    exact absurd hpos (by decide)
  have hsum : address.toNat + size.toNat < 18446744073709551616 :=
    Nat.lt_of_le_of_lt hlimit (by decide)
  simp only [accepts, bne_iff_ne.mpr haddress, bne_iff_ne.mpr hsize, Bool.true_and,
    decide_eq_true hsum, decide_eq_true hlow, decide_eq_true hlimit]

/-- A write leaves the bytes that it does not cover, whether or not it falls on mapped memory. -/
theorem byte_write_of_outside {bytes : Array UInt8} {a : Nat}
    (ha : ¬ (address ≤ a ∧ a < address + bytes.size)) :
    (m.write address bytes).byte a = m.byte a := by
  simp only [write, byte, Array.getD_eq_getD_getElem?, Image.getElem?_patch, Array.size_extract]
  by_cases hbase : m.base ≤ a
  · rw [if_pos hbase, if_pos hbase, if_neg (by omega)]
  · rw [if_neg hbase, if_neg hbase]

/-- A write into mapped memory changes the bytes that it covers and no others. -/
theorem byte_write {bytes : Array UInt8} (hbase : m.base ≤ address)
    (hfits : address + bytes.size ≤ m.base + m.bytes.size) (a : Nat) :
    (m.write address bytes).byte a =
      if address ≤ a ∧ a < address + bytes.size then bytes.getD (a - address) 0 else m.byte a := by
  have hall : bytes.extract (m.base - address) bytes.size = bytes := by
    rw [Nat.sub_eq_zero_of_le hbase, Array.extract_size]
  by_cases hin : address ≤ a ∧ a < address + bytes.size
  · have hindex : a - m.base - (address - m.base) = a - address := by omega
    simp only [write, byte, hall, Array.getD_eq_getD_getElem?, Image.getElem?_patch]
    rw [if_pos hin, if_pos (by omega), if_pos (by omega), hindex]
  · rw [if_neg hin, byte_write_of_outside hin]

theorem base_write (m : UserMemory) (address : Nat) (bytes : Array UInt8) :
    (m.write address bytes).base = m.base := rfl

theorem size_write (m : UserMemory) (address : Nat) (bytes : Array UInt8) :
    (m.write address bytes).bytes.size = m.bytes.size := Image.size_patch ..

/-- What was written is seen through a window of its size. -/
theorem window_write {n : Nat} {v : Vector UInt8 n} (h : m.Mapped address n) :
    (m.write address v.toArray).window n address = v := by
  have hfits : address + v.toArray.size ≤ m.base + m.bytes.size := by
    rw [Vector.size_toArray]
    exact h.fits
  apply Vector.ext
  intro i hi
  rw [window, Vector.getElem_ofFn, byte_write h.base hfits, Vector.size_toArray,
    if_pos ⟨Nat.le_add_right .., Nat.add_lt_add_left hi address⟩, Nat.add_sub_cancel_left]
  simp [Array.getD_eq_getD_getElem?, hi]

end UserMemory

/-! ### Requests -/

namespace Volume

variable {D : Type} [BlockDevice D]

omit [BlockDevice D] in
theorem Reply.discard_unit (r : Reply D Unit) : r.discard = r := by
  obtain ⟨w, _ | _, filled, notices⟩ := r <;> rfl

theorem fileSteps_congr {p q : Payload} (h : p.cluster = q.cluster) (i : Nat)
    (clusters : List UInt32) : fileSteps p i clusters = fileSteps q i clusters := by
  induction clusters generalizing i with
  | nil => rfl
  | cons c rest ih => rw [fileSteps, fileSteps, h, ih]

/-- A write depends on its data only. -/
theorem write_congr (v : Volume D) {p q : Payload} (hsize : p.size = q.size)
    (hbyte : ∀ i < p.size, p.byte i = q.byte i) (parent : UInt32) (name : ShortName) :
    v.write parent name p = v.write parent name q := by
  have hcluster : p.cluster = q.cluster := by
    funext i
    apply Vector.ext
    intro j hj
    simp only [Payload.cluster, Vector.getElem_ofFn, ← hsize]
    split
    · exact hbyte _ ‹_›
    · rfl
  have hkind : kindFor p = kindFor q := by rw [kindFor, kindFor, hsize]
  have hsteps (table : Directory) (place : Placement) :
      writeSteps parent table name p place = writeSteps parent table name q place := by
    simp only [writeSteps, hkind, hsize, fileSteps_congr hcluster]
  simp only [write, hsize, hkind, hsteps]

/-- A write is refused, or makes an entry of this kind. -/
def Makes (v : Volume D) (parent : UInt32) (name : ShortName) (data : Payload) (directory : Bool)
    (w : Volume D) : Prop :=
  w = (v.openDirectory parent).1 ∨
  ∃ table p, (v.openDirectory parent).2 = .ok table ∧
    place v.map table name data.size = .ok p ∧
    (newEntry name data p).isDirectory = directory ∧
    w = ((v.openDirectory parent).1.perform (contentSteps name data p ++
      [.store parent (table.setChild p.index (newEntry name data p)).encode])).1

theorem makes_write (v : Volume D) (parent : UInt32) (name : ShortName) (data : Payload) :
    v.Makes parent name data (decide (data.size = 0)) (v.write parent name data).volume := by
  rcases v.write_cases parent name data with ⟨e, hrefused⟩ | ⟨table, p, hopen, hplace, hvolume, -⟩
  · exact .inl (by rw [hrefused]; rfl)
  · exact .inr ⟨table, p, hopen, hplace, Contents.isDirectory_newEntry name data p, hvolume⟩

end Volume

theorem FsError.result_ne_ok (e : FsError) : e.result ≠ .ok := by
  cases e <;> exact fun h => by cases h

/-- A failure other than a device's has a result of its own. -/
theorem FsError.result_inj {e e' : FsError} (he : ∀ cause, e ≠ .device cause)
    (h : e'.result = e.result) : e' = e := by
  cases e with
  | device cause => exact absurd rfl (he cause)
  | _ => cases e' <;> first | rfl | cases h

namespace UserCalls

/-- What a program gets to see of the outcome of a request. A drive that never answers keeps the
kernel waiting, and any other failure of it halts the kernel. -/
def seen {α : Type} : Except FsError α → Outcome ResultCode
  | .ok _ => .returned .ok
  | .error .invalidParent => .returned .invalidParent
  | .error .alreadyExists => .returned .alreadyExists
  | .error .notFound => .returned .notFound
  | .error .wrongType => .returned .wrongType
  | .error .bufferTooSmall => .returned .bufferTooSmall
  | .error .directoryFull => .returned .directoryFull
  | .error .insufficientSpace => .returned .insufficientSpace
  | .error (.device .unresponsive) => .waiting
  | .error (.device _) => .halted

theorem map_ending (outcome : Except FsError Unit) :
    (Kernel.ending outcome).map ResultCode.ofRegister = seen outcome := by
  cases outcome with
  | ok value => rfl
  | error e =>
    cases e with
    | device cause => cases cause <;> rfl
    | _ => rfl

theorem seen_map {α : Type} (outcome : Except FsError α) :
    seen (outcome.map fun _ => ()) = seen outcome := by
  cases outcome with
  | ok value => rfl
  | error e =>
    cases e with
    | device cause => cases cause <;> rfl
    | _ => rfl

theorem seen_error {α : Type} {e : FsError} (he : ∀ cause, e ≠ .device cause) :
    seen (α := α) (.error e) = .returned e.result := by
  cases e with
  | device cause => exact absurd rfl (he cause)
  | _ => rfl

/-- An answer other than success is a refusal, and not a failure of the device. -/
theorem error_of_seen {α : Type} {outcome : Except FsError α} {code : ResultCode}
    (h : seen outcome = .returned code) (hcode : code ≠ .ok) :
    ∃ e, outcome = .error e ∧ e.result = code ∧ ∀ cause, e ≠ .device cause := by
  cases outcome with
  | ok value => exact absurd (Outcome.returned.inj h).symm hcode
  | error e =>
    have he : ∀ cause, e ≠ .device cause := by
      rintro cause rfl
      cases cause <;> cases h
    exact ⟨e, rfl, Outcome.returned.inj ((seen_error he).symm.trans h), he⟩

/-- The program can tell the cause of every refusal. -/
theorem seen_eq_iff {α : Type} {outcome : Except FsError α} {e : FsError}
    (he : ∀ cause, e ≠ .device cause) :
    seen outcome = .returned e.result ↔ outcome = .error e := by
  refine ⟨fun h => ?_, fun h => h ▸ seen_error he⟩
  obtain ⟨e', rfl, hresult, -⟩ := error_of_seen h e.result_ne_ok
  exact congrArg Except.error (FsError.result_inj he hresult)

variable {k : Kernel} {v : Volume Ata.Disk} {mem : UserMemory} {address buffer : UInt64}
  {length : Nat}

/-- A call that passes the checks has the volume serve its request. -/
theorem issue_spec {call : Call} {request : Request} {p : Payload}
    (hk : k.callsInstalled = true) (hv : k.volume? = some v)
    (hrequest : mem.Mapped address.toNat 32)
    (hbuffer : Kernel.requestBuffer (mem.write address.toNat request.encode.toArray) call request =
      some p) :
    let reply := v.serve call request.name request.parent p
    let after := issue k mem address call request
    after.2.2 = seen reply.outcome ∧ after.1.volume? = some reply.volume ∧
      after.2.1 = (mem.write address.toNat request.encode.toArray).write
        request.buffer.toNat reply.filled := by
  intro reply after
  have hjob : k.job? ⟨mem.write address.toNat request.encode.toArray, UInt64.ofNat call.number,
      #v[address, 0, 0, 0, 0, 0]⟩ = some ⟨call, request, p⟩ := by
    refine Kernel.job?_eq_some hk ?_ (UserMemory.accepts_of_mapped hrequest (by decide)) ?_ hbuffer
    · have hnumber : (UInt64.ofNat call.number).toNat = call.number := by cases call <;> rfl
      exact (congrArg Call.ofNumber? hnumber).trans call.ofNumber?_number
    · show Request.decode (UserMemory.window _ 32 address.toNat) = request
      rw [UserMemory.window_write hrequest, Request.decode_encode]
  obtain ⟨hends, -, hvolume⟩ := Kernel.call_of_job hjob hv
  have hmemory := Kernel.memory_call_of_job hjob hv
  have hsectors : reply.volume.disk.sectors = v.disk.sectors :=
    (Ata.keptByTransfers_sectors v.disk.sectors).serve rfl call request.name request.parent p
  refine ⟨?_, ?_, hmemory⟩
  · rw [← map_ending]
    exact congrArg (Outcome.map ResultCode.ofRegister) hends
  · rw [show after.1.volume? = _ from hvolume, ← hsectors]
    rfl

/-- A request of a program lies in its mapped memory, apart from the buffer, which if it is not
empty is mapped too. -/
structure Placed (mem : UserMemory) (address buffer : UInt64) (length : Nat) : Prop where
  request : mem.Mapped address.toNat 32
  target : 0 < length → mem.Mapped buffer.toNat length
  apart : 0 < length → address.toNat + 32 ≤ buffer.toNat ∨ buffer.toNat + length ≤ address.toNat

/-- A user call that did what a request made directly does: it ended as the request did, left the
volume that the request left, and of the program's memory changed only its own request and, as the
request did, the buffer. -/
structure Serves {α : Type} (mem : UserMemory) (address buffer : UInt64) (length : Nat)
    (reply : Volume.Reply Ata.Disk α) (after : Kernel × UserMemory × Outcome ResultCode) :
    Prop where
  outcome : after.2.2 = seen reply.outcome
  volume : after.1.volume? = some reply.volume
  filled : (after.2.1.window length buffer.toNat).toArray =
    reply.buffer (mem.window length buffer.toNat).toArray
  rest : ∀ a, ¬ (address.toNat ≤ a ∧ a < address.toNat + 32) →
    ¬ (buffer.toNat ≤ a ∧ a < buffer.toNat + length) → after.2.1.byte a = mem.byte a

variable {raw : Array UInt8}

/-- The request does not reach into the buffer. -/
theorem Placed.byte_request (h : Placed mem address buffer length) (hraw : raw.size = 32) {a : Nat}
    (ha : ¬ (address.toNat ≤ a ∧ a < address.toNat + 32)) :
    (mem.write address.toNat raw).byte a = mem.byte a := by
  rw [UserMemory.byte_write h.request.base (hraw ▸ h.request.fits), hraw, if_neg ha]

/-- Bytes put at the start of the buffer, behind a request in place. -/
theorem Placed.byte_filled (h : Placed mem address buffer length) {filled : Array UInt8}
    (hfilled : filled.size ≤ length) (a : Nat) :
    ((mem.write address.toNat raw).write buffer.toNat filled).byte a =
      if buffer.toNat ≤ a ∧ a < buffer.toNat + filled.size then filled.getD (a - buffer.toNat) 0
      else (mem.write address.toNat raw).byte a := by
  rcases Nat.eq_zero_or_pos filled.size with hempty | hpos
  · rw [Array.size_eq_zero_iff.mp hempty, UserMemory.write_empty, Array.size_empty,
      if_neg (by omega)]
  · have htarget := h.target (by omega)
    have hfits := htarget.fits
    refine UserMemory.byte_write (m := mem.write address.toNat raw) htarget.base ?_ a
    rw [UserMemory.base_write, UserMemory.size_write]
    omega

theorem Placed.window_filled (h : Placed mem address buffer length) (hraw : raw.size = 32)
    {filled : Array UInt8} (hfilled : filled.size ≤ length) :
    (((mem.write address.toNat raw).write buffer.toNat filled).window length buffer.toNat).toArray =
      Image.patch (mem.window length buffer.toNat).toArray 0 filled := by
  apply Array.ext_getElem?
  intro i
  have hold (i : Nat) (hi : i < length) :
      (mem.window length buffer.toNat).toArray[i]? = some (mem.byte (buffer.toNat + i)) := by
    simp [UserMemory.window, hi]
  have hnew (i : Nat) (hi : i < length) :
      (((mem.write address.toNat raw).write buffer.toNat filled).window length
        buffer.toNat).toArray[i]? =
      some (((mem.write address.toNat raw).write buffer.toNat filled).byte (buffer.toNat + i)) := by
    simp [UserMemory.window, hi]
  rw [Image.getElem?_patch, Vector.size_toArray]
  by_cases hi : i < length
  · have hrequest : (mem.write address.toNat raw).byte (buffer.toNat + i) =
        mem.byte (buffer.toNat + i) := by
      have hapart := h.apart (by omega)
      exact h.byte_request hraw (by omega)
    rw [hnew i hi, h.byte_filled hfilled, hrequest, hold i hi]
    by_cases hin : i < filled.size
    · rw [if_pos (by omega), if_pos (by omega), Nat.add_sub_cancel_left, Nat.sub_zero,
        Array.getD_eq_getD_getElem?, Array.getElem?_eq_getElem hin, Option.getD_some]
    · rw [if_neg (by omega), if_neg (by omega)]
  · rw [if_neg (by omega), Array.getElem?_eq_none (by simpa using hi),
      Array.getElem?_eq_none (by simpa using hi)]

/-- The kernel takes the buffer of a request as it stands in memory. -/
theorem Placed.exists_buffer (h : Placed mem address buffer length) (hraw : raw.size = 32)
    (hlength : length < wordLimit) (call : Call) (hcall : call = .delete → length = 0)
    (name : ShortName) (parent : UInt32) :
    ∃ p, Kernel.requestBuffer (mem.write address.toNat raw) call
        ⟨buffer, name, parent, UInt32.ofNat length⟩ = some p ∧
      p.size = length ∧ ∀ i < length, p.byte i = mem.byte (buffer.toNat + i) := by
  have hsize : (UInt32.ofNat length).toNat = length := by
    rw [UInt32.toNat_ofNat']
    exact Nat.mod_eq_of_lt hlength
  rcases Nat.eq_zero_or_pos length with rfl | hpos
  · exact ⟨.empty, if_pos (.inr rfl), rfl, fun i hi => absurd hi (Nat.not_lt_zero i)⟩
  · have hne : ¬ (call = .delete ∨ UInt32.ofNat length = 0) := by
      rintro (hdelete | hzero)
      · exact absurd (hcall hdelete) (Nat.ne_of_gt hpos)
      · rw [hzero, UInt32.toNat_zero] at hsize
        exact absurd hsize (Nat.ne_of_lt hpos)
    have hwide : (UInt32.ofNat length).toUInt64.toNat = length := by
      rw [UInt32.toNat_toUInt64, hsize]
    have haccepts : UserMemory.accepts buffer (UInt32.ofNat length).toUInt64 = true :=
      UserMemory.accepts_of_mapped (hwide.symm ▸ h.target hpos) (hwide.symm ▸ hpos)
    refine ⟨_, (if_neg hne).trans (if_pos haccepts), hsize, fun i hi => ?_⟩
    have hapart := h.apart hpos
    have houtside :
        ¬ (address.toNat ≤ buffer.toNat + i ∧ buffer.toNat + i < address.toNat + 32) := by
      omega
    exact h.byte_request hraw houtside

/-- A call does what its request does when it is made directly. -/
theorem issue_serves {α : Type} {call : Call} {name : ShortName} {parent : UInt32} {p : Payload}
    {reply : Volume.Reply Ata.Disk α} (hk : k.callsInstalled = true) (hv : k.volume? = some v)
    (h : Placed mem address buffer length)
    (hbuffer : Kernel.requestBuffer (mem.write address.toNat
      (Request.encode ⟨buffer, name, parent, UInt32.ofNat length⟩).toArray) call
      ⟨buffer, name, parent, UInt32.ofNat length⟩ = some p)
    (hsize : p.size = length) (hreply : v.serve call name parent p = reply.discard) :
    Serves mem address buffer length reply
      (issue k mem address call ⟨buffer, name, parent, UInt32.ofNat length⟩) := by
  obtain ⟨houtcome, hvolume, hmemory⟩ := issue_spec hk hv h.request hbuffer
  have hfilled := Volume.size_filled_serve_le Ata.delivers_disk v call name parent p
  rw [hreply] at houtcome hvolume hmemory
  rw [hreply, hsize] at hfilled
  refine ⟨houtcome.trans (seen_map reply.outcome), hvolume, ?_, fun a hrequest htarget => ?_⟩
  · rw [hmemory]
    exact h.window_filled (Vector.size_toArray _) hfilled
  · rw [hmemory]
    refine (h.byte_filled hfilled a).trans ?_
    rw [if_neg fun hin => htarget ⟨hin.1, Nat.lt_of_lt_of_le hin.2 (Nat.add_le_add_left hfilled _)⟩]
    exact h.byte_request (Vector.size_toArray _) hrequest

/-- The calls of the library are the requests on the volume. A call that reads or lists fills the
buffer as the request does, a write takes the bytes of the buffer and makes a file, and a directory
is made by its own call; a buffer of the wrong size is turned away in the program. -/
theorem calls_serve (hk : k.callsInstalled = true) (hv : k.volume? = some v)
    (parent : UInt32) (name : ShortName) (h : Placed mem address buffer length) :
    let data : Payload := ⟨length, fun i => mem.byte (buffer.toNat + i)⟩
    let nothing : Payload := ⟨0, fun _ => 0⟩
    (length ≤ 4294967295 → Serves mem address buffer length (v.read parent name length)
      (read k mem address parent name buffer length)) ∧
    (length = 2048 → Serves mem address buffer length (v.readDirectory parent name length)
      (readDirectory k mem address parent name buffer)) ∧
    (0 < length → length ≤ 4294967295 →
      Serves mem address buffer length (v.write parent name data)
        (write k mem address parent name buffer length) ∧
      v.Makes parent name data false (v.write parent name data).volume) ∧
    Serves mem address 0 0 (v.write parent name nothing)
      (makeDirectory k mem address parent name) ∧
    v.Makes parent name nothing true (v.write parent name nothing).volume ∧
    Serves mem address 0 0 (v.delete parent name) (delete k mem address parent name) ∧
    (4294967295 < length →
      read k mem address parent name buffer length = (k, mem, .returned .invalidRequest) ∧
      write k mem address parent name buffer length = (k, mem, .returned .invalidRequest)) ∧
    write k mem address parent name buffer 0 = (k, mem, .returned .invalidRequest) := by
  intro data nothing
  have hraw (r : Request) : r.encode.toArray.size = 32 := Vector.size_toArray _
  have hempty : Placed mem address 0 0 :=
    ⟨h.request, fun h => absurd h (Nat.lt_irrefl 0), fun h => absurd h (Nat.lt_irrefl 0)⟩
  have hword {n : Nat} (hn : n ≤ 4294967295) : n < wordLimit := Nat.lt_succ_of_le hn
  refine ⟨fun hlength => ?_, ?_, fun hpos hlength => ⟨?_, ?_⟩, ?_, ?_, ?_,
    fun hlong => ⟨?_, ?_⟩, ?_⟩
  · obtain ⟨p, hbuffer, hsize, -⟩ :=
      h.exists_buffer (hraw _) (hword hlength) .read nofun name parent
    rw [read, if_pos (hword hlength)]
    exact issue_serves hk hv h hbuffer hsize (by rw [← hsize]; rfl)
  · rintro rfl
    obtain ⟨p, hbuffer, hsize, -⟩ :=
      h.exists_buffer (hraw _) (by decide) .readDirectory nofun name parent
    exact issue_serves hk hv h hbuffer hsize (by rw [← hsize, Volume.Reply.discard_unit]; rfl)
  · obtain ⟨p, hbuffer, hsize, hbyte⟩ :=
      h.exists_buffer (hraw _) (hword hlength) .write nofun name parent
    have hwrite : v.write parent name p = v.write parent name data :=
      v.write_congr hsize (fun i hi => hbyte i (hsize ▸ hi)) parent name
    rw [write, if_pos ⟨hpos, hword hlength⟩]
    exact issue_serves hk hv h hbuffer hsize (by rw [← hwrite]; rfl)
  · have hmakes := v.makes_write parent name data
    rwa [decide_eq_false (show ¬ data.size = 0 from Nat.ne_of_gt hpos)] at hmakes
  · exact issue_serves hk hv hempty (if_pos (.inr rfl)) rfl rfl
  · exact v.makes_write parent name nothing
  · exact issue_serves hk hv hempty (if_pos (.inl rfl)) rfl
      (by rw [Volume.Reply.discard_unit]; rfl)
  · rw [read, if_neg (Nat.not_lt.mpr hlong)]
  · rw [write, if_neg fun hin => Nat.not_lt.mpr hlong hin.2]
  · rw [write, if_neg fun hin => Nat.lt_irrefl 0 hin.1]

/-- A program writes a cluster of its memory into a file right after the kernel has booted. -/
theorem calls_serve_after_boot :
    ∃ k v, ({ drive := Kernel.zeroedDrive 2048 } : Kernel).boot = (k, .returned ()) ∧
      k.volume? = some v ∧
      Serves ⟨0x1000, Array.replicate 8192 7⟩ 0x1000 0x2000 2048
        (v.write rootCluster (.ofParts [65] [])
          ⟨2048, fun i => UserMemory.byte ⟨0x1000, Array.replicate 8192 7⟩ (0x2000 + i)⟩)
        (write k ⟨0x1000, Array.replicate 8192 7⟩ 0x1000 rootCluster (.ofParts [65] []) 0x2000
          2048) := by
  obtain ⟨k, s, -, hboot, hk, hmounted, -⟩ := Kernel.boot_eq
    (k := { drive := Kernel.zeroedDrive 2048 }) (Kernel.works_zeroedDrive 2048) rfl (by decide)
    (BootSector.window_replicate_ne_signature (2048 * sectorSize))
  have hsize : (Array.replicate 8192 (7 : UInt8)).size = 8192 := Array.size_replicate
  have hplaced : Placed ⟨0x1000, Array.replicate 8192 7⟩ 0x1000 0x2000 2048 := by
    refine ⟨⟨by decide, by decide, by decide, ?_⟩, fun _ => ⟨by decide, by decide, by decide, ?_⟩,
      fun _ => .inl (by decide)⟩ <;> simp only [hsize] <;> decide
  obtain ⟨-, -, hwrite, -⟩ := calls_serve hk hmounted.volume rootCluster (.ofParts [65] []) hplaced
  exact ⟨k, s.volume, hboot, hmounted.volume, (hwrite (by decide) (by decide)).1⟩

end UserCalls

end ClusterFs
