import ClusterFs.Proofs.UserLibrary

/-!
The pointers of a system call. A call answers that its request is invalid exactly if the request, or
the buffer that it names and the call needs, leaves the addresses of user programs; nothing has then
been touched, and no other failure is answered like that.
-/
namespace ClusterFs

namespace UserMemory

/-- The addresses that user programs may name: the lower half less its first page. -/
def Nameable (a : Nat) : Prop := 0x1000 ≤ a ∧ a ≤ 0x7FFFFFFFFFFF

/-- Whether some address of a stretch may not be named. The addresses do not wrap around. -/
def Escapes (address size : Nat) : Prop :=
  ∃ a, address ≤ a ∧ a < address + size ∧ ¬ Nameable a

/-- A stretch stays among the nameable addresses if its first and its last address do. -/
theorem escapes_iff {address size : Nat} (hpos : 0 < size) :
    Escapes address size ↔ address < lowest ∨ limit < address + size := by
  simp only [Escapes, Nameable, lowest, limit]
  constructor
  · rintro ⟨a, hfirst, hlast, hout⟩
    omega
  · rintro (hlow | hhigh)
    · exact ⟨address, by omega, by omega, by omega⟩
    · exact ⟨address + size - 1, by omega, by omega, by omega⟩

/-- A stretch that wraps around ends past the limit, so the check for that never decides. -/
theorem accepts_iff {address size : UInt64} (hpos : 0 < size.toNat) :
    accepts address size = true ↔ ¬ Escapes address.toNat size.toNat := by
  have hzero : address = 0 ↔ address.toNat = 0 := by
    rw [← UInt64.toNat_inj]
    rfl
  have hsize : ¬ size = 0 := by
    rintro rfl
    exact absurd hpos (by decide)
  rw [escapes_iff hpos]
  simp only [accepts, Bool.and_eq_true, bne_iff_ne, ne_eq, decide_eq_true_eq, hzero, hsize,
    not_false_eq_true, and_true]
  unfold lowest limit
  omega

end UserMemory

namespace Kernel
open UserMemory

variable {k : Kernel} {c : SystemCall} {call : Call}

theorem requestBuffer_eq_none_iff {mem : UserMemory} {request : Request} :
    requestBuffer mem call request = none ↔
      call ≠ .delete ∧ request.size ≠ 0 ∧ Escapes request.buffer.toNat request.size.toNat := by
  by_cases hnone : call = .delete ∨ request.size = 0
  · rw [requestBuffer, if_pos hnone]
    refine iff_of_false (fun h => by cases h) ?_
    rintro ⟨hcall, hsize, -⟩
    exact hnone.elim hcall hsize
  · obtain ⟨hcall, hsize⟩ := not_or.mp hnone
    have hpos : 0 < request.size.toUInt64.toNat := by
      rw [UInt32.toNat_toUInt64, Nat.pos_iff_ne_zero]
      exact fun h => hsize (UInt32.toNat_inj.mp h)
    have haccepts : accepts request.buffer request.size.toUInt64 = true ↔
        ¬ Escapes request.buffer.toNat request.size.toNat := by
      rw [accepts_iff hpos, UInt32.toNat_toUInt64]
    rw [requestBuffer, if_neg hnone]
    simp only [ne_eq, hcall, not_false_eq_true, hsize, true_and]
    split_ifs with h
    · exact iff_of_false (fun h => by cases h) (haccepts.mp h)
    · exact iff_of_true rfl (not_not.mp (mt haccepts.mpr h))

/-- A call gets no job exactly if a pointer of it is bad. The request is looked at only once its own
address is good. -/
theorem job?_eq_none_iff (hhandler : k.handler? c.number = some call) :
    k.job? c = none ↔ Escapes c.address.toNat 32 ∨
      call ≠ .delete ∧ c.request.size ≠ 0 ∧
        Escapes c.request.buffer.toNat c.request.size.toNat := by
  have haccepts : accepts c.address 32 = true ↔ ¬ Escapes c.address.toNat 32 :=
    accepts_iff (by decide)
  rw [job?_of_handler hhandler]
  split_ifs with h
  · rw [Option.map_eq_none_iff, requestBuffer_eq_none_iff, or_iff_right (haccepts.mp h)]
  · exact iff_of_true rfl (.inl (not_not.mp (mt haccepts.mpr h)))

/-- No request on a volume is answered as invalid. -/
theorem seen_ne_invalidRequest {α : Type} (outcome : Except FsError α) :
    UserCalls.seen outcome ≠ .returned .invalidRequest := by
  intro h
  obtain ⟨e, -, hresult, -⟩ := UserCalls.error_of_seen h (by decide)
  cases e <;> cases hresult

theorem handler?_number (hk : k.callsInstalled = true) (call : Call) :
    k.handler? (UInt64.ofNat call.number) = some call := by
  rw [handler?, if_pos hk]
  cases call <;> rfl

/-- A call is answered that its request is invalid exactly if an address of the request, or of the
buffer that it needs, may not be named. Kernel, volume, drive and memory are then as before. -/
theorem invalid_iff_escapes (hk : k.callsInstalled = true) (call : Call) (mem : UserMemory)
    (args : Vector UInt64 6) :
    let c : SystemCall := ⟨mem, UInt64.ofNat call.number, args⟩
    ((k.call c).2.2.map ResultCode.ofRegister = .returned .invalidRequest ↔
      Escapes c.address.toNat 32 ∨
        call ≠ .delete ∧ c.request.size ≠ 0 ∧
          Escapes c.request.buffer.toNat c.request.size.toNat) ∧
    ((k.call c).2.2.map ResultCode.ofRegister = .returned .invalidRequest →
      k.call c = (k, mem, .returned ResultCode.invalidRequest.toRegister)) := by
  intro c
  have hhandler : k.handler? c.number = some call := handler?_number hk call
  have hhandled := k.handled c
  rw [← job?_eq_none_iff hhandler]
  generalize k.call c = after at hhandled ⊢
  cases hhandled with
  | unknown hnone =>
    rw [hhandler] at hnone
    cases hnone
  | rejected _ hjob => exact ⟨iff_of_true rfl hjob, fun _ => rfl⟩
  | unmounted hjob =>
    have hne : Outcome.map ResultCode.ofRegister (.returned ResultCode.deviceError.toRegister) ≠
        .returned .invalidRequest := by decide
    rw [hjob]
    exact ⟨iff_of_false hne (fun h => by cases h), fun h => absurd h hne⟩
  | served t hjob =>
    rw [hjob, UserCalls.map_ending]
    exact ⟨iff_of_false (seen_ne_invalidRequest _) (fun h => by cases h),
      fun h => absurd h (seen_ne_invalidRequest _)⟩

/-- A program that has a request and nothing else in its memory, and passes it to a call. -/
def requestCall (call : Call) (request : Request) : SystemCall where
  memory := ⟨0x2000, request.encode.toArray⟩
  number := UInt64.ofNat call.number
  args := #v[0x2000, 0, 0, 0, 0, 0]

@[simp] theorem request_requestCall (call : Call) (request : Request) :
    (requestCall call request).request = request := by
  have hwindow := UserMemory.window_base 0x2000 request.encode #[]
  rw [Array.append_empty] at hwindow
  exact (congrArg Request.decode hwindow).trans (Request.decode_encode request)

/-- A read into the last address of the lower half and the one after it. -/
def straddlingCall : SystemCall :=
  requestCall .read ⟨0x7FFFFFFFFFFF, .empty, rootCluster, 2⟩

/-- It is turned away before the kernel finds that there is no volume. -/
theorem straddling_call_invalid :
    let k : Kernel := { drive := zeroedDrive 2048, callsInstalled := true }
    k.callsInstalled = true ∧
      (k.call straddlingCall).2.2.map ResultCode.ofRegister = .returned .invalidRequest := by
  intro k
  have hrequest : straddlingCall.request = ⟨0x7FFFFFFFFFFF, .empty, rootCluster, 2⟩ :=
    request_requestCall ..
  have hescapes : Escapes straddlingCall.request.buffer.toNat
      straddlingCall.request.size.toNat := by
    rw [hrequest]
    exact (escapes_iff (by decide)).mpr (.inr (by decide))
  have hsize : straddlingCall.request.size ≠ 0 := by
    rw [hrequest]
    decide
  exact ⟨rfl, (invalid_iff_escapes (k := k) rfl .read straddlingCall.memory
    straddlingCall.args).1.mpr (.inr ⟨by decide, hsize, hescapes⟩)⟩

end Kernel

end ClusterFs
