/-!
Byte images. `window` looks at a stretch of an image and `patch` replaces one; a patch changes the
bytes it covers and no others.
-/
namespace ClusterFs

abbrev Image := Array UInt8

namespace Image

/-- The `n` bytes from `offset`; what lies past the end reads as zero. -/
def window (n : Nat) (image : Image) (offset : Nat) : Vector UInt8 n :=
  Vector.ofFn fun i => image.getD (offset + i) 0

/-- The image with `bytes` written from `offset` on. The size stays, and bytes past the end are
dropped. -/
def patch (image : Image) (offset : Nat) (bytes : Array UInt8) : Image :=
  bytes.size.fold (fun i _ acc => acc.setIfInBounds (offset + i) (bytes.getD i 0)) image

/-- The image made `size` bytes long, extended by zeros or cut. -/
def resize (image : Image) (size : Nat) : Image :=
  image.extract 0 size ++ Array.replicate (size - image.size) 0

private theorem size_fold_set (bytes : Array UInt8) (offset : Nat) (image : Image) (n : Nat) :
    (n.fold (fun i _ acc => acc.setIfInBounds (offset + i) (bytes.getD i 0)) image).size =
      image.size := by
  induction n with
  | zero => rfl
  | succ n ih => rw [Nat.fold_succ, Array.size_setIfInBounds, ih]

private theorem getElem?_fold_set (bytes : Array UInt8) (offset : Nat) (image : Image) (j n : Nat)
    (hn : n ≤ bytes.size) :
    (n.fold (fun i _ acc => acc.setIfInBounds (offset + i) (bytes.getD i 0)) image)[j]? =
      if offset ≤ j ∧ j < offset + n ∧ j < image.size then bytes[j - offset]?
      else image[j]? := by
  induction n with
  | zero => rw [Nat.fold_zero, if_neg (by omega)]
  | succ n ih =>
    rw [Nat.fold_succ, Array.getElem?_setIfInBounds, size_fold_set bytes offset image n,
      ih (by omega)]
    by_cases hj : offset + n = j
    · subst hj
      by_cases hs : offset + n < image.size
      · rw [if_pos rfl, if_pos hs, if_pos (by omega), Nat.add_sub_cancel_left]
        simp [Array.getD_eq_getD_getElem?, show n < bytes.size by omega]
      · rw [if_pos rfl, if_neg hs, if_neg (by omega)]
        exact (Array.getElem?_eq_none (by omega)).symm
    · rw [if_neg hj]
      by_cases hc : offset ≤ j ∧ j < offset + n ∧ j < image.size
      · rw [if_pos hc, if_pos (by omega)]
      · rw [if_neg hc, if_neg (by omega)]

@[simp] theorem size_patch (image : Image) (offset : Nat) (bytes : Array UInt8) :
    (patch image offset bytes).size = image.size :=
  size_fold_set bytes offset image bytes.size

/-- A patch replaces exactly the bytes it covers. -/
theorem getElem?_patch (image : Image) (offset : Nat) (bytes : Array UInt8) (j : Nat) :
    (patch image offset bytes)[j]? =
      if offset ≤ j ∧ j < offset + bytes.size ∧ j < image.size then bytes[j - offset]?
      else image[j]? :=
  getElem?_fold_set bytes offset image j bytes.size (Nat.le_refl _)

@[simp] theorem getElem_window (n : Nat) (image : Image) (offset i : Nat) (h : i < n) :
    (window n image offset)[i] = image.getD (offset + i) 0 := by
  simp [window]

end Image

end ClusterFs
