import Attitude.Proofs.Binary32.Arithmetic

/-!
# Undefined numbers of binary32

A comparison with what is not a number fails, so `¬ y < x` and `x ≤ y` are the same for numbers and
differ as soon as an operand is none. A difference is undefined if an operand is, or if an infinity
is subtracted from itself; everything else has a difference, which may overflow.

## Main results

* `not_lt_iff`: what is left when a comparison fails
* `isNaN_sub_iff`: when a difference is undefined
-/

namespace Attitude.Binary32
open Float.Model Float.Model.UnpackedFloat

theorem isNaN_eq (x : Float32) : x.isNaN = (unpack x).isNaN := rfl

theorem isNaN_encode {u : UnpackedFloat} (h : u.isFinite = false) :
    (encode u).isNaN = u.isNaN := by
  cases u with
  | infinity s => rw [isNaN_eq, unpack_encode_infinity]
  | notANumber => rfl
  | _ => cases h

theorem isNaN_of_isFinite {x : Float32} (h : x.isFinite = true) : x.isNaN = false := by
  rw [isFinite_eq] at h
  rw [isNaN_eq]
  cases hu : unpack x with
  | notANumber => rw [hu] at h; cases h
  | _ => rfl

/-- A rounded result is a number. -/
theorem Rounds.isNaN {x : ℝ} {f : Float32} (h : Rounds x f) : f.isNaN = false := by
  cases h with
  | stored hfin _ => exact isNaN_of_isFinite hfin
  | tooLarge r _ _ hinf => rw [isNaN_eq, hinf]; rfl
  | tooSmall r _ _ hinf => rw [isNaN_eq, hinf]; rfl

@[simp] theorem isNaN_abs (x : Float32) : x.abs.isNaN = x.isNaN := by
  rw [isNaN_eq, unpack_abs, isNaN_eq]
  cases unpack x <;> rfl

/-! ## Comparisons -/

/-- Exchanging the operands turns a comparison around. -/
theorem compare_swap (u v : UnpackedFloat) : v.compare u = (u.compare v).map .swap := by
  cases u with
  | notANumber => cases v <;> rfl
  | infinity s =>
    cases v with
    | infinity t => cases s <;> cases t <;> rfl
    | _ => cases s <;> rfl
  | zero s =>
    cases v with
    | infinity t => cases t <;> rfl
    | finite t n f hn => cases t <;> rfl
    | _ => rfl
  | finite s m e hm =>
    cases v with
    | notANumber => rfl
    | infinity t => cases t <;> rfl
    | zero t => cases s <;> rfl
    | finite t n f hn =>
      have hmagnitude : (compare f e).then (compare n m) =
          ((compare e f).then (compare m n)).swap := by
        rw [Ordering.swap_then, ← Std.OrientedOrd.eq_swap, ← Std.OrientedOrd.eq_swap]
      cases s <;> cases t <;> simp [UnpackedFloat.compare, hmagnitude]

/-- Only undefined numbers cannot be compared. -/
theorem compare_eq_none_iff (u v : UnpackedFloat) :
    u.compare v = none ↔ u.isNaN = true ∨ v.isNaN = true := by
  cases u with
  | notANumber => exact iff_of_true rfl (.inl rfl)
  | infinity s => cases v <;> cases s <;> simp [UnpackedFloat.compare, UnpackedFloat.isNaN]
  | zero s =>
    cases v with
    | infinity t => cases t <;> simp [UnpackedFloat.compare, UnpackedFloat.isNaN]
    | finite t n f hn => cases t <;> simp [UnpackedFloat.compare, UnpackedFloat.isNaN]
    | _ => simp [UnpackedFloat.compare, UnpackedFloat.isNaN]
  | finite s m e hm =>
    cases v with
    | infinity t => cases t <;> simp [UnpackedFloat.compare, UnpackedFloat.isNaN]
    | notANumber => simp [UnpackedFloat.compare, UnpackedFloat.isNaN]
    | zero t => cases s <;> simp [UnpackedFloat.compare, UnpackedFloat.isNaN]
    | finite t n f hn => cases s <;> cases t <;> simp [UnpackedFloat.compare, UnpackedFloat.isNaN]

/-- When a number is not above another one, it is at most that, or one of them is undefined. -/
theorem not_lt_iff (x y : Float32) :
    ¬ y < x ↔ x ≤ y ∨ x.isNaN = true ∨ y.isNaN = true := by
  have hle : x ≤ y ↔ ((unpack x).compare (unpack y)).any (·.isLE) = true := decide_eq_true_iff
  have hlt : y < x ↔ ((unpack y).compare (unpack x) == some .lt) = true := decide_eq_true_iff
  rw [hle, hlt, isNaN_eq, isNaN_eq, ← compare_eq_none_iff, compare_swap]
  cases (unpack x).compare (unpack y) with
  | none => simp
  | some o => cases o <;> simp

/-- What can be compared is a number. -/
theorem isNaN_of_le {x y : Float32} (h : x ≤ y) : x.isNaN = false ∧ y.isNaN = false := by
  have hle : ((unpack x).compare (unpack y)).any (·.isLE) = true := of_decide_eq_true h
  have hsome : (unpack x).compare (unpack y) ≠ none := by
    intro hnone
    rw [hnone] at hle
    cases hle
  rw [ne_eq, compare_eq_none_iff, not_or, Bool.not_eq_true, Bool.not_eq_true] at hsome
  exact hsome

/-! ## Differences -/

/-- A difference that involves an infinity or an undefined number is one of these. -/
theorem sub_of_not_finite {u v : UnpackedFloat} (h : ¬ (u.isFinite = true ∧ v.isFinite = true)) :
    (UnpackedFloat.sub Format.binary32 u v).isFinite = false ∧
    ((UnpackedFloat.sub Format.binary32 u v).isNaN = true ↔
      u.isNaN = true ∨ v.isNaN = true ∨ ∃ s, u = .infinity s ∧ v = .infinity s) := by
  cases u with
  | notANumber => exact ⟨rfl, iff_of_true rfl (.inl rfl)⟩
  | infinity s =>
    cases v with
    | notANumber => exact ⟨rfl, iff_of_true rfl (.inr (.inl rfl))⟩
    | infinity t =>
      cases s <;> cases t
      · exact ⟨rfl, iff_of_true rfl (.inr (.inr ⟨.negative, rfl, rfl⟩))⟩
      · exact ⟨rfl, iff_of_false (by rintro ⟨⟩) (by simp [UnpackedFloat.isNaN])⟩
      · exact ⟨rfl, iff_of_false (by rintro ⟨⟩) (by simp [UnpackedFloat.isNaN])⟩
      · exact ⟨rfl, iff_of_true rfl (.inr (.inr ⟨.positive, rfl, rfl⟩))⟩
    | _ => exact ⟨rfl, iff_of_false (by rintro ⟨⟩) (by simp [UnpackedFloat.isNaN])⟩
  | _ =>
    cases v with
    | notANumber => exact ⟨rfl, iff_of_true rfl (.inr (.inl rfl))⟩
    | infinity t => exact ⟨rfl, iff_of_false (by rintro ⟨⟩) (by simp [UnpackedFloat.isNaN])⟩
    | _ => exact absurd ⟨rfl, rfl⟩ h

/-- A difference is undefined if an operand is, or if an infinity is subtracted from itself. -/
theorem isNaN_sub_iff (x y : Float32) : (x - y).isNaN = true ↔
    x.isNaN = true ∨ y.isNaN = true ∨ ∃ s, unpack x = .infinity s ∧ unpack y = .infinity s := by
  by_cases hfin : x.isFinite = true ∧ y.isFinite = true
  · have hx := isNaN_of_isFinite hfin.1
    have hy := isNaN_of_isFinite hfin.2
    rw [(rounds_sub hfin.1 hfin.2).isNaN, hx, hy]
    refine iff_of_false Bool.false_ne_true ?_
    rintro (⟨⟨⟩⟩ | ⟨⟨⟩⟩ | ⟨s, hs, -⟩)
    rw [isFinite_eq, hs] at hfin
    cases hfin.1
  · rw [isFinite_eq, isFinite_eq] at hfin
    obtain ⟨hspecial, hnan⟩ := sub_of_not_finite hfin
    have hsub : x - y = encode (.sub Format.binary32 (unpack x) (unpack y)) := rfl
    rw [hsub, isNaN_encode hspecial, hnan, isNaN_eq, isNaN_eq]

end Attitude.Binary32
