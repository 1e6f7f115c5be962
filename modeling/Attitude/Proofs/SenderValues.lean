import Attitude.Proofs.Binary32.Monotone
import Attitude.Proofs.Binary32.Truncation
import Attitude.Proofs.Duration
import Attitude.Proofs.Loading

/-!
# The sender that a stored value selects

A value of any kind may be stored as the number of the accepted sender. It is read as an integer: a
flag counts as zero or one, a number loses its fraction, and one that is too large is held at the
end of the range of integers. So a value selects a sender exactly if its whole part numbers one. What
lies strictly between -1 and 0, or between 255 and 256, has such a whole part without being in the
range of senders itself.

## Main definitions

* `ParameterValue.real?`: the real number that a value stands for
* `Params.SelectsByWholePart`: the sender of the loaded parameters, by the stored value

## Main results

* `Binary32.toInt_toInt32`: the conversion to an integer, over the reals
* `Params.selectsByWholePart`
* `Params.fractions_select`: two values out of range that select a sender
-/

namespace Attitude

/-! ## Integers from numbers -/

namespace Binary32
open Float.Model Float.Model.UnpackedFloat

/-- **The conversion to an integer drops the fraction** of a finite number, and holds the rest in
the range of integers. -/
theorem toInt_toInt32 {x : Float32} (hx : x.isFinite = true) :
    (toInt32 x).toInt =
      if toReal x < 0 then -(min ⌊-toReal x⌋₊ (2 ^ 31) : ℤ) else min ⌊toReal x⌋₊ (2 ^ 31 - 1) := by
  have hneg : x < 0.0 ↔ toReal x < 0 := lt_iff hx isFinite_zero
  have hwhole := toNat_toUInt64 hx
  have hopposite := toNat_toUInt64 ((isFinite_neg x).trans hx)
  rw [toReal_neg] at hopposite
  have hmin : ∀ m n : ℕ, m.min n = min m n := fun _ _ => rfl
  simp only [toInt32, hneg, hmin, hwhole, hopposite]
  split
  · rw [Int32.toInt_ofInt_of_le] <;> omega
  · rw [Int32.toInt_ofInt_of_le] <;> omega

/-- An infinity is held at its end of the range. -/
theorem toInt_toInt32_infinity {x : Float32} {s : Sign} (hx : unpack x = .infinity s) :
    (toInt32 x).toInt = 2 ^ 31 - 1 ∨ (toInt32 x).toInt = -2 ^ 31 := by
  have hnot : ¬ x.isFinite = true := by
    rw [isFinite_eq, hx]
    exact Bool.false_ne_true
  have hneg : x < 0.0 ↔ unpack x = .infinity .negative := lt_iff_of_not_finite hnot isFinite_zero
  cases s with
  | positive =>
    left
    have hle : ¬ x < 0.0 := by
      rw [hneg, hx]
      rintro ⟨⟩
    rw [toInt32, if_neg hle, toNat_toUInt64_infinity hx]
    rfl
  | negative =>
    right
    have hopposite : unpack (-x) = .infinity .positive := by rw [unpack_neg, hx]; rfl
    rw [toInt32, if_pos (hneg.mpr hx), toNat_toUInt64_infinity hopposite]
    rfl

end Binary32

/-! ## Senders from integers -/

/-- The real number that a value stands for, if it is one. -/
noncomputable def ParameterValue.real? : ParameterValue → Option ℝ
  | flag b => some b.toNat
  | integer i => some i.toInt
  | number x => if x.isFinite then some (Binary32.toReal x) else none

namespace Params
variable {s : ParameterStore} {v : ParameterValue} {r : ℝ}

theorem senderOfInteger_eq_some_iff {i : Int32} {id : UInt8} :
    senderOfInteger i = some id ↔ i.toInt = id.toNat := by
  refine ⟨?_, senderOfInteger_eq_some⟩
  intro h
  rw [senderOfInteger] at h
  split at h
  · rename_i hrange
    rw [← Option.some.inj h, UInt8.toNat_ofNat_of_lt' (by rw [UInt8.size]; omega)]
    omega
  · cases h

theorem senderOfInteger_eq_none_iff {i : Int32} :
    senderOfInteger i = none ↔ ¬ (0 ≤ i.toInt ∧ i.toInt ≤ 255) := by
  rw [senderOfInteger, ite_eq_right_iff]
  simp

/-- Dropping the fraction of a real number and holding the rest in the range of integers leaves the
number of a sender exactly between -1 and 256. -/
theorem whole_eq_iff (r : ℝ) {n : ℕ} (hn : n < 256) :
    (if r < 0 then -(min ⌊-r⌋₊ (2 ^ 31) : ℤ) else min ⌊r⌋₊ (2 ^ 31 - 1)) = n ↔
      -1 < r ∧ r < 256 ∧ n = ⌊r⌋₊ := by
  split
  · rename_i hneg
    have hzero : ⌊r⌋₊ = 0 := Nat.floor_of_nonpos hneg.le
    have hfraction : ⌊-r⌋₊ = 0 ↔ -1 < r := by
      rw [Nat.floor_eq_zero, neg_lt]
    rw [hzero, ← hfraction]
    have hlt : r < 256 := by linarith
    simp only [hlt, true_and]
    omega
  · rename_i hnonneg
    rw [not_lt] at hnonneg
    have hlow : -1 < r := by linarith
    have hhigh : r < 256 ↔ ⌊r⌋₊ < 256 := by
      rw [Nat.floor_lt hnonneg]
      norm_num
    rw [hhigh]
    simp only [hlow, true_and]
    omega

theorem intCast_eq_iff (k : ℤ) {n : ℕ} (hn : n < 256) :
    k = n ↔ -1 < (k : ℝ) ∧ (k : ℝ) < 256 ∧ n = ⌊(k : ℝ)⌋₊ := by
  have hlow : -1 < (k : ℝ) ↔ -1 < k := by exact_mod_cast Iff.rfl
  have hhigh : (k : ℝ) < 256 ↔ k < 256 := by exact_mod_cast Iff.rfl
  rw [hlow, hhigh, ← Int.floor_toNat, Int.floor_intCast]
  omega

/-- The integer read from a value has the number of a sender exactly if the whole part of the value
does. -/
theorem toInteger_eq_iff (hv : v.real? = some r) {n : ℕ} (hn : n < 256) :
    v.toInteger.toInt = n ↔ -1 < r ∧ r < 256 ∧ n = ⌊r⌋₊ := by
  cases v with
  | flag b =>
    obtain rfl := Option.some.inj hv
    have hflag : (ParameterValue.flag b).toInteger.toInt = b.toNat := by cases b <;> rfl
    rw [hflag, intCast_eq_iff _ hn, Int.cast_natCast]
  | integer i =>
    obtain rfl := Option.some.inj hv
    exact intCast_eq_iff i.toInt hn
  | number x =>
    rw [ParameterValue.real?] at hv
    split at hv
    · rename_i hfin
      obtain rfl := Option.some.inj hv
      rw [← whole_eq_iff _ hn, ← Binary32.toInt_toInt32 hfin, ParameterValue.toInteger]
    · cases hv

/-! ## Stored values -/

/-- How the stored value `v` selects the sender of the loaded parameters. -/
structure SelectsByWholePart (s : ParameterStore) (v : ParameterValue) : Prop where
  /-- A value that stands for a real number selects the sender with the number of its whole part. -/
  selects_iff : ∀ r, v.real? = some r → ∀ id : UInt8,
    (ofStore s).sender = some id ↔ -1 < r ∧ r < 256 ∧ id.toNat = ⌊r⌋₊
  /-- It stands for everyone exactly if its whole part numbers no sender. -/
  everyone_iff : ∀ r, v.real? = some r → ((ofStore s).sender = none ↔ r ≤ -1 ∨ 256 ≤ r)
  /-- So does an infinity. -/
  infinite : ∀ x, v = .number x → ∀ sign, Binary32.unpack x = .infinity sign →
    (ofStore s).sender = none

theorem ofStore_sender (h : s.get? "AHRS_IMU_ID" = some v) :
    (ofStore s).sender = senderOfInteger v.toInteger := by
  simp [ofStore, ParameterStore.getInteger, h]

theorem sender_eq_some_iff (h : s.get? "AHRS_IMU_ID" = some v) (hv : v.real? = some r)
    {id : UInt8} : (ofStore s).sender = some id ↔ -1 < r ∧ r < 256 ∧ id.toNat = ⌊r⌋₊ := by
  rw [ofStore_sender h, senderOfInteger_eq_some_iff]
  exact toInteger_eq_iff hv id.toNat_lt

/-- **A stored value selects the sender with the number of its whole part**, and everyone if there
is none. -/
theorem selectsByWholePart (h : s.get? "AHRS_IMU_ID" = some v) : SelectsByWholePart s v where
  selects_iff := by
    intro r hv id
    exact sender_eq_some_iff h hv
  everyone_iff := by
    intro r hv
    by_cases hrange : -1 < r ∧ r < 256
    · have hwhole : ⌊r⌋₊ < UInt8.size := by
        rw [Nat.floor_lt' (by decide)]
        exact hrange.2
      have hsome : (ofStore s).sender = some (.ofNat ⌊r⌋₊) :=
        (sender_eq_some_iff h hv).mpr ⟨hrange.1, hrange.2, UInt8.toNat_ofNat_of_lt' hwhole⟩
      rw [hsome]
      refine iff_of_false (by rintro ⟨⟩) ?_
      rw [not_or, not_le, not_le]
      exact hrange
    · refine iff_of_true ?_ ?_
      · rw [Option.eq_none_iff_forall_ne_some]
        intro id hid
        obtain ⟨hlow, hhigh, -⟩ := (sender_eq_some_iff h hv).mp hid
        exact hrange ⟨hlow, hhigh⟩
      · rwa [not_and_or, not_lt, not_lt] at hrange
  infinite := by
    rintro x rfl sign hx
    rw [ofStore_sender h, senderOfInteger_eq_none_iff, ParameterValue.toInteger]
    rcases Binary32.toInt_toInt32_infinity hx with hend | hend <;> rw [hend] <;> decide

/-- A store that holds one value, under the name of the sender. -/
def storing (v : ParameterValue) : ParameterStore := ⟨[(⟨"AHRS_IMU_ID", by decide +kernel⟩, v)]⟩

/-- A number with a fraction selects the sender of its whole part. -/
theorem selectsByWholePart_fraction :
    (storing (.number 41.75)).get? "AHRS_IMU_ID" = some (.number 41.75) ∧
    SelectsByWholePart (storing (.number 41.75)) (.number 41.75) ∧
    (ofStore (storing (.number 41.75))).sender = some 41 :=
  ⟨rfl, selectsByWholePart rfl, by decide +kernel⟩

/-- A negative number and one above 255 can select a sender, too. -/
theorem fractions_select :
    (-0.5 : Float32) < 0.0 ∧ (ofStore (storing (.number (-0.5)))).sender = some 0 ∧
    (255.0 : Float32) < 255.5 ∧ (ofStore (storing (.number 255.5))).sender = some 255 := by
  decide +kernel

end Params
end Attitude
