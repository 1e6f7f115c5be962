import Attitude.Proofs.Detection
import Attitude.Proofs.Overflow
import Attitude.Proofs.Request

/-!
# Windows with an unusable force

A specific force that is not finite, or whose norm overflows, leaves a sum of norms that is not
finite, wherever in the window it stands. The mean of the norms is then not finite either, and what
is left after subtracting its square is negative infinity or no number. The variance is clamped at
zero, and the clamp takes both for zero. So the window passes for one of perfect stillness: it is
quiet whenever gyro and magnetometer have been heard and the limit is above zero.

The averages of such a window are refused by every alignment if a component was not finite. If only
the squares of the components overflow, the averages can be finite, and an estimator aligns with
them.

## Main definitions

* `Vec3.Unusable`: a force that says nothing about the variance
* `Stillness.Monitor.TakesForStill`: what becomes of a window with such a force

## Main results

* `Vec3.unusable_iff`: a force is unusable exactly if its norm is not finite
* `Stillness.Monitor.takesForStill_of_unusable`
* `Stillness.Monitor.unusable_window_is_quiet`: two windows that lock the monitor
-/

namespace Attitude
open Binary32

/-- What every step passes on to the state before and to its element, a fold passes on to all
elements. -/
theorem forall_of_foldl {σ β : Type} {step : σ → β → σ} {P : σ → Prop} {Q : β → Prop}
    (hstep : ∀ s x, P (step s x) → P s ∧ Q x) {s : σ} {xs : List β} (h : P (xs.foldl step s)) :
    P s ∧ ∀ x ∈ xs, Q x := by
  induction xs generalizing s with
  | nil => exact ⟨h, by simp⟩
  | cons x xs ih =>
    obtain ⟨hfirst, hrest⟩ := ih h
    obtain ⟨hs, hx⟩ := hstep s x hfirst
    exact ⟨hs, List.forall_mem_cons.mpr ⟨hx, hrest⟩⟩

/-! ## Undefined differences -/

namespace Binary32
open Float.Model

/-- Subtracting positive infinity or no number leaves negative infinity or no number. -/
theorem sub_of_special (u : UnpackedFloat) {v : UnpackedFloat}
    (h : v = .notANumber ∨ v = .infinity .positive) :
    UnpackedFloat.sub Format.binary32 u v = .notANumber ∨
      UnpackedFloat.sub Format.binary32 u v = .infinity .negative := by
  rcases h with rfl | rfl
  · cases u <;> exact .inl rfl
  · cases u with
    | infinity s =>
      cases s with
      | negative => exact .inr rfl
      | positive => exact .inl rfl
    | notANumber => exact .inl rfl
    | _ => exact .inr rfl

/-- A difference is not positive if what is subtracted is not finite and not negative. -/
theorem not_pos_sub_of_not_finite {x y : Float32} (hy : NotNegative y) (h : ¬ y.isFinite = true) :
    ¬ 0.0 < x - y := by
  rw [pos_iff]
  rintro (⟨hfin, -⟩ | hinf)
  · exact h (isFinite_of_sub hfin).2
  · have hsub : x - y = encode (.sub Format.binary32 (unpack x) (unpack y)) := rfl
    have hspecial : unpack y = .notANumber ∨ unpack y = .infinity .positive := by
      have hsign := hy.infinity
      rw [isFinite_eq] at h
      cases hv : unpack y with
      | notANumber => exact .inl rfl
      | infinity s =>
        cases s with
        | negative => exact absurd hv hsign
        | positive => exact .inr rfl
      | _ =>
        rw [hv] at h
        exact absurd rfl h
    rw [hsub] at hinf
    rcases sub_of_special (unpack x) hspecial with hresult | hresult <;> rw [hresult] at hinf
    · rw [unpack_encode_notANumber] at hinf
      cases hinf
    · rw [unpack_encode_infinity] at hinf
      cases hinf

end Binary32

namespace Vec3

/-! ## Unusable forces -/

/-- The force is not finite, or its norm is not, or a square of the norm overflows, be it the sum of
the squared components or the product of the rounded norm with itself. -/
def Unusable (v : Vec3 Float32) : Prop :=
  v.isFinite = false ∨ v.norm.isFinite = false ∨ v.normSq.isFinite = false ∨
    (v.norm * v.norm).isFinite = false

/-- The norm alone decides. -/
theorem unusable_iff (v : Vec3 Float32) : v.Unusable ↔ v.norm.isFinite = false := by
  refine ⟨?_, fun h => .inr (.inl h)⟩
  intro h
  by_contra hnorm
  rw [Bool.not_eq_false] at hnorm
  have hsum : v.normSq.isFinite = true := (isFinite_of_sqrt hnorm).1
  have hsquare : (v.norm * v.norm).isFinite = true := isFinite_sqrt_mul_self hnorm
  simp [Unusable, isFinite_of_norm hnorm, hnorm, hsum, hsquare] at h

end Vec3

namespace Stillness

/-! ## The variance -/

/-- **A force without a finite norm leaves no variance.** -/
theorem normVarianceOf_of_unusable {vs : List (Vec3 Float32)} {v : Vec3 Float32} (hv : v ∈ vs)
    (h : v.Unusable) : normVarianceOf vs = 0.0 := by
  rw [Vec3.unusable_iff] at h
  have hmean : ¬ (vs.foldl (fun sum v => sum + v.norm) 0.0 / numberOf vs).isFinite = true := by
    intro hfin
    have hnorms := (forall_of_foldl (P := fun sum : Float32 => sum.isFinite = true)
      (fun _ _ hsum => isFinite_of_add hsum) (isFinite_of_div hfin).1).2
    rw [hnorms v hv] at h
    cases h
  exact if_neg (not_pos_sub_of_not_finite (notNegative_mul_self _)
    fun hfin => hmean (isFinite_of_mul hfin).1)

/-- A mean is finite only if all vectors are. -/
theorem isFinite_of_meanOf {vs : List (Vec3 Float32)} (h : (meanOf vs).isFinite = true) :
    ∀ v ∈ vs, v.isFinite = true := by
  obtain ⟨hx, hy, hz⟩ := (Vec3.isFinite_iff _).mp h
  have hsum : (vs.foldl (· + ·) Vec3.zero).isFinite = true := (Vec3.isFinite_iff _).mpr
    ⟨(isFinite_of_div hx).1, (isFinite_of_div hy).1, (isFinite_of_div hz).1⟩
  exact (forall_of_foldl (P := fun sum : Vec3 Float32 => sum.isFinite = true)
    (fun _ _ hadd => Vec3.isFinite_of_add hadd) hsum).2

/-! ## The window -/

/-- Gyro and magnetometer have been heard in a window. -/
def IsHeard {α : Type} (w : List (Sample α)) : Prop := gyros w ≠ [] ∧ mags w ≠ []

/-- A window with an unusable force is quiet if the other sensors have been heard and the square of
the limit is above zero. -/
theorem isQuiet_of_unusable {c : Config Float32} {w : List (Sample Float32)} {v : Vec3 Float32}
    (hv : v ∈ forces w) (h : v.Unusable) :
    isQuiet c w = true ↔ IsHeard w ∧ 0.0 < c.noiseLimit * c.noiseLimit := by
  simp [isQuiet, IsHeard, normVarianceOf_of_unusable hv h]

namespace Monitor
variable {m : Monitor Float32} {w : List (Sample Float32)}

/-- What a monitor does with a window that it judges without knowing the variance. -/
structure TakesForStill (m : Monitor Float32) (w : List (Sample Float32)) : Prop where
  /-- The window is not quiet if a sensor has not been heard, or the limit allows no window. -/
  dropped : ¬ (IsHeard w ∧ 0.0 < m.config.noiseLimit * m.config.noiseLimit) →
    process.run m w = ({ m with window := .empty, quiet := 0 }, [])
  /-- Otherwise it counts as quiet, and nothing is handed out yet. -/
  counted : IsHeard w → 0.0 < m.config.noiseLimit * m.config.noiseLimit →
    m.nextQuiet < m.config.quietWindows →
    process.run m w = ({ m with window := .empty, quiet := m.nextQuiet }, [])
  /-- The last one that is asked for hands out its averages and locks. -/
  locked : IsHeard w → 0.0 < m.config.noiseLimit * m.config.noiseLimit →
    m.config.quietWindows ≤ m.nextQuiet →
    process.run m w =
      ({ m with window := .empty, quiet := m.nextQuiet, status := .locked }, [averages w])
  /-- No estimator aligns with the averages if one of the forces was not finite. -/
  refused : (∃ v ∈ forces w, v.isFinite = false) → ∀ f : Estimator Float32,
    f.serve (.align (averages w)) = (f, false)

/-- **A window with an unusable force passes for one of perfect stillness.** It is dropped only if a
sensor has not been heard or the limit is not above zero. -/
theorem takesForStill_of_unusable (hm : m.status = .collecting) (hw : m.window = .empty)
    (hcomplete : IsComplete m.config.length w) (hcount : IsCountable w) {v : Vec3 Float32}
    (hv : v ∈ forces w) (h : v.Unusable) : m.TakesForStill w := by
  have hrun := run_complete hm hw hcomplete hcount
  have hquiet := isQuiet_of_unusable (c := m.config) hv h
  refine ⟨?_, ?_, ?_, ?_⟩
  · intro hdropped
    rw [hrun, if_neg (mt hquiet.mp hdropped)]
  · intro hheard hlimit hfew
    have hnot : ¬ m.config.quietWindows ≤ m.nextQuiet := UInt8.not_le.mpr hfew
    rw [hrun, if_pos (hquiet.mpr ⟨hheard, hlimit⟩), if_neg hnot]
  · intro hheard hlimit henough
    rw [hrun, if_pos (hquiet.mpr ⟨hheard, hlimit⟩), if_pos henough]
  · rintro ⟨u, hu, hbad⟩ f
    have hmean : (averages w).accel.isFinite = false := by
      rw [← Bool.not_eq_true]
      intro hfin
      rw [isFinite_of_meanOf hfin u hu] at hbad
      cases hbad
    refine Estimator.serve_align_of_eq_none ?_
    rw [attitudeOf?, hmean]
    rfl

/-! ## Two windows -/

/-- Windows of two specific forces, one of which is enough. -/
def oneWindow : Config Float32 := { Config.default with windowSamples := 2, quietWindows := 1 }

/-- The other sensors, a vehicle at rest, and one more specific force. -/
def windowEndingWith (v : Vec3 Float32) : List (Sample Float32) :=
  [.gyro .zero, .mag Estimator.defaultField, .accel gravityReference, .accel v]

/-- A specific force without a first component. -/
def noNumber : Vec3 Float32 := ⟨.ofBits 0x7fc00000, 0.0, -9.81⟩

theorem takesForStill_of_unusable_noNumber :
    (new oneWindow).status = .collecting ∧ (new oneWindow).window = .empty ∧
    IsComplete (new oneWindow).config.length (windowEndingWith noNumber) ∧
    IsCountable (windowEndingWith noNumber) ∧ noNumber ∈ forces (windowEndingWith noNumber) ∧
    noNumber.Unusable ∧ (new oneWindow).TakesForStill (windowEndingWith noNumber) := by
  have hcomplete : IsComplete (new oneWindow).config.length (windowEndingWith noNumber) :=
    ⟨rfl, [.gyro .zero, .mag Estimator.defaultField, .accel gravityReference], noNumber, rfl⟩
  have hcount : IsCountable (windowEndingWith noNumber) := ⟨by decide, by decide⟩
  have hmem : noNumber ∈ forces (windowEndingWith noNumber) := .tail _ (.head _)
  have hbad : noNumber.Unusable := .inl (by decide +kernel)
  exact ⟨rfl, rfl, hcomplete, hcount, hmem, hbad,
    takesForStill_of_unusable rfl rfl hcomplete hcount hmem hbad⟩

/-- A window with a component that is no number locks the monitor, and so does one with a norm that
overflows. With the averages of the second one an estimator aligns. -/
theorem unusable_window_is_quiet :
    let huge : Vec3 Float32 := ⟨2e19, 0.0, 0.0⟩
    let after (v : Vec3 Float32) := process.run (new oneWindow) (windowEndingWith v)
    let aligns (readings : Readings Float32) :=
      ((Estimator.new .default .aligned : Estimator Float32).serve (.align readings)).2
    noNumber.Unusable ∧ (after noNumber).1.quiet = 1 ∧ (after noNumber).1.status = .locked ∧
      (after noNumber).2.map aligns = [false] ∧
    huge.Unusable ∧ (after huge).1.quiet = 1 ∧ (after huge).1.status = .locked ∧
      (after huge).2.map aligns = [true] := by
  refine ⟨.inl ?_, ?_, ?_, ?_, .inr (.inl ?_), ?_, ?_, ?_⟩ <;> decide +kernel

end Monitor
end Stillness
end Attitude
