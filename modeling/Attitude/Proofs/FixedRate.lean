import Mathlib
import Attitude.Proofs.Binary32.Error
import Attitude.Proofs.Lifecycle
import Attitude.Proofs.Normalize
import Attitude.Proofs.Publications
import Attitude.Proofs.Schedule
import Attitude.Proofs.Threshold
import Attitude.Session.OfParams

/-!
# Sessions with a fixed propagation frequency

Validation asks of a frequency that it is finite and not negative. The interval that is integrated
is its inverse, and the inverse of a frequency up to `2 ^ (-128)` is too large to be stored: such a
frequency is accepted, and no gyro sample is ever integrated. Every larger one has an inverse that
is a duration, whatever its size, and then every accepted gyro sample of a running session is
integrated and published, whatever the stamps are.

## Main results

* `Binary32.isDuration_inverse_iff`: the frequencies whose inverse is a duration
* `Session.fixedRate_of_validate`: what a fixed frequency does over every list of calls
-/

namespace Attitude
open Binary32

namespace Binary32

/-- The grid consists of multiples of its least positive point. -/
theorem OnGrid.exists_multiple {y : ℝ} (h : OnGrid y) : ∃ k : ℤ, y = k * 2 ^ (-149 : ℤ) := by
  obtain ⟨m, e, -, he, rfl⟩ := h
  refine ⟨m * 2 ^ (e + 149).toNat, ?_⟩
  push_cast
  rw [mul_assoc, ← zpow_natCast, ← zpow_add₀ two_ne_zero, Int.toNat_of_nonneg (by omega)]
  congr 2
  omega

/-- A number above `2 ^ (-128)` is above it by at least one step of the grid, so its inverse is at
most the largest number. -/
theorem inverse_le_of_two_zpow_lt {y : ℝ} (h : OnGrid y) (hlt : (2 : ℝ) ^ (-128 : ℤ) < y) :
    1 / y ≤ (2 ^ 24 - 1 : ℕ) * 2 ^ (104 : ℤ) := by
  obtain ⟨k, rfl⟩ := h.exists_multiple
  have hsplit : (2 : ℝ) ^ (-128 : ℤ) = (2 ^ 21 : ℤ) * 2 ^ (-149 : ℤ) := by norm_num
  rw [hsplit] at hlt
  have hk : 2 ^ 21 < k := by exact_mod_cast lt_of_mul_lt_mul_right hlt (by positivity)
  have hk' : ((2 ^ 21 + 1 : ℤ) : ℝ) ≤ k := by exact_mod_cast hk
  rw [div_le_iff₀ (by positivity)]
  calc (1 : ℝ) ≤ (2 ^ 24 - 1 : ℕ) * 2 ^ (104 : ℤ) * ((2 ^ 21 + 1 : ℤ) * 2 ^ (-149 : ℤ)) := by
        norm_num
    _ ≤ (2 ^ 24 - 1 : ℕ) * 2 ^ (104 : ℤ) * (k * 2 ^ (-149 : ℤ)) := by gcongr

theorem two_zpow_neg_le_inverse {y : ℝ} {e : ℤ} (hpos : 0 < y) (h : y ≤ 2 ^ e) :
    (2 : ℝ) ^ (-e) ≤ 1 / y := by
  rw [zpow_neg, ← one_div]
  exact one_div_le_one_div_of_le hpos h

/-- **The inverse of a positive number is a duration** if and only if it does not overflow. -/
theorem isDuration_inverse_iff {f : Float32} (hfin : f.isFinite = true) (hpos : 0 < toReal f) :
    Estimator.isDuration (1.0 / f) = true ↔ (2 : ℝ) ^ (-128 : ℤ) < toReal f := by
  have hrounds : Rounds (1 / toReal f) (1.0 / f) := by
    have h := rounds_div approx_one.finite hfin hpos.ne'
    rwa [toReal_one] at h
  rw [Estimator.isDuration_iff]
  constructor
  · rintro ⟨hfinite, -⟩
    by_contra hsmall
    have hlarge : (2 : ℝ) ^ (128 : ℤ) ≤ 1 / toReal f :=
      two_zpow_neg_le_inverse hpos (not_lt.mp hsmall)
    have hge := (hrounds.isNearest hfinite).ge (onGrid_two_zpow (by norm_num)) hlarge
    have hlt := (abs_lt.mp (abs_toReal_lt (1.0 / f))).2
    exact absurd hge (not_le.mpr (by exact_mod_cast hlt))
  · intro hlarge
    have hfinite : (1.0 / f).isFinite = true := by
      refine hrounds.isFinite_of_within (y := (2 ^ 24 - 1 : ℕ) * 2 ^ (104 : ℤ))
        (onGrid_natCast_mul (by norm_num) (by norm_num)) ?_ (by norm_num)
      rw [abs_of_pos (by positivity)]
      exact inverse_le_of_two_zpow_lt (onGrid_toReal f) hlarge
    have hleast : (2 : ℝ) ^ (-128 : ℤ) ≤ 1 / toReal f :=
      two_zpow_neg_le_inverse hpos (by exact_mod_cast (abs_lt.mp (abs_toReal_lt f)).2.le)
    have hge := (hrounds.isNearest hfinite).ge (onGrid_two_zpow (by norm_num)) hleast
    exact ⟨hfinite, lt_of_lt_of_le (by positivity) hge⟩

end Binary32

namespace Session
variable {p : Params} {c : Config Float32}

/-! ## The configuration -/

/-- The configuration that parameters describe, usable or not. -/
def Config.describedBy (p : Params) : Config Float32 :=
  { Config.default with
    estimator := p.estimatorConfig
    mounting := p.mounting
    timing := .ofParams p
    sender := p.sender
    fieldRate := p.fieldRate }

/-- Only usable parameters are a configuration, the one that they describe. -/
theorem Config.ofParams_eq_ok_iff :
    Config.ofParams p = .ok c ↔ p.isUsable = true ∧ Config.describedBy p = c := by
  rw [Config.ofParams, Params.validate]
  by_cases husable : p.isUsable = true
  · rw [if_pos husable]
    exact ⟨fun h => ⟨husable, Except.ok.inj h⟩, fun h => congrArg Except.ok h.2⟩
  · rw [if_neg husable]
    exact iff_of_false (by rintro ⟨⟩) fun h => husable h.1

theorem isFinite_frequency (h : p.isUsable = true) : p.frequency.isFinite = true := by
  simp only [Params.isUsable, Params.isFrequency, Bool.and_eq_true] at h
  exact h.1.1.2.1

theorem timing_ofParams (h : 0.0 < p.frequency) : Timing.ofParams p = .fixed p.frequency := by
  rw [Timing.ofParams, Params.fixedFrequency?, if_pos h]

/-! ## Runs -/

section
variable {α : Type} [Scalar α]

/-- No call changes the settings. -/
theorem sameSettings_serve (s : Session α) (k : Call α) : s.SameSettings (s.serve k).1 := by
  cases k with
  | handle e => exact sameSettings_handle s e
  | align stamp readings => exact sameSettings_handle s (.averaged stamp readings)
  | pollField now => exact ⟨rfl, rfl, rfl⟩

theorem sameSettings_after (c : Config α) (cs : List (Call α)) :
    (Session.new c).SameSettings (after c cs) := by
  induction cs using List.reverseRecOn with
  | nil => exact .refl _
  | append_singleton cs k ih =>
    rw [after_append_singleton]
    exact ih.trans (sameSettings_serve _ k)

end

/-! ## One event -/

section
variable {s : Session Float32} {f : Float32}

/-- With a fixed frequency, its inverse is due for every gyro sample, or nothing ever is. -/
theorem due_fixed_iff (h : s.timing = .fixed f) (stamp : UInt64) (dt : Float32) :
    s.Due s.lastGyro stamp dt ↔ 1.0 / f = dt ∧ Estimator.isDuration dt = true := by
  simp only [due_iff, interval?, h, Option.some.injEq]

theorem handle_gyro_of_fixed (h : s.timing = .fixed f)
    (hduration : Estimator.isDuration (1.0 / f) = true) (hrun : s.estimator.isRunning = true)
    {sender : UInt8} (haccepts : s.accepts sender = true) (stamp : UInt64) (rate : Vec3 Float32) :
    s.handle (.gyro sender stamp rate) =
      ({ s with lastGyro := some stamp, estimator := propagated s.estimator rate (1.0 / f) },
        [⟨(propagated s.estimator rate (1.0 / f)).body, stamp⟩]) := by
  rw [handle, if_pos haccepts]
  exact handleGyro_of_due hrun ((due_fixed_iff h stamp _).mpr ⟨rfl, hduration⟩) rate

/-- A running session publishes the accepted gyro samples, and nothing else. -/
theorem publishes_of_fixed (h : s.timing = .fixed f)
    (hduration : Estimator.isDuration (1.0 / f) = true) (hrun : s.estimator.isRunning = true)
    (e : Event Float32) : (s.handle e).2.map Publication.stamp = (s.gyroStamp? e).toList := by
  cases e with
  | gyro sender stamp rate =>
    by_cases haccepts : s.accepts sender = true
    · rw [handle_gyro_of_fixed h hduration hrun haccepts, gyroStamp?, if_pos haccepts]
      rfl
    · rw [handle, if_neg haccepts, gyroStamp?, if_neg haccepts]
      rfl
  | accel sender stamp force =>
    rw [handle]
    split <;> rfl
  | mag sender stamp field =>
    rw [handle]
    split <;> rfl
  | averaged stamp readings =>
    simp only [handle, align_of_running hrun]
    rfl

/-- Over every list of events. -/
theorem publishes_run_of_fixed (h : s.timing = .fixed f)
    (hduration : Estimator.isDuration (1.0 / f) = true) (hrun : s.estimator.isRunning = true)
    (es : List (Event Float32)) :
    (process.run s es).2.map Publication.stamp = es.filterMap s.gyroStamp? := by
  induction es generalizing s with
  | nil => rfl
  | cons e es ih =>
    have hsettings := sameSettings_handle s e
    have hrest := ih (hsettings.timing.trans h) ((served s (.handle e)).isRunning hrun)
    rw [hsettings.gyroStamp?] at hrest
    rw [Process.run_cons, List.map_append]
    refine (congrArg₂ (· ++ ·) (publishes_of_fixed h hduration hrun e) hrest).trans ?_
    cases hstamp : s.gyroStamp? e with
    | none => rw [List.filterMap_cons_none hstamp, Option.toList_none, List.nil_append]
    | some stamp =>
      rw [List.filterMap_cons_some hstamp, Option.toList_some, List.singleton_append]

/-- With an inverse that is no duration, a gyro sample is noted at most. -/
theorem handle_gyro_of_not_duration (h : s.timing = .fixed f)
    (hno : ¬ Estimator.isDuration (1.0 / f) = true) (sender : UInt8) (stamp : UInt64)
    (rate : Vec3 Float32) :
    (s.handle (.gyro sender stamp rate)).1.estimator = s.estimator ∧
      (s.handle (.gyro sender stamp rate)).2 = [] := by
  have hnothing : ¬ (s.estimator.isRunning = true ∧ ∃ dt, s.Due s.lastGyro stamp dt) := by
    rintro ⟨-, dt, hdue⟩
    obtain ⟨rfl, hduration⟩ := (due_fixed_iff h stamp dt).mp hdue
    exact hno hduration
  rw [handle]
  split
  · rw [handleGyro_of_not_due hnothing]
    exact ⟨rfl, rfl⟩
  · exact ⟨rfl, rfl⟩

end

/-! ## Every list of calls -/

/-- What a fixed propagation frequency `f` does to a new session. -/
structure FixedRate (c : Config Float32) (f : Float32) : Prop where
  /-- Above `2 ^ (-128)`, an accepted gyro sample of a running session is integrated over the
  inverse and published, after whatever calls and with whatever stamp. -/
  integrates : (2 : ℝ) ^ (-128 : ℤ) < toReal f → ∀ cs sender stamp rate,
    (after c cs).estimator.isRunning = true → (after c cs).accepts sender = true →
    (after c cs).handle (.gyro sender stamp rate) =
      ({ after c cs with
          lastGyro := some stamp
          estimator := propagated (after c cs).estimator rate (1.0 / f) },
        [⟨(propagated (after c cs).estimator rate (1.0 / f)).body, stamp⟩])
  /-- So the publications of a running session are its accepted gyro samples, one for one. -/
  publishes : (2 : ℝ) ^ (-128 : ℤ) < toReal f → ∀ cs es,
    (after c cs).estimator.isRunning = true →
    (process.run (after c cs) es).2.map Publication.stamp = es.filterMap (after c cs).gyroStamp?
  /-- Up to `2 ^ (-128)`, no gyro sample is ever integrated or published. -/
  skips : toReal f ≤ (2 : ℝ) ^ (-128 : ℤ) → ∀ cs sender stamp rate,
    ((after c cs).handle (.gyro sender stamp rate)).1.estimator = (after c cs).estimator ∧
      ((after c cs).handle (.gyro sender stamp rate)).2 = []
  /-- The session publishes its alignment at most. -/
  silent : toReal f ≤ (2 : ℝ) ^ (-128 : ℤ) → ∀ cs, (log c cs).length ≤ 1

/-- A session that integrates no gyro sample publishes once. -/
theorem length_log_le_one {cs : List (Call Float32)}
    (h : ∀ cs sender stamp rate, ((after c cs).handle (.gyro sender stamp rate)).2 = []) :
    (log c cs).length ≤ 1 := by
  induction cs using List.reverseRecOn with
  | nil => exact Nat.zero_le 1
  | append_singleton cs k ih =>
    obtain ⟨hlog, -, -⟩ | ⟨p, hlog, hsource, -, -, -⟩ := log_append_cases c cs k
    · rw [hlog]
      exact ih
    · -- Only an alignment publishes, and it would find a running estimator.
      have hnew : (after c cs).estimator.isRunning = false := by
        by_contra hrun
        rw [Bool.not_eq_false] at hrun
        have hserve : ((after c cs).serve k).2 = [] := by
          obtain ⟨readings, hattempt⟩ | ⟨sender, rate, rfl⟩ := hsource
          · rw [serve_attempt_of_running hrun hattempt]
          · exact h cs sender p.stamp rate
        rw [log_append_singleton, hserve, List.append_nil] at hlog
        exact List.cons_ne_nil _ _ (List.self_eq_append_right.mp hlog)
      have hempty : log c cs = [] := by
        by_contra hne
        rw [(isRunning_iff_log c cs).mpr hne] at hnew
        cases hnew
      rw [hlog, hempty]
      rfl

/-- **A validated frequency either integrates every gyro sample or none.** It integrates them if and
only if it is above `2 ^ (-128)`. -/
theorem fixedRate_of_validate (h : Config.ofParams p = .ok c) (hfrequency : 0.0 < p.frequency) :
    FixedRate c p.frequency := by
  obtain ⟨husable, rfl⟩ := Config.ofParams_eq_ok_iff.mp h
  have hfin := isFinite_frequency husable
  have hpos : 0 < toReal p.frequency := by
    rwa [lt_iff isFinite_zero hfin, toReal_zero] at hfrequency
  have hinverse := isDuration_inverse_iff hfin hpos
  have hfixed (cs : List (Call Float32)) :
      (after (Config.describedBy p) cs).timing = .fixed p.frequency := by
    rw [(sameSettings_after _ cs).timing, ← timing_ofParams hfrequency]
    rfl
  have hskips (hsmall : toReal p.frequency ≤ (2 : ℝ) ^ (-128 : ℤ)) (cs : List (Call Float32)) :=
    handle_gyro_of_not_duration (hfixed cs) (fun hduration =>
      absurd (hinverse.mp hduration) (not_lt.mpr hsmall))
  exact
    { integrates := fun hlarge cs sender stamp rate hrun haccepts =>
        handle_gyro_of_fixed (hfixed cs) (hinverse.mpr hlarge) hrun haccepts stamp rate
      publishes := fun hlarge cs es hrun =>
        publishes_run_of_fixed (hfixed cs) (hinverse.mpr hlarge) hrun es
      skips := hskips
      silent := fun hsmall cs =>
        length_log_le_one fun cs sender stamp rate => (hskips hsmall cs sender stamp rate).2 }

/-- An alignment at rest, right away. -/
def aligning : List (Call Float32) :=
  [.align 0 ⟨.zero, gravityReference, Estimator.defaultField⟩]

/-- At a hundred hertz, a clock that stands still does not matter. -/
theorem fixedRate_hundred_hertz :
    let p : Params := { Params.default with frequency := 100.0 }
    let c := Config.describedBy p
    Config.ofParams p = .ok c ∧ 0.0 < p.frequency ∧ (2 : ℝ) ^ (-128 : ℤ) < toReal p.frequency ∧
      (after c aligning).estimator.isRunning = true ∧
      (process.run (after c aligning) [.gyro 0 7 .zero, .gyro 0 7 .zero]).2.map Publication.stamp =
        [7, 7] := by
  intro p c
  have hconfig : Config.ofParams p = .ok c :=
    Config.ofParams_eq_ok_iff.mpr ⟨by decide +kernel, rfl⟩
  have hpositive : 0.0 < p.frequency := by decide +kernel
  have hlarge : (2 : ℝ) ^ (-128 : ℤ) < toReal p.frequency := by
    have hunpack : unpack 100.0 = .finite .positive 13107200 (-17) (by norm_num) := rfl
    change _ < toReal 100.0
    rw [toReal, hunpack]
    norm_num [value, signFactor]
  have hrun : (after c aligning).estimator.isRunning = true := by decide +kernel
  refine ⟨hconfig, hpositive, hlarge, hrun, ?_⟩
  refine ((fixedRate_of_validate hconfig hpositive).publishes hlarge aligning _ hrun).trans ?_
  decide +kernel

/-- A frequency of `1e-40` is validated, and its inverse overflows: the running session leaves a
gyro sample that it accepts unpublished. -/
theorem tiny_frequency_never_propagates :
    let p : Params := { Params.default with frequency := 1e-40 }
    let c := Config.describedBy p
    Config.ofParams p = .ok c ∧ 0.0 < p.frequency ∧ (after c aligning).estimator.isRunning = true ∧
      (after c aligning).accepts 0 = true ∧
      ((after c aligning).handle (.gyro 0 10000 .zero)).2 = [] := by
  refine ⟨Config.ofParams_eq_ok_iff.mpr ⟨by decide +kernel, rfl⟩, by decide +kernel,
    by decide +kernel, by decide +kernel, ?_⟩
  exact List.eq_nil_of_length_eq_zero (by decide +kernel)

end Session
end Attitude
