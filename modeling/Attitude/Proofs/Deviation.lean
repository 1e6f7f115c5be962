import Attitude.Proofs.Samples

/-!
# The excess of the specific force

Every specific force, accepted or not, moves the smoothed excess over gravity, and the excess is the
noise of all later ones. The norm of the sample enters unchecked. A norm that overflows or is no
number leaves an excess that is not finite, and no later sample brings it back, since smoothing
multiplies the past: from then on the noise is not finite and every specific force is refused.

A norm that is finite is at most `2 ^ 64`, the root of the largest magnitude, and smoothing then has
room to spare.
-/

namespace Attitude
open Binary32

namespace Vec3
variable {v : Vec3 Float32}

/-- No component is beyond `2 ^ 62`. -/
def IsModerate (v : Vec3 Float32) : Prop := ∀ c ∈ v.toList, Within c (2 ^ 62 : ℕ)

/-- Three squares of this magnitude do not overflow. -/
theorem isFinite_norm_of_within (h : ∀ c ∈ v.toList, Within c ((1025 : ℕ) * 2 ^ (53 : ℤ))) :
    v.norm.isFinite = true := by
  have hsq : ∀ c ∈ v.toList, Within (c * c) ((1050625 : ℕ) * 2 ^ (106 : ℤ)) := fun c hc =>
    (h c hc).mul (h c hc) (onGrid_natCast_mul (by norm_num) (by norm_num)) (by norm_num)
      (by norm_num)
  have hxy : Within (v.x * v.x + v.y * v.y) ((2101250 : ℕ) * 2 ^ (106 : ℤ)) :=
    (hsq v.x (by simp [toList])).add (hsq v.y (by simp [toList]))
      (onGrid_natCast_mul (by norm_num) (by norm_num)) (by norm_num) (by norm_num)
  have hnormSq : Within v.normSq ((3151875 : ℕ) * 2 ^ (106 : ℤ)) :=
    hxy.add (hsq v.z (by simp [toList])) (onGrid_natCast_mul (by norm_num) (by norm_num))
      (by norm_num) (by norm_num)
  have hnonneg : NotNegative v.normSq :=
    notNegative_add (notNegative_add (notNegative_mul_self _) (notNegative_mul_self _))
      (notNegative_mul_self _)
  exact (Within.sqrt hnormSq.finite hnonneg.value).finite

theorem isFinite_norm_of_isModerate (h : v.IsModerate) : v.norm.isFinite = true :=
  isFinite_norm_of_within fun c hc => ⟨(h c hc).finite, (h c hc).abs_le.trans (by norm_num)⟩

theorem within_norm (h : v.norm.isFinite = true) : Within v.norm (2 ^ (64 : ℤ)) := by
  obtain ⟨hfin, hnonneg⟩ := isFinite_of_sqrt h
  exact .sqrt hfin hnonneg

end Vec3

namespace Estimator
variable {f : Estimator Float32}

/-! ## One sample -/

theorem within_deviationWeight : Within deviationWeight (15 * 2 ^ (-4 : ℤ)) := by
  have hunpack : unpack deviationWeight = .finite .positive 15435039 (-24) (by norm_num) := rfl
  exact .of_unpack hunpack (by norm_num)

theorem within_gravity : Within gravity 16 := by
  have hunpack : unpack gravity = .finite .positive 10286531 (-20) (by norm_num) := rfl
  exact .of_unpack hunpack (by norm_num)

theorem within_presentWeight : Within (1.0 - deviationWeight) (2 ^ (1 : ℤ)) := by
  have hunpack : unpack 1.0 = .finite .positive 8388608 (-23) (by norm_num) := rfl
  have hone : Within 1.0 1 := .of_unpack hunpack (by norm_num)
  exact hone.sub within_deviationWeight (onGrid_two_zpow (by norm_num)) (by norm_num) (by norm_num)

/-- The past keeps at most fifteen parts of sixteen of the largest magnitude, and the present adds
little to it. -/
theorem isFinite_nextDeviation {force : Vec3 Float32} (hf : f.deviation.isFinite = true)
    (hnorm : force.norm.isFinite = true) : (f.nextDeviation force).isFinite = true := by
  have hdeviation : Within f.deviation (2 ^ (128 : ℤ)) :=
    ⟨hf, by exact_mod_cast (abs_toReal_lt f.deviation).le⟩
  have hpast : Within (deviationWeight * f.deviation) ((15 : ℕ) * 2 ^ (124 : ℤ)) :=
    within_deviationWeight.mul hdeviation (onGrid_natCast_mul (by norm_num) (by norm_num))
      (by norm_num) (by norm_num)
  have hexcess : Within (force.norm - gravity) (2 ^ (65 : ℤ)) :=
    (Vec3.within_norm hnorm).sub within_gravity (onGrid_two_zpow (by norm_num)) (by norm_num)
      (by norm_num)
  have hpresent : Within ((1.0 - deviationWeight) * (force.norm - gravity)) (2 ^ (66 : ℤ)) :=
    within_presentWeight.mul hexcess (onGrid_two_zpow (by norm_num)) (by norm_num) (by norm_num)
  exact (hpast.add hpresent (onGrid_natCast_mul (m := 31) (e := 123) (by norm_num) (by norm_num))
    (by norm_num) (by norm_num)).finite

/-! ## Requests -/

/-- The norm of a specific force is finite; of the other requests nothing is asked. -/
def Request.IsMeasurable : Request Float32 → Prop
  | .correctGravity force => force.norm.isFinite = true
  | _ => True

theorem isFinite_deviation_serve_iff (r : Request Float32) :
    (f.serve r).1.deviation.isFinite = true ↔ f.deviation.isFinite = true ∧ r.IsMeasurable := by
  cases r with
  | align readings =>
    rw [(f.alignKeeps_serve readings).deviation]
    exact (and_iff_left trivial).symm
  | propagate gyro dt =>
    have hkept : (f.serve (.propagate gyro dt)).1.deviation = f.deviation := by
      simp only [serve, propagate?]
      split <;> rfl
    rw [hkept]
    exact (and_iff_left trivial).symm
  | correctGravity force =>
    rw [serve, deviation_correctGravity]
    exact ⟨isFinite_of_nextDeviation, fun h => isFinite_nextDeviation h.1 h.2⟩
  | correctField field =>
    rw [serve, correctField, deviation_correct]
    exact (and_iff_left trivial).symm

/-- The excess is finite after a run when it was so before and every norm is finite. -/
theorem isFinite_deviation_run_iff (rs : List (Request Float32)) :
    (process.run f rs).1.deviation.isFinite = true ↔
      f.deviation.isFinite = true ∧ ∀ r ∈ rs, r.IsMeasurable := by
  induction rs generalizing f with
  | nil => simp [Process.run_nil]
  | cons r rs ih =>
    rw [Process.run_cons, List.forall_mem_cons, ← and_assoc, ← isFinite_deviation_serve_iff r]
    exact ih

/-- **When the excess recovers from a sample.** A finite excess stays finite if and only if the norm
of the sample is finite, as it is when no component is beyond `2 ^ 62`; then it stays so over all
requests whose norms are finite. Otherwise the sample is refused, and so is every specific force
after it, over all requests. -/
theorem recovers_iff (f : Estimator Float32) (hf : f.deviation.isFinite = true)
    (force : Vec3 Float32) :
    ((f.correctGravity force).1.deviation.isFinite = true ↔ force.norm.isFinite = true) ∧
    (force.IsModerate → force.norm.isFinite = true) ∧
    (force.norm.isFinite = true → ∀ rs, (∀ r ∈ rs, r.IsMeasurable) →
      (process.run (f.correctGravity force).1 rs).1.deviation.isFinite = true) ∧
    (force.norm.isFinite = false → (f.correctGravity force).2 = false ∧
      ∀ rs, (process.run (f.correctGravity force).1 rs).1.deviation.isFinite = false ∧
        ∀ other, ((process.run (f.correctGravity force).1 rs).1.correctGravity other).2 = false) := by
  have hstep : (f.correctGravity force).1.deviation.isFinite = true ↔ force.norm.isFinite = true :=
    (isFinite_deviation_serve_iff (.correctGravity force)).trans (and_iff_right hf)
  refine ⟨hstep, Vec3.isFinite_norm_of_isModerate, ?_, ?_⟩
  · intro hnorm rs hrs
    exact (isFinite_deviation_run_iff rs).mpr ⟨hstep.mpr hnorm, hrs⟩
  · intro hnorm
    have hrefused : ∀ {g : Estimator Float32} {other : Vec3 Float32},
        ¬ (g.deviation.isFinite = true ∧ other.norm.isFinite = true) →
        (g.correctGravity other).2 = false := by
      intro g other h
      rw [← Bool.not_eq_true]
      intro haccepted
      exact h (isFinite_of_nextDeviation (isFinite_nextDeviation_of_accepted haccepted))
    rw [← Bool.not_eq_true] at hnorm
    refine ⟨hrefused fun h => hnorm h.2, ?_⟩
    intro rs
    have hrun : ¬ (process.run (f.correctGravity force).1 rs).1.deviation.isFinite = true :=
      fun h => hnorm (hstep.mp ((isFinite_deviation_run_iff rs).mp h).1)
    exact ⟨Bool.not_eq_true _ ▸ hrun, fun other => hrefused fun h => hrun h.1⟩

/-- A specific force that is no number, at rest. -/
theorem recovers_iff_noNumber : atRest.deviation.isFinite = true ∧
    noNumber.norm.isFinite = false ∧ (atRest.correctGravity noNumber).2 = false ∧
    ((atRest.correctGravity noNumber).1.correctGravity gravityReference).2 = false := by
  have hfinite : atRest.deviation.isFinite = true := by decide +kernel
  have hnorm : noNumber.norm.isFinite = false := by decide +kernel
  obtain ⟨hrefused, hlater⟩ := (recovers_iff atRest hfinite noNumber).2.2.2 hnorm
  have hnext := (hlater []).2 gravityReference
  simp only [Process.run_nil] at hnext
  exact ⟨hfinite, hnorm, hrefused, hnext⟩

/-- One specific force that is no number is refused, and so is gravity after it; without it gravity
is accepted. -/
theorem refused_force_outlasts :
    atRest.isRunning = true ∧ atRest.isHealthy = true ∧ atRest.deviation.isFinite = true ∧
    (atRest.correctGravity noNumber).2 = false ∧
    (atRest.correctGravity noNumber).1.deviation.isFinite = false ∧
    ((atRest.correctGravity noNumber).1.correctGravity gravityReference).2 = false ∧
    (atRest.correctGravity gravityReference).2 = true := by
  decide +kernel

end Estimator
end Attitude
