import Attitude.Proofs.Binary32.Monotone
import Attitude.Proofs.Intervals

/-!
# The gap test

With measured timing a gyro sample is integrated unless the gap since the noted stamp is too long. The
gap is a whole number of microseconds, and the test is made in rounded seconds: both the conversion
and the factor `1e-6` are inexact. The test is exact all the same. Every gap is a duration, a shorter
gap is never measured longer, and so a limit separates the gaps that are integrated from those that
are not; the default limit does so right after 500000 microseconds.

Conversion and product are monotone, so the two gaps next to the limit decide for all others.

## Main definitions

* `Session.Measures`: a session that is about to measure a gap
* `Session.Integrates`, `Session.Skips`: what it does with a gyro sample
* `Session.ExactGap`: what measured timing makes of the gap between two stamps

## Main results

* `Session.toReal_seconds_le`: a shorter gap is not measured longer
* `Session.exactGap_of_lt`
-/

namespace Attitude
open Binary32

namespace Session

/-! ## Gaps in seconds -/

theorem toReal_ofWord_le {m n : UInt64} (h : m ≤ n) :
    toReal m.toFloat32 ≤ toReal n.toFloat32 := by
  rcases (UInt64.le_iff_toNat_le.mp h).lt_or_eq with hlt | heq
  · have hm := (rounds_ofWord m).isNearest (ofWord_bounds m).1
    have hn := (rounds_ofWord n).isNearest (ofWord_bounds n).1
    exact hm.mono hn (by exact_mod_cast hlt)
  · rw [UInt64.toNat_inj.mp heq]

/-- **A shorter gap is not measured longer.** -/
theorem toReal_seconds_le {m n : UInt64} (h : m ≤ n) :
    toReal (seconds m : Float32) ≤ toReal (seconds n : Float32) := by
  have hmicro : 0 < toReal 1e-6 := lt_of_lt_of_le (by positivity) microsecond_bounds.1
  -- No gap at all stands apart: zero has two encodings, so its value does not fix its product.
  by_cases hm : m = 0
  · obtain ⟨-, hnonneg, -, -⟩ := ofWord_bounds n
    have hzero : toReal (seconds 0 : Float32) = 0 := rfl
    rw [hm, hzero]
    exact ((rounds_seconds n).isNearest (isFinite_seconds n)).nonneg (mul_nonneg hnonneg hmicro.le)
  · have hpos : 0 < toReal m.toFloat32 := one_pos.trans_le ((ofWord_bounds m).2.2.2 hm)
    exact toReal_mul_le_mul hmicro hpos (toReal_ofWord_le h) (isFinite_seconds m)
      (isFinite_seconds n)

/-- What exceeds a limit does so for every longer gap, whatever the limit is. -/
theorem lt_seconds_of_le {limit : Float32} {m n : UInt64} (h : m ≤ n)
    (hm : limit < seconds m) : limit < seconds n :=
  lt_of_lt_of_toReal_le (isFinite_seconds m) (isFinite_seconds n) hm (toReal_seconds_le h)

/-- Half a second is the last gap that does not exceed the default limit. -/
theorem defaultMaxGap_lt_seconds_iff (gap : UInt64) :
    (defaultMaxGap : Float32) < seconds gap ↔ 500000 < gap.toNat := by
  -- The two gaps next to the limit are computed; every other one is on their far side.
  have hlast : ¬ (defaultMaxGap : Float32) < seconds 500000 := by decide +kernel
  have hnext : (defaultMaxGap : Float32) < seconds 500001 := by decide +kernel
  constructor
  · intro hlt
    by_contra hle
    have hle : gap ≤ 500000 := UInt64.le_iff_toNat_le.mpr (not_lt.mp hle)
    exact hlast (lt_seconds_of_le hle hlt)
  · intro hlt
    have hge : 500001 ≤ gap := UInt64.le_iff_toNat_le.mpr hlt
    exact lt_seconds_of_le hge hnext

/-! ## The test -/

/-- A running session with measured timing that listens to a sender and has noted a stamp. -/
structure Measures (s : Session Float32) (last : UInt64) (sender : UInt8) : Prop where
  running : s.estimator.isRunning = true
  timing : s.timing = .measured
  accepts : s.accepts sender = true
  noted : s.lastGyro = some last

/-- A gyro sample is integrated over the gap since a stamp, and published. -/
def Integrates (s : Session Float32) (last : UInt64) (sender : UInt8) (stamp : UInt64)
    (rate : Vec3 Float32) : Prop :=
  s.handle (.gyro sender stamp rate) =
    ({ s with
        lastGyro := some stamp
        estimator := propagated s.estimator rate (seconds (stamp - last)) },
      [⟨(propagated s.estimator rate (seconds (stamp - last))).body, stamp⟩])

/-- A gyro sample is noted, and nothing else. -/
def Skips (s : Session Float32) (sender : UInt8) (stamp : UInt64) (rate : Vec3 Float32) : Prop :=
  s.handle (.gyro sender stamp rate) = ({ s with lastGyro := some stamp }, [])

section
variable {s : Session Float32} {last stamp : UInt64} {sender : UInt8} {rate : Vec3 Float32}

theorem Integrates.not_skips (h : s.Integrates last sender stamp rate) :
    ¬ s.Skips sender stamp rate := by
  intro hskips
  have hpublished := congrArg Prod.snd (h.symm.trans hskips)
  exact List.cons_ne_nil _ _ hpublished

/-- The limit decides, and nothing else does. -/
theorem Measures.decides (h : s.Measures last sender) (hlt : last < stamp) (rate : Vec3 Float32) :
    if s.maxGap < seconds (stamp - last) then s.Skips sender stamp rate
    else s.Integrates last sender stamp rate := by
  split
  · rename_i hfar
    have hnone : ¬ (s.estimator.isRunning = true ∧ ∃ dt, s.Due s.lastGyro stamp dt) := by
      rintro ⟨-, dt, hdue⟩
      cases hdue with
      | fixed frequency timing => cases h.timing.symm.trans timing
      | measured previous timing latest advance interval near =>
        obtain rfl := Option.some.inj (h.noted.symm.trans latest)
        rw [interval] at near
        exact near hfar
    rw [Skips, handle, if_pos h.accepts, handleGyro_of_not_due hnone]
  · rename_i hnear
    have hdue : s.Due s.lastGyro stamp (seconds (stamp - last)) :=
      .measured last h.timing h.noted hlt rfl hnear
    rw [Integrates, handle, if_pos h.accepts, handleGyro_of_due h.running hdue]

theorem Measures.integrates_iff (h : s.Measures last sender) (hlt : last < stamp) :
    s.Integrates last sender stamp rate ↔ ¬ s.maxGap < seconds (stamp - last) := by
  have hdecides := h.decides hlt rate
  by_cases hfar : s.maxGap < seconds (stamp - last)
  · rw [if_pos hfar] at hdecides
    exact iff_of_false (fun hintegrates => hintegrates.not_skips hdecides) (not_not_intro hfar)
  · rw [if_neg hfar] at hdecides
    exact iff_of_true hdecides hfar

end

/-- What measured timing makes of the gap between a noted stamp and a later one. -/
structure ExactGap (last stamp : UInt64) : Prop where
  /-- In seconds it is a finite number above zero. -/
  finite : (seconds (stamp - last) : Float32).isFinite = true
  positive : 0.0 < (seconds (stamp - last) : Float32)
  /-- So no estimator refuses to propagate over it. -/
  propagates : ∀ (f : Estimator Float32) rate, f.propagate? rate (seconds (stamp - last)) =
    some (propagated f rate (seconds (stamp - last)))
  /-- A shorter gap is not measured longer. -/
  mono : ∀ gap, gap ≤ stamp - last → (seconds gap : Float32) ≤ seconds (stamp - last)
  /-- Whether a sample is integrated is decided by the limit alone. -/
  decides : ∀ s sender rate, Measures s last sender →
    if s.maxGap < seconds (stamp - last) then s.Skips sender stamp rate
    else s.Integrates last sender stamp rate
  /-- With the same limit, whatever it is, a gap is integrated if a longer one is. -/
  downward : ∀ s sender rate, Measures s last sender → s.Integrates last sender stamp rate →
    ∀ t last' sender' stamp' rate', Measures t last' sender' → t.maxGap = s.maxGap →
      last' < stamp' → stamp' - last' ≤ stamp - last → t.Integrates last' sender' stamp' rate'
  /-- With the default limit, a gap is integrated up to half a second. -/
  default : ∀ s sender rate, Measures s last sender → s.maxGap = defaultMaxGap →
    (s.Integrates last sender stamp rate ↔ stamp.toNat - last.toNat ≤ 500000)

/-- **The gap test is exact on microseconds.** -/
theorem exactGap_of_lt {last stamp : UInt64} (hlt : last < stamp) : ExactGap last stamp := by
  have hgap := toNat_sub_stamp hlt
  have hduration := isDuration_seconds_sub hlt
  obtain ⟨hfin, hpos⟩ := (Estimator.isDuration_iff _).mp hduration
  exact
    { finite := hfin
      positive := by rwa [lt_iff isFinite_zero hfin, toReal_zero]
      propagates := fun f rate => if_pos hduration
      mono := by
        intro gap hle
        rw [le_iff (isFinite_seconds gap) hfin]
        exact toReal_seconds_le hle
      decides := fun s sender rate h => h.decides hlt rate
      downward := by
        intro s sender rate hs hintegrates t last' sender' stamp' rate' ht hlimit hlt' hle
        rw [hs.integrates_iff hlt] at hintegrates
        rw [ht.integrates_iff hlt', hlimit]
        exact fun hfar => hintegrates (lt_seconds_of_le hle hfar)
      default := by
        intro s sender rate hs hlimit
        rw [hs.integrates_iff hlt, hlimit, defaultMaxGap_lt_seconds_iff]
        omega }

/-- The session at rest, once it has noted the stamp of a gyro sample. -/
def notedAtRest : Session Float32 := (atRest.handle (.gyro 0 7 .zero)).1

theorem measures_notedAtRest : notedAtRest.Measures 7 0 where
  running := (served atRest (.handle _)).isRunning isRunning_atRest
  timing := (sameSettings_handle _ _).timing.trans timing_atRest
  accepts := by decide +kernel
  noted := by decide +kernel

theorem maxGap_notedAtRest : notedAtRest.maxGap = defaultMaxGap :=
  (sameSettings_handle _ _).maxGap.trans (sameSettings_handle _ _).maxGap

/-- A gap of half a second is integrated, and one that is a microsecond longer is skipped. -/
theorem exactGap_of_lt_halfSecond : (7 : UInt64) < 500007 ∧ (7 : UInt64) < 500008 ∧
    notedAtRest.Integrates 7 0 500007 .zero ∧ notedAtRest.Skips 0 500008 .zero := by
  have hlast : (7 : UInt64) < 500007 := by decide
  have hnext : (7 : UInt64) < 500008 := by decide
  have hmeasures := measures_notedAtRest
  have hlimit := maxGap_notedAtRest
  refine ⟨hlast, hnext, ?_, ?_⟩
  · exact ((exactGap_of_lt hlast).default _ 0 .zero hmeasures hlimit).mpr (by decide)
  · have hdecides := (exactGap_of_lt hnext).decides _ 0 .zero hmeasures
    have hfar : notedAtRest.maxGap < seconds (500008 - 7) := by
      rw [hlimit, defaultMaxGap_lt_seconds_iff]
      decide
    rwa [if_pos hfar] at hdecides

end Session
end Attitude
