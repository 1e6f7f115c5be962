import Attitude.Proofs.Duration
import Attitude.Proofs.Process
import Attitude.Proofs.Request

/-!
# When a session publishes

A session publishes on two kinds of events: on averages that align it, and on accepted gyro samples
that a running estimator has an interval for. The interval depends on the whole history, through the
stamp of the latest accepted gyro sample; that sample counts whether it was integrated or not, and
whether it came before or after the alignment.

The invariant of a run ties the noted stamp to the history: `run_history`. What one event does is
then a matter of one step, `OnSchedule`.
-/

namespace Attitude
namespace Session

/-! ## The history of gyro samples -/

section
variable {α : Type}

/-- The stamp of an event that is an accepted gyro sample. -/
def gyroStamp? (s : Session α) : Event α → Option UInt64
  | .gyro sender stamp _ => if s.accepts sender then some stamp else none
  | _ => none

/-- The stamp of the latest accepted gyro sample after some more events. -/
def latestGyro (s : Session α) (es : List (Event α)) : Option UInt64 :=
  (es.filterMap s.gyroStamp?).getLast?.or s.lastGyro

/-- Two sessions listen to the same senders and measure intervals in the same way. -/
structure SameSettings (s t : Session α) : Prop where
  sender : t.sender = s.sender
  timing : t.timing = s.timing
  maxGap : t.maxGap = s.maxGap

theorem SameSettings.refl (s : Session α) : s.SameSettings s := ⟨rfl, rfl, rfl⟩

theorem SameSettings.trans {s t u : Session α} (h : s.SameSettings t) (h' : t.SameSettings u) :
    s.SameSettings u :=
  ⟨h'.sender.trans h.sender, h'.timing.trans h.timing, h'.maxGap.trans h.maxGap⟩

theorem SameSettings.gyroStamp? {s t : Session α} (h : s.SameSettings t) :
    t.gyroStamp? = s.gyroStamp? := by
  have haccepts : ∀ sender, t.accepts sender = s.accepts sender := by
    intro sender
    rw [accepts, accepts, h.sender]
  funext e
  cases e with
  | gyro sender stamp rate => simp only [Session.gyroStamp?, haccepts]
  | _ => rfl

theorem latestGyro_cons (s : Session α) (e : Event α) (es : List (Event α)) :
    s.latestGyro (e :: es) =
      (es.filterMap s.gyroStamp?).getLast?.or ((s.gyroStamp? e).or s.lastGyro) := by
  rw [latestGyro]
  cases h : s.gyroStamp? e with
  | none => simp [h]
  | some stamp => cases hs : (es.filterMap s.gyroStamp?).getLast? <;>
      simp [h, hs, List.getLast?_cons]

end

section
variable {α : Type} [Scalar α]

/-- No event changes the settings. -/
theorem sameSettings_handle (s : Session α) (e : Event α) : s.SameSettings (s.handle e).1 := by
  cases e with
  | gyro sender stamp rate =>
    simp only [handle, handleGyro]
    repeat' split
    all_goals exact ⟨rfl, rfl, rfl⟩
  | accel sender stamp force =>
    simp only [handle, handleAccel]
    repeat' split
    all_goals exact ⟨rfl, rfl, rfl⟩
  | mag sender stamp field =>
    simp only [handle, handleMag]
    repeat' split
    all_goals exact ⟨rfl, rfl, rfl⟩
  | averaged stamp readings =>
    simp only [handle, align]
    cases s.estimator.align readings <;> exact ⟨rfl, rfl, rfl⟩

/-- An accepted gyro sample is noted, and nothing else is. -/
theorem lastGyro_handle (s : Session α) (e : Event α) :
    (s.handle e).1.lastGyro = (s.gyroStamp? e).or s.lastGyro := by
  cases e with
  | gyro sender stamp rate =>
    by_cases haccepts : s.accepts sender = true
    · simp only [handle, handleGyro, gyroStamp?, haccepts, if_true]
      repeat' split
      all_goals rfl
    · simp [handle, gyroStamp?, haccepts]
  | accel sender stamp force =>
    simp only [handle, handleAccel, gyroStamp?]
    repeat' split
    all_goals rfl
  | mag sender stamp field =>
    simp only [handle, handleMag, gyroStamp?]
    repeat' split
    all_goals rfl
  | averaged stamp readings =>
    simp only [handle, align, gyroStamp?]
    cases s.estimator.align readings <;> rfl

/-- The invariant of a run: the settings stay, and the noted stamp is that of the latest accepted
gyro sample. -/
theorem run_history (s : Session α) (es : List (Event α)) :
    s.SameSettings (process.run s es).1 ∧ (process.run s es).1.lastGyro = s.latestGyro es := by
  induction es generalizing s with
  | nil => exact ⟨.refl s, rfl⟩
  | cons e es ih =>
    obtain ⟨hsettings, hlast⟩ := ih (s.handle e).1
    have hstep := sameSettings_handle s e
    rw [Process.run_cons]
    refine ⟨hstep.trans hsettings, ?_⟩
    refine hlast.trans ?_
    rw [latestGyro_cons, latestGyro, hstep.gyroStamp?, lastGyro_handle]

end

/-! ## One event -/

/-- The interval `dt` is to be integrated for a gyro sample with a stamp, when the latest accepted
gyro sample had the stamp `last`. -/
inductive Due (s : Session Float32) (last : Option UInt64) (stamp : UInt64) (dt : Float32) : Prop
  | fixed (frequency : Float32) (timing : s.timing = .fixed frequency)
      (interval : dt = 1.0 / frequency) (finite : dt.isFinite = true) (positive : 0.0 < dt)
  | measured (previous : UInt64) (timing : s.timing = .measured) (latest : last = some previous)
      (advance : previous < stamp) (interval : dt = seconds (stamp - previous))
      (near : ¬ s.maxGap < dt)

/-- The difference of two stamps in order does not wrap. -/
theorem toNat_sub_stamp {previous stamp : UInt64} (h : previous < stamp) :
    (stamp - previous).toNat + previous.toNat = stamp.toNat := by
  have hle : previous ≤ stamp := UInt64.le_of_lt h
  have hle' : previous.toNat ≤ stamp.toNat := UInt64.le_iff_toNat_le.mp hle
  rw [UInt64.toNat_sub_of_le _ _ hle]
  omega

/-- What a later stamp is ahead by is a duration. -/
theorem isDuration_seconds_sub {previous stamp : UInt64} (h : previous < stamp) :
    Estimator.isDuration (seconds (stamp - previous) : Float32) = true := by
  refine isDuration_seconds fun hzero => ?_
  have hdiff := toNat_sub_stamp h
  have hlt := UInt64.lt_iff_toNat_lt.mp h
  rw [hzero, UInt64.toNat_zero] at hdiff
  omega

/-- An interval is due when the session has one for the sample and it is a duration. A measured
interval always is. -/
theorem due_iff (s : Session Float32) (stamp : UInt64) (dt : Float32) :
    s.Due s.lastGyro stamp dt ↔ s.interval? stamp = some dt ∧ Estimator.isDuration dt = true := by
  have hpos : dt.isFinite = true → (0.0 < dt ↔ 0 < Binary32.toReal dt) := by
    intro hfin
    rw [Binary32.lt_iff Binary32.isFinite_zero hfin, Binary32.toReal_zero]
  constructor
  · intro hdue
    cases hdue with
    | fixed frequency timing interval finite positive =>
      refine ⟨?_, (Estimator.isDuration_iff dt).mpr ⟨finite, (hpos finite).mp positive⟩⟩
      simp only [interval?, timing]
      rw [interval]
    | measured previous timing latest advance interval near =>
      refine ⟨?_, by rw [interval]; exact isDuration_seconds_sub advance⟩
      simp only [interval?, timing, latest, if_pos advance, ← interval, if_neg near]
  · rintro ⟨hinterval, hduration⟩
    rw [interval?] at hinterval
    split at hinterval
    · rename_i frequency timing
      have hvalue : dt = 1.0 / frequency := (Option.some.inj hinterval).symm
      obtain ⟨finite, positive⟩ := (Estimator.isDuration_iff dt).mp hduration
      exact .fixed frequency timing hvalue finite ((hpos finite).mpr positive)
    · rename_i timing
      split at hinterval
      · cases hinterval
      · rename_i previous latest
        split at hinterval
        · rename_i advance
          dsimp only at hinterval
          split at hinterval
          · cases hinterval
          · rename_i near
            have hvalue : seconds (stamp - previous) = dt := Option.some.inj hinterval
            rw [hvalue] at near
            exact .measured previous timing latest advance hvalue.symm near
        · cases hinterval

/-- The estimator after one propagation: the reference turns, the covariance moves along and the
body is projected. -/
def propagated {α : Type} [Scalar α] (f : Estimator α) (rate : Vec3 α) (dt : α) : Estimator α :=
  ((f.propagateReference rate dt).propagateCovariance dt).project

theorem handleGyro_of_due {s : Session Float32} {stamp : UInt64} {dt : Float32}
    (hrun : s.estimator.isRunning = true) (hdue : s.Due s.lastGyro stamp dt)
    (rate : Vec3 Float32) : s.handleGyro stamp rate =
      ({ s with lastGyro := some stamp, estimator := propagated s.estimator rate dt },
        [⟨(propagated s.estimator rate dt).body, stamp⟩]) := by
  obtain ⟨hinterval, hduration⟩ := (due_iff s stamp dt).mp hdue
  have hpropagate : (s.interval? stamp).bind (s.estimator.propagate? rate) =
      some (propagated s.estimator rate dt) := by
    rw [hinterval, Option.bind_some, Estimator.propagate?, if_pos hduration]
    rfl
  rw [handleGyro]
  rw [if_pos hrun, hpropagate]
  rfl

theorem handleGyro_of_not_due {s : Session Float32} {stamp : UInt64}
    (h : ¬ (s.estimator.isRunning = true ∧ ∃ dt, s.Due s.lastGyro stamp dt))
    (rate : Vec3 Float32) : s.handleGyro stamp rate = ({ s with lastGyro := some stamp }, []) := by
  rw [handleGyro]
  by_cases hrun : s.estimator.isRunning = true
  · have hnone : (s.interval? stamp).bind (s.estimator.propagate? rate) = none := by
      cases hinterval : s.interval? stamp with
      | none => rfl
      | some dt =>
        rw [Option.bind_some, Estimator.propagate?, if_neg]
        intro hduration
        exact h ⟨hrun, dt, (due_iff s stamp dt).mpr ⟨hinterval, hduration⟩⟩
    rw [if_pos hrun, hnone]
  · rw [if_neg hrun]

/-- What a session does with one event, when the latest accepted gyro sample had the stamp
`last`. -/
structure OnSchedule (s : Session Float32) (last : Option UInt64) (e : Event Float32) : Prop where
  /-- The events that lead to a publication. -/
  publishes_iff : (s.handle e).2 ≠ [] ↔
    (∃ stamp readings f, e = .averaged stamp readings ∧ s.estimator.isRunning = false ∧
      s.estimator.align readings = .ok f) ∨
    (∃ sender stamp rate dt, e = .gyro sender stamp rate ∧ s.accepts sender = true ∧
      s.estimator.isRunning = true ∧ s.Due last stamp dt)
  /-- A gyro sample with a due interval is integrated once, over that interval. -/
  integrates : ∀ sender stamp rate dt, e = .gyro sender stamp rate → s.accepts sender = true →
    s.estimator.isRunning = true → s.Due last stamp dt →
    s.handle e = ({ s with lastGyro := some stamp, estimator := propagated s.estimator rate dt },
      [⟨(propagated s.estimator rate dt).body, stamp⟩])
  /-- Every other gyro sample leaves the estimator alone. -/
  skips : ∀ sender stamp rate, e = .gyro sender stamp rate →
    ¬ (s.accepts sender = true ∧ s.estimator.isRunning = true ∧ ∃ dt, s.Due last stamp dt) →
    (s.handle e).1.estimator = s.estimator ∧ (s.handle e).2 = []
  /-- A measured interval is the difference of stamps in order, or is not computed at all. -/
  measures : ∀ previous stamp, s.timing = .measured → last = some previous →
    (¬ previous < stamp ∧ s.interval? stamp = none) ∨
    (previous.toNat < stamp.toNat ∧
      (stamp - previous).toNat + previous.toNat = stamp.toNat ∧
      s.interval? stamp = if s.maxGap < seconds (stamp - previous) then none
        else some (seconds (stamp - previous)))

/-- An accepted gyro sample with a due interval is integrated over it and published. -/
theorem handle_gyro_of_due {s : Session Float32} {sender : UInt8} {stamp : UInt64} {dt : Float32}
    (haccepts : s.accepts sender = true) (hrun : s.estimator.isRunning = true)
    (hdue : s.Due s.lastGyro stamp dt) (rate : Vec3 Float32) :
    s.handle (.gyro sender stamp rate) =
      ({ s with lastGyro := some stamp, estimator := propagated s.estimator rate dt },
        [⟨(propagated s.estimator rate dt).body, stamp⟩]) := by
  rw [handle, if_pos haccepts, handleGyro_of_due hrun hdue]

/-- Any other gyro sample leaves the estimator alone and publishes nothing. -/
theorem handle_gyro_of_not_due {s : Session Float32} {sender : UInt8} {stamp : UInt64}
    (h : ¬ (s.accepts sender = true ∧ s.estimator.isRunning = true ∧
      ∃ dt, s.Due s.lastGyro stamp dt)) (rate : Vec3 Float32) :
    (s.handle (.gyro sender stamp rate)).1.estimator = s.estimator ∧
      (s.handle (.gyro sender stamp rate)).2 = [] := by
  by_cases haccepts : s.accepts sender = true
  · rw [handle, if_pos haccepts, handleGyro_of_not_due (fun h' => h ⟨haccepts, h'⟩)]
    exact ⟨rfl, rfl⟩
  · rw [handle, if_neg haccepts]
    exact ⟨rfl, rfl⟩

theorem handle_gyro_ne_nil_iff (s : Session Float32) (sender : UInt8) (stamp : UInt64)
    (rate : Vec3 Float32) : (s.handle (.gyro sender stamp rate)).2 ≠ [] ↔
      s.accepts sender = true ∧ s.estimator.isRunning = true ∧
        ∃ dt, s.Due s.lastGyro stamp dt := by
  constructor
  · intro hne
    by_contra h
    exact hne (handle_gyro_of_not_due h rate).2
  · intro h
    obtain ⟨haccepts, hrun, dt, hdue⟩ := h
    rw [handle_gyro_of_due haccepts hrun hdue]
    exact List.cons_ne_nil _ _

theorem handle_accel_eq_nil (s : Session Float32) (sender : UInt8) (stamp : UInt64)
    (force : Vec3 Float32) : (s.handle (.accel sender stamp force)).2 = [] := by
  rw [handle]
  split <;> rfl

theorem handle_mag_eq_nil (s : Session Float32) (sender : UInt8) (stamp : UInt64)
    (field : Vec3 Float32) : (s.handle (.mag sender stamp field)).2 = [] := by
  rw [handle]
  split <;> rfl

/-- Averages publish exactly when they align the estimator, which is not running then. -/
theorem handle_averaged_ne_nil_iff (s : Session Float32) (stamp : UInt64)
    (readings : Readings Float32) : (s.handle (.averaged stamp readings)).2 ≠ [] ↔
      s.estimator.isRunning = false ∧ ∃ f, s.estimator.align readings = .ok f := by
  cases halign : s.estimator.align readings with
  | error why => simp [handle, align, halign]
  | ok f => simp [handle, align, halign, Estimator.isRunning_of_align halign]

theorem onSchedule_handle (s : Session Float32) (e : Event Float32) :
    s.OnSchedule s.lastGyro e where
  publishes_iff := by
    cases e with
    | gyro sender stamp rate => simp [handle_gyro_ne_nil_iff]
    | accel sender stamp force => simp [handle_accel_eq_nil]
    | mag sender stamp field => simp [handle_mag_eq_nil]
    | averaged stamp readings => simp [handle_averaged_ne_nil_iff]
  integrates := by
    intro sender stamp rate dt he haccepts hrun hdue
    rw [he, handle_gyro_of_due haccepts hrun hdue]
  skips := by
    intro sender stamp rate he h
    rw [he]
    exact handle_gyro_of_not_due h rate
  measures := by
    intro previous stamp timing latest
    by_cases hlt : previous < stamp
    · right
      refine ⟨UInt64.lt_iff_toNat_lt.mp hlt, toNat_sub_stamp hlt, ?_⟩
      simp only [interval?, timing, latest, if_pos hlt]
    · left
      refine ⟨hlt, ?_⟩
      simp only [interval?, timing, latest, if_neg hlt]

/-- **The schedule of a session.** At every position of every list of events, the session has the
settings it began with, what the event publishes stands between what the others publish, and the
event is handled on schedule, by the stamp of the latest accepted gyro sample before it. -/
theorem handles_on_schedule (s : Session Float32) (es : List (Event Float32)) (k : ℕ)
    (hk : k < es.length) :
    s.SameSettings (process.run s (es.take k)).1 ∧
    (process.run s es).2 = (process.run s (es.take k)).2
      ++ ((process.run s (es.take k)).1.handle es[k]).2
      ++ (process.run ((process.run s (es.take k)).1.handle es[k]).1 (es.drop (k + 1))).2 ∧
    (process.run s (es.take k)).1.OnSchedule (s.latestGyro (es.take k)) es[k] := by
  obtain ⟨hsettings, hlast⟩ := run_history s (es.take k)
  refine ⟨hsettings, Process.run_outputs_split process s es k hk, ?_⟩
  rw [← hlast]
  exact onSchedule_handle _ _

/-- Averages that align a default session, and two gyro samples a millisecond apart. -/
def alignedSamples : List (Event Float32) :=
  [.averaged 0 ⟨.zero, gravityReference, Estimator.defaultField⟩,
    .gyro 0 5 .zero, .gyro 0 1005 .zero]

/-- The second gyro sample after an alignment is integrated over the millisecond since the first,
and published. -/
theorem handles_on_schedule_second :
    2 < alignedSamples.length ∧
    ∃ s : Session Float32, s = (process.run (.new .default) (alignedSamples.take 2)).1 ∧
      s.OnSchedule (some 5) (.gyro 0 1005 .zero) ∧
      s.estimator.isRunning = true ∧ s.Due (some 5) 1005 (seconds 1000) ∧
      s.handle (.gyro 0 1005 .zero) =
        ({ s with
            lastGyro := some 1005
            estimator := propagated s.estimator .zero (seconds 1000) },
          [⟨(propagated s.estimator .zero (seconds 1000)).body, 1005⟩]) := by
  have hrun : (process.run (.new .default) (alignedSamples.take 2)).1.estimator.isRunning =
      true := by decide +kernel
  obtain ⟨hsettings, -, hschedule⟩ :=
    handles_on_schedule (.new .default) alignedSamples 2 (by decide)
  have hdue : (process.run (.new .default) (alignedSamples.take 2)).1.Due (some 5) 1005
      (seconds 1000) := by
    refine .measured 5 hsettings.timing rfl (by decide) rfl ?_
    rw [hsettings.maxGap]
    decide +kernel
  have haccepts : (process.run (.new .default) (alignedSamples.take 2)).1.accepts 0 = true :=
    (accepts_iff _ 0).mpr (.inl hsettings.sender)
  exact ⟨by decide, _, rfl, hschedule, hrun, hdue,
    hschedule.integrates 0 1005 .zero _ rfl haccepts hrun hdue⟩

end Session
end Attitude
