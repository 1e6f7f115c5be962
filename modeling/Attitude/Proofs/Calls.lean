import Mathlib.Data.List.Induction
import Attitude.Proofs.Process
import Attitude.Proofs.Request
import Attitude.Session

/-!
# Calls of a session

A session is driven by three calls: it handles an event, it aligns with given readings, or it is
polled for a report of the reference field. `Session.serve` carries out one call and gives what it
publishes, so that every use of a session is a run of `Session.driven`.

What one call can do to the estimator is said once, by `Session.Served`: a property of every use of
a session is a case analysis of `served` and an induction over the calls.
-/

namespace Attitude
variable {α : Type} [Scalar α]

namespace Estimator

/-- Two estimators show the same to their users: a correction moves the reference and the bias, and
none of these. -/
structure SameOutput (f g : Estimator α) : Prop where
  config : g.config = f.config
  mounting : g.mounting = f.mounting
  phase : g.phase = f.phase
  rate : g.rate = f.rate
  body : g.body = f.body

theorem sameOutput_correct (f : Estimator α) (expected measured noise : Vec3 α) :
    f.SameOutput (f.correct expected measured noise).1 := by
  simp only [correct, observe]
  split <;> exact ⟨rfl, rfl, rfl, rfl, rfl⟩

theorem sameOutput_correctGravity (f : Estimator α) (force : Vec3 α) :
    f.SameOutput (f.correctGravity force).1 := by
  have h := sameOutput_correct { f with deviation := f.nextDeviation force } gravityReference force
    (gravityNoise (f.nextDeviation force))
  exact ⟨h.config, h.mounting, h.phase, h.rate, h.body⟩

theorem sameOutput_correctField (f : Estimator α) (field : Vec3 α) :
    f.SameOutput (f.correctField field).1 := sameOutput_correct f _ _ _

/-- The body is the projection of the current attitude and rate. -/
def IsProjected (f : Estimator α) : Prop := f.body = f.mounting.project f.attitude f.rate

/-- An alignment that succeeds projects the body. -/
theorem isProjected_of_align {f g : Estimator α} {readings : Readings α}
    (h : f.align readings = .ok g) : g.IsProjected := by
  obtain ⟨q, -, rfl⟩ := align_eq_ok h
  rfl

/-- A propagation changes neither the settings nor the phase, and projects the body. -/
theorem propagate?_eq_some {f g : Estimator α} {gyro : Vec3 α} {dt : α}
    (h : f.propagate? gyro dt = some g) :
    g.config = f.config ∧ g.mounting = f.mounting ∧ g.phase = f.phase ∧ g.IsProjected := by
  rw [propagate?] at h
  split at h
  · rw [← Option.some.inj h]
    exact ⟨rfl, rfl, rfl, rfl⟩
  · cases h

end Estimator

namespace Session

/-- A call of a session. -/
inductive Call (α : Type) where
  | handle (e : Event α)
  | align (stamp : UInt64) (readings : Readings α)
  | pollField (now : UInt64)

/-- The stamp and the readings of a call that attempts an alignment. -/
def Call.attempt? {α : Type} : Call α → Option (UInt64 × Readings α)
  | .handle (.averaged stamp readings) => some (stamp, readings)
  | .align stamp readings => some (stamp, readings)
  | _ => none

/-- Carry out a call, and give what it publishes. -/
def serve (s : Session α) : Call α → Session α × List (Publication α)
  | .handle e => s.handle e
  | .align stamp readings =>
    match s.align stamp readings with
    | .ok (s, p) => (s, [p])
    | .error _ => (s, [])
  | .pollField now => ((s.pollField now).1, [])

/-- A session as a process from calls to publications. -/
def driven : Process (Session α) (Call α) (Publication α) := serve

/-- What a call can do to a session `s`, which becomes `t` and publishes. -/
inductive Served (s : Session α) (c : Call α) (t : Session α) : List (Publication α) → Prop
  /-- The estimator is left alone. -/
  | idle (estimator : t.estimator = s.estimator) : Served s c t []
  /-- A running estimator is corrected, and nothing is published. -/
  | corrected (running : s.estimator.isRunning = true)
      (output : s.estimator.SameOutput t.estimator) : Served s c t []
  /-- A running estimator is propagated by a gyro sample, and its body is published. -/
  | propagated (sender : UInt8) (stamp : UInt64) (rate : Vec3 α) (dt : α)
      (call : c = .handle (.gyro sender stamp rate)) (running : s.estimator.isRunning = true)
      (estimator : s.estimator.propagate? rate dt = some t.estimator) :
      Served s c t [⟨t.estimator.body, stamp⟩]
  /-- The estimator is aligned, and its body is published. -/
  | aligned (stamp : UInt64) (readings : Readings α)
      (attempt : c.attempt? = some (stamp, readings))
      (estimator : s.estimator.align readings = .ok t.estimator) :
      Served s c t [⟨t.estimator.body, stamp⟩]

/-- An attempt to align a session either starts its estimator or has no effect. -/
theorem serve_of_attempt {s : Session α} {c : Call α} {stamp : UInt64} {readings : Readings α}
    (h : c.attempt? = some (stamp, readings)) :
    (∃ t p, s.align stamp readings = .ok (t, p) ∧ s.serve c = (t, [p])) ∨
    (∃ why, s.align stamp readings = .error why ∧ s.serve c = (s, [])) := by
  have hserve : s.serve c = match s.align stamp readings with
      | .ok (t, p) => (t, [p])
      | .error _ => (s, []) := by
    cases c with
    | align stamp' readings' => cases h; rfl
    | pollField now => cases h
    | handle e =>
      cases e with
      | averaged stamp' readings' => cases h; rfl
      | gyro _ _ _ => cases h
      | accel _ _ _ => cases h
      | mag _ _ _ => cases h
  rw [hserve]
  cases s.align stamp readings with
  | ok r => exact .inl ⟨r.1, r.2, rfl, rfl⟩
  | error why => exact .inr ⟨why, rfl, rfl⟩

/-- An alignment of a session is one of its estimator. -/
theorem align_eq_ok {s t : Session α} {stamp : UInt64} {readings : Readings α}
    {p : Publication α} (h : s.align stamp readings = .ok (t, p)) :
    s.estimator.align readings = .ok t.estimator ∧ p = ⟨t.estimator.body, stamp⟩ := by
  rw [align] at h
  cases hg : s.estimator.align readings with
  | error why => rw [hg] at h; cases h
  | ok g => rw [hg] at h; cases h; exact ⟨rfl, rfl⟩

theorem served_of_attempt {s : Session α} {c : Call α} {stamp : UInt64} {readings : Readings α}
    (h : c.attempt? = some (stamp, readings)) :
    Served s c (s.serve c).1 (s.serve c).2 := by
  obtain ⟨t, p, halign, hserve⟩ | ⟨why, -, hserve⟩ := serve_of_attempt (s := s) h
  · obtain ⟨hestimator, rfl⟩ := align_eq_ok halign
    rw [hserve]
    exact .aligned stamp readings h hestimator
  · rw [hserve]
    exact .idle rfl

theorem served_gyro (s : Session α) (sender : UInt8) (stamp : UInt64) (rate : Vec3 α) :
    Served s (.handle (.gyro sender stamp rate)) (s.handle (.gyro sender stamp rate)).1
      (s.handle (.gyro sender stamp rate)).2 := by
  simp only [handle]
  split
  · by_cases hrun : s.estimator.isRunning = true
    · cases hinterval : s.interval? stamp with
      | none =>
        simp only [handleGyro, hrun, hinterval, if_true, Option.bind_none]
        exact .idle rfl
      | some dt =>
        cases hpropagate : s.estimator.propagate? rate dt with
        | none =>
          simp only [handleGyro, hrun, hinterval, hpropagate, if_true, Option.bind_some]
          exact .idle rfl
        | some g =>
          simp only [handleGyro, hrun, hinterval, hpropagate, if_true, Option.bind_some]
          exact .propagated sender stamp rate dt rfl hrun hpropagate
    · rw [handleGyro, if_neg hrun]
      exact .idle rfl
  · exact .idle rfl

theorem served_accel (s : Session α) (sender : UInt8) (stamp : UInt64) (force : Vec3 α) :
    Served s (.handle (.accel sender stamp force)) (s.handle (.accel sender stamp force)).1
      (s.handle (.accel sender stamp force)).2 := by
  simp only [handle, handleAccel]
  split
  · split
    · rename_i hrun
      exact .corrected hrun (Estimator.sameOutput_correctGravity s.estimator force)
    · exact .idle rfl
  · exact .idle rfl

theorem served_mag (s : Session α) (sender : UInt8) (stamp : UInt64) (field : Vec3 α) :
    Served s (.handle (.mag sender stamp field)) (s.handle (.mag sender stamp field)).1
      (s.handle (.mag sender stamp field)).2 := by
  simp only [handle, handleMag]
  split
  · split
    · rename_i hrun
      exact .corrected hrun (Estimator.sameOutput_correctField s.estimator field)
    · exact .idle rfl
  · exact .idle rfl

/-- What every call does to every session. -/
theorem served (s : Session α) (c : Call α) : Served s c (s.serve c).1 (s.serve c).2 := by
  cases c with
  | align stamp readings => exact served_of_attempt rfl
  | pollField now => exact .idle rfl
  | handle e =>
    cases e with
    | gyro sender stamp rate => exact served_gyro s sender stamp rate
    | accel sender stamp force => exact served_accel s sender stamp force
    | mag sender stamp field => exact served_mag s sender stamp field
    | averaged stamp readings => exact served_of_attempt rfl

/-- No call changes the configuration or the mounting. -/
theorem Served.settings {s t : Session α} {c : Call α} {ps : List (Publication α)}
    (h : Served s c t ps) : t.estimator.config = s.estimator.config ∧
      t.estimator.mounting = s.estimator.mounting := by
  cases h with
  | idle estimator => rw [estimator]; exact ⟨rfl, rfl⟩
  | corrected running output => exact ⟨output.config, output.mounting⟩
  | propagated sender stamp rate dt call running estimator =>
    obtain ⟨hconfig, hmounting, -, -⟩ := Estimator.propagate?_eq_some estimator
    exact ⟨hconfig, hmounting⟩
  | aligned stamp readings attempt estimator =>
    obtain ⟨q, -, hg⟩ := Estimator.align_eq_ok estimator
    rw [hg]
    exact ⟨rfl, rfl⟩

/-- A running estimator keeps running. -/
theorem Served.isRunning {s t : Session α} {c : Call α} {ps : List (Publication α)}
    (h : Served s c t ps) (hs : s.estimator.isRunning = true) : t.estimator.isRunning = true := by
  have hphase : t.estimator.phase = s.estimator.phase := by
    cases h with
    | idle estimator => rw [estimator]
    | corrected running output => exact output.phase
    | propagated sender stamp rate dt call running estimator =>
      exact (Estimator.propagate?_eq_some estimator).2.2.1
    | aligned stamp readings attempt estimator =>
      have hwait := Estimator.isRunning_of_align estimator
      rw [hs] at hwait
      cases hwait
  rw [Estimator.isRunning, hphase]
  exact hs

/-! ## Runs -/

/-- A new session after a list of calls. -/
def after (c : Config α) (cs : List (Call α)) : Session α := (driven.run (.new c) cs).1

/-- What a new session publishes over a list of calls. -/
def log (c : Config α) (cs : List (Call α)) : List (Publication α) := (driven.run (.new c) cs).2

@[simp] theorem after_nil (c : Config α) : after c [] = .new c := rfl

@[simp] theorem log_nil (c : Config α) : log c [] = [] := rfl

@[simp] theorem after_append_singleton (c : Config α) (cs : List (Call α)) (k : Call α) :
    after c (cs ++ [k]) = ((after c cs).serve k).1 := by
  simp [after, Process.run_append, Process.run_cons, driven]

@[simp] theorem log_append_singleton (c : Config α) (cs : List (Call α)) (k : Call α) :
    log c (cs ++ [k]) = log c cs ++ ((after c cs).serve k).2 := by
  simp [log, after, Process.run_append, Process.run_cons, driven]

/-- A session has the configuration and the mounting of its estimator from the start. -/
theorem settings_after (c : Config α) (cs : List (Call α)) :
    (after c cs).estimator.config = c.estimator ∧ (after c cs).estimator.mounting = c.mounting := by
  induction cs using List.reverseRecOn with
  | nil => exact ⟨rfl, rfl⟩
  | append_singleton cs k ih =>
    obtain ⟨hconfig, hmounting⟩ := (served (after c cs) k).settings
    rw [after_append_singleton, hconfig, hmounting]
    exact ih

end Session
end Attitude
