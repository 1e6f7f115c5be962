import Attitude.Proofs.Process
import Attitude.Proofs.Request
import Attitude.Tracker

/-!
# A tracker is a session that is told the averages

A tracker hides a stillness monitor from its session. The same result is had without a tracker: let
a session handle the list of events with the averages of the monitor inserted as events of their
own. `Session.expand` says what is inserted at one event, `Session.insertAverages` does it along a
list, and neither mentions a tracker.

The proof is a simulation. A tracker and the session agree after each event in everything but the
rate limiter of the field reports, which the session never reads, and in the monitor.
-/

namespace Attitude
variable {α : Type} [Scalar α]

/-- Take the sample of a raw event. -/
def Stillness.Monitor.hear (m : Stillness.Monitor α) :
    Event α → Stillness.Monitor α × Option (Readings α)
  | .gyro _ _ v => (m.addGyro v, none)
  | .mag _ _ v => (m.addMag v, none)
  | .accel _ _ v => m.addAccel v
  | .averaged _ _ => (m, none)

namespace Session

/-- A raw event of a sender that the session listens to. -/
def isAcceptedRaw (s : Session α) : Event α → Bool
  | .gyro sender _ _ => s.accepts sender
  | .accel sender _ _ => s.accepts sender
  | .mag sender _ _ => s.accepts sender
  | .averaged _ _ => false

/-- The monitor beside a session hears the accepted raw events until the estimator runs. -/
def listen (s : Session α) (m : Stillness.Monitor α) (e : Event α) :
    Stillness.Monitor α × Option (Readings α) :=
  if !s.estimator.isRunning && s.isAcceptedRaw e then m.hear e else (m, none)

/-- An event and, right after it, the averages that the monitor hands out on it, with its stamp. When
these averages leave the estimator waiting, a new monitor with the same configuration takes over. -/
def expand (s : Session α) (m : Stillness.Monitor α) (e : Event α) :
    List (Event α) × Stillness.Monitor α :=
  let heard := s.listen m e
  match heard.2 with
  | none => ([e], heard.1)
  | some readings =>
    let events := [e, .averaged e.stamp readings]
    (events, if (process.run s events).1.estimator.isRunning then heard.1 else .new m.config)

/-- A list of events with the averages of the monitor inserted. -/
def insertAverages (s : Session α) (m : Stillness.Monitor α) : List (Event α) → List (Event α)
  | [] => []
  | e :: es =>
    (s.expand m e).1 ++ insertAverages (process.run s (s.expand m e).1).1 (s.expand m e).2 es

end Session

/-! ## The monitor beside a session -/

namespace Stillness.Monitor

/-- A monitor `m` that becomes `n` keeps its configuration, and stays as open as it is unless it
hands out averages. -/
structure Continues (m n : Monitor α) (handedOut : Option (Readings α)) : Prop where
  config : n.config = m.config
  status : handedOut = none → n.status = m.status

omit [Scalar α] in
theorem continues_refl (m : Monitor α) : m.Continues m none := ⟨rfl, fun _ => rfl⟩

theorem continues_close (m : Monitor α) (w : Window α) :
    m.Continues (m.close w).1 (m.close w).2 := by
  rw [close]
  split
  · exact ⟨rfl, fun _ => rfl⟩
  · dsimp only
    generalize (if m.quiet = 0xff then m.quiet else m.quiet + 1) = quiet
    split
    · split
      · exact ⟨rfl, by rintro ⟨⟩⟩
      · exact ⟨rfl, fun _ => rfl⟩
    · exact ⟨rfl, fun _ => rfl⟩

theorem continues_addAccel (m : Monitor α) (v : Vec3 α) :
    m.Continues (m.addAccel v).1 (m.addAccel v).2 := by
  rw [addAccel]
  split
  · exact continues_refl m
  · dsimp only
    split
    · exact ⟨rfl, fun _ => rfl⟩
    · exact continues_close m _

theorem continues_hear (m : Monitor α) (e : Event α) : m.Continues (m.hear e).1 (m.hear e).2 := by
  cases e with
  | accel sender stamp v => exact continues_addAccel m v
  | averaged stamp readings => exact continues_refl m
  | gyro sender stamp v =>
    rw [hear, addGyro]
    split <;> exact ⟨rfl, fun _ => rfl⟩
  | mag sender stamp v =>
    rw [hear, addMag]
    split <;> exact ⟨rfl, fun _ => rfl⟩

end Stillness.Monitor

namespace Session

theorem continues_listen (s : Session α) (m : Stillness.Monitor α) (e : Event α) :
    m.Continues (s.listen m e).1 (s.listen m e).2 := by
  rw [listen]
  split
  · exact m.continues_hear e
  · exact m.continues_refl

/-! ## What is inserted -/

/-- Averages come with an accepted specific force, and only before the estimator runs. -/
theorem listen_eq_some {s : Session α} {m : Stillness.Monitor α} {e : Event α}
    {readings : Readings α} (h : (s.listen m e).2 = some readings) :
    s.estimator.isRunning = false ∧ ∃ sender stamp force,
      e = .accel sender stamp force ∧ s.accepts sender = true ∧
        s.listen m e = m.addAccel force := by
  rw [listen] at h ⊢
  split at h
  · rename_i hcond
    rw [Bool.and_eq_true, Bool.not_eq_true'] at hcond
    refine ⟨hcond.1, ?_⟩
    cases e with
    | accel sender stamp force =>
      refine ⟨sender, stamp, force, rfl, hcond.2, ?_⟩
      rw [if_pos (by simp [hcond])]
      rfl
    | gyro sender stamp v => cases h
    | mag sender stamp v => cases h
    | averaged stamp r => cases h
  · cases h

theorem expand_of_none {s : Session α} {m : Stillness.Monitor α} {e : Event α}
    (h : (s.listen m e).2 = none) : s.expand m e = ([e], (s.listen m e).1) := by
  dsimp only [expand]
  rw [h]

/-! ## Sessions that differ in the field stream -/

section
omit [Scalar α]

/-- The session with another rate limiter for the field reports. -/
def withStream (s : Session α) (fs : FieldStream) : Session α := { s with fieldStream := fs }

@[simp] theorem estimator_withStream (s : Session α) (fs : FieldStream) :
    (s.withStream fs).estimator = s.estimator := rfl

@[simp] theorem accepts_withStream (s : Session α) (fs : FieldStream) (sender : UInt8) :
    (s.withStream fs).accepts sender = s.accepts sender := rfl

@[simp] theorem withStream_fieldStream (s : Session α) : s.withStream s.fieldStream = s := rfl

end

theorem listen_withStream (s : Session α) (fs : FieldStream) (m : Stillness.Monitor α)
    (e : Event α) : (s.withStream fs).listen m e = s.listen m e := by
  cases e <;> rfl

/-- Alignment ignores the field stream. -/
theorem align_withStream (s : Session α) (fs : FieldStream) (stamp : UInt64)
    (readings : Readings α) :
    (s.withStream fs).align stamp readings =
      (s.align stamp readings).map fun p => (p.1.withStream fs, p.2) := by
  simp only [align]
  rw [estimator_withStream]
  cases s.estimator.align readings <;> rfl

theorem handleGyro_withStream (s : Session α) (fs : FieldStream) (stamp : UInt64) (rate : Vec3 α) :
    (s.withStream fs).handleGyro stamp rate =
      ((s.handleGyro stamp rate).1.withStream fs, (s.handleGyro stamp rate).2) := by
  have hinterval : (s.withStream fs).interval? stamp = s.interval? stamp := rfl
  simp only [handleGyro]
  rw [hinterval, estimator_withStream]
  by_cases hrun : s.estimator.isRunning = true
  · simp only [hrun, if_true]
    cases (s.interval? stamp).bind (s.estimator.propagate? rate) <;> rfl
  · simp only [hrun, Bool.false_eq_true, if_false]
    rfl

/-- So does the handling of every event. -/
theorem handle_withStream (s : Session α) (fs : FieldStream) (e : Event α) :
    (s.withStream fs).handle e = ((s.handle e).1.withStream fs, (s.handle e).2) := by
  cases e with
  | gyro sender stamp rate =>
    by_cases haccepts : s.accepts sender = true <;>
      simp [handle, haccepts, handleGyro_withStream]
  | accel sender stamp force =>
    by_cases haccepts : s.accepts sender = true <;>
      by_cases hrun : s.estimator.isRunning = true <;>
        (simp [handle, handleAccel, haccepts, hrun]; try rfl)
  | mag sender stamp field =>
    by_cases haccepts : s.accepts sender = true <;>
      by_cases hrun : s.estimator.isRunning = true <;>
        (simp [handle, handleMag, haccepts, hrun]; try rfl)
  | averaged stamp readings =>
    simp only [handle, align_withStream]
    cases s.align stamp readings <;> rfl

/-! ## Averages as events -/

/-- An alignment that succeeds starts the estimator. -/
theorem align_ok_isRunning {s t : Session α} {stamp : UInt64} {readings : Readings α}
    {p : Publication α} (h : s.align stamp readings = .ok (t, p)) :
    t.estimator.isRunning = true := by
  rw [align] at h
  cases hg : s.estimator.align readings with
  | error e => rw [hg] at h; cases h
  | ok g =>
    rw [hg] at h
    obtain ⟨q, -, rfl⟩ := Estimator.align_eq_ok hg
    cases h
    rfl

/-- A specific force does nothing to a session whose estimator waits. -/
theorem handle_accel_waiting {s : Session α} (h : s.estimator.isRunning = false) (sender : UInt8)
    (stamp : UInt64) (force : Vec3 α) : s.handle (.accel sender stamp force) = (s, []) := by
  simp [handle, handleAccel, h]

/-- The averages that are handed out align the session, or are refused and the monitor starts
afresh. -/
theorem expand_of_some {s : Session α} {m : Stillness.Monitor α} {e : Event α}
    {readings : Readings α} (h : (s.listen m e).2 = some readings) :
    (∃ t p, s.align e.stamp readings = .ok (t, p) ∧ process.run s (s.expand m e).1 = (t, [p]) ∧
      (s.expand m e).2 = (s.listen m e).1) ∨
    (∃ why, s.align e.stamp readings = .error why ∧ process.run s (s.expand m e).1 = (s, []) ∧
      (s.expand m e).2 = .new m.config) := by
  obtain ⟨hwait, sender, stamp, force, rfl, -, -⟩ := listen_eq_some h
  have hrun : ∀ a, process.run s [.accel sender stamp force, a] = s.handle a := by
    intro a
    simp [Process.run_cons, process, handle_accel_waiting hwait]
  dsimp only [expand, Event.stamp]
  rw [h]
  dsimp only
  rw [hrun]
  cases ha : s.align stamp readings with
  | error why =>
    right
    have hhandle : s.handle (.averaged stamp readings) = (s, []) := by simp [handle, ha]
    refine ⟨why, rfl, hhandle, ?_⟩
    simp [hhandle, hwait]
  | ok r =>
    left
    have hhandle : s.handle (.averaged stamp readings) = (r.1, [r.2]) := by simp [handle, ha]
    refine ⟨r.1, r.2, rfl, hhandle, ?_⟩
    simp [hhandle, align_ok_isRunning ha]

end Session

namespace Tracker

/-- Feeding the monitor of a tracker is listening beside its session. -/
theorem feed_eq (t : Tracker α) (e : Event α) :
    t.feed e = ({ t with monitor := (t.session.listen t.monitor e).1 },
      (t.session.listen t.monitor e).2) := by
  simp only [feed, Session.listen]
  by_cases hrun : t.session.estimator.isRunning = true
  · simp [hrun]
  · cases e with
    | averaged stamp readings => simp [hrun, Session.isAcceptedRaw]
    | gyro sender stamp v =>
      by_cases h : t.session.accepts sender = true <;>
        simp [hrun, h, Session.isAcceptedRaw, Stillness.Monitor.hear]
    | accel sender stamp v =>
      by_cases h : t.session.accepts sender = true <;>
        simp [hrun, h, Session.isAcceptedRaw, Stillness.Monitor.hear]
    | mag sender stamp v =>
      by_cases h : t.session.accepts sender = true <;>
        simp [hrun, h, Session.isAcceptedRaw, Stillness.Monitor.hear]

/-- Handling an event in a tracker is handling it in the session. -/
theorem handle_withStream (s : Session α) (fs : FieldStream) (m : Stillness.Monitor α)
    (e : Event α) : handle ⟨s.withStream fs, m⟩ e =
      (⟨(s.handle e).1.withStream fs, m⟩, (s.handle e).2) := by
  simp only [handle, Session.handle_withStream]

section
omit [Scalar α]

/-- A report of the field is no publication. -/
theorem filterMap_pollField (t : Tracker α) (now : UInt64) :
    (t.pollField now).2.filterMap Output.publication? = [] := by
  simp only [pollField]
  cases (t.session.pollField now).2 <;> rfl

theorem filterMap_attitude (ps : List (Publication α)) :
    (ps.map Output.attitude).filterMap Output.publication? = ps := by
  induction ps with
  | nil => rfl
  | cons p ps ih => simp [Output.publication?, ih]

end

/-- The part of a step before the poll: feed, handle, and align with what the monitor handed out. -/
def settle (t : Tracker α) (e : Event α) : Tracker α × List (Publication α) :=
  let fed := t.feed e
  let handled := fed.1.handle e
  let aligned := fed.2.elim (handled.1, []) (handled.1.align e.stamp)
  (aligned.1, handled.2 ++ aligned.2)

theorem step_eq_settle (t : Tracker α) (e : Event α) : t.step e =
    (((t.settle e).1.pollField e.stamp).1,
      (t.settle e).2.map .attitude ++ ((t.settle e).1.pollField e.stamp).2) := rfl

/-- What a tracker does with an event before the poll is the run of its session over the expanded
event. -/
theorem settle_eq_run (s : Session α) (fs : FieldStream) (m : Stillness.Monitor α) (e : Event α) :
    settle ⟨s.withStream fs, m⟩ e =
      (⟨(Session.process.run s (s.expand m e).1).1.withStream fs, (s.expand m e).2⟩,
        (Session.process.run s (s.expand m e).1).2) := by
  dsimp only [settle]
  rw [feed_eq]
  simp only [Session.listen_withStream, handle_withStream]
  cases hheard : (s.listen m e).2 with
  | none =>
    rw [Session.expand_of_none hheard]
    simp [Process.run_cons, Session.process]
  | some readings =>
    obtain ⟨hwait, sender, stamp, force, rfl, -, -⟩ := Session.listen_eq_some hheard
    rw [Session.handle_accel_waiting hwait]
    simp only [Option.elim_some, List.nil_append, align, Session.align_withStream]
    rcases Session.expand_of_some hheard with ⟨t, p, ha, hr, hm⟩ | ⟨why, ha, hr, hm⟩
    · rw [ha, hr, hm]
      rfl
    · rw [ha, hr, hm, ← (s.continues_listen m _).config]
      rfl

/-- The simulation: along a run the tracker and the session agree in everything but the field
stream, and publish the same. -/
theorem run_simulates (s : Session α) (fs : FieldStream) (m : Stillness.Monitor α)
    (es : List (Event α)) :
    (∃ gs n, (process.run ⟨s.withStream fs, m⟩ es).1 =
      ⟨(Session.process.run s (s.insertAverages m es)).1.withStream gs, n⟩) ∧
    (process.run ⟨s.withStream fs, m⟩ es).2.filterMap Output.publication? =
      (Session.process.run s (s.insertAverages m es)).2 := by
  induction es generalizing s fs m with
  | nil => exact ⟨⟨fs, m, rfl⟩, rfl⟩
  | cons e es ih =>
    have hstep : process ⟨s.withStream fs, m⟩ e = _ := step_eq_settle ⟨s.withStream fs, m⟩ e
    rw [settle_eq_run] at hstep
    obtain ⟨⟨gs, n, hstate⟩, hout⟩ := ih (Session.process.run s (s.expand m e).1).1 _
      (s.expand m e).2
    rw [Process.run_cons, hstep, Session.insertAverages, Process.run_append]
    refine ⟨⟨gs, n, hstate⟩, ?_⟩
    rw [List.filterMap_append, List.filterMap_append, filterMap_attitude, filterMap_pollField,
      List.append_nil]
    exact congrArg _ hout

/-- **A tracker publishes what a session publishes that is told the averages**, and its estimator
ends in the same state. -/
theorem published_eq_insertAverages (c : Session.Config α) (es : List (Event α)) :
    published c es = (Session.process.run (.new c)
      ((Session.new c).insertAverages (.new c.stillness) es)).2 ∧
    (run c es).1.session.estimator = (Session.process.run (.new c)
      ((Session.new c).insertAverages (.new c.stillness) es)).1.estimator := by
  obtain ⟨⟨gs, n, hstate⟩, hout⟩ :=
    run_simulates (Session.new c) (Session.new c).fieldStream (.new c.stillness) es
  rw [Session.withStream_fieldStream] at hstate hout
  refine ⟨hout, ?_⟩
  change (process.run ⟨Session.new c, .new c.stillness⟩ es).1.session.estimator = _
  rw [hstate]
  rfl

end Tracker
end Attitude
