import Attitude.Proofs.Averages
import Attitude.Proofs.Calls
import Attitude.Proofs.Schedule

/-!
# A tracker can always still align

A locked monitor beside a waiting estimator would be the end of a tracker: nothing would ever align
it. The two never meet. As long as the estimator waits, the monitor collects, the estimator is the
new one and nothing has been published; when averages are refused, the monitor starts afresh, and
what follows cannot be told from a new tracker that remembers the stamp of the latest gyro sample.

The invariant joins the two machines: the monitor by its steps, the session through the simulation
of a tracker by a session that is told the averages.
-/

namespace Attitude
variable {α : Type} [Scalar α]

/-! ## The session -/

namespace Session
variable {c : Config α}

/-- A session that still waits after an event has not been changed by it in its estimator, and has
published nothing. -/
theorem handle_of_waiting {s : Session α} {e : Event α}
    (h : (s.handle e).1.estimator.isRunning = false) :
    (s.handle e).1.estimator = s.estimator ∧ (s.handle e).2 = [] := by
  have hserved := served s (.handle e)
  have hserve : s.serve (.handle e) = s.handle e := rfl
  rw [hserve] at hserved
  have hwait : s.estimator.isRunning = false := by
    rw [← Bool.not_eq_true]
    intro hrun
    rw [hserved.isRunning hrun] at h
    cases h
  generalize (s.handle e).1 = t, (s.handle e).2 = ps at hserved h ⊢
  cases hserved with
  | idle estimator => exact ⟨estimator, rfl⟩
  | corrected running output => rw [hwait] at running; cases running
  | propagated sender stamp rate dt call running estimator => rw [hwait] at running; cases running
  | aligned stamp readings attempt estimator =>
    obtain ⟨q, -, hg⟩ := Estimator.align_eq_ok estimator
    rw [hg] at h
    cases h

/-- Nor has a list of events. -/
theorem run_of_waiting {s : Session α} {es : List (Event α)}
    (h : (process.run s es).1.estimator.isRunning = false) :
    (process.run s es).1.estimator = s.estimator ∧ (process.run s es).2 = [] := by
  induction es generalizing s with
  | nil => exact ⟨rfl, rfl⟩
  | cons e es ih =>
    rw [Process.run_cons] at h ⊢
    obtain ⟨hlater, hsilent⟩ := ih h
    have hnow : (s.handle e).1.estimator.isRunning = false := by
      rw [hlater] at h
      exact h
    obtain ⟨hestimator, hpublished⟩ := handle_of_waiting hnow
    exact ⟨hlater.trans hestimator, by rw [hsilent, List.append_nil]; exact hpublished⟩

/-- The averages that are inserted are no gyro samples. -/
theorem filterMap_expand (s t : Session α) (m : Stillness.Monitor α) (e : Event α) :
    (s.expand m e).1.filterMap t.gyroStamp? = [e].filterMap t.gyroStamp? := by
  dsimp only [expand]
  split
  · rfl
  · rw [← List.singleton_append, List.filterMap_append]
    exact List.append_nil _

theorem filterMap_insertAverages (s t : Session α) (m : Stillness.Monitor α)
    (es : List (Event α)) :
    (s.insertAverages m es).filterMap t.gyroStamp? = es.filterMap t.gyroStamp? := by
  induction es generalizing s m with
  | nil => rfl
  | cons e es ih =>
    rw [insertAverages, List.filterMap_append, filterMap_expand, ih, ← List.filterMap_append]
    rfl

/-- A session with its averages inserted notes the same gyro samples. -/
theorem latestGyro_insertAverages (s : Session α) (m : Stillness.Monitor α)
    (es : List (Event α)) : s.latestGyro (s.insertAverages m es) = s.latestGyro es := by
  rw [latestGyro, latestGyro, filterMap_insertAverages]

/-- A new session that remembers the stamp of a gyro sample. -/
def remembering (c : Config α) (last : Option UInt64) : Session α := { new c with lastGyro := last }

/-- A session with the settings and the estimator of a new one is a new one, but for the stamp that
it remembers and its field stream. -/
theorem eq_remembering {s : Session α} (hsettings : (new c).SameSettings s)
    (hestimator : s.estimator = .new c.estimator c.mounting) :
    s = (remembering c s.lastGyro).withStream s.fieldStream := by
  obtain ⟨estimator, timing, sender, maxGap, lastGyro, stream⟩ := s
  obtain ⟨rfl, rfl, rfl⟩ := hsettings
  obtain rfl := hestimator
  rfl

/-- An alignment of a waiting estimator is not refused for running. -/
theorem align_ne_alreadyRunning {s : Session α} (h : s.estimator.isRunning = false)
    (stamp : UInt64) (readings : Readings α) :
    s.align stamp readings ≠ .error .alreadyRunning := by
  intro hrefused
  rw [align, Estimator.align, if_neg (by rw [h]; exact Bool.false_ne_true)] at hrefused
  split at hrefused
  · cases hrefused
  · split at hrefused <;> cases hrefused

end Session

/-! ## The tracker -/

namespace Tracker

/-- The result of the alignment that a tracker attempts on an event, if its monitor hands out
averages on it. -/
def attempt? (t : Tracker α) (e : Event α) :
    Option (Except EstimatorError (Session α × Publication α)) :=
  (t.feed e).2.map (((t.feed e).1.handle e).1.session.align e.stamp)

/-- An alignment is attempted with averages of the monitor, on a session that waits. -/
theorem attempt?_eq_some {t : Tracker α} {e : Event α}
    {result : Except EstimatorError (Session α × Publication α)}
    (h : t.attempt? e = some result) :
    t.session.estimator.isRunning = false ∧ ∃ readings,
      (t.session.listen t.monitor e).2 = some readings ∧
        t.session.align e.stamp readings = result := by
  rw [attempt?, feed_eq] at h
  obtain ⟨readings, hheard, hresult⟩ := Option.map_eq_some_iff.mp h
  obtain ⟨hwait, sender, stamp, force, rfl, -, -⟩ := Session.listen_eq_some hheard
  refine ⟨hwait, readings, hheard, ?_⟩
  rw [← hresult]
  simp only [handle, Session.handle_accel_waiting hwait]

/-- What a tracker does with an event before the poll, by the expansion of the event. -/
theorem settle_eq_expand (t : Tracker α) (e : Event α) :
    t.settle e = (⟨(Session.process.run t.session (t.session.expand t.monitor e).1).1.withStream
      t.session.fieldStream, (t.session.expand t.monitor e).2⟩,
        (Session.process.run t.session (t.session.expand t.monitor e).1).2) :=
  settle_eq_run t.session t.session.fieldStream t.monitor e

/-- A step of a tracker, by the expansion of the event. -/
theorem step_eq_expand (t : Tracker α) (e : Event α) :
    (t.step e).1.monitor = (t.session.expand t.monitor e).2 ∧
    (t.step e).1.session.estimator =
      (Session.process.run t.session (t.session.expand t.monitor e).1).1.estimator := by
  rw [step_eq_settle, settle_eq_expand]
  exact ⟨rfl, rfl⟩

/-- The monitor has the configuration it was created with, and collects while the estimator
waits. -/
structure Vigilant (c : Session.Config α) (t : Tracker α) : Prop where
  config : t.monitor.config = c.stillness
  collects : t.session.estimator.isRunning = false → t.monitor.status = .collecting

theorem vigilant_step {c : Session.Config α} {t : Tracker α} (h : t.Vigilant c) (e : Event α) :
    (t.step e).1.Vigilant c := by
  obtain ⟨hmonitor, hestimator⟩ := step_eq_expand t e
  have hlisten := t.session.continues_listen t.monitor e
  cases hheard : (t.session.listen t.monitor e).2 with
  | none =>
    rw [hheard] at hlisten
    rw [Session.expand_of_none hheard] at hmonitor hestimator
    refine ⟨by rw [hmonitor, hlisten.config, h.config], ?_⟩
    intro hwait
    rw [hestimator] at hwait
    rw [hmonitor, hlisten.status rfl]
    apply h.collects
    rw [← (Session.run_of_waiting hwait).1]
    exact hwait
  | some readings =>
    obtain ⟨s, p, haccepted, hrun, hnext⟩ | ⟨why, -, -, hnext⟩ := Session.expand_of_some hheard
    · rw [hnext] at hmonitor
      rw [hrun] at hestimator
      refine ⟨by rw [hmonitor, hlisten.config, h.config], ?_⟩
      intro hwait
      rw [hestimator, Session.align_ok_isRunning haccepted] at hwait
      cases hwait
    · rw [hnext, h.config] at hmonitor
      refine ⟨by rw [hmonitor]; rfl, ?_⟩
      intro _
      rw [hmonitor]
      rfl

theorem vigilant_run (c : Session.Config α) (es : List (Event α)) : (run c es).1.Vigilant c :=
  Process.run_invariant process (Vigilant c) (fun _ e h => vigilant_step h e) ⟨rfl, fun _ => rfl⟩ es

/-- A session in a tracker that still waits is a new one, but for the stamp of the latest gyro
sample and the field stream, and the tracker has published nothing. -/
theorem run_of_waiting {c : Session.Config α} {es : List (Event α)}
    (h : (run c es).1.session.estimator.isRunning = false) :
    published c es = [] ∧ (run c es).1.session =
      (Session.remembering c ((Session.new c).latestGyro es)).withStream
        (run c es).1.session.fieldStream := by
  obtain ⟨⟨stream, monitor, hstate⟩, houtput⟩ :=
    run_simulates (Session.new c) (Session.new c).fieldStream (.new c.stillness) es
  rw [Session.withStream_fieldStream] at hstate houtput
  obtain ⟨hsettings, hlast⟩ :=
    Session.run_history (.new c) ((Session.new c).insertAverages (.new c.stillness) es)
  rw [Session.latestGyro_insertAverages] at hlast
  have hrun : (run c es).1 = ⟨(Session.process.run (.new c)
      ((Session.new c).insertAverages (.new c.stillness) es)).1.withStream stream, monitor⟩ := hstate
  rw [hrun] at h ⊢
  obtain ⟨hestimator, hsilent⟩ := Session.run_of_waiting h
  refine ⟨houtput.trans hsilent, ?_⟩
  rw [Session.eq_remembering hsettings hestimator, hlast]
  rfl

/-- Over a list of events two trackers publish the same, and their estimators end in the same
state. -/
structure Alike (t u : Tracker α) (es : List (Event α)) : Prop where
  published : (process.run t es).2.filterMap Output.publication? =
    (process.run u es).2.filterMap Output.publication?
  estimator : (process.run t es).1.session.estimator = (process.run u es).1.session.estimator

/-- The field stream of the session is not seen. -/
theorem alike_withStream (s : Session α) (fs gs : FieldStream) (m : Stillness.Monitor α)
    (es : List (Event α)) : Alike ⟨s.withStream fs, m⟩ ⟨s.withStream gs, m⟩ es := by
  obtain ⟨⟨_, _, hstate⟩, houtput⟩ := run_simulates s fs m es
  obtain ⟨⟨_, _, hstate'⟩, houtput'⟩ := run_simulates s gs m es
  exact ⟨houtput.trans houtput'.symm, by rw [hstate, hstate']; rfl⟩

/-- A new tracker whose session remembers the stamp of a gyro sample. -/
def remembering (c : Session.Config α) (last : Option UInt64) : Tracker α :=
  { new c with session := .remembering c last }

/-- Alignment stays possible after a list of events. -/
structure StaysOpen (c : Session.Config α) (es : List (Event α)) : Prop where
  /-- While the estimator waits, the monitor collects, and nothing has been published. -/
  waits : (run c es).1.session.estimator.isRunning = false →
    (run c es).1.monitor.status = .collecting ∧ published c es = []
  /-- No alignment is attempted on a running estimator. -/
  admits : ∀ e, (run c es).1.attempt? e ≠ some (.error .alreadyRunning)
  /-- A refused alignment starts the monitor afresh, and the tracker goes on as a new one that
  remembers the latest gyro sample. -/
  restarts : ∀ e why, (run c es).1.attempt? e = some (.error why) →
    (run c (es ++ [e])).1.monitor = .new c.stillness ∧
    ∀ later, Alike (run c (es ++ [e])).1
      (remembering c ((Session.new c).latestGyro (es ++ [e]))) later

theorem run_concat (c : Session.Config α) (es : List (Event α)) (e : Event α) :
    (run c (es ++ [e])).1 = ((run c es).1.step e).1 := by
  rw [run, Process.run_append]
  rfl

/-- **A tracker can always still align**, whatever events it has seen. -/
theorem staysOpen_of_events (c : Session.Config α) (es : List (Event α)) : StaysOpen c es where
  waits h := ⟨(vigilant_run c es).collects h, (run_of_waiting h).1⟩
  admits e h := by
    obtain ⟨hwait, readings, -, hresult⟩ := attempt?_eq_some h
    exact Session.align_ne_alreadyRunning hwait e.stamp readings hresult
  restarts e why h := by
    obtain ⟨hwait, readings, hheard, hresult⟩ := attempt?_eq_some h
    obtain ⟨s, p, haccepted, -, -⟩ | ⟨why', -, hrun, hnext⟩ := Session.expand_of_some hheard
    · rw [hresult] at haccepted
      cases haccepted
    · obtain ⟨hmonitor, hestimator⟩ := step_eq_expand (run c es).1 e
      rw [hnext, ← run_concat] at hmonitor
      rw [hrun, ← run_concat] at hestimator
      have hfresh : (run c (es ++ [e])).1.monitor = .new c.stillness := by
        rw [hmonitor, (vigilant_run c es).config]
      refine ⟨hfresh, ?_⟩
      intro later
      have hstill : (run c (es ++ [e])).1.session.estimator.isRunning = false := by
        rw [hestimator]
        exact hwait
      have hstate : (run c (es ++ [e])).1 =
          ⟨(Session.remembering c ((Session.new c).latestGyro (es ++ [e]))).withStream
            (run c (es ++ [e])).1.session.fieldStream, .new c.stillness⟩ := by
        rw [← (run_of_waiting hstill).2, ← hfresh]
      rw [hstate]
      exact alike_withStream _ _ (Session.new c).fieldStream _ later

/-- A refusal happens: one window is enough here, and its specific force vanishes. -/
example : ((run (α := Float32) { Session.Config.default with stillness := ⟨1, 1.0, 1⟩ }
      [.gyro 0 5 .zero, .mag 0 6 .zero]).1.attempt? (.accel 0 7 .zero)).map Except.isOk =
    some false := by decide +kernel

end Tracker
end Attitude
