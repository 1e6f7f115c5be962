import Attitude.Session

/-!
# Trackers: sessions that align themselves

A tracker feeds the accepted samples of a session that is not yet running to a stillness monitor,
and aligns the session with the averages that the monitor hands out. A refused alignment starts
the monitor afresh. After each event the tracker also makes the report of the reference field, if
one is due.

## Main definitions

* `Tracker`, `Tracker.step`
* `Tracker.run`: all events of a list, on a new tracker
-/

namespace Attitude
variable {α : Type} [Scalar α]

/-- A session and the monitor that waits for its alignment. -/
structure Tracker (α : Type) where
  session : Session α
  monitor : Stillness.Monitor α

namespace Tracker

/-- What a tracker gives out. -/
inductive Output (α : Type) where
  | attitude (p : Publication α)
  /-- The reference field, for diagnostics. -/
  | field (stamp : UInt64) (field : Vec3 α)

/-- The publication in an output, if it is one. -/
def Output.publication? : Output α → Option (Publication α)
  | attitude p => some p
  | field _ _ => none

def new (c : Session.Config α) : Tracker α := ⟨.new c, .new c.stillness⟩

/-- Let the monitor of a tracker that is not running take an event of an accepted sender. -/
def feed (t : Tracker α) (e : Event α) : Tracker α × Option (Readings α) :=
  if t.session.estimator.isRunning then (t, none)
  else
    match e with
    | .gyro sender _ v =>
      (if t.session.accepts sender then { t with monitor := t.monitor.addGyro v } else t, none)
    | .mag sender _ v =>
      (if t.session.accepts sender then { t with monitor := t.monitor.addMag v } else t, none)
    | .accel sender _ v =>
      if t.session.accepts sender then
        let (monitor, readings) := t.monitor.addAccel v
        ({ t with monitor }, readings)
      else (t, none)
    | .averaged _ _ => (t, none)

/-- Let the session handle an event. -/
def handle (t : Tracker α) (e : Event α) : Tracker α × List (Publication α) :=
  let (session, published) := t.session.handle e
  ({ t with session }, published)

/-- Align the session with averages of the monitor, which starts afresh on a refusal. -/
def align (t : Tracker α) (stamp : UInt64) (readings : Readings α) :
    Tracker α × List (Publication α) :=
  match t.session.align stamp readings with
  | .ok (session, p) => ({ t with session }, [p])
  | .error _ => ({ t with monitor := t.monitor.reset }, [])

/-- Report the reference field, if that is due. -/
def pollField (t : Tracker α) (now : UInt64) : Tracker α × List (Output α) :=
  let (session, report) := t.session.pollField now
  ({ t with session }, report.toList.map (.field now))

/-- One event: the monitor takes it, the session handles it, averages align the session, and the
reference field is reported if that is due. -/
def step (t : Tracker α) (e : Event α) : Tracker α × List (Output α) :=
  let (t, readings) := t.feed e
  let (t, handled) := t.handle e
  let (t, aligned) := readings.elim (t, []) (t.align e.stamp)
  let (t, reports) := t.pollField e.stamp
  (t, (handled ++ aligned).map .attitude ++ reports)

/-- A tracker as a process from events to outputs. -/
def process : Process (Tracker α) (Event α) (Output α) := step

/-- Feed a list of events to a new tracker. -/
def run (c : Session.Config α) (es : List (Event α)) : Tracker α × List (Output α) :=
  process.run (new c) es

/-- What a new tracker publishes over a list of events. -/
def published (c : Session.Config α) (es : List (Event α)) : List (Publication α) :=
  (run c es).2.filterMap Output.publication?

end Tracker
end Attitude
