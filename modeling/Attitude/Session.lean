import Attitude.Estimator.Correction
import Attitude.Estimator.Propagation
import Attitude.FieldStream
import Attitude.Process
import Attitude.Stillness

/-!
# Sessions

A session owns one estimator and routes stamped sensor events to it. A gyro sample propagates and
publishes, accelerometer and magnetometer samples correct and publish nothing, and averaged
readings align once and publish. Samples of other senders are ignored when a sender is chosen.

The propagation interval is the inverse of a fixed frequency, or the time since the last accepted
gyro sample. That stamp is recorded for every accepted gyro sample, used or not, so a gap or a
backward stamp costs one interval only.

## Main definitions

* `Event`, `Session.Config`, `Session`
* `Session.handle`, `Session.align`, `Session.pollField`
* `Session.process`: a session as a process from events to publications
-/

namespace Attitude

/-- What the sensors deliver. Stamps are in microseconds. -/
inductive Event (α : Type) where
  | gyro (sender : UInt8) (stamp : UInt64) (rate : Vec3 α)
  | accel (sender : UInt8) (stamp : UInt64) (force : Vec3 α)
  | mag (sender : UInt8) (stamp : UInt64) (field : Vec3 α)
  /-- Averages of a vehicle at rest. -/
  | averaged (stamp : UInt64) (readings : Readings α)

def Event.stamp {α : Type} : Event α → UInt64
  | gyro _ stamp _ => stamp
  | accel _ stamp _ => stamp
  | mag _ stamp _ => stamp
  | averaged stamp _ => stamp

/-- The same event, later by some microseconds; stamps are words and wrap. -/
def Event.delay {α : Type} (us : UInt64) : Event α → Event α
  | gyro sender stamp v => gyro sender (stamp + us) v
  | accel sender stamp v => accel sender (stamp + us) v
  | mag sender stamp v => mag sender (stamp + us) v
  | averaged stamp readings => averaged (stamp + us) readings

@[simp] theorem Event.stamp_delay {α : Type} (us : UInt64) (e : Event α) :
    (e.delay us).stamp = e.stamp + us := by cases e <;> rfl

namespace Session
variable {α : Type} [Scalar α]

/-- Where propagation intervals come from. -/
inductive Timing (α : Type) where
  /-- From the stamps of successive gyro samples. -/
  | measured
  /-- From a frequency in hertz; stamps do not matter. -/
  | fixed (frequency : α)

/-- The longest measured interval that is integrated by default, in seconds. -/
def defaultMaxGap : α := 0.5

structure Config (α : Type) where
  estimator : Estimator.Config α
  mounting : Mounting α
  timing : Timing α
  /-- The only sender listened to, or everyone. -/
  sender : Option UInt8
  /-- A measured interval beyond this is a discontinuity, in seconds. -/
  maxGap : α
  /-- Reports of the reference field per second; zero disables them. -/
  fieldRate : α
  stillness : Stillness.Config α

def Config.default : Config α where
  estimator := .default
  mounting := .aligned
  timing := .measured
  sender := none
  maxGap := defaultMaxGap
  fieldRate := 0.0
  stillness := .default

end Session

/-- The state of a session. -/
structure Session (α : Type) where
  estimator : Estimator α
  timing : Session.Timing α
  sender : Option UInt8
  maxGap : α
  /-- The stamp of the last accepted gyro sample. -/
  lastGyro : Option UInt64
  fieldStream : FieldStream

namespace Session
variable {α : Type}

/-- A sender is listened to. -/
def accepts (s : Session α) (sender : UInt8) : Bool := s.sender.all (· == sender)

theorem accepts_iff (s : Session α) (sender : UInt8) :
    s.accepts sender = true ↔ s.sender = none ∨ s.sender = some sender := by
  unfold accepts
  cases s.sender <;> simp

variable [Scalar α]

def new (c : Config α) : Session α where
  estimator := .new c.estimator c.mounting
  timing := c.timing
  sender := c.sender
  maxGap := c.maxGap
  lastGyro := none
  fieldStream := .new c.fieldRate

/-- The body of the estimator, with a stamp. -/
def publication (s : Session α) (stamp : UInt64) : Publication α := ⟨s.estimator.body, stamp⟩

/-- Align the estimator and publish. A refused alignment has no effect. -/
def align (s : Session α) (stamp : UInt64) (readings : Readings α) :
    Except EstimatorError (Session α × Publication α) := do
  let estimator ← s.estimator.align readings
  let s := { s with estimator }
  return (s, s.publication stamp)

/-- A number of microseconds in seconds. -/
def seconds (us : UInt64) : α := Scalar.ofWord us * 1e-6

/-- The interval to integrate for a gyro sample, if there is one: with measured timing, the time
since the last sample, unless the clock did not advance or the gap is too long. -/
def interval? (s : Session α) (stamp : UInt64) : Option α :=
  match s.timing with
  | .fixed frequency => some (1.0 / frequency)
  | .measured =>
    match s.lastGyro with
    | none => none
    | some last =>
      if last < stamp then
        let dt := seconds (stamp - last)
        if s.maxGap < dt then none else some dt
      else none

/-- Propagate a running estimator by a gyro sample and publish. The stamp is kept in any case. -/
def handleGyro (s : Session α) (stamp : UInt64) (rate : Vec3 α) :
    Session α × List (Publication α) :=
  let noted := { s with lastGyro := some stamp }
  if s.estimator.isRunning then
    match (s.interval? stamp).bind (s.estimator.propagate? rate) with
    | none => (noted, [])
    | some estimator =>
      let s := { noted with estimator }
      (s, [s.publication stamp])
  else (noted, [])

/-- Correct a running estimator by a specific force. -/
def handleAccel (s : Session α) (force : Vec3 α) : Session α :=
  if s.estimator.isRunning then { s with estimator := (s.estimator.correctGravity force).1 } else s

/-- Correct a running estimator by a field. -/
def handleMag (s : Session α) (field : Vec3 α) : Session α :=
  if s.estimator.isRunning then { s with estimator := (s.estimator.correctField field).1 } else s

/-- Handle one event. -/
def handle (s : Session α) : Event α → Session α × List (Publication α)
  | .gyro sender stamp rate => if s.accepts sender then s.handleGyro stamp rate else (s, [])
  | .accel sender _ force => if s.accepts sender then (s.handleAccel force, []) else (s, [])
  | .mag sender _ field => if s.accepts sender then (s.handleMag field, []) else (s, [])
  | .averaged stamp readings =>
    match s.align stamp readings with
    | .ok (s, p) => (s, [p])
    | .error _ => (s, [])

/-- A session as a process from events to publications. -/
def process : Process (Session α) (Event α) (Publication α) := handle

/-- The reference field, if a report of it is due. -/
def pollField (s : Session α) (now : UInt64) : Session α × Option (Vec3 α) :=
  let (fieldStream, report) := s.fieldStream.poll now s.estimator.config.field
  ({ s with fieldStream }, report)

end Session
end Attitude
