import Attitude.Vec3

/-!
# Periodic reports of the reference field

Diagnostics may ask for the magnetic field that the estimator refers to, at a given rate. The
stream only limits the rate: a report is due when none has been made yet, or when the last one is
at least an interval ago. A clock that runs backward makes no report due.
-/

namespace Attitude

/-- A rate limiter on stamps in microseconds. -/
structure FieldStream where
  /-- The interval between reports; zero disables the stream. -/
  interval : UInt64
  /-- The stamp of the last report. The largest stamp stands for no report. -/
  last : UInt64

namespace FieldStream
variable {α : Type} [Scalar α]

/-- The stamp of a stream that has not reported. -/
def never : UInt64 := 0xffffffffffffffff

/-- The interval of a rate in reports per second: whole microseconds, and at least one. A rate that
is not finite and positive has none. -/
def intervalOfRate (rate : α) : UInt64 :=
  if Scalar.isFinite rate && decide (0.0 < rate) then
    let interval := Scalar.toWord (1000000.0 / rate)
    if interval = 0 then 1 else interval
  else 0

def new (rate : α) : FieldStream := ⟨intervalOfRate rate, never⟩

def disabled : FieldStream := ⟨0, never⟩

def isEnabled (s : FieldStream) : Bool := s.interval != 0

/-- A report is due. -/
def isDue (s : FieldStream) (now : UInt64) : Bool :=
  if !s.isEnabled then false
  else if s.last = never then true
  else
    let elapsed := if now < s.last then 0 else now - s.last
    decide (s.interval ≤ elapsed)

/-- A disabled stream reports nothing. -/
theorem isDue_of_interval_eq_zero {s : FieldStream} (h : s.interval = 0) (now : UInt64) :
    s.isDue now = false := by simp [isDue, isEnabled, h]

/-- A stream that is on and has not reported reports at once. -/
theorem isDue_of_never {s : FieldStream} (h : s.interval ≠ 0) (h' : s.last = never)
    (now : UInt64) : s.isDue now = true := by simp [isDue, isEnabled, h, h']

/-- Note a report made at the given stamp. -/
def mark (s : FieldStream) (now : UInt64) : FieldStream := { s with last := now }

/-- The report of `field`, if one is due. -/
def poll (s : FieldStream) (now : UInt64) (field : Vec3 α) : FieldStream × Option (Vec3 α) :=
  if s.isDue now then (s.mark now, some field) else (s, none)

end FieldStream
end Attitude
