import Attitude.Mounting

/-!
# Attitude reports

A report is what a consumer reads: the body attitude as a quaternion and as Euler angles, the
rates, the stamp of the sample behind it, and whether the estimator has been publishing at all. A
board shows the report written last.
-/

namespace Attitude
variable {α : Type} [Scalar α]

/-- The attitude of the body at a moment. -/
structure Report (α : Type) where
  quat : Quat α
  euler : EulerAngles α
  /-- Angular rates about the axes of the body. -/
  rates : Vec3 α
  /-- The stamp of the sample that led to this report, in microseconds. -/
  stamp : UInt64
  /-- The estimator has been aligned and is publishing. -/
  healthy : Bool

namespace Report

/-- What is shown before anything has been published. -/
def unhealthy : Report α := ⟨.identity, ⟨0.0, 0.0, 0.0⟩, .zero, 0, false⟩

/-- The report of a projected body. -/
def ofBody (body : Body α) (stamp : UInt64) : Report α :=
  ⟨body.attitude, body.attitude.euler, body.rates, stamp, true⟩

/-- The norm of the quaternion is one, within a hundredth. -/
def isValid (r : Report α) : Bool := decide (Scalar.abs (r.quat.norm - 1.0) < 0.01)

end Report

/-- A body and the stamp with which it is published. -/
structure Publication (α : Type) where
  body : Body α
  stamp : UInt64

/-- What the consumers of the attitude see: the report written last. -/
structure Board (α : Type) where
  current : Report α

namespace Board

def empty : Board α := ⟨.unhealthy⟩

/-- Replace what is shown. -/
def write (_ : Board α) (r : Report α) : Board α := ⟨r⟩

/-- Show a published body. -/
def publish (b : Board α) (p : Publication α) : Board α := b.write (.ofBody p.body p.stamp)

/-- Show every publication in turn. -/
def publishAll (b : Board α) (ps : List (Publication α)) : Board α := ps.foldl publish b

@[simp] theorem publishAll_nil (b : Board α) : b.publishAll [] = b := rfl

@[simp] theorem publishAll_cons (b : Board α) (p : Publication α) (ps : List (Publication α)) :
    b.publishAll (p :: ps) = (b.publish p).publishAll ps := rfl

@[simp] theorem publishAll_append (b : Board α) (ps qs : List (Publication α)) :
    b.publishAll (ps ++ qs) = (b.publishAll ps).publishAll qs := by
  simp [publishAll]

def quat (b : Board α) : Quat α := b.current.quat
def rates (b : Board α) : Vec3 α := b.current.rates
def isHealthy (b : Board α) : Bool := b.current.healthy

end Board
end Attitude
