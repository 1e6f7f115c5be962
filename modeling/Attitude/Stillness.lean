import Attitude.Alignment

/-!
# Detection of a vehicle at rest

Before the estimator can be aligned, the vehicle has to stand still for a while. The monitor
averages raw samples over windows paced by the accelerometer. A window is quiet when the norm of
the specific force hardly varied in it; after enough quiet windows in a row the monitor locks and
hands out the averages of the last one, once.

Counts are machine words, and so is the length of a window. Only accelerometer samples close a
window, so the counts of the other two sensors wrap if it never closes.

## Main definitions

* `Stillness.Window`: the sums of one window, `Window.average?` and `Window.isQuiet`
* `Stillness.Monitor` with `addGyro`, `addMag`, `addAccel` and `reset`
-/

namespace Attitude
namespace Stillness
variable {α : Type} [Scalar α]

structure Config (α : Type) where
  /-- Accelerometer samples in a window; zero counts as one. -/
  windowSamples : UInt32
  /-- The largest standard deviation of the norm of the specific force in a quiet window. -/
  noiseLimit : α
  /-- Quiet windows in a row before the monitor locks. -/
  quietWindows : UInt8

def Config.default : Config α := ⟨512, 0.15, 5⟩

/-- The sum of the samples of one sensor, and their number. -/
structure Total (α : Type) where
  sum : Vec3 α
  count : UInt32

namespace Total

def empty : Total α := ⟨.zero, 0⟩

def add (t : Total α) (v : Vec3 α) : Total α := ⟨t.sum + v, t.count + 1⟩

/-- The number of samples as a scalar. -/
def size (t : Total α) : α := Scalar.ofWord t.count.toUInt64

def mean (t : Total α) : Vec3 α := t.sum / t.size

end Total

/-- The sums of an open window. -/
structure Window (α : Type) where
  gyro : Total α
  accel : Total α
  mag : Total α
  /-- The sum of the norms of the specific forces. -/
  normSum : α
  /-- The sum of the squares of these norms. -/
  squareSum : α

namespace Window

def empty : Window α := ⟨.empty, .empty, .empty, 0.0, 0.0⟩

/-- Add a specific force to the sums. -/
def addAccel (w : Window α) (v : Vec3 α) : Window α :=
  { w with
    accel := w.accel.add v
    normSum := w.normSum + v.norm
    squareSum := w.squareSum + v.norm * v.norm }

/-- The variance of the norm of the specific force. Rounding can make the difference of the means
negative, and a bad sample can make it undefined; both count as no variance. -/
def normVariance (w : Window α) : α :=
  let mean := w.normSum / w.accel.size
  let variance := w.squareSum / w.accel.size - mean * mean
  if 0.0 < variance then variance else 0.0

/-- The averages of the three sensors, when each has been heard. -/
def average? (w : Window α) : Option (Readings α) :=
  if w.gyro.count = 0 ∨ w.accel.count = 0 ∨ w.mag.count = 0 then none
  else some ⟨w.gyro.mean, w.accel.mean, w.mag.mean⟩

/-- The specific force varied less than the limit. -/
def isQuiet (w : Window α) (noiseLimit : α) : Bool :=
  decide (w.normVariance < noiseLimit * noiseLimit)

end Window

inductive Status where
  /-- Windows are being collected. -/
  | collecting
  /-- The averages have been handed out and samples are no longer taken. -/
  | locked
  deriving DecidableEq

def Status.name : Status → String
  | collecting => "Collecting"
  | locked => "Locked"

/-- The state of the detection. -/
structure Monitor (α : Type) where
  config : Config α
  window : Window α
  /-- Quiet windows since the last one that was not; the count does not wrap. -/
  quiet : UInt8
  status : Status

namespace Monitor

def new (config : Config α) : Monitor α := ⟨config, .empty, 0, .collecting⟩

/-- Forget everything but the configuration. -/
def reset (m : Monitor α) : Monitor α := new m.config

def addGyro (m : Monitor α) (v : Vec3 α) : Monitor α :=
  if m.status = .collecting then { m with window.gyro := m.window.gyro.add v } else m

def addMag (m : Monitor α) (v : Vec3 α) : Monitor α :=
  if m.status = .collecting then { m with window.mag := m.window.mag.add v } else m

/-- The number of accelerometer samples that closes a window. -/
def windowLength (m : Monitor α) : UInt32 :=
  if m.config.windowSamples = 0 then 1 else m.config.windowSamples

/-- Judge a complete window and open the next one. The averages are handed out when the window is
the last of enough quiet ones. -/
def close (m : Monitor α) (w : Window α) : Monitor α × Option (Readings α) :=
  let m : Monitor α := { m with window := .empty }
  match w.average? with
  | none => ({ m with quiet := 0 }, none)
  | some readings =>
    if w.isQuiet m.config.noiseLimit then
      let quiet := if m.quiet = 0xff then m.quiet else m.quiet + 1
      if m.config.quietWindows ≤ quiet then
        ({ m with quiet, status := .locked }, some readings)
      else ({ m with quiet }, none)
    else ({ m with quiet := 0 }, none)

/-- Take a specific force, which may complete a window. -/
def addAccel (m : Monitor α) (v : Vec3 α) : Monitor α × Option (Readings α) :=
  if m.status = .locked then (m, none)
  else
    let w := m.window.addAccel v
    if w.accel.count < m.windowLength then ({ m with window := w }, none) else m.close w

end Monitor
end Stillness
end Attitude
