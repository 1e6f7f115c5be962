import Attitude.Params
import Attitude.Session

/-!
# Sessions from parameters

Parameters configure a session once they have been validated. What they do not mention takes its
default: the longest gap, and how stillness is detected.
-/

namespace Attitude.Session

/-- The propagation timing that the parameters choose. -/
def Timing.ofParams (p : Params) : Timing Float32 :=
  match p.fixedFrequency? with
  | some frequency => .fixed frequency
  | none => .measured

/-- The configuration of a session, if the parameters are usable. -/
def Config.ofParams (p : Params) : Except ParameterError (Config Float32) := do
  p.validate
  return { Config.default with
    estimator := p.estimatorConfig
    mounting := p.mounting
    timing := .ofParams p
    sender := p.sender
    fieldRate := p.fieldRate }

end Attitude.Session
