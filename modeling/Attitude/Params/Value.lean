import Attitude.Binary32.Integer

/-!
# Values of parameters

A parameter is a flag, an integer or a number. A reader asks for the kind it needs and gets the
value converted: a flag counts as zero or one, a number loses its fraction on the way to an
integer, and everything but zero is true.
-/

namespace Attitude

/-- Why a parameter operation is refused. -/
inductive ParameterError where
  /-- The name is unknown, or longer than the store accepts. -/
  | invalidConfig
  /-- There is no room for another name. -/
  | storeFull
  /-- The estimator cannot use a value. -/
  | outOfRange
  deriving DecidableEq

namespace ParameterError

def all : List ParameterError := [.invalidConfig, .storeFull, .outOfRange]

def name : ParameterError → String
  | invalidConfig => "InvalidConfig"
  | storeFull => "StoreFull"
  | outOfRange => "OutOfRange"

def message : ParameterError → String
  | invalidConfig => "invalid parameter configuration"
  | storeFull => "parameter store full"
  | outOfRange => "parameter value out of range"

end ParameterError

/-- The value of a parameter. -/
inductive ParameterValue where
  | flag (b : Bool)
  | integer (i : Int32)
  | number (x : Float32)

namespace ParameterValue

def toNumber : ParameterValue → Float32
  | flag b => if b then 1.0 else 0.0
  | integer i => Binary32.ofInt32 i
  | number x => x

def toInteger : ParameterValue → Int32
  | flag b => if b then 1 else 0
  | integer i => i
  | number x => Binary32.toInt32 x

def toFlag : ParameterValue → Bool
  | flag b => b
  | integer i => i != 0
  | number x => x != 0.0

end ParameterValue
end Attitude
