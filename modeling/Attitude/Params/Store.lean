import Attitude.Params.Value

/-!
# The parameter store

A bounded map from names to values, in the order of registration. A name must be registered before
it can be set; registering it again changes nothing, so a default never overwrites a value.

## Main definitions

* `ParameterName`: a text of at most sixteen bytes
* `ParameterStore` with `register`, `set` and `get?`
-/

namespace Attitude

/-- The largest number of bytes of a name. -/
def maxNameBytes : Nat := 16

/-- A text short enough to name a parameter. -/
def ParameterName : Type := { s : String // s.utf8ByteSize ≤ maxNameBytes }

namespace ParameterName

instance : DecidableEq ParameterName := inferInstanceAs (DecidableEq { _s : String // _ })

/-- The name with the given text, unless it is too long. -/
def ofString? (s : String) : Option ParameterName :=
  if h : s.utf8ByteSize ≤ maxNameBytes then some ⟨s, h⟩ else none

end ParameterName

/-- Registered parameters, the oldest first. -/
structure ParameterStore where
  entries : List (ParameterName × ParameterValue)

namespace ParameterStore

/-- The largest number of parameters. -/
def capacity : Nat := 32

def empty : ParameterStore := ⟨[]⟩

def size (s : ParameterStore) : Nat := s.entries.length

def isEmpty (s : ParameterStore) : Bool := s.entries.isEmpty

/-- The value registered under a name. -/
def find? (s : ParameterStore) (n : ParameterName) : Option ParameterValue := s.entries.lookup n

/-- Replace the value of a registered name. -/
def replace (s : ParameterStore) (n : ParameterName) (v : ParameterValue) : ParameterStore :=
  ⟨s.entries.map fun e => if e.1 = n then (n, v) else e⟩

/-- The value under a text. A text that is too long names nothing. -/
def get? (s : ParameterStore) (name : String) : Option ParameterValue :=
  (ParameterName.ofString? name).bind s.find?

/-- Register a name with its default value. A name that is present keeps its value. -/
def register (s : ParameterStore) (name : String) (v : ParameterValue) :
    Except ParameterError ParameterStore :=
  match ParameterName.ofString? name with
  | none => .error .invalidConfig
  | some n =>
    if (s.find? n).isSome then .ok s
    else if s.size < capacity then .ok ⟨s.entries ++ [(n, v)]⟩
    else .error .storeFull

/-- Change the value of a registered name. -/
def set (s : ParameterStore) (name : String) (v : ParameterValue) :
    Except ParameterError ParameterStore :=
  match ParameterName.ofString? name with
  | none => .error .invalidConfig
  | some n => if (s.find? n).isSome then .ok (s.replace n v) else .error .invalidConfig

def getNumber (s : ParameterStore) (name : String) (fallback : Float32) : Float32 :=
  (s.get? name).elim fallback ParameterValue.toNumber

def getInteger (s : ParameterStore) (name : String) (fallback : Int32) : Int32 :=
  (s.get? name).elim fallback ParameterValue.toInteger

def getFlag (s : ParameterStore) (name : String) (fallback : Bool) : Bool :=
  (s.get? name).elim fallback ParameterValue.toFlag

end ParameterStore
end Attitude
