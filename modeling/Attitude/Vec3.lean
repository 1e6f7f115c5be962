import Attitude.Scalar

/-!
# Vectors in three dimensions

Components along the axes of one frame. Sums, differences, products and quotients by a scalar are
taken component by component; a quotient divides each component and never multiplies by an inverse.
-/

namespace Attitude

/-- A vector by its components in some frame. -/
@[ext] structure Vec3 (α : Type) where
  x : α
  y : α
  z : α

namespace Vec3
variable {α : Type} [Scalar α]

/-- The vector with three equal components. -/
def replicate (a : α) : Vec3 α := ⟨a, a, a⟩

def zero : Vec3 α := replicate 0.0

instance : Add (Vec3 α) := ⟨fun v w => ⟨v.x + w.x, v.y + w.y, v.z + w.z⟩⟩
instance : Sub (Vec3 α) := ⟨fun v w => ⟨v.x - w.x, v.y - w.y, v.z - w.z⟩⟩
instance : HMul (Vec3 α) α (Vec3 α) := ⟨fun v a => ⟨v.x * a, v.y * a, v.z * a⟩⟩
instance : HDiv (Vec3 α) α (Vec3 α) := ⟨fun v a => ⟨v.x / a, v.y / a, v.z / a⟩⟩

@[simp] theorem x_add (v w : Vec3 α) : (v + w).x = v.x + w.x := rfl
@[simp] theorem y_add (v w : Vec3 α) : (v + w).y = v.y + w.y := rfl
@[simp] theorem z_add (v w : Vec3 α) : (v + w).z = v.z + w.z := rfl
@[simp] theorem x_sub (v w : Vec3 α) : (v - w).x = v.x - w.x := rfl
@[simp] theorem y_sub (v w : Vec3 α) : (v - w).y = v.y - w.y := rfl
@[simp] theorem z_sub (v w : Vec3 α) : (v - w).z = v.z - w.z := rfl
@[simp] theorem x_mul (v : Vec3 α) (a : α) : (v * a).x = v.x * a := rfl
@[simp] theorem y_mul (v : Vec3 α) (a : α) : (v * a).y = v.y * a := rfl
@[simp] theorem z_mul (v : Vec3 α) (a : α) : (v * a).z = v.z * a := rfl
@[simp] theorem x_div (v : Vec3 α) (a : α) : (v / a).x = v.x / a := rfl
@[simp] theorem y_div (v : Vec3 α) (a : α) : (v / a).y = v.y / a := rfl
@[simp] theorem z_div (v : Vec3 α) (a : α) : (v / a).z = v.z / a := rfl

/-- The component along an axis, by its number. -/
def component (v : Vec3 α) : Fin 3 → α
  | 0 => v.x
  | 1 => v.y
  | 2 => v.z

/-- The components in order. -/
def toList (v : Vec3 α) : List α := [v.x, v.y, v.z]

/-- Every component is finite. -/
def isFinite (v : Vec3 α) : Bool := allFinite v.toList

/-- The sum of the squared components, from the first to the last. -/
def normSq (v : Vec3 α) : α := v.x * v.x + v.y * v.y + v.z * v.z

def norm (v : Vec3 α) : α := Scalar.sqrt v.normSq

def cross (v w : Vec3 α) : Vec3 α :=
  ⟨v.y * w.z - v.z * w.y, v.z * w.x - v.x * w.z, v.x * w.y - v.y * w.x⟩

/-- The direction of a vector, or nothing when its norm is at most `least`. An infinite or
undefined norm is not caught by the test, and the quotient is then whatever division gives. -/
def direction? (v : Vec3 α) (least : α) : Option (Vec3 α) :=
  if v.norm ≤ least then none else some (v / v.norm)

end Vec3
end Attitude
