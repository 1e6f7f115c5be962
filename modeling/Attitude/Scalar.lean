/-!
# Scalars of the attitude estimator

The estimator is written once, over any type that carries the operations below. At binary32 it
runs; at the real numbers the same definitions are the exact algorithm, so a law of the algorithm
and a property of the running program speak about one text.

No law is asked of a scalar. Expressions are therefore evaluated exactly as they are written: a
sum is never reassociated, and a constant is a decimal literal that each scalar reads in its own
way. Comparisons are propositions with a decision procedure, because on binary32 `¬ a < b` and
`b ≤ a` differ as soon as an operand is not a number.

## Main definitions

* `Scalar`: arithmetic, order, square root, trigonometry and the two conversions to and from
  machine words.
* `allFinite`: every scalar of a list is finite.
-/

namespace Attitude

/-- The operations that the estimator performs on its numbers. -/
class Scalar (α : Type) extends
    Add α, Sub α, Mul α, Div α, Neg α, LT α, LE α, OfScientific α where
  /-- Order tests are decided, and fail when an operand is not a number. -/
  decidableLT : DecidableLT α
  decidableLE : DecidableLE α
  abs : α → α
  sqrt : α → α
  sin : α → α
  cos : α → α
  arcsin : α → α
  /-- The angle of the point whose ordinate is the first argument. -/
  arctan2 : α → α → α
  /-- A quarter turn. -/
  quarterTurn : α
  /-- Neither infinite nor undefined. -/
  isFinite : α → Bool
  /-- The scalar nearest to a word. -/
  ofWord : UInt64 → α
  /-- The integer part, held within the range of a word. -/
  toWord : α → UInt64

instance Scalar.instDecidableLT {α : Type} [Scalar α] : DecidableLT α := Scalar.decidableLT
instance Scalar.instDecidableLE {α : Type} [Scalar α] : DecidableLE α := Scalar.decidableLE

/-- Every scalar of the list is finite. -/
def allFinite {α : Type} [Scalar α] (xs : List α) : Bool := xs.all Scalar.isFinite

@[simp] theorem allFinite_nil {α : Type} [Scalar α] : allFinite ([] : List α) = true := rfl

@[simp] theorem allFinite_cons {α : Type} [Scalar α] (x : α) (xs : List α) :
    allFinite (x :: xs) = (Scalar.isFinite x && allFinite xs) := rfl

end Attitude
