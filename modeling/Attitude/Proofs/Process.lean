import Mathlib.Data.List.TakeDrop
import Attitude.Process

/-!
# Runs of processes

What every step keeps, every run keeps. A run can be cut at any position: the state before an input
is the state after the inputs that precede it, and the outputs of that one step stand between the
outputs of the two parts.
-/

namespace Attitude.Process
variable {State Input Output : Type}

/-- An invariant of the steps is an invariant of the runs. -/
theorem run_invariant (step : Process State Input Output) (Inv : State → Prop)
    (h : ∀ s e, Inv s → Inv (step s e).1) {s : State} (hs : Inv s) (es : List Input) :
    Inv (run step s es).1 := by
  induction es generalizing s with
  | nil => exact hs
  | cons e es ih =>
      rw [run_cons]
      exact ih (h s e hs)

/-- The outputs of a run around the step at one position. -/
theorem run_outputs_split (step : Process State Input Output) (s : State) (es : List Input)
    (k : ℕ) (hk : k < es.length) :
    (run step s es).2 = (run step s (es.take k)).2 ++ (step (run step s (es.take k)).1 es[k]).2 ++
      (run step (step (run step s (es.take k)).1 es[k]).1 (es.drop (k + 1))).2 := by
  have hsplit : es = es.take k ++ es[k] :: es.drop (k + 1) := by
    rw [List.cons_getElem_drop_succ, List.take_append_drop]
  conv_lhs => rw [hsplit]
  rw [run_append, run_cons, List.append_assoc]

end Attitude.Process
