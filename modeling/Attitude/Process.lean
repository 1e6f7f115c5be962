/-!
# Processes

A process answers each input with some outputs and a new state. `Process.run` feeds it a list of
inputs and gathers the outputs in order; `Process.run_append` lets a history be cut anywhere.
-/

namespace Attitude

/-- A step from a state and an input to a state and the outputs on the way. -/
abbrev Process (State Input Output : Type) := State → Input → State × List Output

namespace Process
variable {State Input Output : Type}

/-- Feed a list of inputs, and gather the outputs. -/
def run (step : Process State Input Output) : State → List Input → State × List Output
  | s, [] => (s, [])
  | s, e :: es =>
    let (s, now) := step s e
    let (s, later) := run step s es
    (s, now ++ later)

@[simp] theorem run_nil (step : Process State Input Output) (s : State) :
    run step s [] = (s, []) := rfl

theorem run_cons (step : Process State Input Output) (s : State) (e : Input) (es : List Input) :
    run step s (e :: es) =
      ((run step (step s e).1 es).1, (step s e).2 ++ (run step (step s e).1 es).2) := rfl

theorem run_append (step : Process State Input Output) (s : State) (es fs : List Input) :
    run step s (es ++ fs) =
      ((run step (run step s es).1 fs).1,
        (run step s es).2 ++ (run step (run step s es).1 fs).2) := by
  induction es generalizing s with
  | nil => rfl
  | cons e es ih => simp [run_cons, ih]

end Process
end Attitude
