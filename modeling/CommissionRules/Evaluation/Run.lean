import CommissionRules.Config
import CommissionRules.Context
import CommissionRules.EvalError

/-!
# Runs

A run evaluates one expression in a context under a budget.  It counts steps, also when it fails,
and after every 256th step it looks at the clock.  The clock is part of the run: it says how many
milliseconds have passed after a number of steps.
-/

namespace CommissionRules

/-- What an evaluation depends on besides the expression. -/
structure Run where
  context : Context
  budget : Budget
  elapsed : (steps : Nat) → Nat

abbrev Eval := ExceptT EvalError (StateM Nat)

namespace Eval

/-- A computation without steps. -/
def ofExcept {α : Type} : Except EvalError α → Eval α
  | .ok a => pure a
  | .error e => throw e

def all {α β : Type} (f : α → Eval β) : List α → Eval (List β)
  | [] => pure []
  | a :: rest => do
      let b ← f a
      let others ← all f rest
      pure (b :: others)

end Eval

namespace Run

variable (run : Run)

/-- How many steps pass between two looks at the clock. -/
def clockInterval : Nat := 256

def tick : Eval Unit := do
  let steps := (← get) + 1
  set steps
  if run.budget.maxSteps < steps then throw (.stepBudgetExceeded run.budget.maxSteps)
  else if steps % clockInterval = 0 && run.budget.timeout < run.elapsed steps then
    throw (.timedOut run.budget.timeout)
  else pure ()

/-- Enters a node at the given depth, where the root has depth one. -/
def enter {α : Type} (depth : Nat) (node : Eval α) : Eval α := do
  if run.budget.maxDepth < depth then throw (.depthExceeded run.budget.maxDepth)
  else
    run.tick
    node

end Run

end CommissionRules
