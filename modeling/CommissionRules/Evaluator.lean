import CommissionRules.Compiler
import CommissionRules.Evaluation

/-!
# Evaluators

An evaluator compiles expressions and evaluates them under a budget.
-/

namespace CommissionRules

inductive Failure where
  | compile (error : CompileError)
  | eval (error : EvalError)

namespace Failure

def message : Failure → String
  | compile e => e.message
  | eval e => e.message

end Failure

structure Evaluator where
  compiler : Compiler
  budget : Budget
  /-- The milliseconds that have passed after a number of steps. -/
  elapsed : (steps : Nat) → Nat

namespace Evaluator

variable (evaluator : Evaluator)

/-- The value of a syntax tree, which need not come from a compiler. -/
def eval (e : Expr) (context : Context) : Except EvalError Value :=
  (Run.evaluate ⟨context, evaluator.budget, evaluator.elapsed⟩ e).1

def run (compiled : CompiledExpression) (context : Context) : Except EvalError Value :=
  evaluator.eval compiled.expr context

def evaluate (source : String) (context : Context) : Except Failure Value :=
  match evaluator.compiler.compile source with
  | .error e => .error (.compile e)
  | .ok compiled =>
      match evaluator.run compiled context with
      | .error e => .error (.eval e)
      | .ok value => .ok value

end Evaluator

/-- Holds of an outcome that is the boolean true. -/
def isTrue {ε : Type} : Except ε Value → Bool
  | .ok (.bool b) => b
  | _ => false

end CommissionRules
