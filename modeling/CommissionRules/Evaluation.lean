import CommissionRules.Evaluation.Collection
import CommissionRules.Evaluation.Function
import CommissionRules.Evaluation.Operation
import CommissionRules.Expr

/-!
# Evaluation

The value of an expression in a run.  Every node counts one step, and so does every application of
a lambda; the depth of a node is the number of nodes from the root down to it.
-/

namespace CommissionRules

/-- The values of the lambda parameters in scope, the innermost first. -/
abbrev Locals := List (String × Value)

namespace Run

variable (run : Run)

/-- The value of a name: a lambda parameter, or else a data source. -/
def resolve (locals : Locals) (source : String) : Except EvalError Value :=
  match locals.lookup source with
  | some value => .ok value
  | none =>
      match run.context.get? source with
      | some value => .ok value
      | none => .error (.inputNotFound source)

def truth (operation : String) (value : Value) : Eval Bool :=
  match value with
  | .bool b => pure b
  | other => throw (.typeMismatch operation "Bool" other)

mutual

def eval : Expr → Locals → (depth : Nat) → Eval Value
  | .literal value, _, depth => run.enter depth (pure value)
  | .ref source path, locals, depth => run.enter depth do
      let value ← .ofExcept (run.resolve locals source)
      .ofExcept (value.follow path)
  | .member target name, locals, depth => run.enter depth do
      let value ← eval target locals (depth + 1)
      .ofExcept (value.property name)
  | .unary op operand, locals, depth => run.enter depth do
      let value ← eval operand locals (depth + 1)
      .ofExcept (op.evaluate value)
  | .binary op left right, locals, depth => run.enter depth do
      let a ← eval left locals (depth + 1)
      let b ← eval right locals (depth + 1)
      .ofExcept (op.evaluate a b)
  | .logical op left right, locals, depth => run.enter depth do
      let a ← truth op.symbol (← eval left locals (depth + 1))
      match op, a with
      | .and, false => pure (.bool false)
      | .or, true => pure (.bool true)
      | _, _ => pure (.bool (← truth op.symbol (← eval right locals (depth + 1))))
  | .conditional condition thenBranch elseBranch, locals, depth => run.enter depth do
      if ← truth conditionalSpec.id (← eval condition locals (depth + 1)) then
        eval thenBranch locals (depth + 1)
      else eval elseBranch locals (depth + 1)
  | .call function args, locals, depth => run.enter depth do
      let values ← evalArgs args locals (depth + 1)
      .ofExcept (Function.call function values)
  | .method receiver name argument, locals, depth => run.enter depth do
      match ← eval receiver locals (depth + 1) with
      | .list items => Collection.apply name items (operand argument locals (depth + 1))
      | other => throw (.typeMismatch name "List" other)

def evalArgs : List Expr → Locals → (depth : Nat) → Eval (List Value)
  | [], _, _ => pure []
  | arg :: rest, locals, depth => do
      let value ← eval arg locals depth
      let values ← evalArgs rest locals depth
      pure (value :: values)

/-- The argument of a method, ready to be evaluated. -/
def operand : Argument Expr → Locals → (depth : Nat) → Operand
  | .none, _, _ => .none
  | .value arg, locals, depth => .value (eval arg locals depth)
  | .lambda param body, locals, depth => .lambda fun item => do
      run.tick
      eval body ((param, item) :: locals) depth

end

/-- The outcome of an expression, and the number of steps taken. -/
def evaluate (e : Expr) : Except EvalError Value × Nat := (run.eval e [] 1).run.run 0

end Run

end CommissionRules
