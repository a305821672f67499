import CommissionRules.Proofs.Evaluation.Outcome

/-!
# Errors of expressions

Which errors the evaluation of an expression can end with.  An `ErrorInvariant` asks two things of
the nodes that it holds of: the errors that a node adds are allowed, and the invariant passes on to
the parts that are evaluated for the node.  Then no evaluation ends with another error
(`ErrorInvariant.eval_failsOnly`).
-/

namespace CommissionRules

open Eval

/-- The parts that may be evaluated for a node, each with the values of the parameters around it. -/
inductive Expr.Part (locals : Locals) : Expr → Expr → Locals → Prop
  | target {target property} : Part locals (.member target property) target locals
  | operand {op operand} : Part locals (.unary op operand) operand locals
  | left {op left right} : Part locals (.binary op left right) left locals
  | right {op left right} : Part locals (.binary op left right) right locals
  | first {op left right} : Part locals (.logical op left right) left locals
  | second {op left right} : Part locals (.logical op left right) right locals
  | condition {condition thenBranch elseBranch} :
      Part locals (.conditional condition thenBranch elseBranch) condition locals
  | thenBranch {condition thenBranch elseBranch} :
      Part locals (.conditional condition thenBranch elseBranch) thenBranch locals
  | elseBranch {condition thenBranch elseBranch} :
      Part locals (.conditional condition thenBranch elseBranch) elseBranch locals
  | argument {function args arg} (h : arg ∈ args) : Part locals (.call function args) arg locals
  | receiver {receiver name argument} : Part locals (.method receiver name argument) receiver locals
  | value {receiver name arg} : Part locals (.method receiver name (.value arg)) arg locals
  | body {receiver name param body} (item : Value) :
      Part locals (.method receiver name (.lambda param body)) body ((param, item) :: locals)

/-- A property of nodes, with the values of the parameters around them and their depth, that keeps
the errors of a run among those allowed. -/
structure ErrorInvariant (run : Run) (allowed : EvalError → Prop)
    (safe : Expr → Locals → (depth : Nat) → Prop) : Prop where
  steps : allowed (.stepBudgetExceeded run.budget.maxSteps)
  time : allowed (.timedOut run.budget.timeout)
  values : ∀ error, error.ofValues = true → allowed error
  deep : ∀ {e locals depth}, safe e locals depth → run.budget.maxDepth < depth →
    allowed (.depthExceeded run.budget.maxDepth)
  absent : ∀ {source path locals depth}, safe (.ref source path) locals depth →
    locals.lookup source = none → run.context.get? source = none → allowed (.inputNotFound source)
  called : ∀ {function args locals depth}, safe (.call function args) locals depth →
    ∀ arguments, arguments.length = args.length →
      ErrorsIn allowed (Function.call function arguments)
  known : ∀ {receiver name argument locals depth},
    safe (.method receiver name argument) locals depth → Catalog.method? name = none →
      allowed (.invalidArgument name .unknownMethod)
  lambda : ∀ {receiver name argument locals depth},
    safe (.method receiver name argument) locals depth →
      ∀ spec, Catalog.method? name = some spec → spec.argument = .lambda →
        (∀ param body, argument ≠ .lambda param body) → allowed (.invalidArgument name .notALambda)
  value : ∀ {receiver name argument locals depth},
    safe (.method receiver name argument) locals depth →
      ∀ spec, Catalog.method? name = some spec → spec.argument = .value →
        (∀ arg, argument ≠ .value arg) → allowed (.invalidArgument name .notAValue)
  part : ∀ {e locals depth part locals'}, safe e locals depth → e.Part locals part locals' →
    safe part locals' (depth + 1)

namespace ErrorInvariant

variable {run : Run} {allowed : EvalError → Prop} {safe : Expr → Locals → Nat → Prop}
  (inv : ErrorInvariant run allowed safe)

include inv

theorem enter {α : Type} {e : Expr} {locals : Locals} {depth : Nat} {node : Eval α}
    (h : safe e locals depth) (hnode : FailsOnly allowed node) :
    FailsOnly allowed (run.enter depth node) :=
  run.enter_failsOnly inv.steps inv.time (inv.deep h) hnode

theorem truth (operation : String) (value : Value) :
    FailsOnly allowed (Run.truth operation value) :=
  Run.truth_failsOnly inv.values operation value

/-- An argument is evaluated once, or once for each item with a step before it. -/
theorem operand {receiver : Expr} {name : String} {argument : Argument Expr} {locals : Locals}
    {depth : Nat} (h : safe (.method receiver name argument) locals depth)
    (harg : ∀ arg ∈ argument.toList, ∀ locals', safe arg locals' (depth + 1) →
      FailsOnly allowed (run.eval arg locals' (depth + 1))) :
    (run.operand argument locals (depth + 1)).FailsOnly allowed := by
  cases argument with
  | none =>
    rw [Run.operand]
    trivial
  | value arg =>
    rw [Run.operand]
    exact harg arg (List.mem_singleton.mpr rfl) locals (inv.part h .value)
  | lambda param body =>
    rw [Run.operand]
    intro item
    exact failsOnly_bind (run.tick_failsOnly inv.steps inv.time) fun _ =>
      harg body (List.mem_singleton.mpr rfl) _ (inv.part h (.body item))

theorem method {receiver : Expr} {name : String} {argument : Argument Expr} {locals : Locals}
    {depth : Nat} (h : safe (.method receiver name argument) locals depth)
    (hoperand : (run.operand argument locals (depth + 1)).FailsOnly allowed) (items : List Value) :
    FailsOnly allowed
      (Collection.apply name items (run.operand argument locals (depth + 1))) := by
  refine Collection.apply_failsOnly_of inv.values name items ?_ ?_ (inv.known h)
  · intro spec hspec hkind item
    refine Collection.applyTo_failsOnly hoperand (fun hother => ?_) item
    refine inv.lambda h spec hspec hkind fun param body heq => ?_
    rw [heq, Run.operand] at hother
    exact hother _ rfl
  · intro spec hspec hkind
    refine Collection.count_failsOnly inv.values hoperand fun hother => ?_
    refine inv.value h spec hspec hkind fun arg heq => ?_
    rw [heq, Run.operand] at hother
    exact hother _ rfl

theorem eval_failsOnly {e : Expr} {locals : Locals} {depth : Nat} (h : safe e locals depth) :
    FailsOnly allowed (run.eval e locals depth) := by
  have values := inv.values
  induction e using Expr.induct generalizing locals depth with
  | literal value =>
    rw [Run.eval]
    exact inv.enter h (failsOnly_pure _)
  | ref source path =>
    rw [Run.eval]
    refine inv.enter h (failsOnly_bind ?_ fun value => ?_)
    · exact failsOnly_of_errorsIn (run.resolve_errorsIn locals source (inv.absent h))
    · exact failsOnly_of_errorsIn (value.follow_errorsIn values path)
  | member target property ih =>
    rw [Run.eval]
    refine inv.enter h (failsOnly_bind (ih (inv.part h .target)) fun value => ?_)
    exact failsOnly_of_errorsIn (value.property_errorsIn values property)
  | unary op operand ih =>
    rw [Run.eval]
    refine inv.enter h (failsOnly_bind (ih (inv.part h .operand)) fun value => ?_)
    exact failsOnly_of_errorsIn (op.evaluate_errorsIn values value)
  | binary op left right ihLeft ihRight =>
    rw [Run.eval]
    refine inv.enter h (failsOnly_bind (ihLeft (inv.part h .left)) fun a => ?_)
    refine failsOnly_bind (ihRight (inv.part h .right)) fun b => ?_
    exact failsOnly_of_errorsIn (op.evaluate_errorsIn values a b)
  | logical op left right ihLeft ihRight =>
    rw [Run.eval]
    refine inv.enter h (failsOnly_bind (ihLeft (inv.part h .first)) fun value => ?_)
    refine failsOnly_bind (inv.truth _ value) fun a => ?_
    split
    · exact failsOnly_pure _
    · exact failsOnly_pure _
    · refine failsOnly_bind (ihRight (inv.part h .second)) fun value => ?_
      exact failsOnly_bind (inv.truth _ value) fun _ => failsOnly_pure _
  | conditional condition thenBranch elseBranch ih ihThen ihElse =>
    rw [Run.eval]
    refine inv.enter h (failsOnly_bind (ih (inv.part h .condition)) fun value => ?_)
    refine failsOnly_bind (inv.truth _ value) fun b => ?_
    split
    · exact ihThen (inv.part h .thenBranch)
    · exact ihElse (inv.part h .elseBranch)
  | call function args ih =>
    rw [Run.eval]
    have hargs : FailsOnly allowed (run.evalArgs args locals (depth + 1)) :=
      run.evalArgs_failsOnly fun arg harg => ih arg harg (inv.part h (.argument harg))
    refine inv.enter h ?_
    refine failsOnly_bind_of_returns hargs (run.evalArgs_returns_length args locals _) ?_
    exact fun arguments hlength => failsOnly_of_errorsIn (inv.called h arguments hlength)
  | method receiver name argument ih ihArgument =>
    rw [Run.eval]
    refine inv.enter h (failsOnly_bind (ih (inv.part h .receiver)) fun value => ?_)
    split
    · next items =>
      exact inv.method h (inv.operand h fun arg harg _ hsafe => ihArgument arg harg hsafe) items
    · exact failsOnly_throw (values _ rfl)

end ErrorInvariant

end CommissionRules
