import CommissionRules.Proofs.Depth
import CommissionRules.Proofs.Evaluation.Cutoff

/-!
# What lies too deep

The depth of a budget bounds what an evaluation can see of a tree, whether or not a compiler has
made it.  A node that lies deeper is refused before it is looked at, so that it makes no difference
what stands there: trees that are the same down to the depth (`Expr.Regrown`) have the same outcome
after the same number of steps.  The refusal shows only where the tree is higher than the budget is
deep: `Run.blind_below_depth`.
-/

namespace CommissionRules

namespace Expr

/-- Two trees have the same root, and their parts are related one by one. -/
inductive Alike (part : Expr → Expr → Prop) : Expr → Expr → Prop
  | literal (value : Value) : Alike part (.literal value) (.literal value)
  | ref (source : String) (path : List String) : Alike part (.ref source path) (.ref source path)
  | member {target target' : Expr} (property : String) (below : part target target') :
      Alike part (.member target property) (.member target' property)
  | unary {operand operand' : Expr} (op : UnaryOp) (below : part operand operand') :
      Alike part (.unary op operand) (.unary op operand')
  | binary {left left' right right' : Expr} (op : BinaryOp) (below : part left left')
      (belowRight : part right right') :
      Alike part (.binary op left right) (.binary op left' right')
  | logical {left left' right right' : Expr} (op : LogicalOp) (below : part left left')
      (belowRight : part right right') :
      Alike part (.logical op left right) (.logical op left' right')
  | conditional {condition condition' thenBranch thenBranch' elseBranch elseBranch' : Expr}
      (below : part condition condition') (belowThen : part thenBranch thenBranch')
      (belowElse : part elseBranch elseBranch') :
      Alike part (.conditional condition thenBranch elseBranch)
        (.conditional condition' thenBranch' elseBranch')
  | call {args args' : List Expr} (function : String) (below : List.Forall₂ part args args') :
      Alike part (.call function args) (.call function args')
  | plainMethod {receiver receiver' : Expr} (name : String) (below : part receiver receiver') :
      Alike part (.method receiver name .none) (.method receiver' name .none)
  | valueMethod {receiver receiver' arg arg' : Expr} (name : String)
      (below : part receiver receiver') (belowArg : part arg arg') :
      Alike part (.method receiver name (.value arg)) (.method receiver' name (.value arg'))
  | lambdaMethod {receiver receiver' body body' : Expr} (name param : String)
      (below : part receiver receiver') (belowBody : part body body') :
      Alike part (.method receiver name (.lambda param body))
        (.method receiver' name (.lambda param body'))

/-- The second tree is the first one with each subtree that has `n` nodes above it replaced by some
tree, which can be any. -/
def Regrown : (n : Nat) → Expr → Expr → Prop
  | 0 => fun _ _ => True
  | n + 1 => Alike (Regrown n)

end Expr

namespace Run

variable (run : Run)

/-- A node that lies too deep is refused, whatever it is. -/
theorem eval_of_lt {depth : Nat} (h : run.budget.maxDepth < depth) (e : Expr) (locals : Locals) :
    run.eval e locals depth = throw (.depthExceeded run.budget.maxDepth) := by
  cases e <;> rw [eval, run.enter_of_lt h]

theorem evalArgs_congr {args args' : List Expr} {locals : Locals} {depth : Nat}
    (h : List.Forall₂ (fun arg arg' => run.eval arg locals depth = run.eval arg' locals depth)
      args args') : run.evalArgs args locals depth = run.evalArgs args' locals depth := by
  induction h with
  | nil => rfl
  | cons hfirst _ ih => rw [evalArgs, evalArgs, hfirst, ih]

/-- A node is evaluated to the same where its parts are, which it evaluates one level deeper. -/
theorem eval_alike {part : Expr → Expr → Prop} {e e' : Expr} (h : Expr.Alike part e e')
    (locals : Locals) {depth : Nat} (hpart : ∀ {e e' : Expr}, part e e' → ∀ locals,
      run.eval e locals (depth + 1) = run.eval e' locals (depth + 1)) :
    run.eval e locals depth = run.eval e' locals depth := by
  cases h with
  | literal => rfl
  | ref => rfl
  | member property below => rw [eval, eval, hpart below]
  | unary op below => rw [eval, eval, hpart below]
  | binary op below belowRight => rw [eval, eval, hpart below, hpart belowRight]
  | logical op below belowRight => rw [eval, eval, hpart below, hpart belowRight]
  | conditional below belowThen belowElse =>
    rw [eval, eval, hpart below, hpart belowThen, hpart belowElse]
  | call function below =>
    have hargs := run.evalArgs_congr (below.imp fun _ _ below => hpart below locals)
    rw [eval, eval, hargs]
  | plainMethod name below => rw [eval, eval, hpart below]
  | valueMethod name below belowArg =>
    rw [eval, eval, hpart below, operand, operand, hpart belowArg]
  | lambdaMethod name param below belowBody =>
    have hbody (item : Value) := hpart belowBody ((param, item) :: locals)
    rw [eval, eval, hpart below, operand, operand]
    simp only [hbody]

/-- The induction is on the levels that are the same.  Every part of a node, also the body of a
lambda, is evaluated one level deeper than the node, so that the level at which the trees differ is
met beyond the depth of the budget. -/
theorem eval_regrown {n : Nat} {e e' : Expr} (h : e.Regrown n e') (locals : Locals) {depth : Nat}
    (hdepth : run.budget.maxDepth < n + depth) :
    run.eval e locals depth = run.eval e' locals depth := by
  induction n generalizing e e' locals depth with
  | zero =>
    rw [Nat.zero_add] at hdepth
    rw [run.eval_of_lt hdepth, run.eval_of_lt hdepth]
  | succ n ih => exact run.eval_alike h locals fun below locals => ih below locals (by omega)

/-- Whatever stands deeper in a tree than the budget is deep, the outcome and the number of steps
are the same, and the depth is exceeded only where the tree is higher than the budget is deep. -/
theorem blind_below_depth (e : Expr) :
    (∀ e', e.Regrown run.budget.maxDepth e' → run.evaluate e' = run.evaluate e) ∧
      ∀ limit, (run.evaluate e).1 = .error (.depthExceeded limit) →
        run.budget.maxDepth < e.depth := by
  constructor
  · intro e' h
    have heval : run.eval e [] 1 = run.eval e' [] 1 :=
      run.eval_regrown h [] (Nat.lt_succ_self _)
    exact congrArg (fun computation => computation.run.run 0) heval.symm
  · intro limit hexceeded
    by_contra hdepth
    exact run.evaluate_ne_depthExceeded (Nat.le_of_not_lt hdepth) limit hexceeded

/-- Whether a test is false of some row. -/
def negatedTest (test : Expr) : Expr :=
  .method (.ref "rows" []) "any" (.lambda "row" (.unary .not test))

/-- A budget of two levels sees neither what the test in the lambda is nor how high it is. -/
theorem blind_below_depth_negatedTest :
    let run : Run := ⟨.ofList [("rows", .list [.null])], ⟨2, 100, 100⟩, fun _ => 0⟩
    let test : Expr := .ref "row" []
    (negatedTest test).Regrown 2 (negatedTest (negatedTest test)) ∧
      run.evaluate (negatedTest (negatedTest test)) = run.evaluate (negatedTest test) ∧
      (run.evaluate (negatedTest test)).1 = .error (.depthExceeded 2) ∧
      2 < (negatedTest test).depth := by
  intro run test
  have hregrown : (negatedTest test).Regrown 2 (negatedTest (negatedTest test)) :=
    .lambdaMethod "any" "row" (.ref "rows" []) (.unary .not trivial)
  have hexceeded : (run.evaluate (negatedTest test)).1 = .error (.depthExceeded 2) := by
    cbv
  have h := run.blind_below_depth (negatedTest test)
  exact ⟨hregrown, h.1 _ hregrown, hexceeded, h.2 2 hexceeded⟩

end Run

end CommissionRules
