import Mathlib
import CommissionRules.Compiler
import CommissionRules.Proofs.Evaluation.Errors
import CommissionRules.Proofs.Grammar.Formation

/-!
# Depth

The compiler and the evaluator count the same thing.  The height that is carried along while an
expression is read is the height of its tree (`Grammar.Formed.height_eq_depth`), and an
evaluation enters no node deeper than the tree is high (`Run.withinDepth`).  Hence the
limit of the compiler bounds every tree that it gives, and no such tree ever exceeds a budget of
the same depth.
-/

namespace CommissionRules

/-! ## Heights -/

namespace Expr

@[simp] theorem depth_literal (value : Value) : (literal value).depth = 1 := by rw [depth]

@[simp] theorem depth_ref (source : String) (path : List String) :
    (ref source path).depth = 1 := by rw [depth]

theorem depth_apply (c : Connective) (left right : Expr) :
    (c.apply left right).depth = max left.depth right.depth + 1 := by
  cases c <;> rw [Connective.apply, depth]

theorem depth_le_depthArgs {args : List Expr} {arg : Expr} (h : arg ∈ args) :
    arg.depth ≤ depthArgs args := by
  induction args with
  | nil => cases h
  | cons head rest ih =>
    rw [depthArgs]
    rcases List.mem_cons.1 h with rfl | h
    · exact Nat.le_max_left _ _
    · exact Nat.le_trans (ih h) (Nat.le_max_right _ _)

theorem depth_pos (e : Expr) : 1 ≤ e.depth := by
  cases e <;> rw [depth] <;> omega

/-- Every part of a node is at least one level less high, also the body of a lambda. -/
theorem Part.depth_lt {e part : Expr} {locals locals' : Locals} (h : e.Part locals part locals') :
    part.depth < e.depth := by
  cases h with
  | argument harg =>
    have := depth_le_depthArgs harg
    rw [depth]
    omega
  | value | body =>
    rw [depth, depthArgument]
    omega
  | _ =>
    rw [depth]
    omega

end Expr

namespace Grammar

theorem tallest_eq_depthArgs {parts : List Parsed}
    (h : ∀ part ∈ parts, part.height = part.expr.depth) :
    Parsed.tallest parts = Expr.depthArgs (parts.map Parsed.expr) := by
  induction parts with
  | nil => rfl
  | cons part rest ih =>
    rw [List.map_cons, Expr.depthArgs, ← h part List.mem_cons_self,
      ← ih fun other hother => h other (List.mem_cons_of_mem _ hother)]
    rfl

/-- The height that is carried along is the height of the tree.  A path of properties stays one
node, so that its height does not grow with it. -/
theorem Formed.height_eq_depth {s : Setting} {scope : Scope} {parsed : Parsed}
    (h : Formed s scope parsed) : parsed.height = parsed.expr.depth := by
  induction h with
  | number | text | bool | null => exact (Expr.depth_literal _).symm
  | parameter | source => exact (Expr.depth_ref _ _).symm
  | call known formed arity height ih =>
    rw [Expr.depth, tallest_eq_depthArgs ih]
  | path receiver admits limit ih =>
    rw [Expr.depth_ref] at ih ⊢
    exact ih
  | member formed computed admits height ih => rw [Expr.depth, ih]
  | plainMethod formed known kind items height ih => rw [Expr.depth, Expr.depthArgument, ih]
  | valueMethod formed formedArg known kind items height ih ihArg =>
    rw [Expr.depth, Expr.depthArgument, ih, ihArg]
  | lambdaMethod formed formedBody known kind items height ih ihBody =>
    rw [Expr.depth, Expr.depthArgument, ih, ihBody]
  | unary op formed height ih => rw [Expr.depth, ih]
  | connective c formedLeft formedRight height ihLeft ihRight =>
    rw [Expr.depth_apply, ihLeft, ihRight]
  | conditional formed formedThen formedElse height ih ihThen ihElse =>
    rw [Expr.depth, ih, ihThen, ihElse]

/-- Every node with parts below it was measured when it was made; a leaf has height one. -/
theorem Formed.height_le_limit {s : Setting} {scope : Scope} {parsed : Parsed}
    (h : Formed s scope parsed) (hlimit : 1 ≤ s.limit) : parsed.height ≤ s.limit := by
  cases h <;> assumption

end Grammar

/-! ## Evaluation -/

/-- Holds of the errors other than an excess of depth. -/
def EvalError.WithinDepth (error : EvalError) : Prop := ∀ limit, error ≠ .depthExceeded limit

theorem EvalError.withinDepth_of_ofValues (error : EvalError) (h : error.ofValues = true) :
    error.WithinDepth := by
  intro limit heq
  rw [heq] at h
  cases h

namespace Run

variable (run : Run)

/-- A node at a depth that leaves room for the tree below it never meets the limit: every part of a
node is evaluated one level deeper, and is less high. -/
theorem withinDepth : ErrorInvariant run EvalError.WithinDepth fun e _ depth =>
    depth + e.depth ≤ run.budget.maxDepth + 1 where
  steps := fun _ => nofun
  time := fun _ => nofun
  values := EvalError.withinDepth_of_ofValues
  deep := by
    intro e _ depth h hlt
    have := e.depth_pos
    omega
  absent := fun _ _ _ _ => nofun
  called := fun _ arguments _ =>
    Function.call_errorsIn EvalError.withinDepth_of_ofValues _ arguments (fun _ _ => nofun)
      fun _ => nofun
  known := fun _ _ _ => nofun
  lambda := fun _ _ _ _ _ _ => nofun
  value := fun _ _ _ _ _ _ => nofun
  part := by
    intro e _ depth part _ h hpart
    have := hpart.depth_lt
    omega

/-- A tree no higher than the budget is deep never exceeds the depth. -/
theorem evaluate_ne_depthExceeded {e : Expr} (h : e.depth ≤ run.budget.maxDepth) (limit : Nat) :
    (run.evaluate e).1 ≠ .error (.depthExceeded limit) := by
  intro heq
  have hwithin : Eval.FailsOnly EvalError.WithinDepth (run.eval e [] 1) :=
    run.withinDepth.eval_failsOnly (by omega)
  exact hwithin 0 _ heq limit rfl

end Run

/-! ## The limit of the compiler -/

theorem parseTokens_height {catalog : Catalog} {limit : Nat} {ts : List Token} {parsed : Parsed}
    (h : parseTokens catalog limit ts = .ok parsed) :
    parsed.height = parsed.expr.depth ∧ parsed.height ≤ limit := by
  have formed := (Grammar.parseTokens_spelled h).formed
  have hlimit : 1 ≤ limit := by
    obtain ⟨_, hread, -⟩ := bind_eq_ok.mp h
    cases limit with
    | zero => simp [Grammar.parseAt] at hread
    | succ limit => omega
  exact ⟨formed.height_eq_depth, formed.height_le_limit hlimit⟩

namespace Compiler

theorem parse_depth_le {compiler : Compiler} {source : String} {e : Expr}
    (h : compiler.parse source = .ok e) : e.depth ≤ compiler.limit := by
  obtain ⟨ts, parsed, -, hparsed, rfl⟩ := parse_eq_ok.mp h
  obtain ⟨heq, hle⟩ := parseTokens_height hparsed
  rw [← heq]
  exact hle

/-- The height that the reader carries along is that of the tree, for every part that it reads.  A
tree that the compiler gives is no higher than its limit, and its evaluation never exceeds a depth
that is at least this limit, whatever the context, the other parts of the budget and the clock. -/
theorem limit_bounds_evaluation_depth (compiler : Compiler) :
    (∀ (lastPosition room position : Nat) (goal : Grammar.Goal) (scope : Scope)
      (ts rest : List Token) (parsed : Parsed),
      Grammar.parseAt ⟨compiler.catalog, compiler.limit, lastPosition⟩ room position goal scope ts
        = .ok (parsed, rest) → parsed.height = parsed.expr.depth) ∧
    ∀ (source : String) (e : Expr), compiler.parse source = .ok e →
      e.depth ≤ compiler.limit ∧
      ∀ run : Run, compiler.limit ≤ run.budget.maxDepth →
        ∀ limit, (run.evaluate e).1 ≠ .error (.depthExceeded limit) := by
  refine ⟨fun _ _ _ _ _ _ _ _ h => (Grammar.parseAt_formed h).height_eq_depth, ?_⟩
  intro source e h
  have hdepth : e.depth ≤ compiler.limit := parse_depth_le h
  exact ⟨hdepth, fun run hrun => run.evaluate_ne_depthExceeded (Nat.le_trans hdepth hrun)⟩

/-- The sum of the amounts of all sales, each times its quantity. -/
def sumTree : Expr :=
  .method (.ref "allSales" []) "sum" (.lambda "s"
    (.binary .multiply (.ref "s" ["Amount"]) (.ref "s" ["Quantity"])))

/-- A tree of height three, read under a limit of three and evaluated to a depth of three. -/
theorem limit_bounds_evaluation_depth_sum :
    Compiler.parse ⟨.standard, 3⟩ "allSales.sum(s => s.Amount * s.Quantity)" = .ok sumTree ∧
      sumTree.depth ≤ 3 ∧
      (Run.evaluate ⟨.empty, ⟨3, 100, 100⟩, fun _ => 0⟩ sumTree).1
        ≠ .error (.depthExceeded 3) := by
  have hparse : Compiler.parse ⟨.standard, 3⟩ "allSales.sum(s => s.Amount * s.Quantity)"
      = .ok sumTree := by
    cbv
  have h := (limit_bounds_evaluation_depth ⟨.standard, 3⟩).2 _ _ hparse
  exact ⟨hparse, h.1, h.2 ⟨.empty, ⟨3, 100, 100⟩, fun _ => 0⟩ (by decide) 3⟩

end Compiler

end CommissionRules
