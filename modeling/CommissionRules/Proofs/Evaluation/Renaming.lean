import CommissionRules.Proofs.Evaluation.Pruning
import CommissionRules.Proofs.Evaluation.Sources

/-!
# Names of parameters

Parameters are lexically scoped, so that what a lambda calls its parameter is its own affair.
`Expr.rename` gives the free names of an expression other names.  It goes together with another
scope: if every free name stands for the same value as its new name does there, and no lambda inside
`captures` a new name, then the evaluation is the same (`Run.eval_rename`).  The new scope of a
renamed lambda is of this kind, wherever in a tree the lambda stands (`Expr.Renamed`), and whatever
data sources have the old or the new name: `Run.evaluate_renamed`.
-/

namespace CommissionRules

/-! ## Renaming -/

namespace Expr

/-- The renaming of one name. -/
def replace (old new : String) (name : String) : String := if name = old then new else name

/-- A renaming inside a lambda, whose parameter keeps its name. -/
def keeping (param : String) (names : String → String) (name : String) : String :=
  if name = param then name else names name

mutual

/-- The expression with other names in place of the names that it does not bind. -/
def rename (names : String → String) : Expr → Expr
  | literal value => literal value
  | ref source path => ref (names source) path
  | member target property => member (target.rename names) property
  | unary op operand => unary op (operand.rename names)
  | binary op left right => binary op (left.rename names) (right.rename names)
  | logical op left right => logical op (left.rename names) (right.rename names)
  | conditional condition thenBranch elseBranch =>
      conditional (condition.rename names) (thenBranch.rename names) (elseBranch.rename names)
  | call function args => call function (renameArgs names args)
  | method receiver name argument =>
      method (receiver.rename names) name (renameArgument names argument)

def renameArgs (names : String → String) : List Expr → List Expr
  | [] => []
  | arg :: rest => arg.rename names :: renameArgs names rest

def renameArgument (names : String → String) : Argument Expr → Argument Expr
  | .none => .none
  | .value arg => .value (arg.rename names)
  | .lambda param body => .lambda param (body.rename (keeping param names))

end

mutual

/-- Whether a lambda inside the expression has a parameter that is called like the new name of a
free name in its body, so that it would bind what the expression does not bind. -/
def captures (names : String → String) : Expr → Bool
  | literal _ | ref _ _ => false
  | member target _ => target.captures names
  | unary _ operand => operand.captures names
  | binary _ left right | logical _ left right => left.captures names || right.captures names
  | conditional condition thenBranch elseBranch =>
      condition.captures names || thenBranch.captures names || elseBranch.captures names
  | call _ args => capturesArgs names args
  | method receiver _ argument => receiver.captures names || capturesArgument names argument

def capturesArgs (names : String → String) : List Expr → Bool
  | [] => false
  | arg :: rest => arg.captures names || capturesArgs names rest

def capturesArgument (names : String → String) : Argument Expr → Bool
  | .none => false
  | .value arg => arg.captures names
  | .lambda param body =>
      body.sources.any (fun source => source != param && names source == param)
        || body.captures (keeping param names)

end

/-- The second tree is the first one with the parameter of the lambda at its root renamed to a name
that does not occur free in the body and that no lambda inside captures. -/
inductive Reparameterized : Expr → Expr → Prop
  | lambda (receiver : Expr) (name : String) {old new : String} {body : Expr}
      (fresh : new ∉ body.sources) (free : body.captures (replace old new) = false) :
      Reparameterized (.method receiver name (.lambda old body))
        (.method receiver name (.lambda new (body.rename (replace old new))))

/-- The second tree is the first one with the parameter of a lambda renamed that has `n` nodes above
it, or those of several such lambdas. -/
def Renamed : (n : Nat) → Expr → Expr → Prop
  | 0 => Reparameterized
  | n + 1 => Alike fun part part' => part = part' ∨ Renamed n part part'

end Expr

/-! ## Evaluation -/

namespace Run

open CommissionRules.Expr

variable (run : Run) {names : String → String} {locals locals' : Locals}

/-- Every one of some names stands for the same in a scope as its new name does in another one. -/
def Corresponds (names : String → String) (sources : List String) (locals locals' : Locals) :
    Prop :=
  ∀ source ∈ sources, run.resolve locals' (names source) = run.resolve locals source

variable {run}

theorem Corresponds.left {sources sources' : List String}
    (h : run.Corresponds names (sources ++ sources') locals locals') :
    run.Corresponds names sources locals locals' :=
  fun source hsource => h source (List.mem_append_left _ hsource)

theorem Corresponds.right {sources sources' : List String}
    (h : run.Corresponds names (sources ++ sources') locals locals') :
    run.Corresponds names sources' locals locals' :=
  fun source hsource => h source (List.mem_append_right _ hsource)

theorem resolve_cons_self (name : String) (item : Value) (locals : Locals) :
    run.resolve ((name, item) :: locals) name = .ok item := by
  rw [resolve, List.lookup_cons_self]

theorem resolve_cons_of_ne {name param : String} (h : name ≠ param) (item : Value)
    (locals : Locals) : run.resolve ((param, item) :: locals) name = run.resolve locals name := by
  rw [resolve, resolve, List.lookup_cons, beq_eq_false_iff_ne.mpr h]

/-- The scope inside a lambda, with the same parameter on both sides. -/
theorem Corresponds.bind {param : String} {sources : List String}
    (h : run.Corresponds names (sources.filter (· != param)) locals locals')
    (hfree : ∀ source ∈ sources, source ≠ param → names source ≠ param) (item : Value) :
    run.Corresponds (keeping param names) sources ((param, item) :: locals)
      ((param, item) :: locals') := by
  intro source hsource
  rw [keeping]
  by_cases hparam : source = param
  · rw [if_pos hparam, hparam, resolve_cons_self, resolve_cons_self]
  · rw [if_neg hparam, resolve_cons_of_ne (hfree source hsource hparam),
      resolve_cons_of_ne hparam]
    exact h source (List.mem_filter.mpr ⟨hsource, bne_iff_ne.mpr hparam⟩)

/-- The scope inside a lambda whose parameter is renamed. -/
theorem corresponds_replace {old new : String} {sources : List String} (hfresh : new ∉ sources)
    (item : Value) (locals : Locals) :
    run.Corresponds (replace old new) sources ((old, item) :: locals) ((new, item) :: locals) := by
  intro source hsource
  have hnew : source ≠ new := fun h => hfresh (h ▸ hsource)
  rw [replace]
  by_cases hold : source = old
  · rw [if_pos hold, hold, resolve_cons_self, resolve_cons_self]
  · rw [if_neg hold, resolve_cons_of_ne hnew, resolve_cons_of_ne hold]

variable (run)

theorem evalArgs_rename {args : List Expr} {depth : Nat}
    (h : run.Corresponds names (sourcesArgs args) locals locals')
    (hfree : capturesArgs names args = false)
    (ih : ∀ arg ∈ args, run.Corresponds names arg.sources locals locals' →
      arg.captures names = false →
        run.eval (arg.rename names) locals' depth = run.eval arg locals depth) :
    run.evalArgs (renameArgs names args) locals' depth = run.evalArgs args locals depth := by
  induction args with
  | nil => rw [renameArgs, evalArgs, evalArgs]
  | cons arg rest ihRest =>
    rw [sourcesArgs] at h
    rw [capturesArgs, Bool.or_eq_false_iff] at hfree
    have hfirst := ih arg List.mem_cons_self h.left hfree.1
    have hrest := ihRest h.right hfree.2
      fun other hother => ih other (List.mem_cons_of_mem _ hother)
    rw [renameArgs, evalArgs, evalArgs, hfirst, hrest]

theorem operand_rename {argument : Argument Expr} {depth : Nat}
    (h : run.Corresponds names (sourcesArgument argument) locals locals')
    (hfree : capturesArgument names argument = false)
    (ih : ∀ arg ∈ argument.toList, ∀ names locals locals',
      run.Corresponds names arg.sources locals locals' → arg.captures names = false →
        run.eval (arg.rename names) locals' depth = run.eval arg locals depth) :
    run.operand (renameArgument names argument) locals' depth =
      run.operand argument locals depth := by
  cases argument with
  | none => rw [renameArgument, operand, operand]
  | value arg =>
    rw [sourcesArgument] at h
    rw [capturesArgument] at hfree
    rw [renameArgument, operand, operand, ih arg (List.mem_singleton.mpr rfl) _ _ _ h hfree]
  | lambda param body =>
    rw [sourcesArgument] at h
    rw [capturesArgument, Bool.or_eq_false_iff, List.any_eq_false] at hfree
    have hother : ∀ source ∈ body.sources, source ≠ param → names source ≠ param := by
      intro source hsource hne heq
      refine hfree.1 source hsource ?_
      rw [Bool.and_eq_true, bne_iff_ne, beq_iff_eq]
      exact ⟨hne, heq⟩
    have hbody (item : Value) :=
      ih body (List.mem_singleton.mpr rfl) _ _ _ (h.bind hother item) hfree.2
    rw [renameArgument, operand, operand]
    simp only [hbody]

/-- An expression is the same computation in one scope as the renamed one is in the other, if its
free names correspond.  The scopes vary in the induction, as every lambda adds its parameter to
both. -/
theorem eval_rename {e : Expr} (h : run.Corresponds names e.sources locals locals')
    (hfree : e.captures names = false) (depth : Nat) :
    run.eval (e.rename names) locals' depth = run.eval e locals depth := by
  induction e using Expr.induct generalizing names locals locals' depth with
  | literal value => rw [rename, eval, eval]
  | ref source path =>
    rw [sources] at h
    rw [rename, eval, eval, h source (List.mem_singleton.mpr rfl)]
  | member target property ih =>
    rw [sources] at h
    rw [captures] at hfree
    rw [rename, eval, eval, ih h hfree]
  | unary op operand ih =>
    rw [sources] at h
    rw [captures] at hfree
    rw [rename, eval, eval, ih h hfree]
  | binary op left right ihLeft ihRight =>
    rw [sources] at h
    rw [captures, Bool.or_eq_false_iff] at hfree
    rw [rename, eval, eval, ihLeft h.left hfree.1, ihRight h.right hfree.2]
  | logical op left right ihLeft ihRight =>
    rw [sources] at h
    rw [captures, Bool.or_eq_false_iff] at hfree
    rw [rename, eval, eval, ihLeft h.left hfree.1, ihRight h.right hfree.2]
  | conditional condition thenBranch elseBranch ih ihThen ihElse =>
    rw [sources] at h
    rw [captures, Bool.or_eq_false_iff, Bool.or_eq_false_iff] at hfree
    rw [rename, eval, eval, ih h.left.left hfree.1.1, ihThen h.left.right hfree.1.2,
      ihElse h.right hfree.2]
  | call function args ih =>
    rw [sources] at h
    rw [captures] at hfree
    have hargs := run.evalArgs_rename h hfree
      fun arg harg h hfree => ih arg harg h hfree (depth + 1)
    rw [rename, eval, eval, hargs]
  | method receiver name argument ih ihArgument =>
    rw [sources] at h
    rw [captures, Bool.or_eq_false_iff] at hfree
    have hoperand := run.operand_rename h.right hfree.2
      fun arg harg _ _ _ h hfree => ihArgument arg harg h hfree (depth + 1)
    rw [rename, eval, eval, ih h.left hfree.1, hoperand]

/-- The lambda at the root gets each item under its new name. -/
theorem eval_reparameterized {e e' : Expr} (h : e.Reparameterized e') (locals : Locals)
    (depth : Nat) : run.eval e locals depth = run.eval e' locals depth := by
  obtain ⟨receiver, name, fresh, free⟩ := h
  have hbody (item : Value) :=
    run.eval_rename (corresponds_replace fresh item locals) free (depth + 1)
  rw [eval, eval, operand, operand]
  simp only [hbody]

theorem eval_renamed {n : Nat} {e e' : Expr} (h : e.Renamed n e') (locals : Locals)
    (depth : Nat) : run.eval e locals depth = run.eval e' locals depth := by
  induction n generalizing e e' locals depth with
  | zero => exact run.eval_reparameterized h locals depth
  | succ n ih =>
    refine run.eval_alike h locals fun below locals => ?_
    rcases below with rfl | below
    · rfl
    · exact ih below locals (depth + 1)

/-- Renaming the parameter of a lambda changes neither the outcome nor the number of steps, in every
context and under every budget. -/
theorem evaluate_renamed {n : Nat} {e e' : Expr} (h : e.Renamed n e') :
    run.evaluate e' = run.evaluate e :=
  congrArg (fun computation => computation.run.run 0) (run.eval_renamed h [] 1).symm

/-- Whether no open row has a tag; the inner lambda hides `row`. -/
def noneTagged (param : String) : Expr :=
  .unary .not (.method (.ref "rows" []) "any" (.lambda param (.logical .and (.ref param ["open"])
    (.method (.ref param ["tags"]) "any" (.lambda "row" (.ref "row" []))))))

/-- The old and the new name of the outer parameter are both names of data sources. -/
theorem evaluate_renamed_noneTagged :
    let row : Value := .ofFields [("open", .bool true), ("tags", .list [.bool false, .bool true])]
    let run : Run :=
      ⟨.ofList [("rows", .list [row]), ("row", .null), ("limit", .null)], ⟨5, 100, 100⟩, fun _ => 0⟩
    (noneTagged "row").Renamed 1 (noneTagged "limit") ∧
      run.evaluate (noneTagged "limit") = run.evaluate (noneTagged "row") ∧
      run.evaluate (noneTagged "row") = (.ok (.bool false), 12) := by
  intro row run
  have hrenamed : (noneTagged "row").Renamed 1 (noneTagged "limit") :=
    .unary .not (.inr (.lambda (.ref "rows" []) "any" (by decide) (by decide)))
  exact ⟨hrenamed, run.evaluate_renamed hrenamed, by cbv⟩

end Run

end CommissionRules
