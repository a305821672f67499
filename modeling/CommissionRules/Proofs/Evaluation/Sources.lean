import CommissionRules.Evaluation

/-!
# What an evaluation depends on

An expression names data sources and the parameters of its lambdas.  A name inside a lambda with
a parameter of that name never reaches the context, however deeply it is nested; all other names are
the sources of the expression: `Expr.sources`.  Two contexts that agree on these give the same
outcome after the same number of steps, whatever else they hold: `Run.evaluate_eq_of_sources`.  As
whole computations are equal, so are the errors with the values inside them.
-/

namespace CommissionRules

/-! ## Sources -/

namespace Expr

mutual

/-- The names that an expression does not bind: those of the data sources that it reads. -/
def sources : Expr → List String
  | literal _ => []
  | ref source _ => [source]
  | member target _ => target.sources
  | unary _ operand => operand.sources
  | binary _ left right | logical _ left right => left.sources ++ right.sources
  | conditional condition thenBranch elseBranch =>
      condition.sources ++ thenBranch.sources ++ elseBranch.sources
  | call _ args => sourcesArgs args
  | method receiver _ argument => receiver.sources ++ sourcesArgument argument

def sourcesArgs : List Expr → List String
  | [] => []
  | arg :: rest => arg.sources ++ sourcesArgs rest

/-- A parameter is bound in the body of its lambda, and only there. -/
def sourcesArgument : Argument Expr → List String
  | .none => []
  | .value arg => arg.sources
  | .lambda param body => body.sources.filter (· != param)

end

theorem sources_subset_sourcesArgs {args : List Expr} {arg : Expr} (h : arg ∈ args) :
    arg.sources ⊆ sourcesArgs args := by
  induction args with
  | nil => cases h
  | cons head rest ih =>
    rw [sourcesArgs]
    rcases List.mem_cons.mp h with rfl | h
    · exact List.subset_append_left _ _
    · exact List.subset_append_of_subset_right _ (ih h)

end Expr

/-! ## Agreement -/

/-- Contexts give the same value, or both none, to those of the names that no parameter hides. -/
def Context.AgreeOn (context context' : Context) (names : List String) (locals : Locals) : Prop :=
  ∀ source ∈ names, locals.lookup source = none → context.get? source = context'.get? source

namespace Context.AgreeOn

variable {context context' : Context} {names names' : List String} {locals : Locals}

theorem mono (h : AgreeOn context context' names locals) (hsubset : names' ⊆ names) :
    AgreeOn context context' names' locals := fun source hsource => h source (hsubset hsource)

theorem left (h : AgreeOn context context' (names ++ names') locals) :
    AgreeOn context context' names locals := h.mono (List.subset_append_left _ _)

theorem right (h : AgreeOn context context' (names ++ names') locals) :
    AgreeOn context context' names' locals := h.mono (List.subset_append_right _ _)

/-- Inside a lambda its parameter hides what it is called like, whatever it stands for. -/
theorem bind {param : String} (h : AgreeOn context context' (names.filter (· != param)) locals)
    (item : Value) : AgreeOn context context' names ((param, item) :: locals) := by
  intro source hsource hlookup
  by_cases hparam : source = param
  · subst hparam
    rw [List.lookup_cons_self] at hlookup
    cases hlookup
  · have hother : (source == param) = false := beq_eq_false_iff_ne.mpr hparam
    rw [List.lookup_cons, hother] at hlookup
    exact h source (List.mem_filter.mpr ⟨hsource, bne_iff_ne.mpr hparam⟩) hlookup

end Context.AgreeOn

/-! ## Evaluation -/

namespace Run

variable (run : Run)

/-- The run of the same budget and clock in another context. -/
def within (context : Context) : Run := { run with context }

variable {context context' : Context} {locals : Locals}

theorem resolve_within {source : String} (h : context.AgreeOn context' [source] locals) :
    (run.within context).resolve locals source = (run.within context').resolve locals source := by
  rw [resolve, resolve]
  cases hlookup : locals.lookup source with
  | some value => rfl
  | none =>
    have hvalue : (run.within context).context.get? source =
        (run.within context').context.get? source := h source (List.mem_singleton.mpr rfl) hlookup
    dsimp only
    rw [hvalue]

theorem evalArgs_within {args : List Expr} {depth : Nat}
    (h : ∀ arg ∈ args, (run.within context).eval arg locals depth =
      (run.within context').eval arg locals depth) :
    (run.within context).evalArgs args locals depth =
      (run.within context').evalArgs args locals depth := by
  induction args with
  | nil => rw [evalArgs, evalArgs]
  | cons arg rest ih =>
    rw [evalArgs, evalArgs, h arg List.mem_cons_self,
      ih fun other hother => h other (List.mem_cons_of_mem _ hother)]

theorem operand_within {argument : Argument Expr} {depth : Nat}
    (h : context.AgreeOn context' (Expr.sourcesArgument argument) locals)
    (ih : ∀ arg ∈ argument.toList, ∀ locals, context.AgreeOn context' arg.sources locals →
      (run.within context).eval arg locals depth = (run.within context').eval arg locals depth) :
    (run.within context).operand argument locals depth =
      (run.within context').operand argument locals depth := by
  cases argument with
  | none => rw [operand, operand]
  | value arg =>
    rw [Expr.sourcesArgument] at h
    rw [operand, operand, ih arg (List.mem_singleton.mpr rfl) locals h]
  | lambda param body =>
    rw [Expr.sourcesArgument] at h
    rw [operand, operand]
    congr 1
    funext item
    rw [ih body (List.mem_singleton.mpr rfl) _ (h.bind item)]
    rfl

/-- With parameters in scope, an expression is the same computation in contexts that agree on the
sources which the parameters do not hide. -/
theorem eval_within {e : Expr} (h : context.AgreeOn context' e.sources locals) (depth : Nat) :
    (run.within context).eval e locals depth = (run.within context').eval e locals depth := by
  induction e using Expr.induct generalizing locals depth with
  | literal value =>
    rw [eval, eval]
    rfl
  | ref source path =>
    rw [Expr.sources] at h
    rw [eval, eval, run.resolve_within h]
    rfl
  | member target property ih =>
    rw [Expr.sources] at h
    rw [eval, eval, ih h]
    rfl
  | unary op operand ih =>
    rw [Expr.sources] at h
    rw [eval, eval, ih h]
    rfl
  | binary op left right ihLeft ihRight =>
    rw [Expr.sources] at h
    rw [eval, eval, ihLeft h.left, ihRight h.right]
    rfl
  | logical op left right ihLeft ihRight =>
    rw [Expr.sources] at h
    rw [eval, eval, ihLeft h.left, ihRight h.right]
    rfl
  | conditional condition thenBranch elseBranch ih ihThen ihElse =>
    rw [Expr.sources] at h
    rw [eval, eval, ih h.left.left, ihThen h.left.right, ihElse h.right]
    rfl
  | call function args ih =>
    rw [Expr.sources] at h
    have hargs : (run.within context).evalArgs args locals (depth + 1) =
        (run.within context').evalArgs args locals (depth + 1) :=
      run.evalArgs_within fun arg harg =>
        ih arg harg (h.mono (Expr.sources_subset_sourcesArgs harg)) (depth + 1)
    rw [eval, eval, hargs]
    rfl
  | method receiver name argument ih ihArgument =>
    rw [Expr.sources] at h
    have hoperand : (run.within context).operand argument locals (depth + 1) =
        (run.within context').operand argument locals (depth + 1) :=
      run.operand_within h.right fun arg harg _ harg' => ihArgument arg harg harg' (depth + 1)
    rw [eval, eval, ih h.left, hoperand]
    rfl

/-- Contexts that give every source of an expression the same value, or both none, give it the same
outcome after the same number of steps, under every budget and on every clock. -/
theorem evaluate_eq_of_sources (e : Expr) (budget : Budget) (elapsed : (steps : Nat) → Nat)
    (context context' : Context)
    (h : ∀ source ∈ e.sources, context.get? source = context'.get? source) :
    evaluate ⟨context, budget, elapsed⟩ e = evaluate ⟨context', budget, elapsed⟩ e := by
  have hagree : context.AgreeOn context' e.sources [] := fun source hsource _ => h source hsource
  have heval := eval_within ⟨context, budget, elapsed⟩ hagree 1
  exact congrArg (fun computation => computation.run.run 0) heval

/-- Whether one of the rows is the limit; the lambda calls its parameter like a data source. -/
def limitTest : Expr :=
  .method (.ref "rows" []) "any"
    (.lambda "row" (.binary .strictEqual (.ref "row" []) (.ref "limit" [])))

/-- The rows and the limit, beside whatever the data source of the name of the parameter holds. -/
def limitContext (hidden : List (String × Value)) : Context :=
  .ofList (hidden ++ [("rows", .list [.bool true, .null]), ("limit", .null)])

theorem evaluate_eq_of_sources_limitTest :
    (∀ source ∈ limitTest.sources,
      (limitContext []).get? source = (limitContext [("row", .str "hidden")]).get? source) ∧
    evaluate ⟨limitContext [], .standard, id⟩ limitTest =
      evaluate ⟨limitContext [("row", .str "hidden")], .standard, id⟩ limitTest := by
  have hsources : ∀ source ∈ limitTest.sources,
      (limitContext []).get? source = (limitContext [("row", .str "hidden")]).get? source := by
    have hnames : limitTest.sources = ["rows", "limit"] := by decide
    rw [hnames]
    simp only [List.forall_mem_cons]
    exact ⟨rfl, rfl, nofun⟩
  exact ⟨hsources, evaluate_eq_of_sources limitTest .standard id _ _ hsources⟩

end Run

end CommissionRules
