import CommissionRules.Proofs.Evaluation.Failure

/-!
# Families of computations

An expression that is evaluated in many runs gives a family of computations, one for each run.  A
`FamilyLaw` is a property of families that is closed under what computations are built from: it
holds of families that give the same value or the same error about values in every run, and of those
that do one thing after another.  In runs with the same context, a law holds of the evaluation of
every expression as soon as it holds of counting a step and of entering a node: `FamilyLaw.eval`.
-/

namespace CommissionRules

/-- A property of families of computations that what computations are built from keeps.  What
follows a computation is looked at for one value in all members of the family. -/
structure FamilyLaw (I : Type) where
  Holds : {α : Type} → (I → Eval α) → Prop
  value : ∀ {α : Type} (a : α), Holds fun _ => (pure a : Eval α)
  failure : ∀ {α : Type} {error : EvalError}, error.ofBudget = false →
    Holds fun _ => (throw error : Eval α)
  sequence : ∀ {α β : Type} {first : I → Eval α} {next : I → α → Eval β},
    Holds first → (∀ a, Holds fun i => next i a) → Holds fun i => first i >>= next i

theorem Collection.apply_unknown {method : String} (h : method ∉ Catalog.methodNames)
    (items : List Value) (operand : Operand) :
    apply method items operand = throw (.invalidArgument method .unknownMethod) := by
  rw [Catalog.methodNames_eq] at h
  unfold apply
  split
  case h_17 => rfl
  all_goals exact absurd (by decide) h

namespace FamilyLaw

open Collection

variable {I : Type} (law : FamilyLaw I) {α β : Type} {operand : I → Operand} {method : String}

theorem ofExcept {x : Except EvalError α} (h : AboutValues x) :
    law.Holds fun _ => Eval.ofExcept x := by
  cases x with
  | ok a => exact law.value a
  | error error => exact law.failure (h error rfl)

theorem all {f : I → α → Eval β} (hf : ∀ a, law.Holds fun i => f i a) (items : List α) :
    law.Holds fun i => Eval.all (f i) items := by
  induction items with
  | nil => exact law.value []
  | cons a rest ih =>
    exact law.sequence (hf a) fun b => law.sequence ih fun others => law.value (b :: others)

/-! ## Collection methods -/

/-- The operands of a family are of one kind, and the law holds of what they evaluate. -/
inductive OfOperands : (I → Operand) → Prop
  | none : OfOperands fun _ => .none
  | value {result : I → Eval Value} : law.Holds result → OfOperands fun i => .value (result i)
  | lambda {apply : I → Value → Eval Value} :
      (∀ item, law.Holds fun i => apply i item) → OfOperands fun i => .lambda (apply i)

variable {law}

theorem OfOperands.applyTo (h : law.OfOperands operand) (method : String) (item : Value) :
    law.Holds fun i => applyTo method (operand i) item := by
  cases h with
  | none => exact law.failure rfl
  | value _ => exact law.failure rfl
  | lambda happly => exact happly item

theorem OfOperands.count (h : law.OfOperands operand) (method : String) :
    law.Holds fun i => count method (operand i) := by
  cases h with
  | none => exact law.failure rfl
  | lambda _ => exact law.failure rfl
  | value hresult =>
    refine law.sequence hresult fun value => ?_
    cases countOf? value with
    | some n => exact law.value n
    | none => exact law.failure rfl

variable (law)

theorem pick (method : String) (item : Option Value) :
    law.Holds fun _ => Collection.pick method item := by
  cases item with
  | some value => exact law.value value
  | none => exact law.failure rfl

variable {law}

section Items

variable (applied : ∀ item, law.Holds fun i => applyTo method (operand i) item)

include applied

theorem test (item : Value) : law.Holds fun i => test method (operand i) item := by
  refine law.sequence (applied item) fun value => ?_
  cases value with
  | bool b => exact law.value b
  | _ => exact law.failure rfl

theorem project (item : Value) : law.Holds fun i => project method (operand i) item := by
  refine law.sequence (applied item) fun value => ?_
  cases value with
  | number n => exact law.value n
  | _ => exact law.failure rfl

theorem keep (items : List Value) : law.Holds fun i => keep method (operand i) items := by
  induction items with
  | nil => exact law.value []
  | cons item rest ih =>
    exact law.sequence (test applied item) fun kept => law.sequence ih fun others =>
      law.value (if kept then item :: others else others)

theorem find (wanted : Bool) (items : List Value) :
    law.Holds fun i => find method (operand i) wanted items := by
  induction items with
  | nil => exact law.value false
  | cons item rest ih =>
    refine law.sequence (test applied item) fun found => ?_
    by_cases h : found = wanted
    · simp only [if_pos h]
      exact law.value true
    · simp only [if_neg h]
      exact ih

theorem keyed (items : List Value) : law.Holds fun i => keyed method (operand i) items :=
  law.all (fun item => law.sequence (applied item) fun key => law.value (key, item)) items

theorem numbers (items : List Value) :
    law.Holds fun i => Eval.all (Collection.project method (operand i)) items :=
  law.all (project applied) items

end Items

/-- A method keeps the law if its operands do, whatever its name. -/
theorem OfOperands.apply (h : law.OfOperands operand) (method : String) (items : List Value) :
    law.Holds fun i => apply method items (operand i) := by
  have applied (item : Value) := h.applyTo method item
  have counted := h.count method
  by_cases hmethod : method ∈ Catalog.methodNames
  · rw [Catalog.methodNames_eq] at hmethod
    simp only [List.mem_cons, List.not_mem_nil, or_false] at hmethod
    rcases hmethod with rfl | rfl | rfl | rfl | rfl | rfl | rfl | rfl | rfl | rfl | rfl | rfl |
      rfl | rfl | rfl | rfl
    · exact law.sequence (keep applied items) fun _ => law.value _
    · exact law.sequence (numbers applied items) fun _ => law.value _
    · exact law.sequence (numbers applied items) fun _ => law.value _
    · refine law.sequence (numbers applied items) fun projected => ?_
      cases projected with
      | nil => exact law.failure rfl
      | cons n rest => exact law.value _
    · refine law.sequence (numbers applied items) fun projected => ?_
      cases projected with
      | nil => exact law.failure rfl
      | cons n rest => exact law.value _
    · exact law.value _
    · exact law.sequence (find applied true items) fun _ => law.value _
    · exact law.sequence (find applied false items) fun _ => law.value _
    · exact law.pick _ _
    · exact law.pick _ _
    · exact law.sequence (keyed applied items) fun _ => law.value _
    · exact law.sequence (keyed applied items) fun _ => law.value _
    · exact law.sequence (keyed applied items) fun _ => law.value _
    · exact law.value _
    · exact law.sequence counted fun _ => law.value _
    · exact law.sequence counted fun _ => law.value _
  · simp only [apply_unknown hmethod]
    exact law.failure rfl

/-! ## Evaluation -/

variable (law) in
/-- The law holds of the steps of a family of runs, of entering nodes, and of looking up names. -/
structure OfRuns (runs : I → Run) : Prop where
  tick : law.Holds fun i => (runs i).tick
  enter : ∀ (depth : Nat) {node : I → Eval Value}, law.Holds node →
    law.Holds fun i => (runs i).enter depth (node i)
  resolve : ∀ (locals : Locals) (source : String),
    law.Holds fun i => Eval.ofExcept ((runs i).resolve locals source)

namespace OfRuns

variable {runs : I → Run}

theorem truth (operation : String) (value : Value) :
    law.Holds fun _ => Run.truth operation value := by
  cases value with
  | bool b => exact law.value b
  | _ => exact law.failure rfl

theorem args {args : List Expr} {locals : Locals} {depth : Nat}
    (hargs : ∀ arg ∈ args, law.Holds fun i => (runs i).eval arg locals depth) :
    law.Holds fun i => (runs i).evalArgs args locals depth := by
  induction args with
  | nil =>
    simp only [Run.evalArgs]
    exact law.value []
  | cons arg rest ih =>
    simp only [Run.evalArgs]
    refine law.sequence (hargs arg List.mem_cons_self) fun value => ?_
    have hrest := ih fun other hother => hargs other (List.mem_cons_of_mem _ hother)
    exact law.sequence hrest fun values => law.value (value :: values)

variable (h : law.OfRuns runs)

include h

theorem operands {argument : Argument Expr} {locals : Locals} {depth : Nat}
    (harguments : ∀ arg ∈ argument.toList, ∀ locals,
      law.Holds fun i => (runs i).eval arg locals depth) :
    law.OfOperands fun i => (runs i).operand argument locals depth := by
  cases argument with
  | none =>
    simp only [Run.operand]
    exact .none
  | value arg =>
    simp only [Run.operand]
    exact .value (harguments arg (List.mem_singleton.mpr rfl) locals)
  | lambda param body =>
    simp only [Run.operand]
    exact .lambda fun item =>
      law.sequence h.tick fun _ => harguments body (List.mem_singleton.mpr rfl) _

/-- The law holds of the evaluation of every expression, with any parameters at any depth. -/
theorem eval (e : Expr) (locals : Locals) (depth : Nat) :
    law.Holds fun i => (runs i).eval e locals depth := by
  induction e using Expr.induct generalizing locals depth with
  | literal value =>
    simp only [Run.eval]
    exact h.enter depth (law.value value)
  | ref source path =>
    simp only [Run.eval]
    refine h.enter depth (law.sequence (h.resolve locals source) fun value => ?_)
    exact law.ofExcept (value.follow_aboutValues path)
  | member target property ih =>
    simp only [Run.eval]
    refine h.enter depth (law.sequence (ih locals (depth + 1)) fun value => ?_)
    exact law.ofExcept (value.property_aboutValues property)
  | unary op operand ih =>
    simp only [Run.eval]
    refine h.enter depth (law.sequence (ih locals (depth + 1)) fun value => ?_)
    exact law.ofExcept (op.evaluate_aboutValues value)
  | binary op left right ihLeft ihRight =>
    simp only [Run.eval]
    refine h.enter depth (law.sequence (ihLeft locals (depth + 1)) fun a => ?_)
    refine law.sequence (ihRight locals (depth + 1)) fun b => ?_
    exact law.ofExcept (op.evaluate_aboutValues a b)
  | logical op left right ihLeft ihRight =>
    simp only [Run.eval]
    refine h.enter depth (law.sequence (ihLeft locals (depth + 1)) fun value => ?_)
    refine law.sequence (truth op.symbol value) fun a => ?_
    have hright : law.Holds fun i => (do
        let value ← (runs i).eval right locals (depth + 1)
        pure (Value.bool (← Run.truth op.symbol value))) :=
      law.sequence (ihRight locals (depth + 1)) fun value =>
        law.sequence (truth op.symbol value) fun _ => law.value _
    -- The right side counts its steps only where it decides.
    cases op <;> cases a
    · exact law.value _
    · exact hright
    · exact hright
    · exact law.value _
  | conditional condition thenBranch elseBranch ih ihThen ihElse =>
    simp only [Run.eval]
    refine h.enter depth (law.sequence (ih locals (depth + 1)) fun value => ?_)
    refine law.sequence (truth conditionalSpec.id value) fun b => ?_
    cases b with
    | true => exact ihThen locals (depth + 1)
    | false => exact ihElse locals (depth + 1)
  | call function args ih =>
    simp only [Run.eval]
    refine h.enter depth (law.sequence ?_ fun values => ?_)
    · exact OfRuns.args fun arg harg => ih arg harg locals (depth + 1)
    · exact law.ofExcept (Function.call_aboutValues function values)
  | method receiver name argument ih ihArgument =>
    simp only [Run.eval]
    refine h.enter depth (law.sequence (ih locals (depth + 1)) fun value => ?_)
    have hoperands : law.OfOperands fun i => (runs i).operand argument locals (depth + 1) :=
      h.operands fun arg harg locals => ihArgument arg harg locals (depth + 1)
    cases value with
    | list items => exact hoperands.apply name items
    | _ => exact law.failure rfl

end OfRuns

end FamilyLaw

end CommissionRules
