import CommissionRules.Evaluation
import CommissionRules.Proofs.Catalog
import CommissionRules.Proofs.Except

/-!
# Failures of evaluations

Which errors a computation can end with.  `FailsOnly` says that all of its errors are among those
allowed, whatever the number of steps before it; it is closed under everything computations are
built from, and `ErrorsIn` says the same of operations without steps.

Errors of the budget come only from steps and from entering nodes.  The functions, the operators and
the collection methods fail with errors about values, or as their operands do, or because they are
not in the catalog or get other arguments than the catalog says.
-/

namespace CommissionRules

/-- Holds of the errors that the budget of an evaluation causes. -/
def EvalError.ofBudget : EvalError → Bool
  | stepBudgetExceeded _ | depthExceeded _ | timedOut _ => true
  | _ => false

/-- Holds of what is wrong with the value of an argument.  The other faults are in the name of what
is called, or in the number or kind of its arguments. -/
def ArgumentFault.ofValue : ArgumentFault → Bool
  | notACount _ | notADate _ | dateOutOfRange _ | negativeRoot _ => true
  | _ => false

/-- Holds of the errors of an operation that can do nothing with the values that it got. -/
def EvalError.ofValues : EvalError → Bool
  | typeMismatch _ _ _ | propertyNotFound _ _ | divisionByZero _ _ _ | emptyCollection _ => true
  | invalidArgument _ fault => fault.ofValue
  | _ => false

theorem EvalError.not_ofBudget_of_ofValues (error : EvalError) (h : error.ofValues = true) :
    error.ofBudget = false := by
  cases error with
  | stepBudgetExceeded | depthExceeded | timedOut => cases h
  | _ => rfl

/-! ## Operations on values -/

/-- All errors of an operation on values are about values. -/
def AboutValues {α : Type} (x : Except EvalError α) : Prop :=
  ∀ error, x = .error error → error.ofBudget = false

/-- All errors of an operation on values are among those allowed. -/
def ErrorsIn {α : Type} (allowed : EvalError → Prop) (x : Except EvalError α) : Prop :=
  ∀ error, x = .error error → allowed error

section ErrorsIn

variable {α β : Type} {allowed : EvalError → Prop}

theorem errorsIn_ok (a : α) : ErrorsIn allowed (.ok a) := by
  intro error h
  cases h

theorem errorsIn_error {error : EvalError} (h : allowed error) :
    ErrorsIn allowed (.error error : Except EvalError α) := by
  intro error' h'
  cases h'
  exact h

theorem errorsIn_bind {x : Except EvalError α} {f : α → Except EvalError β}
    (hx : ErrorsIn allowed x) (hf : ∀ a, ErrorsIn allowed (f a)) : ErrorsIn allowed (x >>= f) := by
  intro error h
  cases x with
  | error e => exact hx error (congrArg Except.error (Except.error.inj h))
  | ok a => exact hf a error h

end ErrorsIn

section Operations

variable {allowed : EvalError → Prop} (values : ∀ error, error.ofValues = true → allowed error)

include values

theorem Value.property_errorsIn (name : String) (value : Value) :
    ErrorsIn allowed (value.property name) := by
  cases value with
  | record fields =>
    rw [property]
    split
    · exact errorsIn_ok _
    · exact errorsIn_error (values _ rfl)
  | _ => exact errorsIn_error (values _ rfl)

theorem Value.follow_errorsIn (path : List String) (value : Value) :
    ErrorsIn allowed (value.follow path) := by
  induction path generalizing value with
  | nil => exact errorsIn_ok _
  | cons name path ih => exact errorsIn_bind (property_errorsIn values name value) ih

theorem UnaryOp.evaluate_errorsIn (op : UnaryOp) (value : Value) :
    ErrorsIn allowed (op.evaluate value) := by
  unfold evaluate
  split
  · exact errorsIn_ok _
  · exact errorsIn_ok _
  · exact errorsIn_error (values _ rfl)
  · exact errorsIn_error (values _ rfl)

namespace BinaryOp

variable (op : BinaryOp) (left right : Value)

theorem operandNumber_errorsIn : ErrorsIn allowed (op.operandNumber left) := by
  unfold operandNumber
  split
  · exact errorsIn_ok _
  · exact errorsIn_error (values _ rfl)

theorem comparison_errorsIn (test : Ordering → Bool) :
    ErrorsIn allowed (op.comparison test left right) := by
  refine errorsIn_bind ?_ fun _ => errorsIn_ok _
  unfold order
  split
  · exact errorsIn_ok _
  · exact errorsIn_ok _
  · exact errorsIn_error (values _ rfl)
  · exact errorsIn_error (values _ rfl)
  · exact errorsIn_error (values _ rfl)

theorem arithmetic_errorsIn (compute : Number → Number → Number) :
    ErrorsIn allowed (op.arithmetic compute left right) :=
  errorsIn_bind (operandNumber_errorsIn values op left) fun _ =>
    errorsIn_bind (operandNumber_errorsIn values op right) fun _ => errorsIn_ok _

theorem division_errorsIn (compute : Number → Number → Number) :
    ErrorsIn allowed (op.division compute left right) := by
  refine errorsIn_bind (operandNumber_errorsIn values op left) fun a => ?_
  refine errorsIn_bind (operandNumber_errorsIn values op right) fun b => ?_
  split
  · exact errorsIn_error (values _ rfl)
  · exact errorsIn_ok _

theorem evaluate_errorsIn : ErrorsIn allowed (op.evaluate left right) := by
  unfold evaluate
  cases op with
  | power | multiply | add | subtract => exact arithmetic_errorsIn values _ _ _ _
  | divide | modulo => exact division_errorsIn values _ _ _ _
  | less | lessOrEqual | greater | greaterOrEqual => exact comparison_errorsIn values _ _ _ _
  | looseEqual | looseNotEqual | strictEqual | strictNotEqual => exact errorsIn_ok _

end BinaryOp

end Operations

/-! ## Functions -/

namespace Function

variable {allowed : EvalError → Prop} (values : ∀ error, error.ofValues = true → allowed error)
  {function space name : String} {args : List Value} {index : Nat}

/-- A function looks at no more arguments than its arity says.  A name that no function has may look
at any. -/
def Given (allowed : EvalError → Prop) (function space name : String) (args : List Value) : Prop :=
  ∀ index, (∀ spec, Catalog.function? (space ++ "." ++ name) = some spec → index < spec.arity) →
    ErrorsIn allowed (argument function args index)

/-- The namespace has a function of the name, or the error of an unknown function is allowed. -/
def KnownOr (allowed : EvalError → Prop) (function space name : String) : Prop :=
  (space, name) ∉ Catalog.functionNames → allowed (.invalidArgument function .unknownFunction)

theorem argument_errorsIn
    (missing : args.length ≤ index → allowed (.invalidArgument function (.missing (index + 1)))) :
    ErrorsIn allowed (argument function args index) := by
  rw [argument]
  split
  · exact errorsIn_ok _
  · next hnone => exact errorsIn_error (missing (List.getElem?_eq_none_iff.mp hnone))

theorem Given.first (given : Given allowed function space name args) :
    ErrorsIn allowed (argument function args 0) :=
  given 0 fun _ h => Catalog.arity_pos (Catalog.function?_eq_some h).1

include values

theorem numberArgument_errorsIn (h : ErrorsIn allowed (argument function args index)) :
    ErrorsIn allowed (numberArgument function args index) := by
  refine errorsIn_bind h fun value => ?_
  split
  · exact errorsIn_ok _
  · exact errorsIn_error (values _ rfl)

theorem textArgument_errorsIn (h : ErrorsIn allowed (argument function args index)) :
    ErrorsIn allowed (textArgument function args index) := by
  refine errorsIn_bind h fun value => ?_
  split
  · exact errorsIn_ok _
  · exact errorsIn_error (values _ rfl)

theorem dateArgument_errorsIn (h : ErrorsIn allowed (argument function args index)) :
    ErrorsIn allowed (dateArgument function args index) := by
  refine errorsIn_bind (textArgument_errorsIn values h) fun text => ?_
  dsimp only
  split
  · exact errorsIn_ok _
  · exact errorsIn_error (values _ rfl)

theorem math_errorsIn (given : Given allowed function "Math" name args)
    (known : KnownOr allowed function "Math" name) :
    ErrorsIn allowed (math function name args) := by
  refine errorsIn_bind (numberArgument_errorsIn values given.first) fun n => ?_
  have second (h : ∀ spec, Catalog.function? ("Math" ++ "." ++ name) = some spec → 1 < spec.arity) :
      ErrorsIn allowed (numberArgument function args 1) :=
    numberArgument_errorsIn values (given 1 h)
  split
  · exact errorsIn_bind (second (by decide)) fun _ => errorsIn_ok _
  · exact errorsIn_bind (second (by decide)) fun _ => errorsIn_ok _
  · exact errorsIn_bind (second (by decide)) fun _ => errorsIn_ok _
  · exact errorsIn_ok _
  · exact errorsIn_ok _
  · exact errorsIn_ok _
  · exact errorsIn_ok _
  · split
    · exact errorsIn_error (values _ rfl)
    · exact errorsIn_ok _
  · refine errorsIn_error (known ?_)
    rw [Catalog.functionNames_eq]
    simp_all

theorem date_errorsIn (given : Given allowed function "Date" name args)
    (known : KnownOr allowed function "Date" name) :
    ErrorsIn allowed (date function name args) := by
  refine errorsIn_bind (dateArgument_errorsIn values given.first) fun d => ?_
  have second (h : ∀ spec, Catalog.function? ("Date" ++ "." ++ name) = some spec → 1 < spec.arity) :
      ErrorsIn allowed (argument function args 1) := given 1 h
  split
  · exact errorsIn_ok _
  · exact errorsIn_ok _
  · exact errorsIn_ok _
  · exact errorsIn_ok _
  · exact errorsIn_bind (dateArgument_errorsIn values (second (by decide))) fun _ => errorsIn_ok _
  · refine errorsIn_bind (numberArgument_errorsIn values (second (by decide))) fun days => ?_
    split
    · exact errorsIn_ok _
    · exact errorsIn_error (values _ rfl)
  · refine errorsIn_error (known ?_)
    rw [Catalog.functionNames_eq]
    simp_all

theorem scalarText_errorsIn (value : Value) : ErrorsIn allowed (scalarText value) := by
  unfold scalarText
  split
  · exact errorsIn_ok _
  · exact errorsIn_error (values _ rfl)
  · exact errorsIn_error (values _ rfl)
  · exact errorsIn_ok _

theorem concat_errorsIn (args : List Value) : ErrorsIn allowed (concat args) := by
  induction args with
  | nil => exact errorsIn_ok _
  | cons arg rest ih =>
    exact errorsIn_bind (scalarText_errorsIn values arg) fun _ =>
      errorsIn_bind ih fun _ => errorsIn_ok _

theorem text_errorsIn (given : Given allowed function "String" name args)
    (known : KnownOr allowed function "String" name) :
    ErrorsIn allowed (text function name args) := by
  rw [text]
  split
  · exact errorsIn_bind (concat_errorsIn values args) fun _ => errorsIn_ok _
  · refine errorsIn_bind (textArgument_errorsIn values given.first) fun s => ?_
    have second
        (h : ∀ spec, Catalog.function? ("String" ++ "." ++ name) = some spec → 1 < spec.arity) :
        ErrorsIn allowed (textArgument function args 1) :=
      textArgument_errorsIn values (given 1 h)
    split
    · exact errorsIn_ok _
    · exact errorsIn_ok _
    · exact errorsIn_ok _
    · exact errorsIn_bind (second (by decide)) fun _ => errorsIn_ok _
    · exact errorsIn_bind (second (by decide)) fun _ => errorsIn_ok _
    · refine errorsIn_error (known ?_)
      rw [Catalog.functionNames_eq]
      simp_all

/-- Any function, with any number of arguments. -/
theorem call_errorsIn (function : String) (args : List Value)
    (missing : ∀ index, allowed (.invalidArgument function (.missing (index + 1))))
    (unknown : allowed (.invalidArgument function .unknownFunction)) :
    ErrorsIn allowed (call function args) := by
  have given (space name : String) : Given allowed function space name args :=
    fun index _ => argument_errorsIn fun _ => missing index
  have known (space name : String) : KnownOr allowed function space name := fun _ => unknown
  rw [call]
  split
  · exact math_errorsIn values (given _ _) (known _ _)
  · exact date_errorsIn values (given _ _) (known _ _)
  · exact text_errorsIn values (given _ _) (known _ _)
  · exact errorsIn_error unknown

/-- A function of the catalog that gets as many arguments as its arity says misses none. -/
theorem call_errorsIn_of_known {id : String} {spec : FunctionSpec}
    (known : Catalog.function? id = some spec) (arity : args.length = spec.arity) :
    ErrorsIn allowed (call id args) := by
  obtain ⟨hmem, hid⟩ := Catalog.function?_eq_some known
  obtain ⟨space, name, hsplit, hspace, happend⟩ := Catalog.splitName_id hmem
  rw [hid] at hsplit happend
  rw [← happend] at known
  have given : Given allowed id space name args := by
    intro index hindex
    refine argument_errorsIn fun hlength => ?_
    have := hindex spec known
    omega
  have hnames : KnownOr allowed id space name :=
    fun hname => absurd (Catalog.mem_functionNames hspace known) hname
  simp only [Catalog.isNamespace, Bool.or_eq_true, beq_iff_eq] at hspace
  rw [call, hsplit]
  rcases hspace with (rfl | rfl) | rfl
  · exact math_errorsIn values given hnames
  · exact date_errorsIn values given hnames
  · exact text_errorsIn values given hnames

end Function

/-! ## Errors apart from the budget -/

theorem Value.property_aboutValues (name : String) (value : Value) :
    AboutValues (value.property name) :=
  property_errorsIn EvalError.not_ofBudget_of_ofValues name value

theorem Value.follow_aboutValues (path : List String) (value : Value) :
    AboutValues (value.follow path) :=
  follow_errorsIn EvalError.not_ofBudget_of_ofValues path value

theorem UnaryOp.evaluate_aboutValues (op : UnaryOp) (value : Value) :
    AboutValues (op.evaluate value) :=
  evaluate_errorsIn EvalError.not_ofBudget_of_ofValues op value

theorem BinaryOp.evaluate_aboutValues (op : BinaryOp) (left right : Value) :
    AboutValues (op.evaluate left right) :=
  evaluate_errorsIn EvalError.not_ofBudget_of_ofValues op left right

theorem Function.call_aboutValues (function : String) (args : List Value) :
    AboutValues (call function args) :=
  call_errorsIn EvalError.not_ofBudget_of_ofValues function args (fun _ => rfl) rfl

/-! ## Computations with steps -/

/-- All errors of a computation are among those allowed, after any number of steps. -/
def Eval.FailsOnly {α : Type} (allowed : EvalError → Prop) (m : Eval α) : Prop :=
  ∀ steps error, (m.run.run steps).1 = .error error → allowed error

namespace Eval

variable {α β : Type} {allowed : EvalError → Prop}

theorem failsOnly_pure (a : α) : FailsOnly allowed (pure a) := by
  intro steps error h
  cases h

theorem failsOnly_throw {error : EvalError} (h : allowed error) :
    FailsOnly allowed (throw error : Eval α) := by
  intro steps error' h'
  cases h'
  exact h

theorem failsOnly_get : FailsOnly allowed (get : Eval Nat) := by
  intro steps error h
  cases h

theorem failsOnly_set (steps : Nat) : FailsOnly allowed (set steps : Eval PUnit) := by
  intro steps' error h
  cases h

theorem run_bind (m : Eval α) (f : α → Eval β) (steps : Nat) :
    (m >>= f).run.run steps =
      match m.run.run steps with
      | (.ok a, steps') => (f a).run.run steps'
      | (.error e, steps') => (.error e, steps') := by
  show ((m.run >>= ExceptT.bindCont f) : StateM Nat (Except EvalError β)).run steps = _
  rw [StateT.run_bind]
  rcases hm : m.run.run steps with ⟨result, steps'⟩
  cases result <;> rfl

theorem failsOnly_bind {m : Eval α} {f : α → Eval β} (hm : FailsOnly allowed m)
    (hf : ∀ a, FailsOnly allowed (f a)) : FailsOnly allowed (m >>= f) := by
  intro steps error h
  rw [run_bind] at h
  rcases hrun : m.run.run steps with ⟨result, steps'⟩
  rw [hrun] at h
  cases result with
  | ok a => exact hf a steps' error h
  | error e =>
    have heq : (m.run.run steps).1 = .error error := by
      rw [hrun]
      exact congrArg Except.error (Except.error.inj h)
    exact hm steps error heq

theorem failsOnly_of_errorsIn {x : Except EvalError α} (h : ErrorsIn allowed x) :
    FailsOnly allowed (ofExcept x) := by
  cases x with
  | ok a => exact failsOnly_pure a
  | error e => exact failsOnly_throw (h e rfl)

theorem failsOnly_all {f : α → Eval β} (hf : ∀ a, FailsOnly allowed (f a)) (items : List α) :
    FailsOnly allowed (all f items) := by
  induction items with
  | nil => exact failsOnly_pure _
  | cons a rest ih =>
    exact failsOnly_bind (hf a) fun _ => failsOnly_bind ih fun _ => failsOnly_pure _

end Eval

/-- All errors of the evaluation of a method's argument are among those allowed. -/
def Operand.FailsOnly (allowed : EvalError → Prop) : Operand → Prop
  | none => True
  | value result => Eval.FailsOnly allowed result
  | lambda apply => ∀ item, Eval.FailsOnly allowed (apply item)

namespace Collection

open Eval

variable {allowed : EvalError → Prop} {operand : Operand} {method : String}

theorem applyTo_failsOnly (hoperand : operand.FailsOnly allowed)
    (given : (∀ apply, operand ≠ .lambda apply) → allowed (.invalidArgument method .notALambda))
    (item : Value) : FailsOnly allowed (applyTo method operand item) := by
  cases operand with
  | lambda apply => exact hoperand item
  | none => exact failsOnly_throw (given nofun)
  | value result => exact failsOnly_throw (given nofun)

variable (values : ∀ error, error.ofValues = true → allowed error)

include values

theorem count_failsOnly (hoperand : operand.FailsOnly allowed)
    (given : (∀ result, operand ≠ .value result) → allowed (.invalidArgument method .notAValue)) :
    FailsOnly allowed (count method operand) := by
  cases operand with
  | value result =>
    refine failsOnly_bind hoperand fun value => ?_
    split
    · exact failsOnly_pure _
    · exact failsOnly_throw (values _ rfl)
  | none => exact failsOnly_throw (given nofun)
  | lambda apply => exact failsOnly_throw (given nofun)

theorem pick_failsOnly (item : Option Value) : FailsOnly allowed (pick method item) := by
  cases item with
  | some value => exact failsOnly_pure _
  | none => exact failsOnly_throw (values _ rfl)

section Items

variable (applied : ∀ item, FailsOnly allowed (applyTo method operand item))

include applied

theorem test_failsOnly (item : Value) : FailsOnly allowed (test method operand item) := by
  refine failsOnly_bind (applied item) fun value => ?_
  split
  · exact failsOnly_pure _
  · exact failsOnly_throw (values _ rfl)

theorem project_failsOnly (item : Value) : FailsOnly allowed (project method operand item) := by
  refine failsOnly_bind (applied item) fun value => ?_
  split
  · exact failsOnly_pure _
  · exact failsOnly_throw (values _ rfl)

theorem keep_failsOnly (items : List Value) : FailsOnly allowed (keep method operand items) := by
  induction items with
  | nil => exact failsOnly_pure _
  | cons item rest ih =>
    exact failsOnly_bind (test_failsOnly values applied item) fun _ =>
      failsOnly_bind ih fun _ => failsOnly_pure _

theorem find_failsOnly (wanted : Bool) (items : List Value) :
    FailsOnly allowed (find method operand wanted items) := by
  induction items with
  | nil => exact failsOnly_pure _
  | cons item rest ih =>
    refine failsOnly_bind (test_failsOnly values applied item) fun found => ?_
    split
    · exact failsOnly_pure _
    · exact ih

omit values in
theorem keyed_failsOnly (items : List Value) : FailsOnly allowed (keyed method operand items) :=
  failsOnly_all (fun item => failsOnly_bind (applied item) fun _ => failsOnly_pure _) items

theorem numbers_failsOnly (items : List Value) :
    FailsOnly allowed (Eval.all (project method operand) items) :=
  failsOnly_all (project_failsOnly values applied) items

end Items

/-- A method fails with an error about values, as the evaluation of its argument does, or because it
is not in the catalog or does not get an argument of its kind. -/
theorem apply_failsOnly_of (method : String) (items : List Value)
    (lambda : ∀ spec, Catalog.method? method = some spec → spec.argument = .lambda →
      ∀ item, FailsOnly allowed (applyTo method operand item))
    (value : ∀ spec, Catalog.method? method = some spec → spec.argument = .value →
      FailsOnly allowed (count method operand))
    (known : Catalog.method? method = none → allowed (.invalidArgument method .unknownMethod)) :
    FailsOnly allowed (apply method items operand) := by
  unfold apply
  split
  · have applied := lambda _ rfl rfl
    exact failsOnly_bind (keep_failsOnly values applied items) fun _ => failsOnly_pure _
  · have applied := lambda _ rfl rfl
    exact failsOnly_bind (numbers_failsOnly values applied items) fun _ => failsOnly_pure _
  · have applied := lambda _ rfl rfl
    exact failsOnly_bind (numbers_failsOnly values applied items) fun _ => failsOnly_pure _
  · have applied := lambda _ rfl rfl
    refine failsOnly_bind (numbers_failsOnly values applied items) fun projected => ?_
    split
    · exact failsOnly_throw (values _ rfl)
    · exact failsOnly_pure _
  · have applied := lambda _ rfl rfl
    refine failsOnly_bind (numbers_failsOnly values applied items) fun projected => ?_
    split
    · exact failsOnly_throw (values _ rfl)
    · exact failsOnly_pure _
  · exact failsOnly_pure _
  · have applied := lambda _ rfl rfl
    exact failsOnly_bind (find_failsOnly values applied true items) fun _ => failsOnly_pure _
  · have applied := lambda _ rfl rfl
    exact failsOnly_bind (find_failsOnly values applied false items) fun _ => failsOnly_pure _
  · exact pick_failsOnly values _
  · exact pick_failsOnly values _
  · exact failsOnly_bind (keyed_failsOnly (lambda _ rfl rfl) items) fun _ => failsOnly_pure _
  · exact failsOnly_bind (keyed_failsOnly (lambda _ rfl rfl) items) fun _ => failsOnly_pure _
  · exact failsOnly_bind (keyed_failsOnly (lambda _ rfl rfl) items) fun _ => failsOnly_pure _
  · exact failsOnly_pure _
  · exact failsOnly_bind (value _ rfl rfl) fun _ => failsOnly_pure _
  · exact failsOnly_bind (value _ rfl rfl) fun _ => failsOnly_pure _
  · refine failsOnly_throw (known ?_)
    rw [Catalog.method?_eq_none, Catalog.methodNames_eq]
    simp_all

end Collection

namespace Run

open Eval

theorem resolve_errorsIn {allowed : EvalError → Prop} (run : Run) (locals : Locals)
    (source : String)
    (absent : locals.lookup source = none → run.context.get? source = none →
      allowed (.inputNotFound source)) : ErrorsIn allowed (run.resolve locals source) := by
  rw [resolve]
  split
  · exact errorsIn_ok _
  · next hlocals =>
    split
    · exact errorsIn_ok _
    · next hcontext => exact errorsIn_error (absent hlocals hcontext)

theorem resolve_aboutValues (run : Run) (locals : Locals) (source : String) :
    AboutValues (run.resolve locals source) :=
  run.resolve_errorsIn locals source fun _ _ => rfl

variable {allowed : EvalError → Prop} (run : Run)
  (steps : allowed (.stepBudgetExceeded run.budget.maxSteps))
  (time : allowed (.timedOut run.budget.timeout))

include steps time

theorem tick_failsOnly : FailsOnly allowed run.tick := by
  refine failsOnly_bind failsOnly_get fun count => ?_
  refine failsOnly_bind (failsOnly_set _) fun _ => ?_
  split
  · exact failsOnly_throw steps
  · split
    · exact failsOnly_throw time
    · exact failsOnly_pure _

theorem enter_failsOnly {α : Type} {depth : Nat} {node : Eval α}
    (deep : run.budget.maxDepth < depth → allowed (.depthExceeded run.budget.maxDepth))
    (hnode : FailsOnly allowed node) : FailsOnly allowed (run.enter depth node) := by
  rw [enter]
  split
  · next h => exact failsOnly_throw (deep h)
  · exact failsOnly_bind (tick_failsOnly run steps time) fun _ => hnode

omit steps time in
theorem truth_failsOnly (values : ∀ error, error.ofValues = true → allowed error)
    (operation : String) (value : Value) : FailsOnly allowed (truth operation value) := by
  unfold truth
  split
  · exact failsOnly_pure _
  · exact failsOnly_throw (values _ rfl)

omit steps time in
theorem evalArgs_failsOnly {args : List Expr} {locals : Locals} {depth : Nat}
    (h : ∀ arg ∈ args, FailsOnly allowed (run.eval arg locals depth)) :
    FailsOnly allowed (run.evalArgs args locals depth) := by
  induction args with
  | nil =>
    rw [evalArgs]
    exact failsOnly_pure _
  | cons arg rest ih =>
    rw [evalArgs]
    refine failsOnly_bind (h arg List.mem_cons_self) fun _ => ?_
    have hrest := ih fun other hother => h other (List.mem_cons_of_mem _ hother)
    exact failsOnly_bind hrest fun _ => failsOnly_pure _

end Run

end CommissionRules
