import Mathlib
import CommissionRules.Compiler
import CommissionRules.Proofs.Evaluation.Errors
import CommissionRules.Proofs.Grammar.Formation

/-!
# Vocabulary

Every name in a compiled expression is known: functions and methods are in the catalog and get the
arguments that the catalog says, and a reference starts with a parameter of a lambda around it or
with a data source.  So an evaluation never fails because of a name or of the number or kind of
arguments, but for a data source that the context leaves out.
-/

namespace CommissionRules

/-- The expressions whose names are known, below lambdas with the given parameters. -/
inductive Expr.Known (catalog : Catalog) : (params : List String) → Expr → Prop
  | literal {params} (value : Value) : Known catalog params (.literal value)
  | ref {params source} (path : List String)
      (known : source ∈ params ∨ ∃ data, catalog.source? source = some data) :
      Known catalog params (.ref source path)
  | member {params target} (property : String) (known : Known catalog params target) :
      Known catalog params (.member target property)
  | unary {params operand} (op : UnaryOp) (known : Known catalog params operand) :
      Known catalog params (.unary op operand)
  | binary {params left right} (op : BinaryOp) (knownLeft : Known catalog params left)
      (knownRight : Known catalog params right) : Known catalog params (.binary op left right)
  | logical {params left right} (op : LogicalOp) (knownLeft : Known catalog params left)
      (knownRight : Known catalog params right) : Known catalog params (.logical op left right)
  | conditional {params condition thenBranch elseBranch} (known : Known catalog params condition)
      (knownThen : Known catalog params thenBranch) (knownElse : Known catalog params elseBranch) :
      Known catalog params (.conditional condition thenBranch elseBranch)
  | call {params function spec args} (inCatalog : Catalog.function? function = some spec)
      (arity : args.length = spec.arity) (known : ∀ arg ∈ args, Known catalog params arg) :
      Known catalog params (.call function args)
  | plainMethod {params receiver name method} (inCatalog : Catalog.method? name = some method)
      (kind : method.argument = .none) (known : Known catalog params receiver) :
      Known catalog params (.method receiver name .none)
  | valueMethod {params receiver name method arg} (inCatalog : Catalog.method? name = some method)
      (kind : method.argument = .value) (known : Known catalog params receiver)
      (knownArg : Known catalog params arg) :
      Known catalog params (.method receiver name (.value arg))
  | lambdaMethod {params receiver name method param body}
      (inCatalog : Catalog.method? name = some method) (kind : method.argument = .lambda)
      (known : Known catalog params receiver) (knownBody : Known catalog (param :: params) body) :
      Known catalog params (.method receiver name (.lambda param body))

namespace Grammar

theorem fst_mem_of_lookup {scope : Scope} {name : String} {shape : Shape}
    (h : scope.lookup name = some shape) : name ∈ scope.map Prod.fst := by
  rw [List.lookup_eq_some_iff] at h
  obtain ⟨before, after, rfl, -⟩ := h
  simp

/-- The scope in which something is read gives the parameters of the lambdas around it. -/
theorem Formed.known {s : Setting} {scope : Scope} {parsed : Parsed} (h : Formed s scope parsed) :
    parsed.expr.Known s.catalog (scope.map Prod.fst) := by
  induction h with
  | number | text | bool | null => exact .literal _
  | parameter bound => exact .ref [] (.inl (fst_mem_of_lookup bound))
  | source free known => exact .ref [] (.inr ⟨_, known⟩)
  | call known formed arity height ih =>
    refine .call known (by simpa using arity) ?_
    exact List.forall_mem_map.mpr ih
  | path receiver admits limit ih =>
    cases ih with
    | ref path known => exact .ref _ known
  | member formed computed admits height ih => exact .member _ ih
  | plainMethod formed known kind items height ih => exact .plainMethod known kind ih
  | valueMethod formed formedArg known kind items height ih ihArg =>
    exact .valueMethod known kind ih ihArg
  | lambdaMethod formed formedBody known kind items height ih ihBody =>
    exact .lambdaMethod known kind ih ihBody
  | unary op formed height ih => exact .unary op ih
  | connective c formedLeft formedRight height ihLeft ihRight =>
    cases c with
    | binary op => exact .binary op ihLeft ihRight
    | logical op => exact .logical op ihLeft ihRight
  | conditional formed formedThen formedElse height ih ihThen ihElse =>
    exact .conditional ih ihThen ihElse

end Grammar

/-- The errors that are left where all names are known. -/
def EvalError.Expected (catalog : Catalog) (context : Context) : EvalError → Prop
  | inputNotFound source =>
      (∃ data, catalog.source? source = some data) ∧ context.get? source = none
  | invalidArgument _ fault => fault.ofValue = true
  | _ => True

theorem EvalError.expected_of_ofValues (catalog : Catalog) (context : Context) (error : EvalError)
    (h : error.ofValues = true) : error.Expected catalog context := by
  cases error with
  | inputNotFound source => cases h
  | invalidArgument function fault => exact h
  | _ => trivial

/-- The names of an expression are known and the parameters of the lambdas around it have values. -/
def Expr.KnownUnder (catalog : Catalog) (locals : Locals) (e : Expr) : Prop :=
  ∃ params, e.Known catalog params ∧ ∀ name ∈ params, locals.lookup name ≠ none

theorem Expr.KnownUnder.part {catalog : Catalog} {e part : Expr} {locals locals' : Locals}
    (h : e.KnownUnder catalog locals) (hpart : e.Part locals part locals') :
    part.KnownUnder catalog locals' := by
  obtain ⟨params, h, bound⟩ := h
  cases h with
  | literal | ref => cases hpart
  | member _ known | unary _ known =>
    cases hpart
    exact ⟨params, known, bound⟩
  | binary _ knownLeft knownRight | logical _ knownLeft knownRight =>
    cases hpart
    · exact ⟨params, knownLeft, bound⟩
    · exact ⟨params, knownRight, bound⟩
  | conditional known knownThen knownElse =>
    cases hpart
    · exact ⟨params, known, bound⟩
    · exact ⟨params, knownThen, bound⟩
    · exact ⟨params, knownElse, bound⟩
  | call _ _ known =>
    cases hpart with
    | argument harg => exact ⟨params, known _ harg, bound⟩
  | plainMethod _ _ known =>
    cases hpart
    exact ⟨params, known, bound⟩
  | valueMethod _ _ known knownArg =>
    cases hpart
    · exact ⟨params, known, bound⟩
    · exact ⟨params, knownArg, bound⟩
  | @lambdaMethod _ receiver name method param body _ _ known knownBody =>
    cases hpart with
    | receiver => exact ⟨params, known, bound⟩
    | body item =>
      refine ⟨param :: params, knownBody, fun name hname => ?_⟩
      rw [List.lookup_cons]
      split
      · exact Option.some_ne_none item
      · next hne =>
        rcases List.mem_cons.mp hname with rfl | hname
        · simp at hne
        · exact bound name hname

/-- A method of the catalog gets its argument as the kind that the catalog says. -/
theorem Expr.Known.method {catalog : Catalog} {params : List String} {receiver : Expr}
    {name : String} {argument : Argument Expr}
    (h : Known catalog params (.method receiver name argument)) :
    ∃ spec, Catalog.method? name = some spec ∧
      (spec.argument = .lambda → ∃ param body, argument = .lambda param body) ∧
      (spec.argument = .value → ∃ arg, argument = .value arg) := by
  cases h with
  | @plainMethod _ _ _ spec inCatalog kind _ =>
    exact ⟨spec, inCatalog, fun hkind => (nomatch kind.symm.trans hkind),
      fun hkind => (nomatch kind.symm.trans hkind)⟩
  | @valueMethod _ _ _ spec arg inCatalog kind _ _ =>
    exact ⟨spec, inCatalog, fun hkind => (nomatch kind.symm.trans hkind), fun _ => ⟨arg, rfl⟩⟩
  | @lambdaMethod _ _ _ spec param body inCatalog kind _ _ =>
    exact ⟨spec, inCatalog, fun _ => ⟨param, body, rfl⟩,
      fun hkind => (nomatch kind.symm.trans hkind)⟩

/-- Where all names are known, an evaluation fails with the expected errors only. -/
theorem Run.expected (catalog : Catalog) (run : Run) :
    ErrorInvariant run (EvalError.Expected catalog run.context) fun e locals _ =>
      e.KnownUnder catalog locals where
  steps := trivial
  time := trivial
  values := EvalError.expected_of_ofValues catalog run.context
  deep := fun _ _ => trivial
  absent := by
    rintro source path locals _ ⟨params, h, bound⟩ hlocals hcontext
    cases h with
    | ref _ known =>
      rcases known with hparam | hsource
      · exact absurd hlocals (bound source hparam)
      · exact ⟨hsource, hcontext⟩
  called := by
    rintro function args locals _ ⟨params, h, -⟩ arguments hlength
    cases h with
    | call inCatalog arity _ =>
      exact Function.call_errorsIn_of_known (EvalError.expected_of_ofValues catalog run.context)
        inCatalog (hlength.trans arity)
  known := by
    rintro receiver name argument locals _ ⟨params, h, -⟩ hnone
    obtain ⟨spec, inCatalog, -⟩ := h.method
    rw [inCatalog] at hnone
    cases hnone
  lambda := by
    rintro receiver name argument locals _ ⟨params, h, -⟩ spec hspec hkind hother
    obtain ⟨spec', inCatalog, hlambda, -⟩ := h.method
    obtain rfl : spec' = spec := Option.some.inj (inCatalog.symm.trans hspec)
    obtain ⟨param, body, heq⟩ := hlambda hkind
    exact absurd heq (hother param body)
  value := by
    rintro receiver name argument locals _ ⟨params, h, -⟩ spec hspec hkind hother
    obtain ⟨spec', inCatalog, -, hvalue⟩ := h.method
    obtain rfl : spec' = spec := Option.some.inj (inCatalog.symm.trans hspec)
    obtain ⟨arg, heq⟩ := hvalue hkind
    exact absurd heq (hother arg)
  part := fun h hpart => h.part hpart

namespace Compiler

/-- Whatever is compiled names functions and methods of the catalog with the arguments that they
take, and refers to parameters of the lambdas around the reference and to data sources.  An
evaluation then never fails with an unknown name, a missing argument, a missing lambda or a missing
count, and it finds every data source that the context has. -/
theorem parse_known (compiler : Compiler) {source : String} {e : Expr}
    (h : compiler.parse source = .ok e) :
    e.Known compiler.catalog [] ∧
    ∀ (run : Run) (error : EvalError), (run.evaluate e).1 = .error error →
      (∀ function, error ≠ .invalidArgument function .unknownFunction) ∧
      (∀ function number, error ≠ .invalidArgument function (.missing number)) ∧
      (∀ method, error ≠ .invalidArgument method .unknownMethod) ∧
      (∀ method, error ≠ .invalidArgument method .notALambda) ∧
      (∀ method, error ≠ .invalidArgument method .notAValue) ∧
      ∀ name, error = .inputNotFound name →
        (∃ data, compiler.catalog.source? name = some data) ∧ run.context.get? name = none := by
  obtain ⟨ts, parsed, -, hparsed, rfl⟩ := parse_eq_ok.mp h
  have known : parsed.expr.Known compiler.catalog [] :=
    (Grammar.parseTokens_spelled hparsed).formed.known
  refine ⟨known, fun run error herror => ?_⟩
  have expected : error.Expected compiler.catalog run.context :=
    (run.expected compiler.catalog).eval_failsOnly ⟨[], known, nofun⟩ 0 error herror
  refine ⟨?_, ?_, ?_, ?_, ?_, ?_⟩
  · rintro function rfl
    cases expected
  · rintro function number rfl
    cases expected
  · rintro method rfl
    cases expected
  · rintro method rfl
    cases expected
  · rintro method rfl
    cases expected
  · rintro name rfl
    exact expected

/-- The amounts of some sales, where two lambdas have parameters of the same name. -/
def takenSource : String :=
  "allSales.take(sale.Quantity).where(s => Math.abs(s.Amount) > sale.Amount).sum(s => s.Amount)"

def takenTree : Expr :=
  .method
    (.method (.method (.ref "allSales" []) "take" (.value (.ref "sale" ["Quantity"]))) "where"
      (.lambda "s" (.binary .greater (.call "Math.abs" [.ref "s" ["Amount"]])
        (.ref "sale" ["Amount"]))))
    "sum" (.lambda "s" (.ref "s" ["Amount"]))

/-- In an empty context the evaluation fails at the first data source. -/
theorem parse_known_taken :
    Compiler.parse ⟨.standard, 5⟩ takenSource = .ok takenTree ∧ takenTree.Known .standard [] ∧
      (Run.evaluate ⟨.empty, ⟨9, 100, 100⟩, fun _ => 0⟩ takenTree).1
        = .error (.inputNotFound "allSales") ∧
      ∃ data, Catalog.standard.source? "allSales" = some data := by
  have hparse : Compiler.parse ⟨.standard, 5⟩ takenSource = .ok takenTree := by cbv
  have herror : (Run.evaluate ⟨.empty, ⟨9, 100, 100⟩, fun _ => 0⟩ takenTree).1
      = .error (.inputNotFound "allSales") := by
    cbv
  obtain ⟨known, hrun⟩ := parse_known ⟨.standard, 5⟩ hparse
  obtain ⟨-, -, -, -, -, hinput⟩ := hrun _ _ herror
  exact ⟨hparse, known, herror, (hinput "allSales" rfl).1⟩

end Compiler

end CommissionRules
