import CommissionRules.Proofs.Evaluation.Items
import CommissionRules.Proofs.Grammar.Formation

/-!
# Shapes

The static shapes tell the truth: in a context whose data sources are as the catalog declares them,
every value of an expression has the shape that was found for the expression when it was read
(`Grammar.Formed.returns`).  So what was checked against a shape does not fail when it is evaluated
(`Grammar.shapes_sound`).
-/

namespace CommissionRules

/-- A record that has a property of each name. -/
def Value.HasProperties (names : List String) (value : Value) : Prop :=
  ∃ fields, value = .record fields ∧ ∀ name ∈ names, ∃ field, Entries.get? name fields = some field

/-- What a shape says of a value.  A record about whose properties nothing is known may be any
value, such as the first item of any list. -/
def Shape.Holds : Shape → Value → Prop
  | unknown, _ => True
  | scalar, value => (∀ items, value ≠ .list items) ∧ ∀ fields, value ≠ .record fields
  | record properties, value => ∀ known, properties = some known → value.HasProperties known.names
  | collection properties, value => ∃ items, value = .list items ∧
      ∀ known, properties = some known → ∀ item ∈ items, item.HasProperties known.names

/-- The data sources that are in the context are as the catalog declares them. -/
def Context.Fits (catalog : Catalog) (context : Context) : Prop :=
  ∀ name source value, catalog.source? name = some source → context.get? name = some value →
    match source.kind with
    | .object => value.HasProperties source.properties
    | .collection => ∃ items, value = .list items ∧
        ∀ item ∈ items, item.HasProperties source.properties

/-- The parameters in scope are those that have a value, and each value is of the shape of its
parameter. -/
structure Scope.Binds (scope : Scope) (locals : Locals) : Prop where
  value : ∀ {name shape}, scope.lookup name = some shape →
    ∃ value, locals.lookup name = some value ∧ shape.Holds value
  free : ∀ {name}, scope.lookup name = none → locals.lookup name = none

theorem Scope.Binds.nil : Scope.Binds [] [] := ⟨nofun, fun _ => rfl⟩

theorem Scope.Binds.cons {scope : Scope} {locals : Locals} {shape : Shape} {value : Value}
    (h : scope.Binds locals) (param : String) (holds : shape.Holds value) :
    Scope.Binds ((param, shape) :: scope) ((param, value) :: locals) := by
  constructor
  · intro name shape' hlookup
    rw [List.lookup_cons] at hlookup ⊢
    split at hlookup
    · cases hlookup
      exact ⟨value, rfl, holds⟩
    · exact h.value hlookup
  · intro name hlookup
    rw [List.lookup_cons] at hlookup ⊢
    split at hlookup
    · cases hlookup
    · exact h.free hlookup

theorem Context.Fits.holds {catalog : Catalog} {context : Context} (fits : context.Fits catalog)
    {name : String} {source : DataSource} {value : Value}
    (known : catalog.source? name = some source) (present : context.get? name = some value) :
    (Shape.ofSource source).Holds value := by
  have hvalue := fits name source value known present
  unfold Shape.ofSource
  cases hkind : source.kind with
  | object =>
    rw [hkind] at hvalue
    rintro _ ⟨⟩
    exact hvalue
  | collection =>
    rw [hkind] at hvalue
    obtain ⟨items, rfl, hitems⟩ := hvalue
    refine ⟨items, rfl, ?_⟩
    rintro _ ⟨⟩
    exact hitems

namespace Shape

theorem items_hold {shape : Shape} {element : Option KnownProperties} {items : List Value}
    (hitems : shape.items? = some element) (holds : shape.Holds (.list items)) :
    ∀ item ∈ items, (record element).Holds item := by
  intro item hitem known hknown
  cases shape with
  | unknown =>
    cases hitems
    cases hknown
  | collection properties =>
    cases hitems
    obtain ⟨_, heq, hproperties⟩ := holds
    cases heq
    exact hproperties known hknown item hitem
  | scalar => cases hitems
  | record properties => cases hitems

/-! ## Scalars -/

theorem scalar_holds_number (n : Number) : scalar.Holds (.number n) := ⟨nofun, nofun⟩

theorem scalar_holds_bool (b : Bool) : scalar.Holds (.bool b) := ⟨nofun, nofun⟩

theorem scalar_holds_str (text : String) : scalar.Holds (.str text) := ⟨nofun, nofun⟩

/-- Every function of the catalog is said to give a scalar. -/
theorem ofReturn_function {id : String} {spec : FunctionSpec}
    (h : Catalog.function? id = some spec) : ofReturn spec.returns = scalar := by
  have hall : ∀ spec ∈ Catalog.functions, ofReturn spec.returns = scalar := by decide
  exact hall spec (Catalog.function?_eq_some h).1

end Shape

open Shape

theorem UnaryOp.evaluate_scalar (op : UnaryOp) (value : Value) :
    Gives scalar.Holds (op.evaluate value) := by
  unfold evaluate
  split
  · exact gives_ok (scalar_holds_bool _)
  · exact gives_ok (scalar_holds_number _)
  · exact gives_error _
  · exact gives_error _

theorem BinaryOp.division_scalar (op : BinaryOp) (compute : Number → Number → Number)
    (left right : Value) : Gives scalar.Holds (op.division compute left right) := by
  refine gives_bind fun a => gives_bind fun b => ?_
  split
  · exact gives_error _
  · exact gives_ok (scalar_holds_number _)

theorem BinaryOp.evaluate_scalar (op : BinaryOp) (left right : Value) :
    Gives scalar.Holds (op.evaluate left right) := by
  unfold evaluate
  cases op with
  | power | multiply | add | subtract =>
    exact gives_bind fun _ => gives_bind fun _ => gives_ok (scalar_holds_number _)
  | divide | modulo => exact division_scalar _ _ _ _
  | less | lessOrEqual | greater | greaterOrEqual =>
    exact gives_bind fun _ => gives_ok (scalar_holds_bool _)
  | looseEqual | looseNotEqual | strictEqual | strictNotEqual =>
    exact gives_ok (scalar_holds_bool _)

namespace Function

variable (function name : String) (args : List Value)

theorem math_scalar : Gives scalar.Holds (math function name args) := by
  refine gives_bind fun n => ?_
  split
  · exact gives_bind fun _ => gives_ok (scalar_holds_number _)
  · exact gives_bind fun _ => gives_ok (scalar_holds_number _)
  · exact gives_bind fun _ => gives_ok (scalar_holds_number _)
  · exact gives_ok (scalar_holds_number _)
  · exact gives_ok (scalar_holds_number _)
  · exact gives_ok (scalar_holds_number _)
  · exact gives_ok (scalar_holds_number _)
  · split
    · exact gives_error _
    · exact gives_ok (scalar_holds_number _)
  · exact gives_error _

theorem date_scalar : Gives scalar.Holds (date function name args) := by
  refine gives_bind fun d => ?_
  split
  · exact gives_ok (scalar_holds_number _)
  · exact gives_ok (scalar_holds_number _)
  · exact gives_ok (scalar_holds_number _)
  · exact gives_ok (scalar_holds_number _)
  · exact gives_bind fun _ => gives_ok (scalar_holds_number _)
  · refine gives_bind fun days => ?_
    split
    · exact gives_ok (scalar_holds_str _)
    · exact gives_error _
  · exact gives_error _

theorem text_scalar : Gives scalar.Holds (text function name args) := by
  rw [text]
  split
  · exact gives_bind fun _ => gives_ok (scalar_holds_str _)
  · refine gives_bind fun s => ?_
    split
    · exact gives_ok (scalar_holds_number _)
    · exact gives_ok (scalar_holds_str _)
    · exact gives_ok (scalar_holds_str _)
    · exact gives_bind fun _ => gives_ok (scalar_holds_bool _)
    · exact gives_bind fun _ => gives_ok (scalar_holds_bool _)
    · exact gives_error _

theorem call_scalar : Gives scalar.Holds (call function args) := by
  rw [call]
  split
  · exact math_scalar function _ args
  · exact date_scalar function _ args
  · exact text_scalar function _ args
  · exact gives_error _

end Function

/-! ## Collection methods -/

namespace Collection

open Eval

theorem groupRecord_hasProperties (group : Value × List Value) :
    (groupRecord group).HasProperties groupProperties.names := by
  refine ⟨_, rfl, ?_⟩
  simp [groupProperties, Entries.insertAll, Entries.get?_insert]

theorem holds_of_subset {element : Option KnownProperties} {items kept : List Value}
    (hitems : ∀ item ∈ items, (record element).Holds item) (h : ∀ item ∈ kept, item ∈ items) :
    (collection element).Holds (.list kept) :=
  ⟨kept, rfl, fun known hknown item hitem => hitems item (h item hitem) known hknown⟩

/-- The value of a method has the shape that is said of it, whatever its argument is. -/
theorem apply_returns {name : String} {method : MethodSpec} {element : Option KnownProperties}
    {items : List Value} {operand : Operand} (inCatalog : Catalog.method? name = some method)
    (hitems : ∀ item ∈ items, (record element).Holds item) :
    Returns (Shape.ofMethod method element).Holds (apply name items operand) := by
  unfold apply
  split
  · cases inCatalog
    exact returns_bind keep_returns fun kept hkept => returns_pure (holds_of_subset hitems hkept)
  · cases inCatalog
    exact returns_bind (returns_true _) fun _ _ => returns_pure (scalar_holds_number _)
  · cases inCatalog
    exact returns_bind (returns_true _) fun _ _ => returns_pure (scalar_holds_number _)
  · cases inCatalog
    refine returns_bind (returns_true _) fun numbers _ => ?_
    split
    · exact returns_throw _
    · exact returns_pure (scalar_holds_number _)
  · cases inCatalog
    refine returns_bind (returns_true _) fun numbers _ => ?_
    split
    · exact returns_throw _
    · exact returns_pure (scalar_holds_number _)
  · cases inCatalog
    exact returns_pure (scalar_holds_number _)
  · cases inCatalog
    exact returns_bind (returns_true _) fun _ _ => returns_pure (scalar_holds_bool _)
  · cases inCatalog
    exact returns_bind (returns_true _) fun _ _ => returns_pure (scalar_holds_bool _)
  · cases inCatalog
    exact pick_returns.imp fun value hvalue =>
      hitems value (List.mem_of_mem_head? (Option.mem_def.mpr hvalue))
  · cases inCatalog
    exact pick_returns.imp fun value hvalue => hitems value (List.mem_of_getLast? hvalue)
  · cases inCatalog
    refine returns_bind (returns_true _) fun pairs _ => returns_pure ⟨_, rfl, ?_⟩
    rintro _ ⟨⟩
    exact List.forall_mem_map.mpr fun group _ => groupRecord_hasProperties group
  · cases inCatalog
    refine returns_bind keyed_returns fun pairs hpairs => returns_pure ?_
    refine holds_of_subset hitems fun item hitem => ?_
    obtain ⟨pair, hpair, rfl⟩ := mem_of_mem_sorted hitem
    exact hpairs pair hpair
  · cases inCatalog
    refine returns_bind keyed_returns fun pairs hpairs => returns_pure ?_
    refine holds_of_subset hitems fun item hitem => ?_
    obtain ⟨pair, hpair, rfl⟩ := mem_of_mem_sorted hitem
    exact hpairs pair hpair
  · cases inCatalog
    exact returns_pure (holds_of_subset hitems fun item => mem_of_mem_distinct)
  · cases inCatalog
    exact returns_bind (returns_true _) fun count _ =>
      returns_pure (holds_of_subset hitems fun item => List.mem_of_mem_take)
  · cases inCatalog
    exact returns_bind (returns_true _) fun count _ =>
      returns_pure (holds_of_subset hitems fun item => List.mem_of_mem_drop)
  · exact returns_throw _

end Collection

/-! ## Evaluation -/

namespace Run

open Eval

variable {run : Run} {scope : Scope} {locals : Locals} {depth : Nat}

theorem resolve_parameter {name : String} {shape : Shape} (binds : scope.Binds locals)
    (bound : scope.lookup name = some shape) : Gives shape.Holds (run.resolve locals name) := by
  obtain ⟨value, hvalue, holds⟩ := binds.value bound
  rw [resolve, hvalue]
  exact gives_ok holds

theorem resolve_source {catalog : Catalog} {name : String} {source : DataSource}
    (fits : run.context.Fits catalog) (binds : scope.Binds locals)
    (free : scope.lookup name = none) (known : catalog.source? name = some source) :
    Gives (Shape.ofSource source).Holds (run.resolve locals name) := by
  rw [resolve, binds.free free]
  cases hvalue : run.context.get? name with
  | none => exact gives_error _
  | some value => exact gives_ok (fits.holds known hvalue)

theorem eval_ref_returns {holds : Value → Prop} {name : String}
    (h : Gives holds (run.resolve locals name)) :
    Returns holds (run.eval (.ref name []) locals depth) := by
  rw [eval]
  exact run.enter_returns <| returns_bind (returns_ofExcept h) fun _ hvalue =>
    returns_ofExcept (gives_ok hvalue)

theorem eval_method_returns {receiver : Expr} {shape : Shape} {name : String} {method : MethodSpec}
    {element : Option KnownProperties} {argument : Argument Expr}
    (hreceiver : Returns shape.Holds (run.eval receiver locals (depth + 1)))
    (inCatalog : Catalog.method? name = some method) (hitems : shape.items? = some element) :
    Returns (Shape.ofMethod method element).Holds
      (run.eval (.method receiver name argument) locals depth) := by
  rw [eval]
  refine run.enter_returns (returns_bind hreceiver fun value hvalue => ?_)
  split
  · exact Collection.apply_returns inCatalog (items_hold hitems hvalue)
  · exact returns_throw _

end Run

namespace Grammar

open Eval

variable {s : Setting} {run : Run} {scope : Scope} {locals : Locals} {parsed : Parsed}

/-- The induction is on the formation of the expression.  What a lambda gives is not looked at: the
shape of a method's value depends on the receiver only. -/
theorem Formed.returns (fits : run.context.Fits s.catalog) (h : Formed s scope parsed)
    (binds : scope.Binds locals) (depth : Nat) :
    Returns parsed.shape.Holds (run.eval parsed.expr locals depth) := by
  have unknown (m : Eval Value) : Returns Shape.unknown.Holds m := returns_true m
  induction h generalizing locals depth with
  | number n =>
    rw [leaf, Run.eval]
    exact run.enter_returns (returns_pure (scalar_holds_number n))
  | text t =>
    rw [leaf, Run.eval]
    exact run.enter_returns (returns_pure (scalar_holds_str t))
  | bool b =>
    rw [leaf, Run.eval]
    exact run.enter_returns (returns_pure (scalar_holds_bool b))
  | null => exact unknown _
  | parameter bound => exact Run.eval_ref_returns (Run.resolve_parameter binds bound)
  | source free known => exact Run.eval_ref_returns (Run.resolve_source fits binds free known)
  | @call scope id spec parts known formed arity height ih =>
    rw [Run.eval]
    refine run.enter_returns (returns_bind (returns_true _) fun args _ => returns_ofExcept ?_)
    rw [ofReturn_function known]
    exact Function.call_scalar id args
  | path | member => exact unknown _
  | plainMethod formed known kind items height ih =>
    exact Run.eval_method_returns (ih binds _) known items
  | valueMethod formed formedArg known kind items height ih ihArg =>
    exact Run.eval_method_returns (ih binds _) known items
  | lambdaMethod formed formedBody known kind items height ih ihBody =>
    exact Run.eval_method_returns (ih binds _) known items
  | unary op formed height ih =>
    rw [Run.eval]
    exact run.enter_returns <| returns_bind (returns_true _) fun value _ =>
      returns_ofExcept (op.evaluate_scalar value)
  | connective c formedLeft formedRight height ihLeft ihRight =>
    cases c with
    | binary op =>
      rw [Connective.apply, Run.eval]
      exact run.enter_returns <| returns_bind (returns_true _) fun a _ =>
        returns_bind (returns_true _) fun b _ => returns_ofExcept (op.evaluate_scalar a b)
    | logical op =>
      rw [Connective.apply, Run.eval]
      refine run.enter_returns <| returns_bind (returns_true _) fun value _ =>
        returns_bind (returns_true _) fun a _ => ?_
      split
      · exact returns_pure (scalar_holds_bool _)
      · exact returns_pure (scalar_holds_bool _)
      · exact returns_bind (returns_true _) fun value _ =>
          returns_bind (returns_true _) fun b _ => returns_pure (scalar_holds_bool b)
  | conditional => exact unknown _

/-! ## What was checked does not fail -/

/-- The properties of a reference are known only where it has no properties yet. -/
theorem Formed.resolve_of_known (fits : run.context.Fits s.catalog) {source : String}
    {path : List String} {known : KnownProperties} {height : Nat}
    (h : Formed s scope ⟨.ref source path, .record (some known), height⟩)
    (binds : scope.Binds locals) :
    path = [] ∧ Gives (·.HasProperties known.names) (run.resolve locals source) := by
  have holds {shape : Shape} (hshape : shape = .record (some known))
      (h : Gives shape.Holds (run.resolve locals source)) :
      Gives (·.HasProperties known.names) (run.resolve locals source) := by
    subst hshape
    exact fun value hvalue => h value hvalue known rfl
  generalize hparsed : (⟨.ref source path, .record (some known), height⟩ : Parsed) = parsed at h
  cases h with
  | parameter bound =>
    cases hparsed
    exact ⟨rfl, holds rfl (Run.resolve_parameter binds bound)⟩
  | source free inCatalog =>
    rw [leaf, Parsed.mk.injEq, Expr.ref.injEq] at hparsed
    obtain ⟨⟨rfl, rfl⟩, hshape, -⟩ := hparsed
    exact ⟨rfl, holds hshape.symm (Run.resolve_source fits binds free inCatalog)⟩
  | connective c => cases c <;> cases hparsed
  | _ => cases hparsed

end Grammar

theorem Value.HasProperties.property {value : Value} {names : List String}
    (h : value.HasProperties names) {name : String} (hname : name ∈ names) :
    ∃ field, value.property name = .ok field := by
  obtain ⟨fields, rfl, hfields⟩ := h
  obtain ⟨field, hfield⟩ := hfields name hname
  exact ⟨field, by rw [Value.property, hfield]⟩

namespace Run

/-- The evaluation of an expression fails with an error, at some depth and after some steps. -/
def Fails (run : Run) (e : Expr) (locals : Locals) (error : EvalError) : Prop :=
  ∃ depth steps, ((run.eval e locals depth).run.run steps).1 = .error error

end Run

namespace Grammar

open Eval

variable {s : Setting} {run : Run} {scope : Scope} {locals : Locals} {parsed : Parsed}

/-- The receiver of a property is asked for it, and its failures are those of the access. -/
theorem property_failsOnly (fits : run.context.Fits s.catalog) (h : Formed s scope parsed)
    (binds : scope.Binds locals) {known : KnownProperties}
    (hshape : parsed.shape = .record (some known)) {name : String} {position : Nat}
    {access : Parsed} (haccess : property s parsed name position = .ok access) (depth : Nat) :
    FailsOnly (fun error => (∀ property target, error ≠ .propertyNotFound property target) ∨
        run.Fails parsed.expr locals error)
      (run.eval access.expr locals depth) := by
  obtain ⟨e, shape, height⟩ := parsed
  dsimp only at hshape
  subst hshape
  rw [property] at haccess
  dsimp only at haccess
  split at haccess
  · next hcontains =>
    have hname : name ∈ known.names := List.contains_iff_mem.mp hcontains
    split at haccess
    · next source path =>
      obtain ⟨-, rfl⟩ := node_eq_ok.mp haccess
      obtain ⟨rfl, hresolve⟩ := h.resolve_of_known fits binds
      rw [List.nil_append, Run.eval]
      refine run.enter_failsOnly (.inl nofun) (.inl nofun) (fun _ => .inl nofun) ?_
      refine failsOnly_bind_of_returns ?_ (returns_ofExcept hresolve) fun value hvalue => ?_
      · exact failsOnly_of_errorsIn (run.resolve_errorsIn locals source fun _ _ => .inl nofun)
      · obtain ⟨field, hfield⟩ := hvalue.property hname
        refine failsOnly_of_errorsIn ?_
        rw [Value.follow, hfield]
        exact errorsIn_ok _
    · next target hcomputed =>
      obtain ⟨-, rfl⟩ := node_eq_ok.mp haccess
      rw [Run.eval]
      refine run.enter_failsOnly (.inl nofun) (.inl nofun) (fun _ => .inl nofun) ?_
      refine failsOnly_bind_of_returns ?_ (h.returns fits binds (depth + 1)) fun value hvalue => ?_
      · exact fun steps error herror => .inr ⟨depth + 1, steps, herror⟩
      · obtain ⟨field, hfield⟩ := (hvalue known rfl).property hname
        refine failsOnly_of_errorsIn ?_
        rw [hfield]
        exact errorsIn_ok _
  · cases haccess

/-- What a method does with a receiver that is no list is never done for one that was found to be a
collection. -/
theorem eval_method_of_collection {receiver : Expr} {element : Option KnownProperties} {depth : Nat}
    (hreceiver : Returns (Shape.collection element).Holds (run.eval receiver locals (depth + 1)))
    (name : String) (argument : Argument Expr) (other : Value → Eval Value) :
    run.eval (.method receiver name argument) locals depth = run.enter depth (do
      match ← run.eval receiver locals (depth + 1) with
      | .list items => Collection.apply name items (run.operand argument locals (depth + 1))
      | value => other value) := by
  rw [Run.eval]
  refine congrArg (run.enter depth) (bind_congr_of_returns hreceiver ?_)
  rintro _ ⟨items, rfl, -⟩
  rfl

/-- A lambda is evaluated for values of its parameter only that have the shape of the parameter. -/
theorem eval_lambda_of_items {receiver : Expr} {shape : Shape} {element : Option KnownProperties}
    {depth : Nat} (binds : scope.Binds locals)
    (hreceiver : Returns shape.Holds (run.eval receiver locals (depth + 1)))
    (hitems : shape.items? = some element) (name param : String) (body : Expr)
    {apply : Value → Eval Value}
    (agree : ∀ item,
      Scope.Binds ((param, .record element) :: scope) ((param, item) :: locals) →
        apply item = run.tick >>= fun _ => run.eval body ((param, item) :: locals) (depth + 1)) :
    run.eval (.method receiver name (.lambda param body)) locals depth = run.enter depth (do
      match ← run.eval receiver locals (depth + 1) with
      | .list items => Collection.apply name items (.lambda apply)
      | value => throw (.typeMismatch name "List" value)) := by
  rw [Run.eval]
  refine congrArg (run.enter depth) (bind_congr_of_returns hreceiver fun value hvalue => ?_)
  cases value with
  | list items =>
    have holds := items_hold hitems hvalue
    rw [Run.operand]
    exact Collection.apply_congr
      (fun item hitem => (agree item (binds.cons param (holds item hitem))).symm) name
  | _ => rfl

/-- Every expression that is made in a scope while tokens are read has a shape that its values have,
whatever values of their shapes the parameters in scope have.  So the access to a property that was
checked fails with a missing property only where its receiver does, the receiver of a method that
was found to be a collection is always a list, and each lambda is evaluated with its parameter bound
to a value of the shape that the parameter has in its body. -/
theorem shapes_sound {s : Setting} {run : Run} (fits : run.context.Fits s.catalog) {scope : Scope}
    {parsed : Parsed} (produced : Produced s scope parsed) {locals : Locals}
    (binds : scope.Binds locals) :
    (∀ depth steps value, ((run.eval parsed.expr locals depth).run.run steps).1 = .ok value →
      parsed.shape.Holds value) ∧
    (∀ known name position access, parsed.shape = .record (some known) →
      property s parsed name position = .ok access →
      ∀ missing target, run.Fails access.expr locals (.propertyNotFound missing target) →
        run.Fails parsed.expr locals (.propertyNotFound missing target)) ∧
    (∀ element name argument depth (other : Value → Eval Value),
      parsed.shape = .collection element →
      run.eval (.method parsed.expr name argument) locals depth = run.enter depth (do
        match ← run.eval parsed.expr locals (depth + 1) with
        | .list items => Collection.apply name items (run.operand argument locals (depth + 1))
        | value => other value)) ∧
    ∀ element name param body depth (apply : Value → Eval Value),
      parsed.shape.items? = some element →
      (∀ item, Scope.Binds ((param, .record element) :: scope) ((param, item) :: locals) →
        apply item = run.tick >>= fun _ => run.eval body ((param, item) :: locals) (depth + 1)) →
      run.eval (.method parsed.expr name (.lambda param body)) locals depth = run.enter depth (do
        match ← run.eval parsed.expr locals (depth + 1) with
        | .list items => Collection.apply name items (.lambda apply)
        | value => throw (.typeMismatch name "List" value)) := by
  have formed := produced.formed
  refine ⟨fun depth => formed.returns fits binds depth, ?_, ?_, ?_⟩
  · intro known name position access hshape haccess missing target hfails
    obtain ⟨depth, steps, herror⟩ := hfails
    have hallowed := property_failsOnly fits formed binds hshape haccess depth steps _ herror
    rcases hallowed with hne | hfails
    · exact absurd rfl (hne missing target)
    · exact hfails
  · intro element name argument depth other hshape
    have hreceiver := formed.returns fits binds (depth + 1)
    rw [hshape] at hreceiver
    exact eval_method_of_collection hreceiver name argument other
  · intro element name param body depth apply hitems agree
    exact eval_lambda_of_items binds (formed.returns fits binds (depth + 1)) hitems name param body
      agree

/-- A catalog with one collection, of records with an amount. -/
def rowsCatalog : Catalog := Catalog.register ⟨.empty⟩ ⟨"rows", "Rows", ["Amount"], .collection⟩

def rowsRun : Run :=
  ⟨Dict.empty.insert "rows" (.list [.record [("Amount", .number .zero)]]), ⟨9, 100, 100⟩,
    fun _ => 0⟩

/-- The first one of the rows. -/
def firstRow : Parsed :=
  ⟨.method (.ref "rows" []) "first" .none, .record (some ⟨"rows", ["Amount"]⟩), 2⟩

theorem rowsRun_fits : rowsRun.context.Fits rowsCatalog := by
  intro name source value hsource hvalue
  rw [rowsCatalog, Catalog.source?_register] at hsource
  split at hsource
  · next hname =>
    subst hname
    cases hsource
    rw [rowsRun, Dict.get?_insert, if_pos rfl] at hvalue
    cases hvalue
    refine ⟨_, rfl, List.forall_mem_singleton.mpr ⟨_, rfl, ?_⟩⟩
    exact List.forall_mem_singleton.mpr ⟨_, rfl⟩
  · cases hsource

theorem shapes_sound_first :
    Produced ⟨rowsCatalog, 5, 0⟩ [] firstRow ∧ Scope.Binds [] [] ∧
      ((rowsRun.eval firstRow.expr [] 1).run.run 0).1
        = .ok (.record [("Amount", .number .zero)]) ∧
      firstRow.shape.Holds (.record [("Amount", .number .zero)]) ∧
      property ⟨rowsCatalog, 5, 0⟩ firstRow "Amount" 0
        = .ok ⟨.member firstRow.expr "Amount", .unknown, 3⟩ ∧
      (rowsRun.Fails (.member firstRow.expr "Amount") [] (.propertyNotFound "Amount" "Number") →
        rowsRun.Fails firstRow.expr [] (.propertyNotFound "Amount" "Number")) := by
  have first : primary ⟨rowsCatalog, 5, 0⟩ (parseAt ⟨rowsCatalog, 5, 0⟩ 4) []
      [⟨.ident "rows", 0⟩, ⟨.dot, 0⟩, ⟨.ident "first", 0⟩, ⟨.openParen, 0⟩, ⟨.closeParen, 0⟩]
      = .ok (leaf (.ref "rows" []) (.collection (some ⟨"rows", ["Amount"]⟩)),
        [⟨.dot, 0⟩, ⟨.ident "first", 0⟩, ⟨.openParen, 0⟩, ⟨.closeParen, 0⟩]) := by
    rfl
  have next : trailing ⟨rowsCatalog, 5, 0⟩ (parseAt ⟨rowsCatalog, 5, 0⟩ 4) [] 1
      (leaf (.ref "rows" []) (.collection (some ⟨"rows", ["Amount"]⟩)))
      [⟨.dot, 0⟩, ⟨.ident "first", 0⟩, ⟨.openParen, 0⟩, ⟨.closeParen, 0⟩]
      = .ok (firstRow, []) := by
    rfl
  have produced : Produced ⟨rowsCatalog, 5, 0⟩ [] firstRow := .receiver first next
  have hvalue : ((rowsRun.eval firstRow.expr [] 1).run.run 0).1
      = .ok (.record [("Amount", .number .zero)]) := by
    rfl
  have haccess : property ⟨rowsCatalog, 5, 0⟩ firstRow "Amount" 0
      = .ok ⟨.member firstRow.expr "Amount", .unknown, 3⟩ := by
    rfl
  obtain ⟨hholds, hproperty, -⟩ := shapes_sound rowsRun_fits produced Scope.Binds.nil
  exact ⟨produced, Scope.Binds.nil, hvalue, hholds 1 0 _ hvalue, haccess,
    hproperty _ "Amount" 0 _ rfl haccess "Amount" "Number"⟩

end Grammar

end CommissionRules
