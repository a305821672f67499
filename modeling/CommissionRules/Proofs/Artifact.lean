import CommissionRules.Proofs.Binary
import CommissionRules.Rule.Artifact

/-!
# Artifacts are read back

What `Artifact.encode` writes for a rule is read back as the same rule, whatever stands behind it.
The rule may hold any values, NaNs and signed zeros among them, because a number is its bits.

`Storable` says what texts, lists and records in memory always satisfy: their lengths are numbers of
eight bytes, and the fields of a record stand in key order.
-/

namespace CommissionRules

open Binary (Reader Reads utf8)

/-! ## What can be written -/

/-- The length of the text is a count of at most eight bytes. -/
def Artifact.TextStorable (s : String) : Prop := (utf8 s).length < 2 ^ 64

instance (s : String) : Decidable (Artifact.TextStorable s) :=
  inferInstanceAs (Decidable ((utf8 s).length < 2 ^ 64))

open Artifact (TextStorable)

inductive Value.Storable : Value → Prop
  | null : Storable .null
  | bool (b : Bool) : Storable (.bool b)
  | number (n : Number) : Storable (.number n)
  | str {s : String} (text : TextStorable s) : Storable (.str s)
  | list {items : List Value} (length : items.length < 2 ^ 64)
      (each : ∀ v ∈ items, Storable v) : Storable (.list items)
  | record {fields : List (String × Value)} (sorted : Entries.Sorted fields)
      (length : fields.length < 2 ^ 64) (names : ∀ field ∈ fields, TextStorable field.1)
      (values : ∀ field ∈ fields, Storable field.2) : Storable (.record fields)

mutual

inductive Expr.Storable : Expr → Prop
  | literal {v : Value} (value : v.Storable) : Expr.Storable (.literal v)
  | ref {source : String} {path : List String} (text : TextStorable source)
      (length : path.length < 2 ^ 64) (names : ∀ name ∈ path, TextStorable name) :
      Expr.Storable (.ref source path)
  | member {e : Expr} {name : String} (target : Expr.Storable e) (text : TextStorable name) :
      Expr.Storable (.member e name)
  | unary (op : UnaryOp) {e : Expr} (operand : Expr.Storable e) : Expr.Storable (.unary op e)
  | binary (op : BinaryOp) {l r : Expr} (left : Expr.Storable l) (right : Expr.Storable r) :
      Expr.Storable (.binary op l r)
  | logical (op : LogicalOp) {l r : Expr} (left : Expr.Storable l) (right : Expr.Storable r) :
      Expr.Storable (.logical op l r)
  | conditional {c t e : Expr} (condition : Expr.Storable c) (thenBranch : Expr.Storable t)
      (elseBranch : Expr.Storable e) : Expr.Storable (.conditional c t e)
  | call {function : String} {args : List Expr} (text : TextStorable function)
      (length : args.length < 2 ^ 64) (each : ∀ arg ∈ args, Expr.Storable arg) :
      Expr.Storable (.call function args)
  | method {e : Expr} {name : String} {arg : Argument Expr} (receiver : Expr.Storable e)
      (text : TextStorable name) (argument : Argument.Storable arg) :
      Expr.Storable (.method e name arg)

inductive Argument.Storable : Argument Expr → Prop
  | none : Argument.Storable .none
  | value {e : Expr} (arg : Expr.Storable e) : Argument.Storable (.value e)
  | lambda {param : String} {e : Expr} (text : TextStorable param) (body : Expr.Storable e) :
      Argument.Storable (.lambda param e)

end

structure CompiledExpression.Storable (c : CompiledExpression) : Prop where
  source : TextStorable c.source
  expr : c.expr.Storable
  length : c.warnings.length < 2 ^ 64
  warnings : ∀ warning ∈ c.warnings, TextStorable warning

structure CompiledAction.Storable (action : CompiledAction) : Prop where
  name : TextStorable action.name
  onSuccess : action.onSuccess.Storable
  onFailure : action.onFailure.Storable

structure CompiledRule.Storable (rule : CompiledRule) : Prop where
  groupId : TextStorable rule.groupId
  name : TextStorable rule.name
  condition : rule.condition.Storable
  length : rule.actions.length < 2 ^ 64
  actions : ∀ action ∈ rule.actions, action.Storable

namespace Artifact

/-! ## Values -/

theorem reads_texts {texts : List String} (hlength : texts.length < 2 ^ 64)
    (h : ∀ text ∈ texts, TextStorable text) :
    Reads (Reader.list Reader.text) (Binary.list Binary.text texts) texts :=
  Binary.reads_list hlength fun text hmem => Binary.reads_text (h text hmem)

/-- A field of a record. -/
def entry (field : String × Value) : List UInt8 := Binary.text field.1 ++ value field.2

theorem values_eq (items : List Value) : values items = items.flatMap value := by
  induction items with
  | nil => rfl
  | cons v rest ih => rw [values, ih, List.flatMap_cons]

theorem entries_eq (fields : List (String × Value)) : entries fields = fields.flatMap entry := by
  induction fields with
  | nil => rfl
  | cons field rest ih => rw [entries, ih, List.flatMap_cons, entry]

theorem value_list (items : List Value) : value (.list items) = 4 :: Binary.list value items := by
  rw [value, values_eq, Binary.list, List.cons_append]

theorem value_record (fields : List (String × Value)) :
    value (.record fields) = 5 :: Binary.list entry fields := by
  rw [value, entries_eq, Binary.list, List.cons_append]

/-- An item of a list takes no more bytes than the list. -/
theorem length_item_le {α : Type} (item : α → List UInt8) {items : List α} {a : α}
    (h : a ∈ items) : (item a).length ≤ (Binary.list item items).length := by
  have hle : (item a).length ≤ (items.flatMap item).length := by
    obtain ⟨before, after, rfl⟩ := List.append_of_mem h
    simp only [List.flatMap_append, List.flatMap_cons, List.length_append]
    omega
  rw [Binary.list, List.length_append]
  omega

theorem value_pos (v : Value) : 0 < (value v).length := by
  cases v <;> simp [value]

theorem reads_number (n : Number) : Reads readNumber (Binary.littleEndian 8 n.bits.toNat) n := by
  refine .last (Binary.reads_littleEndian n.bits.toNat_lt) ?_
  rw [Nat.toUInt64_eq, UInt64.ofNat_toNat]
  exact .pure n

/-- A value inside another one has fewer bytes, so that the fuel suffices for it. -/
theorem reads_valueAt {fuel : Nat} {v : Value} (hv : v.Storable)
    (hfuel : (value v).length ≤ fuel) : Reads (readValueAt fuel) (value v) v := by
  induction fuel generalizing v with
  | zero =>
    have := value_pos v
    omega
  | succ fuel ih =>
    show Reads (readValueWith (readValueAt fuel)) (value v) v
    cases hv with
    | null => exact Binary.reads_tagged (by decide) (.pure _)
    | bool b => exact Binary.reads_tagged (by decide) (.last (Binary.reads_bool b) (.pure _))
    | number n => exact Binary.reads_tagged (by decide) (.last (reads_number n) (.pure _))
    | str text => exact Binary.reads_tagged (by decide) (.last (Binary.reads_text text) (.pure _))
    | @list items length each =>
      rw [value_list] at hfuel ⊢
      rw [List.length_cons] at hfuel
      have hitem (v : Value) (hmem : v ∈ items) : Reads (readValueAt fuel) (value v) v := by
        have := length_item_le value hmem
        exact ih (each v hmem) (by omega)
      exact Binary.reads_tagged (by decide) (.last (Binary.reads_list length hitem) (.pure _))
    | @record fields sorted length names values =>
      rw [value_record] at hfuel ⊢
      rw [List.length_cons] at hfuel
      have hfield (field : String × Value) (hmem : field ∈ fields) :
          Reads (do pure (← Reader.text, ← readValueAt fuel)) (entry field) field := by
        have := length_item_le entry hmem
        rw [entry, List.length_append] at this
        exact .bind (Binary.reads_text (names field hmem))
          (.last (ih (values field hmem) (by omega)) (.pure field))
      refine Binary.reads_tagged (by decide) (.last (Binary.reads_list length hfield) ?_)
      rw [Value.ofFields, Entries.insertAll_of_sorted (List.nil_append fields ▸ sorted)]
      exact .pure _

theorem reads_value {v : Value} (hv : v.Storable) : Reads readValue (value v) v := by
  intro rest
  refine reads_valueAt hv ?_ rest
  rw [List.length_append]
  omega

/-! ## Expressions -/

theorem exprs_eq (args : List Expr) : exprs args = args.flatMap expr := by
  induction args with
  | nil => rfl
  | cons arg rest ih => rw [exprs, ih, List.flatMap_cons]

theorem expr_call (function : String) (args : List Expr) :
    expr (.call function args) = 7 :: (Binary.text function ++ Binary.list expr args) := by
  rw [expr, exprs_eq, Binary.list, List.append_assoc, List.cons_append]

theorem expr_pos (e : Expr) : 0 < (expr e).length := by
  cases e <;> simp [expr]

theorem length_argument_lt {arg : Argument Expr} {e : Expr} (h : e ∈ arg.toList) :
    (expr e).length < (argument arg).length := by
  cases arg with
  | none => simp [Argument.toList] at h
  | value arg =>
    obtain rfl : e = arg := List.mem_singleton.mp h
    simp [argument]
  | lambda param body =>
    obtain rfl : e = body := List.mem_singleton.mp h
    simp only [argument, List.length_append, List.length_cons]
    omega

/-- A child takes fewer bytes than its node. -/
theorem length_child_lt {e child : Expr} (h : child ∈ e.children) :
    (expr child).length < (expr e).length := by
  cases e with
  | literal | ref => simp [Expr.children] at h
  | member | unary =>
    obtain rfl := List.mem_singleton.mp h
    simp only [expr, List.length_append, List.length_cons]
    omega
  | binary _ left right | logical _ left right =>
    simp only [Expr.children, List.mem_cons, List.not_mem_nil, or_false] at h
    simp only [expr, List.length_append, List.length_cons]
    rcases h with rfl | rfl <;> omega
  | conditional c t e =>
    simp only [Expr.children, List.mem_cons, List.not_mem_nil, or_false] at h
    simp only [expr, List.length_append, List.length_cons]
    rcases h with rfl | rfl | rfl <;> omega
  | call function args =>
    have : (expr child).length ≤ (Binary.list expr args).length := length_item_le expr h
    simp only [expr_call, List.length_append, List.length_cons]
    omega
  | method receiver name arg =>
    simp only [expr, List.length_append, List.length_cons]
    rcases List.mem_cons.mp h with rfl | h
    · omega
    · have := length_argument_lt h
      omega

/-- If the expression inside an argument is read back, then so is the argument. -/
theorem reads_argument {nested : Reader Expr} {arg : Argument Expr} (harg : arg.Storable)
    (h : ∀ e ∈ arg.toList, e.Storable → Reads nested (expr e) e) :
    Reads (readArgument nested) (argument arg) arg := by
  cases harg with
  | none => exact Binary.reads_tagged (by decide) (.pure _)
  | value arg =>
    exact Binary.reads_tagged (by decide) (.last (h _ (List.mem_singleton_self _) arg) (.pure _))
  | lambda text body =>
    exact Binary.reads_tagged (by decide) (.bind (Binary.reads_text text)
      (.last (h _ (List.mem_singleton_self _) body) (.pure _)))

/-- If the children of a node are read back, then so is the node. -/
theorem reads_exprWith {nested : Reader Expr} {e : Expr} (he : e.Storable)
    (h : ∀ child ∈ e.children, child.Storable → Reads nested (expr child) child) :
    Reads (readExprWith nested) (expr e) e := by
  cases he with
  | literal value => exact Binary.reads_tagged (by decide) (.last (reads_value value) (.pure _))
  | ref text length names =>
    exact Binary.reads_tagged (by decide) (.bind (Binary.reads_text text)
      (.last (reads_texts length names) (.pure _)))
  | member target text =>
    simp only [Expr.children, List.forall_mem_singleton] at h
    exact Binary.reads_tagged (by decide) (.bind (h target)
      (.last (Binary.reads_text text) (.pure _)))
  | unary op operand =>
    simp only [Expr.children, List.forall_mem_singleton] at h
    exact Binary.reads_tagged (by decide)
      (.bind (Binary.reads_oneOf (by cases op <;> decide) (by decide))
        (.last (h operand) (.pure _)))
  | binary op left right =>
    simp only [Expr.children, List.forall_mem_cons, List.not_mem_nil] at h
    rw [expr, List.append_assoc]
    exact Binary.reads_tagged (by decide) (.bind (Binary.reads_oneOf op.mem_all (by decide))
      (.bind (h.1 left) (.last (h.2.1 right) (.pure _))))
  | logical op left right =>
    simp only [Expr.children, List.forall_mem_cons, List.not_mem_nil] at h
    rw [expr, List.append_assoc]
    exact Binary.reads_tagged (by decide)
      (.bind (Binary.reads_oneOf (by cases op <;> decide) (by decide))
        (.bind (h.1 left) (.last (h.2.1 right) (.pure _))))
  | conditional condition thenBranch elseBranch =>
    simp only [Expr.children, List.forall_mem_cons, List.not_mem_nil] at h
    rw [expr, List.append_assoc]
    exact Binary.reads_tagged (by decide) (.bind (h.1 condition)
      (.bind (h.2.1 thenBranch) (.last (h.2.2.1 elseBranch) (.pure _))))
  | call text length each =>
    rw [expr_call]
    exact Binary.reads_tagged (by decide) (.bind (Binary.reads_text text)
      (.last (Binary.reads_list length fun arg hmem => h arg hmem (each arg hmem)) (.pure _)))
  | method receiver text argument =>
    simp only [Expr.children, List.forall_mem_cons] at h
    rw [expr, List.append_assoc]
    exact Binary.reads_tagged (by decide) (.bind (h.1 receiver)
      (.bind (Binary.reads_text text) (.last (reads_argument argument h.2) (.pure _))))

theorem reads_exprAt {fuel : Nat} {e : Expr} (he : e.Storable) (hfuel : (expr e).length ≤ fuel) :
    Reads (readExprAt fuel) (expr e) e := by
  induction fuel generalizing e with
  | zero =>
    have := expr_pos e
    omega
  | succ fuel ih =>
    refine reads_exprWith he fun child hmem hchild => ih hchild ?_
    have := length_child_lt hmem
    omega

theorem reads_expr {e : Expr} (he : e.Storable) : Reads readExpr (expr e) e := by
  intro rest
  refine reads_exprAt he ?_ rest
  rw [List.length_append]
  omega

/-! ## Rules -/

theorem reads_compiled {c : CompiledExpression} (h : c.Storable) :
    Reads readCompiled (compiled c) c := by
  rw [compiled, List.append_assoc]
  exact .bind (Binary.reads_text h.source) (.bind (reads_expr h.expr)
    (.last (reads_texts h.length h.warnings) (.pure c)))

theorem reads_action {a : CompiledAction} (h : a.Storable) : Reads readAction (action a) a := by
  rw [action, List.append_assoc]
  exact .bind (Binary.reads_text h.name) (.bind (reads_compiled h.onSuccess)
    (.last (reads_compiled h.onFailure) (.pure a)))

theorem reads_rule {rule : CompiledRule} (h : rule.Storable) :
    Reads readRule (encode rule) rule := by
  rw [encode, List.append_assoc, List.append_assoc]
  exact .bind (Binary.reads_text h.groupId) (.bind (Binary.reads_text h.name)
    (.bind (reads_compiled h.condition)
      (.last (Binary.reads_list h.length fun a hmem => reads_action (h.actions a hmem))
        (.pure rule))))

/-- The bytes of a rule are decoded to this rule, whatever bytes follow them. -/
theorem decode_encode {rule : CompiledRule} (h : rule.Storable) (rest : List UInt8) :
    decode? (encode rule ++ rest) = some rule := by
  rw [decode?, StateT.run, reads_rule h]
  rfl

/-- A record with a negative zero and a NaN that has a payload. -/
def tiers : Value :=
  .record
    [("base", .number ⟨0x8000000000000000⟩), ("rates", .list [.number ⟨0x7ff8000000000001⟩])]

theorem tiers_storable : tiers.Storable := by
  refine .record (List.pairwise_pair.mpr (by decide)) (by decide) (by decide) fun field hmem => ?_
  simp only [List.mem_cons, List.not_mem_nil, or_false] at hmem
  rcases hmem with rfl | rfl
  · exact .number _
  · exact .list (by decide) (by simp [Value.Storable.number])

def tiersRule : CompiledRule where
  groupId := "ruleGroup-1"
  name := "Größe"
  condition :=
    { source := "deals.any(d => !d.closed)"
      expr := .method (.ref "deals" []) "any" (.lambda "d" (.unary .not (.ref "d" ["closed"])))
      warnings := ["'deals' is not registered"] }
  actions :=
    [{ name := "payout"
       onSuccess := { source := "tiers", expr := .literal tiers, warnings := [] }
       onFailure := { source := "null", expr := .literal .null, warnings := [] } }]

theorem tiersRule_storable : tiersRule.Storable where
  groupId := by decide
  name := by decide
  condition :=
    { source := by decide
      expr := .method (.ref (by decide) (by decide) (by decide)) (by decide)
        (.lambda (by decide) (.unary _ (.ref (by decide) (by decide) (by decide))))
      length := by decide
      warnings := by decide }
  length := by decide
  actions := List.forall_mem_singleton.mpr
    { name := by decide
      onSuccess := ⟨by decide, .literal tiers_storable, by decide, by decide⟩
      onFailure := ⟨by decide, .literal .null, by decide, by decide⟩ }

/-- Behind the bytes of the rule stands the beginning of another text. -/
theorem decode_encode_tiersRule :
    tiersRule.Storable ∧ decode? (encode tiersRule ++ [4, 116, 105]) = some tiersRule :=
  ⟨tiersRule_storable, decode_encode tiersRule_storable _⟩

end Artifact

end CommissionRules
