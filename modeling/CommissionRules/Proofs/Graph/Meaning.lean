import CommissionRules.Proofs.Grammar.Writing
import CommissionRules.Proofs.Graph.Growth
import CommissionRules.Proofs.Graph.Restore
import CommissionRules.Proofs.Graph.Terms

/-!
# The meaning of a rule group

What a rule group means is the left fold of what its members mean: `RuleGraph.Folds`.  Its assembled
condition is a text that was put together from the texts of conditions.  It writes the meaning of
the group, if every condition is an expression on its own: `RuleGraph.assemble_meaning`.
-/

namespace CommissionRules

open Grammar

/-- The first term stands alone, and each further one is joined to all before it. -/
def LogicalOp.joined (op : LogicalOp) : Option Expr → Expr → Expr
  | none, e => e
  | some l, e => .logical op l e

/-- Terms, in reverse, that write what they are joined to. -/
inductive Joined (catalog : Catalog) : List Term → Option Expr → Prop
  | start : Joined catalog [] none
  | first {text : String} {e : Expr} (written : Written catalog loosest text e) :
      Joined catalog [⟨none, text⟩] (some e)
  | next {terms : List Term} {l e : Expr} {text : String} (op : LogicalOp)
      (before : Joined catalog terms (some l)) (written : Written catalog loosest text e) :
      Joined catalog (⟨some op, text⟩ :: terms) (some (.logical op l e))

/-- The precedence of the operator that stands outside parentheses, if there is one. -/
def LogicalOp.level : Option LogicalOp → Nat
  | none => 0
  | some op => op.precedence

theorem LogicalOp.level_le (op : Option LogicalOp) : level op ≤ loosest := by
  cases op with
  | none => exact Nat.zero_le _
  | some op => cases op <;> decide

namespace Joined

variable {catalog : Catalog} {terms : List Term}

/-- One more term: where the operator changes, what was joined before is put into parentheses. -/
theorem written_joinTo_term {condition text : String} {previous : Option LogicalOp} {l e : Expr}
    (op : LogicalOp) (before : Written catalog (LogicalOp.level previous) condition l)
    (written : Written catalog loosest text e) :
    Written catalog op.precedence (Term.joinTo condition previous [⟨some op, text⟩])
      (.logical op l e) := by
  have hright : Written catalog 0 (Term.parenthesized text) e :=
    written.parenthesized (Nat.le_refl _)
  have hpositive : 0 < op.precedence := by cases op <;> decide
  have plain (hlevel : LogicalOp.level previous ≤ op.precedence) :=
    before.logical op hright hlevel hpositive
  cases previous with
  | none => exact plain (Nat.zero_le _)
  | some p =>
    by_cases heq : p = op
    · subst heq
      have hsame : Term.joinTo condition (some p) [⟨some p, text⟩] =
          condition ++ " " ++ p.symbol ++ " " ++ Term.parenthesized text := by
        simp [Term.joinTo]
      rw [hsame]
      exact plain (Nat.le_refl _)
    · have hchanges : Term.joinTo condition (some p) [⟨some op, text⟩] =
          Term.parenthesized condition ++ " " ++ op.symbol ++ " " ++ Term.parenthesized text := by
        simp [Term.joinTo, heq]
      have hleft : Written catalog 0 (Term.parenthesized condition) l :=
        before.parenthesized (LogicalOp.level_le _)
      rw [hchanges]
      exact hleft.logical op hright (Nat.zero_le _) hpositive

theorem written_joinTo {l : Expr} (h : Joined catalog terms (some l)) :
    Written catalog (LogicalOp.level (Term.lastOperator none terms.reverse))
      (Term.joinTo "" none terms.reverse) l := by
  generalize hacc : some l = acc at h
  induction h generalizing l with
  | start => cases hacc
  | first written =>
    cases hacc
    exact written.parenthesized (Nat.le_refl _)
  | @next terms l' e text op before written ih =>
    cases hacc
    rw [Term.lastOperator_reverse_cons, List.reverse_cons, Term.joinTo_append]
    exact written_joinTo_term op (ih rfl) written

/-- The condition of a group writes what its terms are joined to. -/
theorem written {acc : Option Expr} (h : Joined catalog terms acc) :
    Written catalog loosest (Term.join terms.reverse) (acc.getD (.literal (.bool true))) := by
  cases h with
  | start => exact (Written.true_literal catalog).loosen (Nat.zero_le _)
  | first written => exact written
  | @next terms l e text op before written =>
    have hall := (before.next op written).written_joinTo.loosen (LogicalOp.level_le _)
    have hne : terms ≠ [] := by
      rintro rfl
      cases before
    rw [Term.join_reverse_cons _ hne]
    exact hall

end Joined

namespace RuleGraph

/-! ## Meaning -/

/-- The nodes that name an id as their parent, in the order of their creation. -/
def members (g : RuleGraph) (id : String) : List Node :=
  g.nodes.filter fun node => node.parent = some id

/-- Members of a rule group are folded from left to right: what has been folded before them and the
operator for the next term give what has been folded with them.  The operator is a conjunction if no
node says otherwise.  A nested group is folded on its own, and counts as true if it is empty. -/
inductive Folds (g : RuleGraph) (own : Node → Expr) :
    List Node → Option Expr → LogicalOp → Option Expr → Prop
  | done (acc : Option Expr) (op : LogicalOp) : Folds g own [] acc op acc
  | condition {node : Node} {rest : List Node} {acc result : Option Expr} {op : LogicalOp}
      (htype : node.type = .condition)
      (later : Folds g own rest (some (op.joined acc (own node))) .and result) :
      Folds g own (node :: rest) acc op result
  | group {node : Node} {rest : List Node} {acc inner result : Option Expr} {op : LogicalOp}
      (htype : node.type = .ruleGroup) (nested : Folds g own (g.members node.id) none .and inner)
      (later : Folds g own rest
        (some (op.joined acc (inner.getD (.literal (.bool true))))) .and result) :
      Folds g own (node :: rest) acc op result
  | operator {node : Node} {rest : List Node} {acc result : Option Expr} {op op' : LogicalOp}
      (htype : node.type = .conditionalOperator) (hoperator : node.operator = .ok op')
      (later : Folds g own rest acc op' result) : Folds g own (node :: rest) acc op result
  | other {node : Node} {rest : List Node} {acc result : Option Expr} {op : LogicalOp}
      (htype : node.type ∉ [NodeType.condition, .ruleGroup, .conditionalOperator])
      (later : Folds g own rest acc op result) : Folds g own (node :: rest) acc op result

/-- The expression that a rule group means. -/
def Means (g : RuleGraph) (own : Node → Expr) (id : String) (e : Expr) : Prop :=
  ∃ result, g.Folds own (g.members id) none .and result ∧
    result.getD (.literal (.bool true)) = e

/-- The members of a rule group and, on and on, of the rule groups among them. -/
inductive Within (g : RuleGraph) : String → Node → Prop
  | member {id : String} {node : Node} (hmem : node ∈ g.members id) : Within g id node
  | nested {id : String} {group node : Node} (hmem : group ∈ g.members id)
      (htype : group.type = .ruleGroup) (below : Within g group.id node) : Within g id node

variable {g : RuleGraph} {own : Node → Expr}

theorem Folds.unique {members : List Node} {acc result result' : Option Expr} {op : LogicalOp}
    (h : g.Folds own members acc op result) (h' : g.Folds own members acc op result') :
    result = result' := by
  induction h generalizing result' with
  | done =>
    cases h'
    rfl
  | condition htype _ ih =>
    cases h' with
    | condition _ later => exact ih later
    | group htype' | operator htype' | other htype' => simp [htype] at htype'
  | group htype _ _ ihNested ih =>
    cases h' with
    | group _ nested later =>
      rw [ihNested nested] at ih
      exact ih later
    | condition htype' | operator htype' | other htype' => simp [htype] at htype'
  | operator htype hoperator _ ih =>
    cases h' with
    | operator _ hoperator' later =>
      rw [hoperator, Except.ok.injEq] at hoperator'
      subst hoperator'
      exact ih later
    | condition htype' | group htype' | other htype' => simp [htype] at htype'
  | other htype _ ih =>
    cases h' with
    | other _ later => exact ih later
    | condition htype' | group htype' | operator htype' => simp [htype'] at htype

theorem Means.unique {id : String} {e e' : Expr} (h : g.Means own id e) (h' : g.Means own id e') :
    e = e' := by
  obtain ⟨result, hfolds, rfl⟩ := h
  obtain ⟨result', hfolds', rfl⟩ := h'
  rw [hfolds.unique hfolds']

/-! ## Assembly -/

section Assembly

variable {catalog : Catalog}

/-- The operator for the next term. -/
def nextOperator (p : PartialRule) : LogicalOp :=
  match p.pending with
  | some (op, _) => op
  | none => .and

/-- What has been read of a group is the fold of the members so far. -/
structure Read (catalog : Catalog) (p : PartialRule) (acc : Option Expr) : Prop where
  joined : Joined catalog p.terms acc
  /-- An operator waits behind a term only. -/
  waits : p.pending ≠ none → p.terms ≠ []

theorem Read.addTerm {p : PartialRule} {acc : Option Expr} (h : Read catalog p acc) {text : String}
    {e : Expr} (written : Written catalog loosest text e) :
    Read catalog (p.addTerm text) (some ((nextOperator p).joined acc e)) := by
  obtain ⟨terms, pending, actions⟩ := p
  refine ⟨?_, fun hpending => absurd rfl hpending⟩
  have hjoined := h.joined
  cases hjoined with
  | start =>
    cases pending with
    | none => exact .first written
    | some waiting => exact absurd rfl (h.waits (Option.some_ne_none _))
  | first before =>
    cases pending with
    | none => exact .next .and (.first before) written
    | some waiting => exact .next waiting.1 (.first before) written
  | next op before written' =>
    cases pending with
    | none => exact .next .and (before.next op written') written
    | some waiting => exact .next waiting.1 (before.next op written') written

/-- The induction is on the members: each one takes a step of the fold, and adds to what has been
read what it adds to the meaning. -/
theorem foldlM_meaning (nested : Node → List ActionDefinition →
      Except AssemblyError (String × List ActionDefinition)) {children : List Node}
    {p p' : PartialRule} {acc : Option Expr}
    (hfold : children.foldlM (g.readChild nested) p = .ok p') (hp : Read catalog p acc)
    (hcondition : ∀ child ∈ children, child.type = .condition →
      Written catalog loosest child.expression (own child))
    (hnested : ∀ child ∈ children, child.type = .ruleGroup → ∀ {actions text actions'},
      nested child actions = .ok (text, actions') →
        ∃ e, g.Means own child.id e ∧ Written catalog loosest text e) :
    ∃ result, g.Folds own children acc (nextOperator p) result ∧
      Joined catalog p'.terms result := by
  induction children generalizing p acc with
  | nil =>
    cases hfold
    exact ⟨acc, .done acc _, hp.joined⟩
  | cons child children ih =>
    rw [List.foldlM_cons] at hfold
    obtain ⟨q, hread, hfold⟩ := bind_eq_ok.mp hfold
    have later {acc : Option Expr} (hq : Read catalog q acc) :=
      ih hfold hq (fun other hother => hcondition other (List.mem_cons_of_mem _ hother))
        fun other hother => hnested other (List.mem_cons_of_mem _ hother)
    have skipped (htype : child.type ∉ [NodeType.condition, .ruleGroup, .conditionalOperator])
        (hterms : q.terms = p.terms) (hpending : q.pending = p.pending) :
        ∃ result, g.Folds own (child :: children) acc (nextOperator p) result ∧
          Joined catalog p'.terms result := by
      have hq : Read catalog q acc :=
        ⟨hterms ▸ hp.joined, by rw [hterms, hpending]; exact hp.waits⟩
      obtain ⟨result, hfolds, hjoined⟩ := later hq
      have hnext : nextOperator q = nextOperator p := by rw [nextOperator, nextOperator, hpending]
      exact ⟨result, .other htype (hnext ▸ hfolds), hjoined⟩
    cases readChild_eq_ok.mp hread with
    | condition htype _ =>
      have written := hcondition child List.mem_cons_self htype
      obtain ⟨result, hfolds, hjoined⟩ := later (hp.addTerm written)
      exact ⟨result, .condition htype hfolds, hjoined⟩
    | @group text actions htype hgroup =>
      obtain ⟨e, ⟨inner, hinner, rfl⟩, written⟩ := hnested child List.mem_cons_self htype hgroup
      have hparenthesized : Written catalog loosest (Term.parenthesized text) _ :=
        (written.parenthesized (Nat.le_refl _)).loosen (Nat.zero_le _)
      have hq : Read catalog { p with actions } acc := ⟨hp.joined, hp.waits⟩
      obtain ⟨result, hfolds, hjoined⟩ := later (hq.addTerm hparenthesized)
      exact ⟨result, .group htype hinner hfolds, hjoined⟩
    | @operator op htype hterms _ hoperator =>
      have hq : Read catalog { p with pending := some (op, child.id) } acc :=
        ⟨hp.joined, fun _ => hterms⟩
      obtain ⟨result, hfolds, hjoined⟩ := later hq
      exact ⟨result, .operator htype hoperator hfolds, hjoined⟩
    | action htype => exact skipped (by simp [htype]) rfl rfl
    | other htype =>
      have hother : child.type ∉ [NodeType.condition, .ruleGroup, .conditionalOperator] := by
        intro hmem
        simp only [List.mem_cons, List.not_mem_nil, or_false] at hmem htype
        rcases hmem with hmem | hmem | hmem <;> simp [hmem] at htype
      exact skipped hother rfl rfl

/-- The induction is on the fuel, which bounds the nesting of groups. -/
theorem foldGroup_meaning (hindexed : g.Indexed) {fuel : Nat} {group : Node}
    {actions actions' : List ActionDefinition} {text : String}
    (hfold : g.foldGroup fuel group actions = .ok (text, actions'))
    (hcondition : ∀ node, g.Within group.id node → node.type = .condition →
      Written catalog loosest node.expression (own node)) :
    ∃ e, g.Means own group.id e ∧ Written catalog loosest text e := by
  induction fuel generalizing group actions actions' text with
  | zero => cases hfold
  | succ fuel ih =>
    obtain ⟨p, hchildren, hfold⟩ := bind_eq_ok.mp hfold
    rw [hindexed.childNodes_eq] at hchildren
    obtain ⟨result, hfolds, hjoined⟩ : ∃ result, g.Folds own (g.members group.id) none .and result ∧
        Joined catalog p.terms result := by
      refine foldlM_meaning (g.foldGroup fuel) hchildren ⟨.start, fun h => absurd rfl h⟩ ?_ ?_
      · exact fun child hmem => hcondition child (.member hmem)
      · intro child hmem htype _ _ _ hnested
        exact ih hnested fun node hwithin => hcondition node (.nested hmem htype hwithin)
    refine ⟨_, ⟨result, hfolds, rfl⟩, ?_⟩
    split at hfold
    · cases hfold
    · cases hfold
      exact hjoined.written

/-- Made by an accepted import, or by fewer than `2 ^ 63` commands from the empty graph. -/
def Built (g : RuleGraph) : Prop :=
  (∃ snapshot, ofSnapshot snapshot = .ok g) ∨
    ∃ layout steps, steps.length < 2 ^ 63 ∧ (empty layout).run steps = g

theorem Built.indexed (h : g.Built) : g.Indexed := by
  rcases h with ⟨snapshot, hsnapshot⟩ | ⟨layout, steps, -, rfl⟩
  · exact indexed_ofSnapshot hsnapshot
  · exact (reached_run layout steps).consistent.indexed

/-- Where every condition of a rule group and of the groups nested in it is parsed on its own under
some limit, the assembled condition is parsed, under every limit that is large enough, as what the
group means, which is one expression. -/
theorem assemble_meaning (hbuilt : g.Built) {id : String} {rule : RuleDefinition}
    (hassemble : g.assemble id = .ok rule)
    (hcondition : ∀ node, g.Within id node → node.type = .condition →
      ∃ limit, parse catalog limit node.expression = .ok (own node)) :
    ∃ e, (∀ e', g.Means own id e' ↔ e' = e) ∧
      ∃ least, ∀ limit, least ≤ limit → parse catalog limit rule.condition = .ok e := by
  have hindexed := hbuilt.indexed
  obtain ⟨group, fuel, actions, hnode, hfold⟩ := foldGroup_of_assemble hassemble
  obtain ⟨-, rfl⟩ := hindexed.node?_eq_some.mp hnode
  obtain ⟨e, hmeans, written⟩ := foldGroup_meaning hindexed hfold fun node hwithin htype => by
    obtain ⟨limit, hparse⟩ := hcondition node hwithin htype
    exact written_of_parse hparse
  refine ⟨e, fun e' => ⟨fun h => h.unique hmeans, fun h => h ▸ hmeans⟩, ?_⟩
  exact written.parse (Nat.le_refl _)

theorem Within.mem {id : String} {node : Node} (h : g.Within id node) : node ∈ g.nodes := by
  induction h with
  | member hmem => exact (List.mem_filter.mp hmem).1
  | nested _ _ _ ih => exact ih

/-- A rule group with two conditions and an operator between them. -/
def disjunction : List (Int64 × GraphCommand) :=
  [(1, .create .ruleGroup none), (1, .create .condition none),
    (2, .create .conditionalOperator none),
    (3, .create .condition none),
    (3, .update "condition-1" (.obj [("expression", .str " true ? false : true ")])),
    (3, .update "conditionalOperator-2" (.obj [("operator", .str "or")])),
    (3, .update "condition-3" (.obj [("expression", .str "!true")]))]

/-- The tree of a condition of its own. -/
def ownTree (node : Node) : Expr :=
  match parse .standard 64 node.expression with
  | .ok e => e
  | .error _ => .literal .null

theorem parse_ownTree {node : Node} (h : (parse .standard 64 node.expression).isOk) :
    parse .standard 64 node.expression = .ok (ownTree node) := by
  obtain ⟨e, hparse⟩ := isOk_eq_true.mp h
  rw [ownTree, hparse]

theorem assemble_meaning_disjunction : ∃ rule, ((empty .standard).run disjunction).assemble
      "ruleGroup-1" = .ok rule ∧ rule.condition = "(true ? false : true) || (!true)" ∧
    ∃ e, ((empty .standard).run disjunction).Means ownTree "ruleGroup-1" e ∧
      ∃ least, ∀ limit, least ≤ limit → parse .standard limit rule.condition = .ok e := by
  have hassemble : ((empty .standard).run disjunction).assemble "ruleGroup-1" =
      .ok ⟨"ruleGroup-1", "Rule 1", "(true ? false : true) || (!true)", []⟩ := by decide +kernel
  have hparsed : ∀ node ∈ ((empty .standard).run disjunction).nodes, node.type = .condition →
      (parse .standard 64 node.expression).isOk := by decide +kernel
  have hbuilt : ((empty .standard).run disjunction).Built :=
    .inr ⟨.standard, disjunction, by decide, rfl⟩
  obtain ⟨e, hmeans, hparse⟩ := assemble_meaning hbuilt hassemble
    fun node hwithin htype => ⟨64, parse_ownTree (hparsed node hwithin.mem htype)⟩
  exact ⟨_, hassemble, rfl, e, (hmeans e).mpr rfl, hparse⟩

end Assembly

end RuleGraph

end CommissionRules
