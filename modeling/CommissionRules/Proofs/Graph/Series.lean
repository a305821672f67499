import CommissionRules.Proofs.Graph.Meaning
import CommissionRules.Proofs.Graph.Walks

/-!
# Rule groups that can be assembled

The members of a rule group that can be assembled are terms in a series, with at most one operator
between two of them.  What is left of a series depends on three states of the fold: nothing read, a
term last, an operator last (`RuleGraph.Completes`).  Each member moves from one of them to the next
(`RuleGraph.exists_readStep_iff`), so that the fold of a group goes through exactly if its members
are sound, and those of the groups nested in it: `RuleGraph.foldGroup_ok_iff`.
-/

namespace CommissionRules

namespace Node

/-- A condition or a nested rule group. -/
def IsTerm (node : Node) : Prop := node.type = .condition ∨ node.type = .ruleGroup

/-- Whether a member counts for how the terms of a group are joined. -/
def joins (node : Node) : Bool :=
  node.type ∉ [NodeType.ruleName, .actionName, .initial, .actionGroup]

variable {node : Node}

theorem joins_eq_false : node.joins = false ↔
    node.type ∈ [NodeType.ruleName, .actionName, .initial, .actionGroup] := by
  rw [joins, decide_eq_false_iff_not, not_not]

/-- A condition has an expression that is not blank, and an operator is known; if it says nothing,
it is a conjunction. -/
structure Complete (node : Node) : Prop where
  expression : node.type = .condition →
    ∃ text, node.text? "expression" = some text ∧ Text.trim text ≠ ""
  operator : node.type = .conditionalOperator →
    asciiUpper (Text.trim ((node.text? "operator").getD "AND")) ∈ ["AND", "&&", "OR", "||"]

theorem expression_isEmpty_eq_false : node.expression.isEmpty = false ↔
    ∃ text, node.text? "expression" = some text ∧ Text.trim text ≠ "" := by
  rw [expression, Bool.eq_false_iff, Ne, String.isEmpty_iff]
  cases node.text? "expression" with
  | none => exact iff_of_false (fun h => h rfl) (by rintro ⟨_, h, -⟩; cases h)
  | some text => simp

theorem exists_operator_eq_ok : (∃ op, node.operator = .ok op) ↔
    asciiUpper (Text.trim ((node.text? "operator").getD "AND")) ∈ ["AND", "&&", "OR", "||"] := by
  unfold operator
  dsimp only
  split <;> simp_all

theorem complete_condition (htype : node.type = .condition) :
    node.Complete ↔ node.expression.isEmpty = false := by
  rw [expression_isEmpty_eq_false]
  exact ⟨fun h => h.expression htype, fun h => ⟨fun _ => h, by simp [htype]⟩⟩

theorem complete_operator (htype : node.type = .conditionalOperator) :
    node.Complete ↔ ∃ op, node.operator = .ok op := by
  rw [exists_operator_eq_ok]
  exact ⟨fun h => h.operator htype, fun h => ⟨by simp [htype], fun _ => h⟩⟩

theorem Complete.of_type (htype : node.type ∉ [NodeType.condition, .conditionalOperator]) :
    node.Complete := by
  constructor <;> intro heq <;> simp [heq] at htype

/-! ## Series -/

/-- Terms, of which two neighbours may have an operator between them. -/
inductive Series : List Node → Prop
  | last {term : Node} (hterm : term.IsTerm) : Series [term]
  | adjoined {term : Node} {rest : List Node} (hterm : term.IsTerm) (later : Series rest) :
      Series (term :: rest)
  | joined {term op : Node} {rest : List Node} (hterm : term.IsTerm)
      (hop : op.type = .conditionalOperator) (later : Series rest) : Series (term :: op :: rest)

/-- Complete nodes, of which those that count are no terms at all or a series of terms. -/
structure Sound (members : List Node) : Prop where
  complete : ∀ node ∈ members, node.Complete
  series : members.filter Node.joins = [] ∨ Series (members.filter Node.joins)

theorem Series.head {rest : List Node} (h : Series (node :: rest)) : node.IsTerm := by
  cases h with
  | last hterm | adjoined hterm | joined hterm => exact hterm

/-- An operator with a series of terms behind it. -/
def Series.Tail (rest : List Node) : Prop :=
  ∃ op later, rest = op :: later ∧ op.type = .conditionalOperator ∧ Series later

theorem series_cons {rest : List Node} (hterm : node.IsTerm) :
    Series (node :: rest) ↔ Series rest ∨ rest = [] ∨ Series.Tail rest := by
  constructor
  · intro h
    cases h with
    | last => exact .inr (.inl rfl)
    | adjoined _ later => exact .inl later
    | joined _ hop later => exact .inr (.inr ⟨_, _, rfl, hop, later⟩)
  · rintro (later | rfl | ⟨op, later, rfl, hop, hlater⟩)
    · exact .adjoined hterm later
    · exact .last hterm
    · exact .joined hterm hop hlater

end Node

namespace RuleGraph

open Node (Series)

variable {g : RuleGraph} {nested : Node → List ActionDefinition →
  Except AssemblyError (String × List ActionDefinition)}

/-- What may stand behind the members of a group that have been read.  Behind an operator it is a
series of terms; behind a term it may also be nothing, or an operator and a series; at the start it
is a series or nothing. -/
def Completes (p : PartialRule) (rest : List Node) : Prop :=
  let counted := rest.filter Node.joins
  Series counted ∨ p.pending = none ∧ (counted = [] ∨ p.terms ≠ [] ∧ Series.Tail counted)

theorem completes_term {p q : PartialRule} {child : Node} {rest : List Node}
    (hterm : child.IsTerm) (hterms : q.terms ≠ []) (hpending : q.pending = none) :
    Completes q rest ↔ Completes p (child :: rest) := by
  have hjoins : child.joins := by rcases hterm with htype | htype <;> simp [Node.joins, htype]
  have htail : ¬ Series.Tail (child :: rest.filter Node.joins) := by
    rintro ⟨op, later, heq, hop, -⟩
    cases heq
    rcases hterm with htype | htype <;> simp [htype] at hop
  simp [Completes, hjoins, Node.series_cons hterm, htail, hterms, hpending]

theorem completes_operator {p : PartialRule} {child : Node} {rest : List Node}
    (htype : child.type = .conditionalOperator) :
    Completes p (child :: rest) ↔
      p.pending = none ∧ p.terms ≠ [] ∧ Series (rest.filter Node.joins) := by
  have hjoins : child.joins := by simp [Node.joins, htype]
  have hterm : ¬ child.IsTerm := by simp [Node.IsTerm, htype]
  have hseries : ¬ Series (child :: rest.filter Node.joins) := fun h => hterm h.head
  simp [Completes, Series.Tail, hjoins, hseries, htype]

theorem completes_skipped {p : PartialRule} {child : Node} {rest : List Node}
    (hjoins : child.joins = false) : Completes p (child :: rest) ↔ Completes p rest := by
  rw [Completes, List.filter_cons_of_neg (Bool.eq_false_iff.mp hjoins), Completes]

/-- A member is read, and the rest of the group completes what has been read with it, exactly if it
is complete and the rest completes what has been read with the member before it. -/
theorem exists_readStep_iff {p : PartialRule} {child : Node} {rest : List Node} {passes : Prop}
    (hnested : child.type = .ruleGroup →
      ((∃ out, nested child p.actions = .ok out) ↔ passes)) :
    (∃ q, ReadStep g nested p child q ∧ Completes q rest) ↔
      (child.Complete ∧ (child.type = .ruleGroup → passes)) ∧ Completes p (child :: rest) := by
  constructor
  · rintro ⟨q, hstep, hrest⟩
    cases hstep with
    | condition htype hne =>
      exact ⟨⟨(Node.complete_condition htype).mpr hne, by simp [htype]⟩,
        (completes_term (.inl htype) (List.cons_ne_nil _ _) rfl).mp hrest⟩
    | group htype hgroup =>
      exact ⟨⟨.of_type (by simp [htype]), fun _ => (hnested htype).mp ⟨_, hgroup⟩⟩,
        (completes_term (.inr htype) (List.cons_ne_nil _ _) rfl).mp hrest⟩
    | @operator op htype hterms hpending hoperator =>
      have hseries : Series (rest.filter Node.joins) := by simpa [Completes] using hrest
      exact ⟨⟨(Node.complete_operator htype).mpr ⟨op, hoperator⟩, by simp [htype]⟩,
        (completes_operator htype).mpr ⟨hpending, hterms, hseries⟩⟩
    | action htype =>
      exact ⟨⟨.of_type (by simp [htype]), by simp [htype]⟩,
        (completes_skipped (by simp [Node.joins, htype])).mpr hrest⟩
    | other htype =>
      have hjoins : child.joins = false :=
        Node.joins_eq_false.mpr (List.mem_append_left [NodeType.actionGroup] htype)
      have hcomplete : child.Complete := .of_type fun hmem => by
        rcases List.mem_pair.mp hmem with heq | heq <;> simp [heq] at htype
      exact ⟨⟨hcomplete, fun heq => by simp [heq] at htype⟩,
        (completes_skipped hjoins).mpr hrest⟩
  · rintro ⟨⟨hcomplete, hpasses⟩, hrest⟩
    cases htype : child.type with
    | condition =>
      exact ⟨_, .condition htype ((Node.complete_condition htype).mp hcomplete),
        (completes_term (.inl htype) (List.cons_ne_nil _ _) rfl).mpr hrest⟩
    | ruleGroup =>
      obtain ⟨⟨text, actions⟩, hgroup⟩ := (hnested htype).mpr (hpasses htype)
      exact ⟨_, .group htype hgroup,
        (completes_term (.inr htype) (List.cons_ne_nil _ _) rfl).mpr hrest⟩
    | conditionalOperator =>
      obtain ⟨op, hoperator⟩ := (Node.complete_operator htype).mp hcomplete
      obtain ⟨hpending, hterms, hseries⟩ := (completes_operator htype).mp hrest
      exact ⟨_, .operator htype hterms hpending hoperator, .inl hseries⟩
    | actionGroup =>
      exact ⟨_, .action htype, (completes_skipped (by simp [Node.joins, htype])).mp hrest⟩
    | ruleName | actionName | initial =>
      exact ⟨p, .other (by simp [htype]),
        (completes_skipped (by simp [Node.joins, htype])).mp hrest⟩

/-- The induction is on the members: what is left of them completes what has been read so far. -/
theorem exists_foldlM_iff {children : List Node} {p : PartialRule} {passes : Node → Prop}
    (hnested : ∀ child ∈ children, child.type = .ruleGroup → ∀ actions,
      ((∃ out, nested child actions = .ok out) ↔ passes child)) :
    (∃ p', children.foldlM (g.readChild nested) p = .ok p' ∧ p'.pending = none) ↔
      (∀ child ∈ children, child.Complete ∧ (child.type = .ruleGroup → passes child)) ∧
        Completes p children := by
  induction children generalizing p with
  | nil =>
    have hnil : Completes p [] ↔ p.pending = none := by
      have hseries : ¬ Series [] := nofun
      simp [Completes, hseries]
    rw [hnil]
    exact ⟨fun ⟨_, hfold, hpending⟩ => ⟨nofun, by cases hfold; exact hpending⟩,
      fun h => ⟨p, rfl, h.2⟩⟩
  | cons child children ih =>
    have hstep : (∃ q, ReadStep g nested p child q ∧ Completes q children) ↔ _ :=
      exists_readStep_iff fun htype => hnested child List.mem_cons_self htype p.actions
    have hrest {q : PartialRule} := @ih q fun other hother =>
      hnested other (List.mem_cons_of_mem _ hother)
    rw [List.foldlM_cons, List.forall_mem_cons, and_assoc, and_left_comm, ← hstep]
    simp only [bind_eq_ok, readChild_eq_ok]
    constructor
    · rintro ⟨p', ⟨q, hread, hfold⟩, hpending⟩
      obtain ⟨hothers, hcompletes⟩ := hrest.mp ⟨p', hfold, hpending⟩
      exact ⟨hothers, q, hread, hcompletes⟩
    · rintro ⟨hothers, q, hread, hcompletes⟩
      obtain ⟨p', hfold, hpending⟩ := hrest.mpr ⟨hothers, hcompletes⟩
      exact ⟨p', ⟨q, hread, hfold⟩, hpending⟩

/-- The members of a rule group and of the rule groups within it are sound. -/
def SoundThroughout (g : RuleGraph) (id : String) : Prop :=
  Node.Sound (g.members id) ∧
    ∀ group, g.Within id group → group.type = .ruleGroup → Node.Sound (g.members group.id)

theorem soundThroughout_iff {id : String} : g.SoundThroughout id ↔ Node.Sound (g.members id) ∧
    ∀ child ∈ g.members id, child.type = .ruleGroup → g.SoundThroughout child.id := by
  refine and_congr_right fun _ => ⟨fun h child hmem htype => ?_, fun h group hwithin htype => ?_⟩
  · exact ⟨h child (.member hmem) htype, fun group hwithin => h group (.nested hmem htype hwithin)⟩
  · cases hwithin with
    | member hmem => exact (h group hmem htype).1
    | nested hmem htype' hbelow => exact (h _ hmem htype').2 group hbelow htype

theorem exists_foldGroup_iff (hindexed : g.Indexed) {fuel : Nat} {group : Node}
    {actions : List ActionDefinition} :
    (∃ out, g.foldGroup (fuel + 1) group actions = .ok out) ↔
      ∃ p, (g.members group.id).foldlM (g.readChild (g.foldGroup fuel)) ⟨[], none, actions⟩ =
        .ok p ∧ p.pending = none := by
  rw [foldGroup, hindexed.childNodes_eq]
  simp only [bind_eq_ok]
  constructor
  · rintro ⟨out, p, hmembers, hout⟩
    refine ⟨p, hmembers, ?_⟩
    split at hout
    · cases hout
    · next hpending => exact hpending
  · rintro ⟨p, hmembers, hpending⟩
    exact ⟨_, p, hmembers, by rw [hpending]⟩

/-- The induction is on the number of links that paths down from the group are shorter than. -/
theorem foldGroup_ok_iff (hindexed : g.Indexed) {n : Nat} {group : Node}
    {actions : List ActionDefinition} (hshallow : g.Shallow n group.id) :
    (∃ out, g.foldGroup n group actions = .ok out) ↔ g.SoundThroughout group.id := by
  induction n generalizing group actions with
  | zero => exact hshallow.elim
  | succ n ih =>
    have hnested : ∀ child ∈ g.members group.id, child.type = .ruleGroup → ∀ actions,
        ((∃ out, g.foldGroup n child actions = .ok out) ↔ g.SoundThroughout child.id) :=
      fun child hmem _ _ =>
        ih (hshallow _ (hindexed.linked.id_mem_childIds (hindexed.childNodes_eq _ ▸ hmem)))
    have hstart : Completes ⟨[], none, actions⟩ (g.members group.id) ↔
        (g.members group.id).filter Node.joins = [] ∨
          Series ((g.members group.id).filter Node.joins) := by
      simp [Completes, or_comm]
    rw [exists_foldGroup_iff hindexed, exists_foldlM_iff hnested, hstart, soundThroughout_iff]
    constructor
    · rintro ⟨hmembers, hseries⟩
      exact ⟨⟨fun child hmem => (hmembers child hmem).1, hseries⟩,
        fun child hmem => (hmembers child hmem).2⟩
    · rintro ⟨hsound, hgroups⟩
      exact ⟨fun child hmem => ⟨hsound.complete child hmem, hgroups child hmem⟩, hsound.series⟩

end RuleGraph

end CommissionRules
