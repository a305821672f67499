import CommissionRules.Graph.Assembly
import CommissionRules.Proofs.Except

/-!
# The terms of a rule group

What a rule group has been read to are terms in reverse: the first one stands alone, and each
further one comes with the operator before it (`PartialRule.Ordered`).  Reading the members of a
group adds one term for each condition and each nested group: `RuleGraph.foldlM_terms`.
-/

namespace CommissionRules

namespace Term

/-- Terms in reverse, of which only the first one has no operator. -/
inductive Led : List Term → Prop
  | nil : Led []
  | first (text : String) : Led [⟨none, text⟩]
  | next {terms : List Term} (op : LogicalOp) (text : String) (before : Led terms)
      (hne : terms ≠ []) : Led (⟨some op, text⟩ :: terms)

/-- The operator that was written last. -/
def lastOperator (previous : Option LogicalOp) (terms : List Term) : Option LogicalOp :=
  terms.foldl (fun previous term => term.operator.or previous) previous

theorem joinTo_append (condition : String) (previous : Option LogicalOp) (terms later : List Term) :
    joinTo condition previous (terms ++ later) =
      joinTo (joinTo condition previous terms) (lastOperator previous terms) later := by
  induction terms generalizing condition previous with
  | nil => rfl
  | cons term terms ih =>
    obtain ⟨operator, text⟩ := term
    cases operator with
    | none => exact ih _ _
    | some op => exact ih _ _

theorem lastOperator_reverse_cons (op : LogicalOp) (text : String) (terms : List Term) :
    lastOperator none (⟨some op, text⟩ :: terms).reverse = some op := by
  rw [lastOperator, List.reverse_cons, List.foldl_append]
  rfl

/-- More than one term is joined from left to right. -/
theorem join_reverse_cons (term : Term) {terms : List Term} (hne : terms ≠ []) :
    join (term :: terms).reverse = joinTo "" none (term :: terms).reverse := by
  rw [List.reverse_cons]
  cases hterms : terms.reverse with
  | nil => exact absurd (List.reverse_eq_nil_iff.mp hterms) hne
  | cons first rest => cases rest <;> rfl

end Term

/-- An operator waits behind a term only. -/
structure PartialRule.Ordered (p : PartialRule) : Prop where
  led : Term.Led p.terms
  waits : p.pending ≠ none → p.terms ≠ []

theorem PartialRule.Ordered.addTerm {p : PartialRule} (h : p.Ordered) (text : String) :
    (p.addTerm text).Ordered ∧
      ∃ operator, (p.addTerm text).terms = ⟨operator, text⟩ :: p.terms := by
  obtain ⟨terms, pending, actions⟩ := p
  refine ⟨⟨?_, fun hpending => absurd rfl hpending⟩, _, rfl⟩
  cases terms with
  | nil =>
    cases pending with
    | none => exact .first text
    | some waiting => exact absurd rfl (h.waits (Option.some_ne_none _))
  | cons term terms =>
    cases pending with
    | none => exact .next .and text h.led (List.cons_ne_nil _ _)
    | some waiting => exact .next waiting.1 text h.led (List.cons_ne_nil _ _)

namespace RuleGraph

variable {g : RuleGraph} {nested : Node → List ActionDefinition →
  Except AssemblyError (String × List ActionDefinition)}

/-- All that reading a child of a rule group can do. -/
inductive ReadStep (g : RuleGraph) (nested : Node → List ActionDefinition →
    Except AssemblyError (String × List ActionDefinition)) (p : PartialRule) (child : Node) :
    PartialRule → Prop
  | condition (htype : child.type = .condition) (hne : child.expression.isEmpty = false) :
      ReadStep g nested p child (p.addTerm child.expression)
  | group {text : String} {actions : List ActionDefinition} (htype : child.type = .ruleGroup)
      (hnested : nested child p.actions = .ok (text, actions)) :
      ReadStep g nested p child ({ p with actions }.addTerm (Term.parenthesized text))
  | operator {op : LogicalOp} (htype : child.type = .conditionalOperator) (hterms : p.terms ≠ [])
      (hpending : p.pending = none) (hoperator : child.operator = .ok op) :
      ReadStep g nested p child { p with pending := some (op, child.id) }
  | action (htype : child.type = .actionGroup) :
      ReadStep g nested p child { p with actions := g.actionOf child :: p.actions }
  | other (htype : child.type ∈ [NodeType.ruleName, .actionName, .initial]) :
      ReadStep g nested p child p

theorem readChild_eq_ok {p q : PartialRule} {child : Node} :
    g.readChild nested p child = .ok q ↔ ReadStep g nested p child q := by
  constructor
  · intro h
    rw [readChild] at h
    cases htype : child.type with
    | condition =>
      rw [htype] at h
      dsimp only at h
      split at h
      · cases h
      · next hne =>
        cases h
        exact .condition htype (Bool.eq_false_iff.mpr hne)
    | ruleGroup =>
      rw [htype] at h
      obtain ⟨⟨text, actions⟩, hnested, h⟩ := bind_eq_ok.mp h
      cases h
      exact .group htype hnested
    | conditionalOperator =>
      rw [htype] at h
      dsimp only at h
      split at h
      · cases h
      · next hplace =>
        obtain ⟨op, hoperator, h⟩ := bind_eq_ok.mp h
        cases h
        rw [Bool.or_eq_true, not_or, List.isEmpty_iff, Option.not_isSome_iff_eq_none] at hplace
        exact .operator htype hplace.1 hplace.2 hoperator
    | actionGroup =>
      rw [htype] at h
      cases h
      exact .action htype
    | ruleName | actionName | initial =>
      rw [htype] at h
      cases h
      exact .other (by rw [htype]; decide)
  · intro h
    rw [readChild]
    cases h with
    | condition htype hne =>
      rw [htype]
      dsimp only
      rw [hne, if_neg Bool.false_ne_true]
    | group htype hnested =>
      rw [htype]
      dsimp only
      rw [hnested, ok_bind]
    | operator htype hterms hpending hoperator =>
      have hplace : ¬ (p.terms.isEmpty || p.pending.isSome) := by
        rw [Bool.or_eq_true, not_or, List.isEmpty_iff, hpending]
        exact ⟨hterms, Bool.false_ne_true⟩
      rw [htype]
      dsimp only
      rw [if_neg hplace, hoperator, ok_bind]
    | action htype => rw [htype]
    | other htype =>
      rcases List.mem_cons.mp htype with htype | htype
      · rw [htype]
      · rcases List.mem_cons.mp htype with htype | htype
        · rw [htype]
        · rw [List.mem_singleton.mp htype]

/-- What a child adds to the terms of its group. -/
inductive Adds (nested : Node → List ActionDefinition →
    Except AssemblyError (String × List ActionDefinition)) : Node → String → Prop
  | condition {node : Node} (htype : node.type = .condition)
      (hne : node.expression.isEmpty = false) : Adds nested node node.expression
  | group {node : Node} {actions actions' : List ActionDefinition} {text : String}
      (htype : node.type = .ruleGroup) (hnested : nested node actions = .ok (text, actions')) :
      Adds nested node (Term.parenthesized text)

theorem Adds.of_condition {node : Node} {text : String} (h : Adds nested node text)
    (htype : node.type = .condition) :
    text = node.expression ∧ node.expression.isEmpty = false := by
  cases h with
  | condition _ hne => exact ⟨rfl, hne⟩
  | group htype' => simp [htype] at htype'

theorem Adds.of_group {node : Node} {text : String} (h : Adds nested node text)
    (htype : node.type = .ruleGroup) : ∃ actions inner actions',
      nested node actions = .ok (inner, actions') ∧ text = Term.parenthesized inner := by
  cases h with
  | condition htype' => simp [htype] at htype'
  | group _ hnested => exact ⟨_, _, _, hnested, rfl⟩

theorem ReadStep.terms {p q : PartialRule} {child : Node} (h : ReadStep g nested p child q)
    (hp : p.Ordered) : q.Ordered ∧
      ((∃ operator text, Adds nested child text ∧ q.terms = ⟨operator, text⟩ :: p.terms) ∨
        (q.terms = p.terms ∧ child.type ≠ .condition ∧ child.type ≠ .ruleGroup)) := by
  cases h with
  | condition htype hne =>
    obtain ⟨hq, operator, hterms⟩ := hp.addTerm child.expression
    exact ⟨hq, .inl ⟨operator, _, .condition htype hne, hterms⟩⟩
  | @group text actions htype hnested =>
    have hactions : ({ p with actions } : PartialRule).Ordered := ⟨hp.led, hp.waits⟩
    obtain ⟨hq, operator, hterms⟩ := hactions.addTerm (Term.parenthesized text)
    exact ⟨hq, .inl ⟨operator, _, .group htype hnested, hterms⟩⟩
  | operator htype hterms =>
    exact ⟨⟨hp.led, fun _ => hterms⟩, .inr ⟨rfl, by simp [htype], by simp [htype]⟩⟩
  | action htype =>
    exact ⟨⟨hp.led, hp.waits⟩, .inr ⟨rfl, by simp [htype], by simp [htype]⟩⟩
  | other htype =>
    refine ⟨hp, .inr ⟨rfl, fun heq => ?_, fun heq => ?_⟩⟩ <;> simp [heq] at htype

/-- The induction is on the members: a term that has been read stays, and each condition and each
nested group adds one. -/
theorem foldlM_terms {children : List Node} {p p' : PartialRule} (hp : p.Ordered)
    (hfold : children.foldlM (g.readChild nested) p = .ok p') :
    p'.Ordered ∧ p.terms ⊆ p'.terms ∧
      (∀ term ∈ p'.terms, term ∈ p.terms ∨ ∃ child ∈ children, Adds nested child term.text) ∧
      ∀ child ∈ children, child.type = .condition ∨ child.type = .ruleGroup →
        ∃ term ∈ p'.terms, Adds nested child term.text := by
  induction children generalizing p with
  | nil =>
    cases hfold
    exact ⟨hp, List.Subset.refl _, fun term hterm => .inl hterm, nofun⟩
  | cons child children ih =>
    rw [List.foldlM_cons] at hfold
    obtain ⟨q, hread, hfold⟩ := bind_eq_ok.mp hfold
    obtain ⟨hq, hchild⟩ := (readChild_eq_ok.mp hread).terms hp
    obtain ⟨hp', hsubset, hsource, hadds⟩ := ih hq hfold
    have hterms : p.terms ⊆ q.terms := by
      rcases hchild with ⟨operator, text, -, hterms⟩ | ⟨hterms, -⟩
      · rw [hterms]
        exact List.subset_cons_self _ _
      · rw [hterms]
        exact List.Subset.refl _
    refine ⟨hp', List.Subset.trans hterms hsubset, fun term hterm => ?_, fun other hother => ?_⟩
    · rcases hsource term hterm with hterm | ⟨other, hother, hadd⟩
      · rcases hchild with ⟨operator, text, hadd, hterms⟩ | ⟨hterms, -⟩
        · rw [hterms] at hterm
          rcases List.mem_cons.mp hterm with rfl | hterm
          · exact .inr ⟨child, List.mem_cons_self, hadd⟩
          · exact .inl hterm
        · exact .inl (hterms ▸ hterm)
      · exact .inr ⟨other, List.mem_cons_of_mem _ hother, hadd⟩
    · intro htype
      rcases List.mem_cons.mp hother with rfl | hother
      · rcases hchild with ⟨operator, text, hadd, hterms⟩ | ⟨-, hcondition, hgroup⟩
        · have hmem : (⟨operator, text⟩ : Term) ∈ q.terms := by
            rw [hterms]
            exact List.mem_cons_self
          exact ⟨_, hsubset hmem, hadd⟩
        · exact (htype.elim hcondition hgroup).elim
      · exact hadds other hother htype

/-- The condition of a group is made of one term for each condition and each nested group among
its children. -/
theorem foldGroup_terms {fuel : Nat} {group : Node} {actions actions' : List ActionDefinition}
    {text : String} (hfold : g.foldGroup (fuel + 1) group actions = .ok (text, actions')) :
    ∃ terms, Term.Led terms ∧ text = Term.join terms.reverse ∧
      (∀ term ∈ terms, ∃ child ∈ g.childNodes group.id, Adds (g.foldGroup fuel) child term.text) ∧
      ∀ child ∈ g.childNodes group.id, child.type = .condition ∨ child.type = .ruleGroup →
        ∃ term ∈ terms, Adds (g.foldGroup fuel) child term.text := by
  obtain ⟨p, hchildren, hfold⟩ := bind_eq_ok.mp hfold
  have hstart : (⟨[], none, actions⟩ : PartialRule).Ordered := ⟨.nil, fun h => absurd rfl h⟩
  obtain ⟨hp, -, hsource, hadds⟩ := foldlM_terms hstart hchildren
  refine ⟨p.terms, hp.led, ?_, fun term hterm => ?_, hadds⟩
  · split at hfold <;> cases hfold
    rfl
  · exact (hsource term hterm).resolve_left List.not_mem_nil

theorem assemble_eq_ok {id : String} {rule : RuleDefinition} :
    g.assemble id = .ok rule ↔ ∃ group condition actions, g.node? id = some group ∧
      group.type = .ruleGroup ∧
      g.foldGroup (g.slots.length + 1) group [] = .ok (condition, actions) ∧
      ⟨id, g.nameOf group .ruleName, condition, actions.reverse⟩ = rule := by
  rw [assemble]
  cases g.node? id with
  | none => simp
  | some group =>
    by_cases htype : group.type = .ruleGroup
    · simp [htype, bind_eq_ok]
    · simp [htype]

/-- The condition of an assembled rule is that of a rule group. -/
theorem foldGroup_of_assemble {id : String} {rule : RuleDefinition}
    (h : g.assemble id = .ok rule) : ∃ group fuel actions, g.node? id = some group ∧
      g.foldGroup fuel group [] = .ok (rule.condition, actions) := by
  obtain ⟨group, condition, actions, hnode, -, hfold, rfl⟩ := assemble_eq_ok.mp h
  exact ⟨group, _, actions, hnode, hfold⟩

end RuleGraph

end CommissionRules
