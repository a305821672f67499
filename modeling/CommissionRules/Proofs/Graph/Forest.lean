import Mathlib.Data.List.Induction
import Mathlib.Logic.Relation
import CommissionRules.Proofs.Graph.Store

/-!
# Forests

A graph is a forest if no node is its own ancestor.  Removals only take parent links away, and a
change of data keeps them, so that a forest can be lost in a creation only.  A creation adds the
link from the new node to its parent, and that from a name node to its group.  It closes a
circle exactly if one of these links leads back to where it starts: `RuleGraph.forest_withNew`.
-/

namespace CommissionRules

open Relation

/-! ## Relations with one more pair -/

section Edge

variable {α : Type} {r : α → α → Prop} {a b x y : α}

/-- A relation with one more pair. -/
def withEdge (r : α → α → Prop) (a b : α) : α → α → Prop := fun x y => r x y ∨ x = a ∧ y = b

theorem reflTransGen_withEdge :
    ReflTransGen (withEdge r a b) x y ↔
      ReflTransGen r x y ∨ ReflTransGen r x a ∧ ReflTransGen r b y := by
  have old {x y : α} (h : ReflTransGen r x y) : ReflTransGen (withEdge r a b) x y :=
    ReflTransGen.mono (fun _ _ hstep => .inl hstep) _ _ h
  constructor
  · intro h
    induction h with
    | refl => exact .inl .refl
    | tail _ hstep ih =>
      rcases hstep with hstep | ⟨rfl, rfl⟩
      · exact ih.imp (·.tail hstep) fun hthrough => ⟨hthrough.1, hthrough.2.tail hstep⟩
      · rcases ih with hto | ⟨hto, -⟩
        · exact .inr ⟨hto, .refl⟩
        · exact .inr ⟨hto, .refl⟩
  · intro h
    rcases h with h | ⟨hto, hfrom⟩
    · exact old h
    · exact ((old hto).tail (.inr ⟨rfl, rfl⟩)).trans (old hfrom)

/-- One more pair closes a circle if its second place led to its first. -/
theorem acyclic_withEdge :
    (∀ x, ¬ TransGen (withEdge r a b) x x) ↔ (∀ x, ¬ TransGen r x x) ∧ ¬ ReflTransGen r b a := by
  constructor
  · intro h
    refine ⟨fun x hx => h x (TransGen.mono (fun _ _ hstep => .inl hstep) _ _ hx),
      fun hback => h b ?_⟩
    have hback' : ReflTransGen (withEdge r a b) b a := reflTransGen_withEdge.mpr (.inl hback)
    exact .tail' hback' (.inr ⟨rfl, rfl⟩)
  · intro h x hx
    obtain ⟨hacyclic, hback⟩ := h
    -- The last step of a circle is an old pair or the new one.
    obtain ⟨y, hxy, hstep⟩ := TransGen.tail'_iff.mp hx
    rcases hstep with hstep | ⟨rfl, rfl⟩
    · rcases reflTransGen_withEdge.mp hxy with hpath | ⟨hto, hfrom⟩
      · exact hacyclic x (.tail' hpath hstep)
      · exact hback ((hfrom.tail hstep).trans hto)
    · rcases reflTransGen_withEdge.mp hxy with hpath | ⟨hto, -⟩
      · exact hback hpath
      · exact hback hto

end Edge

namespace RuleGraph

variable {g : RuleGraph}

/-! ## Ancestors -/

/-- The first id is the second one, or has it as an ancestor. -/
def Climbs (g : RuleGraph) : String → String → Prop := ReflTransGen g.ParentLink

/-- No node is its own ancestor.  A parent that does not exist has no parent itself, and so is on no
circle. -/
def Forest (g : RuleGraph) : Prop := ∀ id, ¬ TransGen g.ParentLink id id

theorem Forest.of_links {g' : RuleGraph} (h : g.Forest)
    (hlinks : ∀ {c p : String}, g'.ParentLink c p → g.ParentLink c p) : g'.Forest :=
  fun id hid => h id (TransGen.mono (fun _ _ => hlinks) _ _ hid)

theorem Forest.empty (layout : Layout) : (empty layout).Forest := by
  intro id hid
  obtain ⟨p, hlink, -⟩ := TransGen.head'_iff.mp hid
  obtain ⟨node, hmem, -⟩ := hlink
  cases hmem

/-! ## Creation -/

theorem parentLink_add_root {node : Node} (h : node.parent = none) :
    (g.add node).ParentLink = g.ParentLink := by
  funext c p
  refine propext (parentLink_insert.trans ⟨fun hlink => ?_, .inl⟩)
  rcases hlink with hlink | ⟨-, hparent⟩
  · exact hlink
  · rw [h] at hparent
    cases hparent

theorem parentLink_add_child {node : Node} {p : String} (h : node.parent = some p) :
    (g.add node).ParentLink = withEdge g.ParentLink node.id p := by
  funext c p'
  refine propext (parentLink_insert.trans (or_congr_right (and_congr_right fun _ => ?_)))
  rw [h, Option.some.injEq]
  exact eq_comm

theorem parentLink_allocated (now : Int64) (type : NodeType) :
    (g.allocated now type).ParentLink = g.ParentLink := rfl

theorem forest_withNode {now : Int64} {type : NodeType} {parent : Option String} :
    (g.withNode now type parent).Forest ↔
      g.Forest ∧ ∀ p, parent = some p → ¬ g.Climbs p (g.newId now type) := by
  rw [Forest, withNode, Climbs]
  cases parent with
  | none =>
    rw [parentLink_add_root rfl, parentLink_allocated]
    constructor
    · intro h
      refine ⟨h, fun p heq => ?_⟩
      cases heq
    · exact fun h => h.1
  | some p =>
    rw [parentLink_add_child rfl, acyclic_withEdge, parentLink_allocated]
    refine and_congr_right fun _ => ⟨fun h p' heq => ?_, fun h => h p rfl⟩
    cases heq
    exact h

theorem climbs_withNode {now : Int64} {type : NodeType} {parent : Option String} {id : String} :
    (g.withNode now type parent).Climbs (g.newId now type) id ↔
      g.Climbs (g.newId now type) id ∨ ∃ p, parent = some p ∧ g.Climbs p id := by
  rw [withNode, Climbs]
  cases parent with
  | none =>
    rw [parentLink_add_root rfl, parentLink_allocated]
    refine ⟨.inl, fun h => h.resolve_right fun hparent => ?_⟩
    obtain ⟨p, heq, -⟩ := hparent
    cases heq
  | some p =>
    rw [parentLink_add_child rfl, parentLink_allocated, reflTransGen_withEdge]
    refine or_congr_right ⟨fun h => ⟨p, rfl, h.2⟩, ?_⟩
    intro h
    obtain ⟨p', heq, h⟩ := h
    cases heq
    exact ⟨.refl, h⟩

/-- Whether one of the nodes that a creation adds becomes its own ancestor: the parent lies
below the new id already, or the parent or the new node lies below the id of the name node. -/
def ClosesCircle (g : RuleGraph) (now : Int64) (type : NodeType) (parent : Option String) : Prop :=
  (∃ p, parent = some p ∧ g.Climbs p (g.newId now type)) ∨
    ∃ nameType, type.nameType? = some nameType ∧
      (g.Climbs (g.newId now type) (g.nameId nameType) ∨
        ∃ p, parent = some p ∧ g.Climbs p (g.nameId nameType))

theorem forest_withNew {now : Int64} {type : NodeType} {parent : Option String} :
    (g.withNew now type parent).Forest ↔ g.Forest ∧ ¬ g.ClosesCircle now type parent := by
  have hparent : (∀ p, parent = some p → ¬ g.Climbs p (g.newId now type)) ↔
      ¬ ∃ p, parent = some p ∧ g.Climbs p (g.newId now type) := by
    simp only [not_exists, not_and]
  rw [withNew, ClosesCircle, not_or, ← hparent, ← and_assoc, ← forest_withNode]
  cases hname : type.nameType? with
  | none =>
    dsimp only
    constructor
    · intro h
      refine ⟨h, fun hbelow => ?_⟩
      obtain ⟨nameType, heq, -⟩ := hbelow
      cases heq
    · exact fun h => h.1
  | some nameType =>
    dsimp only
    let g' := g.withNode now type parent
    let node := g'.nameNode (g.newId now type) nameType (g.counter.get type + 1)
    have hadd : (g'.add node).Forest ↔
        g'.Forest ∧ ¬ g'.Climbs (g.newId now type) (g.nameId nameType) := by
      rw [Forest, Climbs, parentLink_add_child (p := g.newId now type) rfl, acyclic_withEdge,
        ← nameId_withNode parent hname]
      rfl
    refine hadd.trans (and_congr_right fun _ => not_congr ?_)
    rw [climbs_withNode]
    refine ⟨fun h => ⟨nameType, rfl, h⟩, ?_⟩
    intro hbelow
    obtain ⟨nameType', heq, h⟩ := hbelow
    cases heq
    exact h

/-! ## Commands and runs -/

/-- A command that creates nodes one of which becomes its own ancestor. -/
def MakesCircle (g : RuleGraph) (now : Int64) : GraphCommand → Prop
  | .create type requested =>
      type.isName = false ∧ g.InRange now type ∧
        ∃ parent, g.newParent type requested = .ok parent ∧ g.ClosesCircle now type parent
  | _ => False

theorem Forest.effect (h : g.Forest) (hlinked : g.Linked) {now : Int64} {command : GraphCommand}
    {answer : Except CommandFailure CommandOutcome} {g' : RuleGraph}
    (heffect : Effect g now command answer g') (hmakes : ¬ g.MakesCircle now command) :
    g'.Forest := by
  cases heffect with
  | refused => exact h
  | overflowed => exact h
  | created type requested parent hname hparent hrange =>
    refine forest_withNew.mpr ⟨h, fun hcloses => ?_⟩
    exact hmakes ⟨hname, hrange, parent, hparent, hcloses⟩
  | updated id patch slot node hslot hnode =>
    exact h.of_links (ParentLink.of_bare (bare_withData _ hnode))
  | deleted => exact h.of_links hlinked.parentLink_of_removeAll
  | deletedSubtree => exact h.of_links hlinked.parentLink_of_removeAll
  | selected => exact h
  | unselected => exact h

theorem MakesCircle.not_forest {now : Int64} {command : GraphCommand}
    (h : g.MakesCircle now command) : ¬ (g.dispatch now command).2.Forest := by
  cases command with
  | create type requested =>
    obtain ⟨hname, hrange, parent, hparent, hcloses⟩ := h
    rw [dispatch_create_eq hname hparent hrange]
    exact fun hforest => (forest_withNew.mp hforest).2 hcloses
  | update | delete | deleteSubtree | select | clearSelection => exact h.elim

/-- A run from a forest passes through forests only, exactly if no command in it makes a circle. -/
theorem forest_run (hlinked : g.Linked) (hforest : g.Forest) {steps : List (Int64 × GraphCommand)} :
    (∀ before, before <+: steps → (g.run before).Forest) ↔
      ∀ before now command, before ++ [(now, command)] <+: steps →
        ¬ (g.run before).MakesCircle now command := by
  constructor
  · intro h before now command hsteps hmakes
    have hafter := h _ hsteps
    rw [run_concat] at hafter
    exact hmakes.not_forest hafter
  · intro h before hsteps
    induction before using List.reverseRecOn with
    | nil => exact hforest
    | append_singleton before step ih =>
      have hbefore := ih ((List.prefix_append before [step]).trans hsteps)
      rw [run_concat]
      exact hbefore.effect (hlinked.run before) (dispatch_effect _ _ _) (h before _ _ hsteps)

end RuleGraph

end CommissionRules
