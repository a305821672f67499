import CommissionRules.Proofs.Graph.Store

/-!
# The order of creation

A node stays in the slot into which it was put, and a slot that has been filled once is never filled
again.  So the slots hold the nodes in the order of their creation, however many commands have come
between: `RuleGraph.continues_run`.
-/

namespace CommissionRules

namespace RuleGraph

variable {g g' g'' : RuleGraph}

/-- A later graph has all slots of an earlier one, and in them no other nodes, up to their data. -/
structure Continues (g g' : RuleGraph) : Prop where
  length : g.slots.length ≤ g'.slots.length
  slot : ∀ {i : Nat} {node : Node}, i < g.slots.length → g'.slots[i]? = some (some node) →
    ∃ node', g.slots[i]? = some (some node') ∧
      node'.id = node.id ∧ node'.type = node.type ∧ node'.parent = node.parent

theorem Continues.of_slots (h : g'.slots = g.slots) : g.Continues g' :=
  ⟨h ▸ Nat.le_refl _, fun _ hnode => ⟨_, h ▸ hnode, rfl, rfl, rfl⟩⟩

theorem Continues.trans (h : g.Continues g') (h' : g'.Continues g'') : g.Continues g'' := by
  refine ⟨Nat.le_trans h.length h'.length, fun hi hnode => ?_⟩
  obtain ⟨node', hnode', hid, htype, hparent⟩ := h'.slot (Nat.lt_of_lt_of_le hi h.length) hnode
  obtain ⟨node, hnode, hid', htype', hparent'⟩ := h.slot hi hnode'
  exact ⟨node, hnode, hid'.trans hid, htype'.trans htype, hparent'.trans hparent⟩

theorem continues_add (node : Node) : g.Continues (g.add node) := by
  refine ⟨List.length_append ▸ Nat.le_add_right _ _, fun {i other} hi hother => ?_⟩
  rcases slots_insert.mp hother with hother | ⟨hlast, -⟩
  · exact ⟨other, hother, rfl, rfl, rfl⟩
  · exact absurd hlast (Nat.ne_of_lt hi)

theorem continues_withNew (now : Int64) (type : NodeType) (parent : Option String) :
    g.Continues (g.withNew now type parent) := by
  have hallocated : g.Continues (g.allocated now type) := .of_slots rfl
  have hnode : g.Continues (g.withNode now type parent) := hallocated.trans (continues_add _)
  rw [withNew]
  cases type.nameType? with
  | none => exact hnode
  | some nameType =>
    have hname := continues_add (g := g.withNode now type parent)
      ((g.withNode now type parent).nameNode (g.newId now type) nameType (g.counter.get type + 1))
    exact hnode.trans ⟨hname.length, hname.slot⟩

theorem continues_remove (hlinked : g.Linked) (id : String) : g.Continues (g.remove id) := by
  obtain ⟨-, heq⟩ | ⟨slot, node, -, -, -, heq⟩ := hlinked.remove_cases id
  · rw [heq]
    exact .of_slots rfl
  · rw [heq]
    refine ⟨List.length_set ▸ Nat.le_refl _, fun {i other} _ hother => ?_⟩
    exact ⟨other, ((slots_without i other).mp hother).2, rfl, rfl, rfl⟩

theorem continues_removeAll (hlinked : g.Linked) (ids : List String) :
    g.Continues (g.removeAll ids) := by
  induction ids generalizing g with
  | nil => exact .of_slots rfl
  | cons id ids ih => exact (continues_remove hlinked id).trans (ih (hlinked.remove id))

theorem continues_effect (hlinked : g.Linked) {now : Int64} {command : GraphCommand}
    {answer : Except CommandFailure CommandOutcome} (heffect : Effect g now command answer g') :
    g.Continues g' := by
  cases heffect with
  | refused => exact .of_slots rfl
  | overflowed => exact .of_slots rfl
  | created type requested parent => exact continues_withNew now type parent
  | updated id patch slot node hslot hnode =>
    exact ⟨List.length_set ▸ Nat.le_refl _, fun _ => slot_of_bare (bare_withData _ hnode)⟩
  | deleted => exact continues_removeAll hlinked _
  | deletedSubtree => exact continues_removeAll hlinked _
  | selected => exact .of_slots rfl
  | unselected => exact .of_slots rfl

theorem continues_run (hlinked : g.Linked) (steps : List (Int64 × GraphCommand)) :
    g.Continues (g.run steps) := by
  induction steps generalizing g with
  | nil => exact .of_slots rfl
  | cons step steps ih =>
    have heffect := g.dispatch_effect step.1 step.2
    exact (continues_effect hlinked heffect).trans (ih (hlinked.effect heffect))

/-- The nodes of a prefix of a run come first in the slots, and those of the rest after them. -/
theorem continues_run_of_prefix (hlinked : g.Linked) {before steps : List (Int64 × GraphCommand)}
    (hbefore : before <+: steps) : (g.run before).Continues (g.run steps) := by
  obtain ⟨later, rfl⟩ := hbefore
  rw [run_append]
  exact continues_run (hlinked.run before) later

end RuleGraph

end CommissionRules
