import CommissionRules.Proofs.Graph.Allotment

/-!
# The life of a graph

No id is given twice, also not the id of a node that is gone.  So a new node has no children but its
name node, and a node without its parent never gets one again: `RuleGraph.ids_never_reused`.
-/

namespace CommissionRules

namespace RuleGraph

variable {g : RuleGraph} {length : Nat}

/-- The children of an added node are added with it: a name node of its own if it is a group. -/
theorem Reached.childNodes_additions (h : g.Reached length) {now : Int64}
    {command : GraphCommand} {node : Node}
    (hnode : node ∈ g.additions now command) :
    ((g.dispatch now command).2.childNodes node.id).map Node.type = node.type.nameType?.toList ∧
      ∀ child ∈ (g.dispatch now command).2.childNodes node.id,
        child ∈ g.additions now command := by
  rcases h.consistent.linked.created_or_shrinks (g.dispatch_effect now command) with
    ⟨type, requested, parent, -, -, -, hparent, hrange, hnew⟩ | hshrinks
  · rw [additions_of_created hnew] at hnode ⊢
    obtain ⟨hchildren, htypes⟩ := h.childNodes_withNew hrange hparent hnode
    rw [hnew, hchildren]
    exact ⟨htypes, fun child hchild => List.mem_of_mem_filter hchild⟩
  · rw [additions_of_shrinks hshrinks] at hnode
    cases hnode

theorem mem_orphans {node : Node} : node ∈ g.orphans ↔
    node ∈ g.nodes ∧ ∃ p, node.parent = some p ∧ g.contains p = false := by
  rw [orphans, List.mem_filter]
  cases node.parent <;> simp

/-- A node without its parent is removed, or it stays one: neither its own id nor that of its parent
is given to a new node. -/
theorem Reached.orphan_dispatch (h : g.Reached length) {now : Int64} {command : GraphCommand}
    {node : Node} (hnode : node ∈ g.orphans)
    (hlive : (g.dispatch now command).2.contains node.id) :
    ∃ node' ∈ (g.dispatch now command).2.orphans,
      node'.id = node.id ∧ node'.parent = node.parent := by
  have hconsistent := (h.dispatch now command).consistent
  obtain ⟨hmem, p, hparent, hmissing⟩ := mem_orphans.mp hnode
  obtain ⟨node', hmem', hid⟩ := hconsistent.contains_iff.mp hlive
  have hparent' : node'.parent = node.parent := by
    rcases h.consistent.linked.mem_dispatch hmem' with hadded | ⟨old, hold, hid', -, hup⟩
    · exact absurd hid.symm (h.additions_fresh hadded hmem).1
    · rw [← hup, h.consistent.eq_of_id hold hmem (hid'.trans hid)]
  refine ⟨node', mem_orphans.mpr ⟨hmem', p, hparent'.trans hparent, ?_⟩, hid, hparent'⟩
  rw [Bool.eq_false_iff]
  intro hfound
  obtain ⟨other, hother, rfl⟩ := hconsistent.contains_iff.mp hfound
  rcases h.consistent.linked.mem_dispatch hother with hadded | ⟨old, hold, hid', -⟩
  · exact (h.additions_fresh hadded hmem).2 hparent
  · rw [h.consistent.contains_iff.mpr ⟨old, hold, hid'⟩] at hmissing
    cases hmissing

theorem Reached.orphan_run (h : g.Reached length) {steps : List (Int64 × GraphCommand)}
    {node : Node} (hnode : node ∈ g.orphans)
    (hlive : ∀ before, before <+: steps → (g.run before).contains node.id) :
    ∃ node' ∈ (g.run steps).orphans, node'.id = node.id ∧ node'.parent = node.parent := by
  induction steps generalizing g length node with
  | nil => exact ⟨node, hnode, rfl, rfl⟩
  | cons step rest ih =>
    obtain ⟨next, hnext, hid, hparent⟩ := h.orphan_dispatch hnode
      (hlive [step] (List.prefix_append [step] rest))
    obtain ⟨last, hlast, hid', hparent'⟩ := ih (h.dispatch step.1 step.2) hnext
      fun before hbefore => by
        rw [hid]
        exact hlive (step :: before) (List.cons_prefix_cons.mpr ⟨rfl, hbefore⟩)
    exact ⟨last, hlast, hid'.trans hid, hparent'.trans hparent⟩

/-- In a run from an empty graph, the nodes ever added include those of every graph of the run; they
have different ids, and the numbers of the conditions and operators among them rise; every counter
has counted the nodes of its type and never falls; the children of an added node are its own name
node or none; and a node without its parent stays one for as long as it is there. -/
theorem ids_never_reused (layout : Layout) (steps : List (Int64 × GraphCommand)) :
    let start := empty layout
    let added := start.everAdded steps
    (∀ before, before <+: steps → ∀ node ∈ (start.run before).nodes, ∃ node' ∈ added,
      node'.id = node.id ∧ node'.type = node.type ∧ node'.parent = node.parent) ∧
    (added.map Node.id).Nodup ∧
    (∃ tokens : List Int64, tokens.Pairwise (· < ·) ∧
      List.Forall₂ (fun node token => node.id = tokenId node.type token)
        (added.filter (·.type.requiresGroup)) tokens) ∧
    (∀ type, ((start.run steps).counter.get type).toNat = added.countP (·.type = type)) ∧
    (∀ before, before <+: steps → ∀ type,
      (start.run before).counter.get type ≤ (start.run steps).counter.get type) ∧
    (∀ before now command, before ++ [(now, command)] <+: steps →
      ∀ node ∈ (start.run before).additions now command,
        let g := start.run (before ++ [(now, command)])
        (g.childNodes node.id).map Node.type = node.type.nameType?.toList ∧
          ∀ child ∈ g.childNodes node.id, child ∈ (start.run before).additions now command) ∧
    (∀ before later, before ++ later = steps → ∀ node ∈ (start.run before).orphans,
      (∀ between, between <+: later → (start.run (before ++ between)).contains node.id) →
        ∃ node' ∈ (start.run steps).orphans,
          node'.id = node.id ∧ node'.parent = node.parent) := by
  intro start added
  have hlinked : start.Linked := .empty layout
  obtain ⟨tokens, hrun⟩ := (Allotted.empty layout).run hlinked steps
  refine ⟨fun before hbefore node hnode => ?_, hrun.nodup, ⟨tokens, hrun.rising, hrun.numbered⟩,
    fun type => ?_, fun before hbefore type => ?_,
    fun before now command hbefore node hnode => ?_,
    fun before later hsteps node hnode hlive => ?_⟩
  · obtain ⟨later, rfl⟩ := hbefore
    obtain ⟨node', hmem, hsame⟩ := hlinked.mem_run hnode
    refine ⟨node', ?_, hsame⟩
    rw [show added = _ from everAdded_append start before later]
    exact List.mem_append_left _ hmem
  · have hnone : (start.counter.get type).toNat = 0 := by
      cases type <;> rfl
    rw [hlinked.counter_run steps type, hnone, Nat.zero_add]
  · obtain ⟨later, rfl⟩ := hbefore
    have hcount := (hlinked.run before).counter_run later type
    rw [run_append, UInt64.le_iff_toNat_le, hcount]
    exact Nat.le_add_right _ _
  · rw [run_concat]
    exact (reached_run layout before).childNodes_additions hnode
  · rw [← hsteps, run_append]
    refine (reached_run layout before).orphan_run hnode fun between hbetween => ?_
    rw [← run_append]
    exact hlive between hbetween

/-- A condition is deleted and made again in the same millisecond, and its group is deleted. -/
def renewing : List (Int64 × GraphCommand) :=
  [(5, .create .ruleGroup none), (5, .create .condition none), (5, .delete "condition-5"),
    (5, .create .condition none), (5, .delete "ruleGroup-1"), (5, .create .ruleGroup none)]

theorem ids_never_reused_renewing : (((empty .standard).everAdded renewing).map Node.id).Nodup :=
  (ids_never_reused .standard renewing).2.1

example : ((empty .standard).everAdded renewing).map Node.id =
    ["ruleGroup-1", "ruleName-1", "condition-5", "condition-6", "ruleGroup-2", "ruleName-2"] := by
  decide +kernel

end RuleGraph

end CommissionRules
