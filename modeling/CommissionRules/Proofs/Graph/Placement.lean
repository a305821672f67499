import CommissionRules.Proofs.Graph.Acceptance
import CommissionRules.Proofs.Graph.Restore

/-!
# Where imported nodes stand

The checks of an import look at the parent of a condition, an operator or a name node, which has to
be a group wherever it is a node.  A group or an initial node is let pass in any other node, as long
as there is no circle: a command would not put it there.
-/

namespace CommissionRules

/-- The types of the nodes that the checks place, and the two others. -/
theorem NodeType.placed (type : NodeType) :
    type.requiresGroup ∨ type.isName ∨ type.isGroup ∨ type = .initial := by
  cases type <;> decide

namespace RuleGraph

variable {g : RuleGraph} {node parent : Node}

/-- The parent of a node, if it exists. -/
def parent? (g : RuleGraph) (node : Node) : Option Node := node.parent.bind g.node?

theorem Indexed.parent?_eq_some (h : g.Indexed) :
    g.parent? node = some parent ↔ parent ∈ g.nodes ∧ node.parent = some parent.id := by
  rw [parent?, Option.bind_eq_some_iff]
  constructor
  · intro hparent
    obtain ⟨id, hid, hfound⟩ := hparent
    obtain ⟨hmem, rfl⟩ := h.node?_eq_some.mp hfound
    exact ⟨hmem, hid⟩
  · intro hparent
    exact ⟨parent.id, hparent.2, h.node?_eq_some.mpr ⟨hparent.1, rfl⟩⟩

/-- In an imported graph every name node stands in a group of its kind, and the parent of a
condition or an operator, if it exists, is a group: only groups and initial nodes stand in other
nodes. -/
theorem import_places_in_groups {s : GraphSnapshot} (h : ofSnapshot s = .ok g) :
    (∀ node ∈ g.nodes, node.type.isName → ∃ group,
      g.parent? node = some group ∧ group.type.nameType? = some node.type) ∧
    ∀ node ∈ g.nodes, ∀ parent, g.parent? node = some parent →
      parent.type.isGroup ∨ node.type.isGroup ∨ node.type = .initial := by
  have hindexed := indexed_ofSnapshot h
  have hwell := wellFormed_ofSnapshot h
  have hname (node : Node) (hmem : node ∈ g.nodes) (hisName : node.type.isName) : ∃ group,
      g.parent? node = some group ∧ group.type.nameType? = some node.type := by
    obtain ⟨group, hgroup, hlink, htype⟩ := (hwell.fits node hmem).name hisName
    exact ⟨group, hindexed.parent?_eq_some.mpr ⟨hgroup, hlink⟩, htype⟩
  refine ⟨hname, fun node hmem parent hparent => ?_⟩
  rcases node.type.placed with hrequires | hisName | hother
  · obtain ⟨hparentMem, hlink⟩ := hindexed.parent?_eq_some.mp hparent
    exact .inl ((hwell.fits node hmem).grouped hrequires parent hparentMem hlink)
  · obtain ⟨group, hgroup, htype⟩ := hname node hmem hisName
    rw [hparent, Option.some.injEq] at hgroup
    rw [hgroup, ← NodeType.isSome_nameType?, htype]
    exact .inl rfl
  · exact .inr hother

namespace Misplaced

def start : Node := ⟨"initial-1", .initial, ⟨⟨0⟩, ⟨0⟩⟩, none, false, .obj []⟩

def group : Node := ⟨"ruleGroup-1", .ruleGroup, ⟨⟨0⟩, ⟨0⟩⟩, some "initial-1", false, .obj []⟩

def name : Node := ⟨"ruleName-1", .ruleName, ⟨⟨0⟩, ⟨0⟩⟩, some "ruleGroup-1", true, .obj []⟩

def inside : Node := ⟨"condition-1", .condition, ⟨⟨0⟩, ⟨0⟩⟩, some "ruleGroup-1", true, .obj []⟩

def outside : Node := ⟨"condition-2", .condition, ⟨⟨0⟩, ⟨0⟩⟩, none, false, .obj []⟩

/-- A rule group in an initial node, with a condition in it and a condition in no node at all. -/
def snapshot : GraphSnapshot := ⟨[start, group, name, inside, outside], .empty, []⟩

theorem accepted : ofSnapshot snapshot = .ok (graphOf snapshot) :=
  ofSnapshot_eq_ok.mpr ⟨by rfl, rfl⟩

theorem mem_nodes (h : node ∈ snapshot.nodes) : node ∈ (graphOf snapshot).nodes := by
  rw [nodes_graphOf]
  exact snapshot.sortedNodes_perm.mem_iff.mpr h

end Misplaced

/-- The name node stands in the group, and so does the condition that has a parent. -/
theorem import_places_in_groups_misplaced : ∃ g, ofSnapshot Misplaced.snapshot = .ok g ∧
    (∃ group, g.parent? Misplaced.name = some group ∧ group.type.nameType? = some .ruleName) ∧
    ∀ parent, g.parent? Misplaced.inside = some parent → parent.type.isGroup := by
  obtain ⟨hname, hother⟩ := import_places_in_groups Misplaced.accepted
  refine ⟨_, Misplaced.accepted, ?_, fun parent hparent => ?_⟩
  · have hmem : Misplaced.name ∈ Misplaced.snapshot.nodes := by simp [Misplaced.snapshot]
    exact hname _ (Misplaced.mem_nodes hmem) rfl
  · have hmem : Misplaced.inside ∈ Misplaced.snapshot.nodes := by simp [Misplaced.snapshot]
    rcases hother _ (Misplaced.mem_nodes hmem) parent hparent with hgroup | hnot
    · exact hgroup
    · exact absurd hnot (by decide)

/-- The checks let a condition pass that has no parent, and a group whose parent is no group. -/
theorem misplaced_accepted : ∃ g, ofSnapshot Misplaced.snapshot = .ok g ∧
    (¬ ∀ node ∈ g.nodes, node.type.requiresGroup → node.parent.isSome) ∧
    ¬ ∀ node ∈ g.nodes, ∀ parent, g.parent? node = some parent → parent.type.isGroup := by
  have hindexed := indexed_ofSnapshot Misplaced.accepted
  refine ⟨_, Misplaced.accepted, fun h => ?_, fun h => ?_⟩
  · have hmem : Misplaced.outside ∈ Misplaced.snapshot.nodes := by simp [Misplaced.snapshot]
    cases h _ (Misplaced.mem_nodes hmem) rfl
  · have hgroup : Misplaced.group ∈ Misplaced.snapshot.nodes := by simp [Misplaced.snapshot]
    have hstart : Misplaced.start ∈ Misplaced.snapshot.nodes := by simp [Misplaced.snapshot]
    have hparent : (graphOf Misplaced.snapshot).parent? Misplaced.group = some Misplaced.start :=
      hindexed.parent?_eq_some.mpr ⟨Misplaced.mem_nodes hstart, rfl⟩
    cases h _ (Misplaced.mem_nodes hgroup) _ hparent

end RuleGraph

end CommissionRules
