import CommissionRules.Proofs.Graph.Uniqueness

/-!
# Nodes that commands add

A command creates nodes, which are a new node and its name node if it is a group, or it adds none
and counts none (`RuleGraph.Linked.created_or_shrinks`).  The ids of the added nodes are new, as
those of nodes and as those of parents (`RuleGraph.Reached.newNodes_fresh`), and every added node is
counted once (`RuleGraph.counter_withNew`).
-/

namespace CommissionRules

namespace RuleGraph

variable {g g' : RuleGraph} {now : Int64} {command : GraphCommand}
  {answer : Except CommandFailure CommandOutcome} {type : NodeType} {parent : Option String}

/-! ## Created nodes -/

/-- A new node, and after it its name node if it is a group. -/
def newNodes (g : RuleGraph) (now : Int64) (type : NodeType) (parent : Option String) :
    List Node :=
  g.newNode now type parent :: (type.nameType?.map fun nameType =>
    g.nameNode (g.newId now type) nameType (g.counter.get type + 1)).toList

theorem nameNode_withNode {nameType : NodeType} (h : type.nameType? = some nameType)
    (group : String) (index : UInt64) :
    (g.withNode now type parent).nameNode group nameType index =
      g.nameNode group nameType index := by
  rw [nameNode, nameNode, nameId_withNode parent h]
  rfl

theorem slots_withNew (g : RuleGraph) (now : Int64) (type : NodeType) (parent : Option String) :
    (g.withNew now type parent).slots =
      g.slots ++ (g.newNodes now type parent).map some := by
  have hnode : (g.withNode now type parent).slots =
      g.slots ++ [some (g.newNode now type parent)] := rfl
  unfold withNew newNodes
  cases hname : type.nameType? with
  | none => exact hnode
  | some nameType =>
    show (g.withNode now type parent).slots ++ [some _] = _
    rw [hnode, List.append_assoc, nameNode_withNode hname]
    rfl

theorem mem_newNodes {added : Node} : added ∈ g.newNodes now type parent ↔
    added = g.newNode now type parent ∨ ∃ nameType, type.nameType? = some nameType ∧
      added = g.nameNode (g.newId now type) nameType (g.counter.get type + 1) := by
  rw [newNodes, List.mem_cons, Option.mem_toList, Option.map_eq_some_iff]
  simp only [eq_comm]

theorem id_newNodes {added : Node} (h : added ∈ g.newNodes now type parent) :
    added.id = g.newId now type ∨
      ∃ nameType, type.nameType? = some nameType ∧ added.id = g.nameId nameType := by
  rcases mem_newNodes.mp h with rfl | ⟨nameType, hname, rfl⟩
  · exact .inl rfl
  · exact .inr ⟨nameType, hname, rfl⟩

/-- The id of a node that a command adds is that of no node, and no node names it as its parent. -/
theorem Reached.newNodes_fresh {length : Nat} (h : g.Reached length) (hrange : g.InRange now type)
    {added node : Node} (hadded : added ∈ g.newNodes now type parent) (hnode : node ∈ g.nodes) :
    node.id ≠ added.id ∧ node.parent ≠ some added.id := by
  rcases id_newNodes hadded with hid | ⟨nameType, hname, hid⟩
  · have hfree := newId_free h.consistent h.recorded hrange
    rw [hid]
    exact ⟨hfree.1 node hnode, hfree.2 node hnode⟩
  · have hfree := counterId_free h.recorded (nameType?_eq_some hname).2.1
      (hrange.nameCount nameType hname)
    rw [hid]
    exact ⟨hfree.1 node hnode, hfree.2 node hnode⟩

/-- The parent of a new node is a node of the graph before. -/
theorem Reached.newNode_parent_ne {length : Nat} (h : g.Reached length)
    (hrange : g.InRange now type) {requested : Option String}
    (hparent : g.newParent type requested = .ok parent) {added : Node}
    (hadded : added ∈ g.newNodes now type parent) : parent ≠ some added.id := by
  intro heq
  obtain ⟨group, hgroup, -⟩ := (newParent_eq_ok h.consistent.linked hparent).1 added.id heq
  obtain ⟨hmem, hid⟩ := h.consistent.node?_eq_some.mp hgroup
  exact (h.newNodes_fresh hrange hadded hmem).1 hid

/-- The children of an added node are added with it: the name node, if it is a group. -/
theorem Reached.childNodes_withNew {length : Nat} (h : g.Reached length)
    (hrange : g.InRange now type) {requested : Option String}
    (hparent : g.newParent type requested = .ok parent) {added : Node}
    (hadded : added ∈ g.newNodes now type parent) :
    (g.withNew now type parent).childNodes added.id =
        (g.newNodes now type parent).filter (·.parent = some added.id) ∧
      ((g.newNodes now type parent).filter (·.parent = some added.id)).map Node.type =
        added.type.nameType?.toList := by
  constructor
  · have hold : g.nodes.filter (·.parent = some added.id) = [] := by
      refine List.filter_eq_nil_iff.mpr fun node hnode hnamed => ?_
      exact (h.newNodes_fresh hrange hadded hnode).2 (of_decide_eq_true hnamed)
    rw [(h.withNew hparent hrange).consistent.childNodes_eq, nodes_withNew,
      List.filter_append, hold]
    rfl
  · have hroot : ¬ decide ((g.newNode now type parent).parent = some added.id) := by
      rw [decide_eq_true_eq]
      exact h.newNode_parent_ne hrange hparent hadded
    rw [newNodes, List.filter_cons, if_neg hroot]
    rcases mem_newNodes.mp hadded with rfl | ⟨nameType, hname, rfl⟩
    · show _ = type.nameType?.toList
      cases type.nameType? with
      | none => rfl
      | some nameType => simp [nameNode, newNode]
    · have hother : g.newId now type ≠ g.nameId nameType := (nameId_ne_newId hname).symm
      have hplain : nameType.nameType? = none := by
        cases type <;> cases hname <;> rfl
      show _ = nameType.nameType?.toList
      simp [hname, hplain, nameNode, hother]

/-! ## Counting -/

theorem toNat_get_add (node : Node) (hcount : (g.counter.get node.type).toNat + 1 < 2 ^ 64)
    (type : NodeType) : ((g.add node).counter.get type).toNat =
      (g.counter.get type).toNat + [node].countP (·.type = type) := by
  rw [get_add, List.countP_singleton]
  by_cases heq : type = node.type
  · rw [if_pos heq, if_pos (decide_eq_true heq.symm), heq, toNat_succ hcount]
  · rw [if_neg heq, if_neg (fun h => heq (of_decide_eq_true h).symm), Nat.add_zero]

/-- Each of the added nodes is counted with its type. -/
theorem counter_withNew (hrange : g.InRange now type) (parent : Option String)
    (type' : NodeType) :
    ((g.withNew now type parent).counter.get type').toNat =
      (g.counter.get type').toNat + (g.newNodes now type parent).countP (·.type = type') := by
  have hnode (type' : NodeType) : ((g.withNode now type parent).counter.get type').toNat =
      (g.counter.get type').toNat + [g.newNode now type parent].countP (·.type = type') :=
    toNat_get_add (g := g.allocated now type) (g.newNode now type parent) hrange.count type'
  rw [newNodes, withNew]
  cases hname : type.nameType? with
  | none => exact hnode type'
  | some nameType =>
    have hcount := hrange.nameCount_withNode parent hname
    have hadd := toNat_get_add (g := g.withNode now type parent)
      (g.nameNode (g.newId now type) nameType (g.counter.get type + 1)) hcount type'
    rw [hnode, Nat.add_assoc, ← List.countP_append] at hadd
    dsimp only
    rw [nameNode_withNode hname]
    exact hadd

/-! ## Commands -/

/-- A later graph has no other nodes than the earlier one, up to their data, and counts none. -/
structure Shrinks (g g' : RuleGraph) : Prop where
  counter : g'.counter = g.counter
  lastToken : g'.lastToken = g.lastToken
  length : g'.slots.length = g.slots.length
  old : ∀ {node : Node}, node ∈ g'.nodes →
    ∃ node' ∈ g.nodes, node'.id = node.id ∧ node'.type = node.type ∧ node'.parent = node.parent

theorem lastToken_remove (id : String) : (g.remove id).lastToken = g.lastToken := by
  rw [remove]
  split
  · rfl
  · dsimp only
    split <;> rfl

theorem lastToken_removeAll (ids : List String) :
    (g.removeAll ids).lastToken = g.lastToken := by
  induction ids generalizing g with
  | nil => rfl
  | cons id ids ih => exact (ih (g := g.remove id)).trans (lastToken_remove id)

theorem Linked.shrinks_removeAll (h : g.Linked) (ids : List String) :
    g.Shrinks (g.removeAll ids) where
  counter := (counter_removeAll ids).1
  lastToken := lastToken_removeAll ids
  length := (counter_removeAll ids).2
  old hmem := ⟨_, h.mem_of_removeAll hmem, rfl, rfl, rfl⟩

/-- A command creates nodes, or it adds and counts none. -/
theorem Linked.created_or_shrinks (h : g.Linked) (heffect : Effect g now command answer g') :
    (∃ type requested parent, command = .create type requested ∧
      answer = .ok (.created (g.newNode now type parent)) ∧ type.isName = false ∧
      g.newParent type requested = .ok parent ∧ g.InRange now type ∧
      g' = g.withNew now type parent) ∨
    g.Shrinks g' := by
  have same (g' : RuleGraph) (hcounter : g'.counter = g.counter)
      (hlast : g'.lastToken = g.lastToken) (hslots : g'.slots = g.slots) : g.Shrinks g' := by
    refine ⟨hcounter, hlast, hslots ▸ rfl, fun {node} hmem => ⟨node, ?_, rfl, rfl, rfl⟩⟩
    rwa [nodes, ← hslots]
  cases heffect with
  | refused => exact .inr (same _ rfl rfl rfl)
  | overflowed => exact .inr (same _ rfl rfl rfl)
  | created type requested parent hname hparent hrange =>
    exact .inl ⟨type, requested, parent, rfl, rfl, hname, hparent, hrange, rfl⟩
  | updated id patch slot node hslot hnode =>
    exact .inr ⟨rfl, rfl, List.length_set, mem_of_bare (bare_withData _ hnode)⟩
  | deleted => exact .inr (h.shrinks_removeAll _)
  | deletedSubtree => exact .inr (h.shrinks_removeAll _)
  | selected => exact .inr (same _ rfl rfl rfl)
  | unselected => exact .inr (same _ rfl rfl rfl)

end RuleGraph

end CommissionRules
