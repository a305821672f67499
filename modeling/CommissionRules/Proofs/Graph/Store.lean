import CommissionRules.Proofs.Graph.Dispatch

/-!
# The store of nodes

What an insertion, a removal and a change of data do to the slots, the index and the lists of
children.  The index and the lists of children stay sound under all of them, whatever ids the nodes
have: `RuleGraph.Linked`.
-/

namespace CommissionRules

namespace RuleGraph

variable {g : RuleGraph}

/-! ## Look-ups -/

theorem mem_nodes {node : Node} :
    node ∈ g.nodes ↔ ∃ slot : Nat, g.slots[slot]? = some (some node) := by
  rw [nodes, List.mem_filterMap]
  constructor
  · intro h
    obtain ⟨content, hmem, hcontent⟩ := h
    obtain ⟨slot, hslot⟩ := List.mem_iff_getElem?.mp hmem
    exact ⟨slot, by rw [hslot, ← hcontent]; rfl⟩
  · intro h
    obtain ⟨slot, hslot⟩ := h
    exact ⟨some node, List.mem_of_getElem? hslot, rfl⟩

theorem eq_of_slot {slot : Nat} {node other : Node} (hnode : g.slots[slot]? = some (some node))
    (hother : g.slots[slot]? = some (some other)) : node = other := by
  rw [hnode, Option.some.injEq, Option.some.injEq] at hother
  exact hother

theorem node?_eq_some {id : String} {node : Node} :
    g.node? id = some node ↔
      ∃ slot : Nat, g.index.get? id = some slot ∧ g.slots[slot]? = some (some node) := by
  rw [node?]
  cases hslot : g.index.get? id with
  | none => simp
  | some slot =>
    cases hcontent : g.slots[slot]? <;> simp [hcontent]

theorem mem_nodes_of_node? {id : String} {node : Node} (h : g.node? id = some node) :
    node ∈ g.nodes := by
  obtain ⟨slot, -, hslot⟩ := node?_eq_some.mp h
  exact mem_nodes.mpr ⟨slot, hslot⟩

theorem group_eq_ok {id : String} {node : Node} :
    g.group id = .ok node ↔ g.node? id = some node ∧ node.type.isGroup := by
  rw [group]
  cases g.node? id with
  | none => simp
  | some node' =>
    dsimp only
    by_cases hgroup : node'.type.isGroup
    · rw [if_pos hgroup, Except.ok.injEq, Option.some.injEq]
      exact ⟨fun h => ⟨h, h ▸ hgroup⟩, fun h => h.1⟩
    · rw [if_neg hgroup]
      refine ⟨fun h => (nomatch h), fun ⟨h, hnode⟩ => ?_⟩
      rw [Option.some.injEq] at h
      exact absurd (h ▸ hnode) hgroup

/-! ## Insertion -/

theorem nodes_insert (node : Node) : (g.insert node).nodes = g.nodes ++ [node] := by
  show (g.slots ++ [some node]).filterMap id = _
  rw [List.filterMap_append]
  rfl

theorem nodes_add (node : Node) : (g.add node).nodes = g.nodes ++ [node] := nodes_insert node

theorem slots_insert {i : Nat} {node other : Node} :
    (g.insert node).slots[i]? = some (some other) ↔
      g.slots[i]? = some (some other) ∨ i = g.slots.length ∧ other = node := by
  show (g.slots ++ [some node])[i]? = _ ↔ _
  rcases Nat.lt_trichotomy i g.slots.length with hlt | rfl | hlt
  · rw [List.getElem?_append_left hlt]
    exact ⟨.inl, fun h => h.resolve_right fun heq => Nat.ne_of_lt hlt heq.1⟩
  · rw [List.getElem?_concat_length, List.getElem?_eq_none (Nat.le_refl _)]
    simp [eq_comm]
  · rw [List.getElem?_eq_none (by rw [List.length_append, List.length_singleton]; omega),
      List.getElem?_eq_none (Nat.le_of_lt hlt)]
    simp [Nat.ne_of_gt hlt]

theorem index_insert (node : Node) (id : String) :
    (g.insert node).index.get? id =
      if id = node.id then some g.slots.length else g.index.get? id :=
  Dict.get?_insert g.index node.id id g.slots.length

theorem childIds_insert (node : Node) (p : String) :
    (g.insert node).childIds p =
      if node.parent = some p then g.childIds p ++ [node.id] else g.childIds p := by
  unfold insert childIds
  cases node.parent with
  | none => rfl
  | some parent =>
    simp only [Dict.get?_insert, Option.some.injEq]
    by_cases h : p = parent
    · rw [if_pos h, if_pos h.symm, h]
      rfl
    · rw [if_neg h, if_neg (Ne.symm h)]

theorem contains_insert {node : Node} {id : String} :
    (g.insert node).contains id ↔ id = node.id ∨ g.contains id := by
  show ((g.insert node).index.get? id).isSome ↔ _ ∨ (g.index.get? id).isSome
  rw [index_insert]
  by_cases h : id = node.id
  · simp [h]
  · simp [h]

/-- An insertion makes no list of children empty. -/
theorem children_nil_of_insert {node : Node} {p : String}
    (h : (g.insert node).children.get? p = some []) : g.children.get? p = some [] := by
  unfold insert at h
  cases hparent : node.parent with
  | none => rwa [hparent] at h
  | some parent =>
    rw [hparent] at h
    dsimp only at h
    rw [Dict.get?_insert] at h
    split at h
    · rw [Option.some.injEq] at h
      exact absurd h (List.append_ne_nil_of_right_ne_nil _ (List.cons_ne_nil _ _))
    · exact h

theorem nameId_withNode {now : Int64} {type nameType : NodeType} (parent : Option String)
    (h : type.nameType? = some nameType) :
    (g.withNode now type parent).nameId nameType = g.nameId nameType := by
  rw [nameId, nameId, get_withNode parent h]

/-- A creation adds the new node, and after it the name node that it needs. -/
theorem nodes_withNew (now : Int64) (type : NodeType) (parent : Option String) :
    (g.withNew now type parent).nodes = g.nodes ++ g.newNode now type parent ::
      (type.nameType?.map fun nameType =>
        g.nameNode (g.newId now type) nameType (g.counter.get type + 1)).toList := by
  have hnode : (g.withNode now type parent).nodes = g.nodes ++ [g.newNode now type parent] :=
    nodes_add _
  unfold withNew
  cases hname : type.nameType? with
  | none => exact hnode
  | some nameType =>
    show (add _ _).nodes = _
    rw [nodes_add, hnode, List.append_assoc]
    unfold nameNode
    rw [nameId_withNode parent hname]
    rfl

/-! ## Removal -/

/-- The graph without the node in a slot. -/
def without (g : RuleGraph) (slot : Nat) (node : Node) : RuleGraph :=
  let index := g.index.erase node.id
  { g with
    index
    slots := g.slots.set slot none
    children := dropEmpty (unlink g.children index node.id node.parent) node.id
    selection := if g.selection = some node.id then none else g.selection }

theorem remove_of_absent {id : String} (h : g.index.get? id = none) : g.remove id = g := by
  rw [remove, h]

theorem remove_eq_without {slot : Nat} {node : Node} (hslot : g.index.get? node.id = some slot)
    (hnode : g.slots[slot]? = some (some node)) : g.remove node.id = g.without slot node := by
  rw [remove, hslot]
  dsimp only
  rw [hnode]
  rfl

theorem getD_dropEmpty (children : Dict (List String)) (id p : String) :
    ((dropEmpty children id).get? p).getD [] = (children.get? p).getD [] := by
  unfold dropEmpty
  split
  · next hempty =>
    rw [Dict.get?_erase]
    split
    · next heq =>
      rw [heq, hempty]
      rfl
    · rfl
  · rfl

theorem getD_unlink (children : Dict (List String)) (index : Dict Nat) (id : String)
    (parent : Option String) (p : String) :
    ((unlink children index id parent).get? p).getD [] =
      if parent = some p then ((children.get? p).getD []).filter (· != id)
      else (children.get? p).getD [] := by
  cases parent with
  | none => rfl
  | some parent =>
    unfold unlink
    simp only [Option.some.injEq]
    cases hsiblings : children.get? parent with
    | none =>
      by_cases h : parent = p
      · rw [if_pos h, ← h, hsiblings]
        rfl
      · rw [if_neg h]
    | some siblings =>
      dsimp only
      by_cases h : parent = p
      · subst h
        rw [if_pos rfl, hsiblings]
        split
        · next hprune =>
          rw [Dict.get?_erase, if_pos rfl]
          rw [Bool.and_eq_true, List.isEmpty_iff] at hprune
          exact hprune.1.symm
        · rw [Dict.get?_insert, if_pos rfl]
          rfl
      · rw [if_neg h]
        split
        · rw [Dict.get?_erase, if_neg (Ne.symm h)]
        · rw [Dict.get?_insert, if_neg (Ne.symm h)]

/-- The list of the dropped id is not left empty. -/
theorem dropEmpty_nil {children : Dict (List String)} {id p : String}
    (h : (dropEmpty children id).get? p = some []) : p ≠ id ∧ children.get? p = some [] := by
  unfold dropEmpty at h
  split at h
  · rw [Dict.get?_erase] at h
    split at h
    · cases h
    · next hne => exact ⟨hne, h⟩
  · next hfull =>
    refine ⟨?_, h⟩
    intro heq
    subst heq
    exact hfull h

/-- A list is emptied only where its parent is in the index. -/
theorem unlink_nil {children : Dict (List String)} {index : Dict Nat} {id p : String}
    {parent : Option String} (h : (unlink children index id parent).get? p = some []) :
    children.get? p = some [] ∨ index.contains p := by
  cases parent with
  | none => exact .inl h
  | some parent =>
    unfold unlink at h
    dsimp only at h
    cases hsiblings : children.get? parent with
    | none =>
      rw [hsiblings] at h
      exact .inl h
    | some siblings =>
      rw [hsiblings] at h
      dsimp only at h
      split at h
      · rw [Dict.get?_erase] at h
        split at h
        · cases h
        · exact .inl h
      · next hkeep =>
        rw [Dict.get?_insert] at h
        split at h
        · next heq =>
          rw [Option.some.inj h, ← heq] at hkeep
          exact .inr (by simpa using hkeep)
        · exact .inl h

theorem childIds_without (slot : Nat) (node : Node) (p : String) :
    (g.without slot node).childIds p =
      if node.parent = some p then (g.childIds p).filter (· != node.id) else g.childIds p := by
  show ((dropEmpty (unlink g.children (g.index.erase node.id) node.id node.parent)
    node.id).get? p).getD [] = _
  rw [getD_dropEmpty, getD_unlink]
  rfl

theorem slots_without {slot : Nat} {node : Node} (i : Nat) (other : Node) :
    (g.without slot node).slots[i]? = some (some other) ↔
      i ≠ slot ∧ g.slots[i]? = some (some other) := by
  show (g.slots.set slot none)[i]? = _ ↔ _
  rw [List.getElem?_set]
  by_cases h : slot = i
  · rw [if_pos h]
    split <;> simp [h]
  · rw [if_neg h]
    exact ⟨fun hother => ⟨Ne.symm h, hother⟩, fun hother => hother.2⟩

theorem index_without (slot : Nat) (node : Node) (id : String) :
    (g.without slot node).index.get? id = if id = node.id then none else g.index.get? id :=
  Dict.get?_erase g.index node.id id

/-- Where no other node has the id of the removed one, the nodes of other ids stay. -/
theorem nodes_without {slot : Nat} {node : Node} (hnode : g.slots[slot]? = some (some node))
    (hunique : ∀ (i : Nat) (other : Node), g.slots[i]? = some (some other) →
      other.id = node.id → i = slot) :
    (g.without slot node).nodes = g.nodes.filter (·.id != node.id) := by
  show (g.slots.set slot none).filterMap id = (g.slots.filterMap id).filter (·.id != node.id)
  generalize g.slots = slots at hnode hunique
  induction slots generalizing slot with
  | nil => cases hnode
  | cons content slots ih =>
    cases slot with
    | zero =>
      have hcontent : content = some node := Option.some.inj hnode
      have hrest : ∀ other ∈ slots.filterMap id, (other.id != node.id) = true := by
        intro other hmem
        obtain ⟨content, hmem, hother⟩ := List.mem_filterMap.mp hmem
        obtain ⟨i, hi⟩ := List.mem_iff_getElem?.mp hmem
        rw [bne_iff_ne]
        intro hid
        have hslot : (content :: slots)[i + 1]? = some (some other) := by
          rw [List.getElem?_cons_succ, hi]
          exact congrArg some hother
        exact absurd (hunique (i + 1) other hslot hid) (Nat.succ_ne_zero i)
      rw [hcontent, List.set_cons_zero]
      show slots.filterMap id = (node :: slots.filterMap id).filter (·.id != node.id)
      rw [List.filter_cons_of_neg (by simp), List.filter_eq_self.mpr hrest]
    | succ slot =>
      have hnode' : slots[slot]? = some (some node) := hnode
      have hrest := ih hnode' fun i other hi hid => Nat.succ.inj (hunique (i + 1) other hi hid)
      rw [List.set_cons_succ]
      cases content with
      | none => exact hrest
      | some other =>
        have hne : other.id ≠ node.id := fun hid =>
          Nat.succ_ne_zero slot (hunique 0 other rfl hid).symm
        show other :: (slots.set slot none).filterMap id =
          (other :: slots.filterMap id).filter (·.id != node.id)
        rw [List.filter_cons_of_pos (by simpa using hne), hrest]

theorem counter_remove (id : String) :
    (g.remove id).counter = g.counter ∧ (g.remove id).slots.length = g.slots.length := by
  rw [remove]
  split
  · exact ⟨rfl, rfl⟩
  · dsimp only
    split
    · exact ⟨rfl, rfl⟩
    · exact ⟨rfl, List.length_set⟩

theorem counter_removeAll (ids : List String) :
    (g.removeAll ids).counter = g.counter ∧
      (g.removeAll ids).slots.length = g.slots.length := by
  induction ids generalizing g with
  | nil => exact ⟨rfl, rfl⟩
  | cons id ids ih =>
    obtain ⟨hcounter, hslots⟩ := ih (g := g.remove id)
    obtain ⟨hcounter', hslots'⟩ := counter_remove (g := g) id
    exact ⟨hcounter.trans hcounter', hslots.trans hslots'⟩

end RuleGraph

/-! ## Data -/

/-- A node without its data. -/
def Node.bare (node : Node) : Node := { node with data := .null }

namespace RuleGraph

variable {g : RuleGraph}

theorem map_slots_withData {α : Type} (f : Node → α) {slot : Nat} {node : Node} {data : Json}
    (hnode : g.slots[slot]? = some (some node)) (hf : f { node with data } = f node) :
    (g.withData slot node data).slots.map (Option.map f) = g.slots.map (Option.map f) := by
  show (g.slots.set slot (some { node with data })).map (Option.map f) = _
  rw [List.map_set]
  refine List.ext_getElem? fun i => ?_
  rw [List.getElem?_set]
  split
  · next heq =>
    subst heq
    have hlt : slot < g.slots.length := (List.getElem?_eq_some_iff.mp hnode).1
    rw [if_pos (by rwa [List.length_map]), List.getElem?_map, hnode, Option.map_some, hf]
    rfl
  · rfl

theorem bare_withData {slot : Nat} {node : Node} (data : Json)
    (hnode : g.slots[slot]? = some (some node)) :
    (g.withData slot node data).slots.map (Option.map Node.bare) =
      g.slots.map (Option.map Node.bare) :=
  map_slots_withData Node.bare hnode rfl

/-- Graphs with the same nodes up to data agree on the nodes slot by slot. -/
theorem slot_of_bare {g' : RuleGraph} {slot : Nat} {node : Node}
    (h : g'.slots.map (Option.map Node.bare) = g.slots.map (Option.map Node.bare))
    (hnode : g'.slots[slot]? = some (some node)) :
    ∃ node', g.slots[slot]? = some (some node') ∧
      node'.id = node.id ∧ node'.type = node.type ∧ node'.parent = node.parent := by
  have heq := congrArg (fun l => l[slot]?) h
  rw [List.getElem?_map, List.getElem?_map, hnode] at heq
  obtain ⟨content, hcontent, hbare⟩ := Option.map_eq_some_iff.mp heq.symm
  obtain ⟨node', rfl, hbare'⟩ := Option.map_eq_some_iff.mp hbare
  refine ⟨node', hcontent, ?_⟩
  rw [Node.bare, Node.bare, Node.mk.injEq] at hbare'
  exact ⟨hbare'.1, hbare'.2.1, hbare'.2.2.2.1⟩

theorem mem_of_bare {g' : RuleGraph} {node : Node}
    (h : g'.slots.map (Option.map Node.bare) = g.slots.map (Option.map Node.bare))
    (hmem : node ∈ g'.nodes) :
    ∃ node' ∈ g.nodes,
      node'.id = node.id ∧ node'.type = node.type ∧ node'.parent = node.parent := by
  obtain ⟨slot, hslot⟩ := mem_nodes.mp hmem
  obtain ⟨node', hslot', hsame⟩ := slot_of_bare h hslot
  exact ⟨node', mem_nodes.mpr ⟨slot, hslot'⟩, hsame⟩

theorem node?_of_bare {g' : RuleGraph} {id : String} {node : Node}
    (h : g'.slots.map (Option.map Node.bare) = g.slots.map (Option.map Node.bare))
    (hindex : g'.index = g.index) (hnode : g'.node? id = some node) :
    ∃ node', g.node? id = some node' ∧
      node'.id = node.id ∧ node'.type = node.type ∧ node'.parent = node.parent := by
  obtain ⟨slot, hslot, hcontent⟩ := node?_eq_some.mp hnode
  obtain ⟨node', hcontent', hsame⟩ := slot_of_bare h hcontent
  exact ⟨node', node?_eq_some.mpr ⟨slot, hindex ▸ hslot, hcontent'⟩, hsame⟩

theorem map_nodes_of_slots {α : Type} {f : Node → α} {g' : RuleGraph}
    (h : g'.slots.map (Option.map f) = g.slots.map (Option.map f)) :
    g'.nodes.map f = g.nodes.map f := by
  have hnodes (g : RuleGraph) : g.nodes.map f = (g.slots.map (Option.map f)).filterMap id := by
    unfold nodes
    rw [List.map_filterMap, List.filterMap_map]
    rfl
  rw [hnodes, hnodes, h]

/-! ## Parent links -/

/-- A node with the first id names the second id as its parent. -/
def ParentLink (g : RuleGraph) (child parent : String) : Prop :=
  ∃ node ∈ g.nodes, node.id = child ∧ node.parent = some parent

theorem parentLink_insert {node : Node} {c p : String} :
    (g.insert node).ParentLink c p ↔ g.ParentLink c p ∨ c = node.id ∧ node.parent = some p := by
  rw [ParentLink, ParentLink, nodes_insert]
  constructor
  · intro h
    obtain ⟨other, hmem, hid, hparent⟩ := h
    rcases List.mem_append.mp hmem with hmem | hmem
    · exact .inl ⟨other, hmem, hid, hparent⟩
    · rw [List.mem_singleton.mp hmem] at hid hparent
      exact .inr ⟨hid.symm, hparent⟩
  · intro h
    rcases h with ⟨other, hmem, hid, hparent⟩ | ⟨hid, hparent⟩
    · exact ⟨other, List.mem_append_left _ hmem, hid, hparent⟩
    · exact ⟨node, List.mem_append_right _ (List.mem_singleton.mpr rfl), hid.symm, hparent⟩

theorem mem_nodes_without {slot : Nat} {node other : Node}
    (h : other ∈ (g.without slot node).nodes) : other ∈ g.nodes := by
  obtain ⟨i, hi⟩ := mem_nodes.mp h
  exact mem_nodes.mpr ⟨i, ((slots_without i other).mp hi).2⟩

theorem ParentLink.of_bare {g' : RuleGraph} {c p : String}
    (h : g'.slots.map (Option.map Node.bare) = g.slots.map (Option.map Node.bare))
    (hlink : g'.ParentLink c p) : g.ParentLink c p := by
  obtain ⟨node, hmem, hid, hparent⟩ := hlink
  obtain ⟨node', hmem', hid', -, hparent'⟩ := mem_of_bare h hmem
  exact ⟨node', hmem', hid'.trans hid, hparent'.trans hparent⟩

/-! ## Soundness of the index and of the lists of children -/

/-- The index leads to nodes of the right id, and the lists of children hold ids of nodes of the
right parent. -/
structure Linked (g : RuleGraph) : Prop where
  slot : ∀ {id : String} {slot : Nat}, g.index.get? id = some slot →
    ∃ node : Node, g.slots[slot]? = some (some node) ∧ node.id = id
  child : ∀ {p c : String}, c ∈ g.childIds p → g.ParentLink c p

theorem Linked.empty (layout : Layout) : (empty layout).Linked :=
  ⟨fun h => (nomatch h), fun h => (nomatch h)⟩

theorem Linked.node?_id (h : g.Linked) {id : String} {node : Node}
    (hnode : g.node? id = some node) : node.id = id := by
  obtain ⟨slot, hslot, hcontent⟩ := node?_eq_some.mp hnode
  obtain ⟨node', hcontent', hid⟩ := h.slot hslot
  rw [eq_of_slot hcontent hcontent']
  exact hid

theorem Linked.node?_insert (h : g.Linked) {node : Node} {id : String} (hne : id ≠ node.id) :
    (g.insert node).node? id = g.node? id := by
  rw [node?, node?, index_insert, if_neg hne]
  cases hslot : g.index.get? id with
  | none => rfl
  | some slot =>
    obtain ⟨other, hother, -⟩ := h.slot hslot
    have hlt : slot < g.slots.length := (List.getElem?_eq_some_iff.mp hother).1
    have happend : (g.insert node).slots = g.slots ++ [some node] := rfl
    rw [happend]
    show ((g.slots ++ [some node])[slot]? >>= fun content => content) = _
    rw [List.getElem?_append_left hlt]
    rfl

theorem Linked.insert (h : g.Linked) (node : Node) : (g.insert node).Linked := by
  constructor
  · intro id slot hslot
    rw [index_insert] at hslot
    split at hslot
    · next hid =>
      cases hslot
      exact ⟨node, slots_insert.mpr (.inr ⟨rfl, rfl⟩), hid.symm⟩
    · obtain ⟨other, hother, hid⟩ := h.slot hslot
      exact ⟨other, slots_insert.mpr (.inl hother), hid⟩
  · intro p c hc
    rw [parentLink_insert]
    rw [childIds_insert] at hc
    split at hc
    · next hparent =>
      rcases List.mem_append.mp hc with hc | hc
      · exact .inl (h.child hc)
      · exact .inr ⟨List.mem_singleton.mp hc, hparent⟩
    · exact .inl (h.child hc)

/-- The removed node is the only one that the index leads to from its id; all lists of children lose
that id, except those of other parents, which name another node by it. -/
theorem Linked.without (h : g.Linked) {slot : Nat} {node : Node}
    (hnode : g.slots[slot]? = some (some node)) : (g.without slot node).Linked := by
  constructor
  · intro id i hi
    rw [index_without] at hi
    split at hi
    · cases hi
    · next hne =>
      obtain ⟨other, hother, hid⟩ := h.slot hi
      refine ⟨other, (slots_without i other).mpr ⟨?_, hother⟩, hid⟩
      intro hi
      rw [hi] at hother
      exact hne (by rw [eq_of_slot hnode hother, hid])
  · intro p c hc
    have keep {other : Node} (hmem : other ∈ g.nodes) (hne : other ≠ node) :
        other ∈ (g.without slot node).nodes := by
      obtain ⟨i, hi⟩ := mem_nodes.mp hmem
      refine mem_nodes.mpr ⟨i, (slots_without i other).mpr ⟨?_, hi⟩⟩
      intro hslot
      rw [hslot] at hi
      exact hne (eq_of_slot hi hnode)
    rw [childIds_without] at hc
    split at hc
    · next hparent =>
      obtain ⟨hc, hne⟩ := List.mem_filter.mp hc
      obtain ⟨other, hmem, hid, hother⟩ := h.child hc
      refine ⟨other, keep hmem ?_, hid, hother⟩
      intro heq
      rw [← hid, heq, bne_self_eq_false] at hne
      cases hne
    · next hparent =>
      obtain ⟨other, hmem, hid, hother⟩ := h.child hc
      refine ⟨other, keep hmem ?_, hid, hother⟩
      intro heq
      exact hparent (heq ▸ hother)

/-- A removal takes out the node that has the id, if there is one. -/
theorem Linked.remove_cases (h : g.Linked) (id : String) :
    g.contains id = false ∧ g.remove id = g ∨
      ∃ (slot : Nat) (node : Node), g.index.get? id = some slot ∧
        g.slots[slot]? = some (some node) ∧ node.id = id ∧ g.remove id = g.without slot node := by
  cases hslot : g.index.get? id with
  | none =>
    refine .inl ⟨?_, remove_of_absent hslot⟩
    show (g.index.get? id).isSome = false
    rw [hslot]
    rfl
  | some slot =>
    obtain ⟨node, hnode, rfl⟩ := h.slot hslot
    exact .inr ⟨slot, node, rfl, hnode, rfl, remove_eq_without hslot hnode⟩

theorem Linked.remove (h : g.Linked) (id : String) : (g.remove id).Linked := by
  obtain ⟨-, heq⟩ | ⟨slot, node, -, hnode, -, heq⟩ := h.remove_cases id
  · rwa [heq]
  · rw [heq]
    exact h.without hnode

theorem Linked.removeAll (h : g.Linked) (ids : List String) : (g.removeAll ids).Linked := by
  induction ids generalizing g with
  | nil => exact h
  | cons id ids ih => exact ih (h.remove id)

theorem Linked.mem_of_remove (h : g.Linked) {id : String} {node : Node}
    (hmem : node ∈ (g.remove id).nodes) : node ∈ g.nodes := by
  obtain ⟨-, heq⟩ | ⟨slot, other, -, -, -, heq⟩ := h.remove_cases id
  · rwa [heq] at hmem
  · rw [heq] at hmem
    exact mem_nodes_without hmem

theorem Linked.mem_of_removeAll (h : g.Linked) {ids : List String} {node : Node}
    (hmem : node ∈ (g.removeAll ids).nodes) : node ∈ g.nodes := by
  induction ids generalizing g with
  | nil => exact hmem
  | cons id ids ih => exact h.mem_of_remove (ih (h.remove id) hmem)

theorem Linked.parentLink_of_removeAll (h : g.Linked) {ids : List String} {c p : String}
    (hlink : (g.removeAll ids).ParentLink c p) : g.ParentLink c p := by
  obtain ⟨node, hmem, hid, hparent⟩ := hlink
  exact ⟨node, h.mem_of_removeAll hmem, hid, hparent⟩

theorem Linked.withData (h : g.Linked) {slot : Nat} {node : Node} (data : Json)
    (hnode : g.slots[slot]? = some (some node)) : (g.withData slot node data).Linked := by
  have hbare := bare_withData data hnode
  constructor
  · intro id i hi
    obtain ⟨other, hother, hid⟩ := h.slot hi
    obtain ⟨other', hother', hid', -⟩ := slot_of_bare hbare.symm hother
    exact ⟨other', hother', hid'.trans hid⟩
  · intro p c hc
    exact ParentLink.of_bare hbare.symm (h.child hc)

theorem Linked.withSelection (h : g.Linked) (selection : Option String) :
    (g.withSelection selection).Linked := ⟨h.slot, h.child⟩

theorem Linked.allocated (h : g.Linked) (now : Int64) (type : NodeType) :
    (g.allocated now type).Linked := ⟨h.slot, h.child⟩

theorem Linked.add (h : g.Linked) (node : Node) : (g.add node).Linked := by
  have hcounted (counter : NodeCounter) : ({ g with counter } : RuleGraph).Linked :=
    ⟨h.slot, h.child⟩
  exact (hcounted _).insert node

theorem Linked.withNew (h : g.Linked) (now : Int64) (type : NodeType) (parent : Option String) :
    (g.withNew now type parent).Linked := by
  have hnode : (g.withNode now type parent).Linked := (h.allocated now type).add _
  unfold RuleGraph.withNew
  cases type.nameType? with
  | none => exact hnode
  | some nameType => exact (hnode.add _).withSelection _

theorem Linked.effect (h : g.Linked) {now : Int64} {command : GraphCommand}
    {answer : Except CommandFailure CommandOutcome} {g' : RuleGraph}
    (heffect : Effect g now command answer g') : g'.Linked := by
  cases heffect with
  | refused => exact h
  | overflowed => exact h
  | created type requested parent => exact h.withNew now type parent
  | updated id patch slot node hslot hnode => exact h.withData _ hnode
  | deleted => exact h.removeAll _
  | deletedSubtree => exact h.removeAll _
  | selected => exact h.withSelection _
  | unselected => exact h.withSelection _

theorem Linked.run (h : g.Linked) (steps : List (Int64 × GraphCommand)) : (g.run steps).Linked := by
  induction steps generalizing g with
  | nil => exact h
  | cons step steps ih => exact ih (h.effect (g.dispatch_effect step.1 step.2))

end RuleGraph

end CommissionRules
