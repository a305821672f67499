import CommissionRules.Proofs.Graph.Forest
import CommissionRules.Proofs.Graph.Indexing

/-!
# Consistency

The same facts stand in several places of a graph: the slots hold the nodes, the index their
ids, the lists of children their parents, and the selection a group.  `RuleGraph.Consistent`
says that these places agree.  It holds of a graph with one more node if the id of the node is
neither that of a node nor that of a missing parent, and of a graph without a node in any case.
-/

namespace CommissionRules

open Relation

namespace RuleGraph

/-! ## Parents -/

namespace Indexed

variable {g : RuleGraph}

/-- A node has one parent. -/
theorem rightUnique_parentLink (h : g.Indexed) : Relator.RightUnique g.ParentLink := by
  rintro c p q ⟨node, hmem, hid, hp⟩ ⟨other, hother, hid', hq⟩
  rw [h.eq_of_id hmem hother (hid.trans hid'.symm), hq, Option.some.injEq] at hp
  exact hp.symm

/-- No two children of an id have an id below both of them: one of the children would be an ancestor
of the other one. -/
theorem eq_of_climbs (h : g.Indexed) (hforest : g.Forest) {id c c' x : String}
    (hc : g.ParentLink c id) (hc' : g.ParentLink c' id) (hx : g.Climbs x c)
    (hx' : g.Climbs x c') : c = c' := by
  have apart {c c' : String} (hc : g.ParentLink c id) (hc' : g.ParentLink c' id)
      (hclimbs : g.Climbs c c') : c = c' := by
    rcases ReflTransGen.cases_head hclimbs with heq | ⟨p, hlink, hpath⟩
    · exact heq
    · rw [h.rightUnique_parentLink hlink hc] at hpath
      exact absurd (.tail' hpath hc') (hforest id)
  rcases ReflTransGen.total_of_right_unique h.rightUnique_parentLink hx hx' with hup | hup
  · exact apart hc hc' hup
  · exact (apart hc' hc hup).symm

end Indexed

/-- The index, the lists of children and the selection agree with the nodes, and every node stands
where its type and the order of creation allow. -/
structure Consistent (g : RuleGraph) : Prop where
  /-- The index maps the ids of the nodes to their slots. -/
  index : ∀ {id : String} {slot : Nat},
    g.index.get? id = some slot ↔ ∃ node : Node, g.slots[slot]? = some (some node) ∧ node.id = id
  /-- The list of children of an id names the nodes of that parent in the order of creation. -/
  children : ∀ p, g.childIds p = (g.nodes.filter fun node => node.parent = some p).map Node.id
  /-- An empty list of children is kept only for a node. -/
  pruned : ∀ {p : String}, g.children.get? p = some [] → g.contains p
  /-- A group is selected, if anything is. -/
  selected : ∀ {id : String}, g.selection = some id →
    ∃ node : Node, g.node? id = some node ∧ node.type.isGroup
  /-- A parent is a group of an earlier slot. -/
  earlier : ∀ {i j : Nat} {node parent : Node}, g.slots[i]? = some (some node) →
    g.slots[j]? = some (some parent) → node.parent = some parent.id → parent.type.isGroup ∧ j < i
  /-- Conditions and operators have a parent. -/
  grouped : ∀ node ∈ g.nodes, node.type.requiresGroup → node.parent ≠ none
  /-- The start node has none. -/
  start : ∀ node ∈ g.nodes, node.type = .initial → node.parent = none

namespace Consistent

variable {g : RuleGraph}

theorem empty (layout : Layout) : (empty layout).Consistent where
  index := ⟨fun h => (nomatch h), fun ⟨_, h, _⟩ => (nomatch h)⟩
  children _ := rfl
  pruned h := (nomatch h)
  selected h := (nomatch h)
  earlier h := (nomatch h)
  grouped _ h := (nomatch h)
  start _ h := (nomatch h)

/-! ## Nodes by their ids -/

theorem indexed (h : g.Consistent) : g.Indexed := ⟨h.index, h.children⟩

theorem linked (h : g.Consistent) : g.Linked := h.indexed.linked

theorem mem_childIds (h : g.Consistent) {p c : String} :
    c ∈ g.childIds p ↔ ∃ node ∈ g.nodes, node.parent = some p ∧ node.id = c :=
  h.indexed.mem_childIds

theorem node?_eq_some (h : g.Consistent) {id : String} {node : Node} :
    g.node? id = some node ↔ node ∈ g.nodes ∧ node.id = id := h.indexed.node?_eq_some

theorem childNodes_eq (h : g.Consistent) (p : String) :
    g.childNodes p = g.nodes.filter fun node => node.parent = some p := h.indexed.childNodes_eq p

theorem contains_iff (h : g.Consistent) {id : String} :
    g.contains id ↔ ∃ node ∈ g.nodes, node.id = id := h.indexed.contains_iff

theorem eq_of_id (h : g.Consistent) {node other : Node} (hnode : node ∈ g.nodes)
    (hother : other ∈ g.nodes) (hid : node.id = other.id) : node = other :=
  h.indexed.eq_of_id hnode hother hid

theorem nodup_ids (h : g.Consistent) : (g.nodes.map Node.id).Nodup := h.indexed.nodup_ids

theorem size_eq (h : g.Consistent) : g.size = g.nodes.length := h.indexed.size_eq

theorem nodup_childIds (h : g.Consistent) (p : String) : (g.childIds p).Nodup :=
  h.indexed.nodup_childIds p

/-- A list of children is kept only for an id that is that of a node, or that a node names as its
parent. -/
theorem children_needed (h : g.Consistent) {p : String} (hp : (g.children.get? p).isSome) :
    g.contains p ∨ ∃ node ∈ g.nodes, node.parent = some p := by
  obtain ⟨ids, hids⟩ := Option.isSome_iff_exists.mp hp
  cases ids with
  | nil => exact .inl (h.pruned hids)
  | cons c ids =>
    have hc : c ∈ g.childIds p := by
      rw [childIds, hids]
      exact List.mem_cons_self
    obtain ⟨node, hmem, -, hparent⟩ := h.linked.child hc
    exact .inr ⟨node, hmem, hparent⟩

/-- Links lead to earlier slots. -/
theorem slot_lt_of_path (h : g.Consistent) {a b : String} {j : Nat}
    (hpath : TransGen g.ParentLink a b) (hj : g.index.get? b = some j) :
    ∃ i, g.index.get? a = some i ∧ j < i := by
  have one {c p : String} {j : Nat} (hlink : g.ParentLink c p) (hj : g.index.get? p = some j) :
      ∃ i, g.index.get? c = some i ∧ j < i := by
    obtain ⟨node, hmem, hid, hparent⟩ := hlink
    obtain ⟨i, hi⟩ := mem_nodes.mp hmem
    obtain ⟨parent, hslot, rfl⟩ := h.index.mp hj
    exact ⟨i, h.index.mpr ⟨node, hi, hid⟩, (h.earlier hi hslot hparent).2⟩
  induction hpath generalizing j with
  | single hlink => exact one hlink hj
  | tail _ hlink ih =>
    obtain ⟨k, hk, hlt⟩ := one hlink hj
    obtain ⟨i, hi, hlt'⟩ := ih hk
    exact ⟨i, hi, Nat.lt_trans hlt hlt'⟩

theorem forest (h : g.Consistent) : g.Forest := by
  intro id hcircle
  obtain ⟨p, ⟨node, hmem, hid, -⟩, -⟩ := TransGen.head'_iff.mp hcircle
  obtain ⟨slot, hslot⟩ := mem_nodes.mp hmem
  have hindex := h.index.mpr ⟨node, hslot, hid⟩
  obtain ⟨i, hi, hlt⟩ := h.slot_lt_of_path hcircle hindex
  rw [hindex, Option.some.injEq] at hi
  omega

/-! ## Insertion -/

theorem insert (h : g.Consistent) {node : Node} (hfresh : ∀ other ∈ g.nodes, other.id ≠ node.id)
    (hunnamed : ∀ other ∈ g.nodes, other.parent ≠ some node.id)
    (hparent : ∀ p, node.parent = some p →
      ∃ parent : Node, g.node? p = some parent ∧ parent.type.isGroup)
    (hgrouped : node.type.requiresGroup → node.parent ≠ none)
    (hstart : node.type = .initial → node.parent = none) : (g.insert node).Consistent where
  index := (h.indexed.insert hfresh).index
  children := (h.indexed.insert hfresh).children
  pruned hp := contains_insert.mpr (.inr (h.pruned (children_nil_of_insert hp)))
  selected {id} hid := by
    obtain ⟨other, hother, hgroup⟩ := h.selected hid
    obtain ⟨hmem, rfl⟩ := h.node?_eq_some.mp hother
    refine ⟨other, ?_, hgroup⟩
    rw [h.linked.node?_insert (hfresh other hmem)]
    exact hother
  earlier {i j other parent} hi hj hother := by
    -- No node names the new one as its parent, so that a new link starts at the new node.
    rcases slots_insert.mp hi with hi' | ⟨hlast, heq⟩
    · rcases slots_insert.mp hj with hj' | ⟨-, heq⟩
      · exact h.earlier hi' hj' hother
      · rw [heq] at hother
        exact absurd hother (hunnamed other (mem_nodes.mpr ⟨i, hi'⟩))
    · rw [heq] at hother
      obtain ⟨group, hgroup, htype⟩ := hparent _ hother
      obtain ⟨hmem, hid⟩ := h.node?_eq_some.mp hgroup
      rcases slots_insert.mp hj with hj' | ⟨-, heq⟩
      · rw [h.eq_of_id hmem (mem_nodes.mpr ⟨j, hj'⟩) hid] at htype
        exact ⟨htype, hlast ▸ (List.getElem?_eq_some_iff.mp hj').1⟩
      · rw [heq] at hid
        exact absurd hid (hfresh group hmem)
  grouped other hmem := by
    rw [nodes_insert] at hmem
    rcases List.mem_append.mp hmem with hmem | hmem
    · exact h.grouped other hmem
    · rw [List.mem_singleton.mp hmem]
      exact hgrouped
  start other hmem := by
    rw [nodes_insert] at hmem
    rcases List.mem_append.mp hmem with hmem | hmem
    · exact h.start other hmem
    · rw [List.mem_singleton.mp hmem]
      exact hstart

/-! ## Removal -/

theorem without (h : g.Consistent) {slot : Nat} {node : Node}
    (hnode : g.slots[slot]? = some (some node)) : (g.without slot node).Consistent where
  index := (h.indexed.without hnode).index
  children := (h.indexed.without hnode).children
  pruned {p} hp := by
    obtain ⟨hne, hp⟩ := dropEmpty_nil hp
    rcases unlink_nil hp with hp | hp
    · have hcontains := h.pruned hp
      rw [contains, Dict.contains] at hcontains ⊢
      rwa [index_without, if_neg hne]
    · exact hp
  selected {id} hid := by
    have hkept : id ≠ node.id ∧ g.selection = some id := by
      rw [RuleGraph.without] at hid
      dsimp only at hid
      split at hid
      · cases hid
      · next hother =>
        refine ⟨?_, hid⟩
        intro heq
        subst heq
        exact hother hid
    obtain ⟨other, hother, hgroup⟩ := h.selected hkept.2
    obtain ⟨i, hi, hcontent⟩ := RuleGraph.node?_eq_some.mp hother
    refine ⟨other, RuleGraph.node?_eq_some.mpr ⟨i, ?_, ?_⟩, hgroup⟩
    · rwa [index_without, if_neg hkept.1]
    · refine (slots_without i other).mpr ⟨?_, hcontent⟩
      intro hslot
      rw [hslot] at hcontent
      exact hkept.1 (by rw [eq_of_slot hnode hcontent, h.linked.node?_id hother])
  earlier hi hj hparent :=
    h.earlier ((slots_without _ _).mp hi).2 ((slots_without _ _).mp hj).2 hparent
  grouped other hmem := h.grouped other (mem_nodes_without hmem)
  start other hmem := h.start other (mem_nodes_without hmem)

theorem remove (h : g.Consistent) (id : String) : (g.remove id).Consistent := by
  obtain ⟨-, heq⟩ | ⟨slot, node, -, hnode, -, heq⟩ := h.linked.remove_cases id
  · rwa [heq]
  · rw [heq]
    exact h.without hnode

theorem removeAll (h : g.Consistent) (ids : List String) : (g.removeAll ids).Consistent := by
  induction ids generalizing g with
  | nil => exact h
  | cons id ids ih => exact ih (h.remove id)

theorem nodes_remove (h : g.Consistent) (id : String) :
    (g.remove id).nodes = g.nodes.filter (·.id != id) := h.indexed.nodes_remove id

theorem nodes_removeAll (h : g.Consistent) (ids : List String) :
    (g.removeAll ids).nodes = g.nodes.filter fun node => !ids.contains node.id :=
  h.indexed.nodes_removeAll ids

theorem mem_removeAll (h : g.Consistent) {ids : List String} {node : Node} :
    node ∈ (g.removeAll ids).nodes ↔ node ∈ g.nodes ∧ node.id ∉ ids := by
  rw [h.nodes_removeAll, List.mem_filter, Bool.not_eq_true', ← Bool.not_eq_true,
    List.contains_iff_mem]

/-! ## Data and selection -/

theorem withData (h : g.Consistent) {slot : Nat} {node : Node} (data : Json)
    (hnode : g.slots[slot]? = some (some node)) : (g.withData slot node data).Consistent := by
  have hbare := bare_withData data hnode
  constructor
  · exact (h.indexed.withData data hnode).index
  · exact (h.indexed.withData data hnode).children
  · exact h.pruned
  · intro id hid
    obtain ⟨other, hother, hgroup⟩ := h.selected hid
    obtain ⟨other', hother', -, htype, -⟩ := node?_of_bare hbare.symm rfl hother
    exact ⟨other', hother', htype ▸ hgroup⟩
  · intro i j other parent hi hj hlink
    obtain ⟨other', hother', -, -, hup⟩ := slot_of_bare hbare hi
    obtain ⟨parent', hparent', hid, htype, -⟩ := slot_of_bare hbare hj
    rw [← hup, ← hid] at hlink
    rw [← htype]
    exact h.earlier hother' hparent' hlink
  · intro other hmem hgroup
    obtain ⟨other', hmem', -, htype, hup⟩ := mem_of_bare hbare hmem
    rw [← htype] at hgroup
    rw [← hup]
    exact h.grouped other' hmem' hgroup
  · intro other hmem hstart
    obtain ⟨other', hmem', -, htype, hup⟩ := mem_of_bare hbare hmem
    rw [← htype] at hstart
    rw [← hup]
    exact h.start other' hmem' hstart

theorem withSelection (h : g.Consistent) {selection : Option String}
    (hselection : ∀ id, selection = some id →
      ∃ node : Node, g.node? id = some node ∧ node.type.isGroup) :
    (g.withSelection selection).Consistent :=
  { h with selected := hselection _ }

end Consistent

end RuleGraph

end CommissionRules
