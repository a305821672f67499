import Mathlib.Data.List.Nodup
import Mathlib.Data.List.Perm.Subperm
import CommissionRules.Proofs.Graph.Store

/-!
# The index

Where no two nodes have the same id, the index of a graph and its lists of children say what the
slots say: `RuleGraph.Indexed`.  Every command but a creation that gives an id twice keeps this,
whatever the ids are and whatever a node names as its parent: `RuleGraph.Indexed.effect`.
-/

namespace CommissionRules

namespace RuleGraph

/-- The index and the lists of children agree with the nodes in the slots. -/
structure Indexed (g : RuleGraph) : Prop where
  /-- The index maps the ids of the nodes to their slots. -/
  index : ∀ {id : String} {slot : Nat},
    g.index.get? id = some slot ↔ ∃ node : Node, g.slots[slot]? = some (some node) ∧ node.id = id
  /-- The list of children of an id names the nodes of that parent in the order of creation. -/
  children : ∀ p, g.childIds p = (g.nodes.filter fun node => node.parent = some p).map Node.id

namespace Indexed

variable {g : RuleGraph}

theorem empty (layout : Layout) : (empty layout).Indexed where
  index := ⟨fun h => (nomatch h), fun ⟨_, h, _⟩ => (nomatch h)⟩
  children _ := rfl

/-! ## Nodes by their ids -/

theorem slot_unique (h : g.Indexed) {i j : Nat} {node other : Node}
    (hi : g.slots[i]? = some (some node)) (hj : g.slots[j]? = some (some other))
    (hid : node.id = other.id) : i = j := by
  have hindex := h.index.mpr ⟨node, hi, hid⟩
  rw [h.index.mpr ⟨other, hj, rfl⟩, Option.some.injEq] at hindex
  exact hindex.symm

theorem linked (h : g.Indexed) : g.Linked where
  slot := h.index.mp
  child {p c} hc := by
    rw [h.children] at hc
    obtain ⟨node, hmem, hid⟩ := List.mem_map.mp hc
    obtain ⟨hmem, hparent⟩ := List.mem_filter.mp hmem
    exact ⟨node, hmem, hid, of_decide_eq_true hparent⟩

theorem mem_childIds (h : g.Indexed) {p c : String} :
    c ∈ g.childIds p ↔ ∃ node ∈ g.nodes, node.parent = some p ∧ node.id = c := by
  rw [h.children, List.mem_map]
  simp only [List.mem_filter, decide_eq_true_iff, and_assoc]

theorem node?_eq_some (h : g.Indexed) {id : String} {node : Node} :
    g.node? id = some node ↔ node ∈ g.nodes ∧ node.id = id := by
  constructor
  · exact fun hnode => ⟨mem_nodes_of_node? hnode, h.linked.node?_id hnode⟩
  · intro hnode
    obtain ⟨hmem, hid⟩ := hnode
    obtain ⟨slot, hslot⟩ := mem_nodes.mp hmem
    exact RuleGraph.node?_eq_some.mpr ⟨slot, h.index.mpr ⟨node, hslot, hid⟩, hslot⟩

/-- The children of an id that are nodes are all that name it as their parent. -/
theorem childNodes_eq (h : g.Indexed) (p : String) :
    g.childNodes p = g.nodes.filter fun node => node.parent = some p := by
  rw [childNodes, h.children, List.filterMap_map]
  have hself : ∀ node ∈ g.nodes.filter fun node => node.parent = some p,
      (g.node? ∘ Node.id) node = some node := fun node hmem =>
    h.node?_eq_some.mpr ⟨(List.mem_filter.mp hmem).1, rfl⟩
  rw [List.filterMap_congr hself]
  exact List.filterMap_some

theorem contains_iff (h : g.Indexed) {id : String} :
    g.contains id ↔ ∃ node ∈ g.nodes, node.id = id := by
  rw [contains, Dict.contains, Option.isSome_iff_exists]
  constructor
  · intro hindexed
    obtain ⟨slot, hslot⟩ := hindexed
    obtain ⟨node, hnode, hid⟩ := h.index.mp hslot
    exact ⟨node, mem_nodes.mpr ⟨slot, hnode⟩, hid⟩
  · intro hnode
    obtain ⟨node, hmem, hid⟩ := hnode
    obtain ⟨slot, hslot⟩ := mem_nodes.mp hmem
    exact ⟨slot, h.index.mpr ⟨node, hslot, hid⟩⟩

theorem eq_of_id (h : g.Indexed) {node other : Node} (hnode : node ∈ g.nodes)
    (hother : other ∈ g.nodes) (hid : node.id = other.id) : node = other := by
  obtain ⟨i, hi⟩ := mem_nodes.mp hnode
  obtain ⟨j, hj⟩ := mem_nodes.mp hother
  rw [h.slot_unique hi hj hid] at hi
  exact eq_of_slot hi hj

theorem nodup_ids (h : g.Indexed) : (g.nodes.map Node.id).Nodup := by
  rw [nodes, List.Nodup, List.pairwise_map, List.pairwise_filterMap, List.pairwise_iff_getElem]
  intro i j hi hj hlt node hnode other hother hid
  have hi' : g.slots[i]? = some (some node) := List.getElem?_eq_some_iff.mpr ⟨hi, hnode⟩
  have hj' : g.slots[j]? = some (some other) := List.getElem?_eq_some_iff.mpr ⟨hj, hother⟩
  exact Nat.ne_of_lt hlt (h.slot_unique hi' hj' hid)

theorem size_eq (h : g.Indexed) : g.size = g.nodes.length := by
  have hmem : ∀ id, id ∈ g.index.keys ↔ id ∈ g.nodes.map Node.id := by
    intro id
    rw [Dict.mem_keys, List.mem_map]
    exact h.contains_iff
  have hperm := (List.perm_ext_iff_of_nodup g.index.nodup_keys h.nodup_ids).mpr hmem
  have hlength := hperm.length_eq
  rwa [Dict.length_keys, List.length_map] at hlength

theorem nodup_childIds (h : g.Indexed) (p : String) : (g.childIds p).Nodup := by
  rw [h.children]
  exact h.nodup_ids.sublist (List.filter_sublist.map _)

/-! ## Insertion -/

theorem insert (h : g.Indexed) {node : Node} (hfresh : ∀ other ∈ g.nodes, other.id ≠ node.id) :
    (g.insert node).Indexed where
  index {id slot} := by
    rw [index_insert]
    simp only [slots_insert]
    split
    · next hid =>
      rw [Option.some.injEq]
      constructor
      · intro heq
        subst heq
        exact ⟨node, .inr ⟨rfl, rfl⟩, hid.symm⟩
      · intro hstored
        rcases hstored with ⟨other, hother | hother, hid'⟩
        · exact absurd (hid'.trans hid) (hfresh other (mem_nodes.mpr ⟨slot, hother⟩))
        · exact hother.1.symm
    · next hid =>
      rw [h.index]
      constructor
      · intro hstored
        obtain ⟨other, hother, hid'⟩ := hstored
        exact ⟨other, .inl hother, hid'⟩
      · intro hstored
        rcases hstored with ⟨other, hother | ⟨-, rfl⟩, hid'⟩
        · exact ⟨other, hother, hid'⟩
        · exact absurd hid'.symm hid
  children p := by
    rw [childIds_insert, nodes_insert, List.filter_append, List.map_append, h.children]
    by_cases hp : node.parent = some p
    · simp [hp]
    · simp [hp]

/-! ## Removal -/

theorem nodes_without (h : g.Indexed) {slot : Nat} {node : Node}
    (hnode : g.slots[slot]? = some (some node)) :
    (g.without slot node).nodes = g.nodes.filter (·.id != node.id) :=
  RuleGraph.nodes_without hnode fun _ _ hother hid => h.slot_unique hother hnode hid

/-- Every list of children loses the id of the removed node. -/
theorem childIds_without (h : g.Indexed) {slot : Nat} {node : Node}
    (hnode : g.slots[slot]? = some (some node)) (p : String) :
    (g.without slot node).childIds p = (g.childIds p).filter (· != node.id) := by
  rw [RuleGraph.childIds_without]
  split
  · rfl
  · next hother =>
    refine (List.filter_eq_self.mpr fun c hc => ?_).symm
    rw [bne_iff_ne]
    intro heq
    subst heq
    obtain ⟨child, hchild, hid, hparent⟩ := h.linked.child hc
    rw [h.eq_of_id hchild (mem_nodes.mpr ⟨slot, hnode⟩) hid] at hparent
    exact hother hparent

theorem without (h : g.Indexed) {slot : Nat} {node : Node}
    (hnode : g.slots[slot]? = some (some node)) : (g.without slot node).Indexed where
  index {id i} := by
    rw [index_without]
    simp only [slots_without]
    split
    · next hid =>
      refine iff_of_false (fun h => nomatch h) ?_
      intro hstored
      obtain ⟨other, ⟨hne, hother⟩, hid'⟩ := hstored
      exact hne (h.slot_unique hother hnode (hid'.trans hid))
    · next hid =>
      rw [h.index]
      constructor
      · intro hindexed
        obtain ⟨other, hother, hid'⟩ := hindexed
        refine ⟨other, ⟨?_, hother⟩, hid'⟩
        intro hslot
        rw [hslot] at hother
        exact hid (by rw [eq_of_slot hnode hother, hid'])
      · intro hkept
        obtain ⟨other, ⟨-, hother⟩, hid'⟩ := hkept
        exact ⟨other, hother, hid'⟩
  children p := by
    rw [h.childIds_without hnode, h.nodes_without hnode, h.children, List.filter_map,
      List.filter_filter, List.filter_filter]
    congr 2
    funext other
    exact Bool.and_comm _ _

theorem remove (h : g.Indexed) (id : String) : (g.remove id).Indexed := by
  obtain ⟨-, heq⟩ | ⟨slot, node, -, hnode, -, heq⟩ := h.linked.remove_cases id
  · rwa [heq]
  · rw [heq]
    exact h.without hnode

theorem removeAll (h : g.Indexed) (ids : List String) : (g.removeAll ids).Indexed := by
  induction ids generalizing g with
  | nil => exact h
  | cons id ids ih => exact ih (h.remove id)

theorem nodes_remove (h : g.Indexed) (id : String) :
    (g.remove id).nodes = g.nodes.filter (·.id != id) := by
  obtain ⟨habsent, heq⟩ | ⟨slot, node, -, hnode, rfl, heq⟩ := h.linked.remove_cases id
  · rw [heq]
    refine (List.filter_eq_self.mpr fun node hmem => ?_).symm
    rw [bne_iff_ne]
    intro hid
    rw [h.contains_iff.mpr ⟨node, hmem, hid⟩] at habsent
    cases habsent
  · rw [heq]
    exact h.nodes_without hnode

/-- A deletion keeps exactly the nodes that it does not name. -/
theorem nodes_removeAll (h : g.Indexed) (ids : List String) :
    (g.removeAll ids).nodes = g.nodes.filter fun node => !ids.contains node.id := by
  induction ids generalizing g with
  | nil => exact (List.filter_eq_self.mpr fun _ _ => rfl).symm
  | cons id ids ih =>
    have hrest : ((g.remove id).removeAll ids).nodes = _ := ih (h.remove id)
    refine hrest.trans ?_
    rw [h.nodes_remove, List.filter_filter]
    congr 1
    funext node
    rw [List.contains_cons, Bool.not_or, Bool.and_comm]
    rfl

/-! ## Data -/

theorem withData (h : g.Indexed) {slot : Nat} {node : Node} (data : Json)
    (hnode : g.slots[slot]? = some (some node)) : (g.withData slot node data).Indexed := by
  have hbare := bare_withData data hnode
  constructor
  · intro id i
    refine h.index.trans ⟨?_, ?_⟩
    · intro hstored
      obtain ⟨other, hother, hid⟩ := hstored
      obtain ⟨other', hother', hid', -⟩ := slot_of_bare hbare.symm hother
      exact ⟨other', hother', hid'.trans hid⟩
    · intro hstored
      obtain ⟨other, hother, hid⟩ := hstored
      obtain ⟨other', hother', hid', -⟩ := slot_of_bare hbare hother
      exact ⟨other', hother', hid'.trans hid⟩
  · intro p
    have ids (nodes : List Node) : (nodes.filter fun node => node.parent = some p).map Node.id =
        ((nodes.map Node.bare).filter fun node => node.parent = some p).map Node.id := by
      rw [List.filter_map, List.map_map]
      rfl
    rw [ids, map_nodes_of_slots hbare, ← ids]
    exact h.children p

end Indexed

end RuleGraph

end CommissionRules
