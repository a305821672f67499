import Mathlib.Data.List.Perm.Subperm
import CommissionRules.Graph.Assembly
import CommissionRules.Proofs.Except
import CommissionRules.Proofs.Graph.Forest

/-!
# Walks down a graph

Three walks follow the lists of children: the recursion over the ids below an id, the loop that
collects these ids for a deletion, and the recursion of the assembly over nested groups.  In a
forest no path down is longer than there are nodes (`RuleGraph.shallow_of_forest`), so that none
of the walks goes on for ever: `RuleGraph.Forest.walksEnd`.
-/

namespace CommissionRules

open Relation

namespace RuleGraph

variable {g : RuleGraph}

/-! ## Depth -/

/-- Every path down from an id has fewer links than the given number. -/
def Shallow (g : RuleGraph) : Nat → String → Prop
  | 0, _ => False
  | n + 1, id => ∀ c ∈ g.childIds id, g.Shallow n c

/-- The ids that a path down has passed are ids of different nodes, which bounds what is left of the
path. -/
theorem shallow_of_passed (hlinked : g.Linked) (hforest : g.Forest) {n : Nat} {id : String}
    {passed : List String} (hnodup : passed.Nodup)
    (hpassed : ∀ s ∈ passed, s ∈ g.nodes.map Node.id ∧ g.Climbs id s)
    (hlength : g.nodes.length < n + passed.length) : g.Shallow n id := by
  induction n generalizing id passed with
  | zero =>
    have hsubset : passed ⊆ g.nodes.map Node.id := fun s hs => (hpassed s hs).1
    have hle := (hnodup.subperm hsubset).length_le
    rw [List.length_map] at hle
    omega
  | succ n ih =>
    intro c hc
    have hlink : g.ParentLink c id := hlinked.child hc
    have hnode : c ∈ g.nodes.map Node.id := by
      obtain ⟨node, hmem, hid, -⟩ := hlink
      exact List.mem_map.mpr ⟨node, hmem, hid⟩
    -- A child that was passed before would be its own ancestor.
    have hnew : c ∉ passed := fun hmem => hforest c (TransGen.head' hlink (hpassed c hmem).2)
    refine ih (List.nodup_cons.mpr ⟨hnew, hnodup⟩) ?_ (by rw [List.length_cons]; omega)
    intro s hs
    rcases List.mem_cons.mp hs with rfl | hs
    · exact ⟨hnode, .refl⟩
    · exact ⟨(hpassed s hs).1, ReflTransGen.head hlink (hpassed s hs).2⟩

theorem shallow_of_forest (hlinked : g.Linked) (hforest : g.Forest) (id : String) :
    g.Shallow (g.slots.length + 1) id := by
  have hnodes : g.nodes.length ≤ g.slots.length := List.length_filterMap_le _ _
  exact shallow_of_passed hlinked hforest List.nodup_nil (fun _ hs => (nomatch hs))
    (by rw [List.length_nil]; omega)

/-! ## The ids below an id -/

theorem subtree_fuel {n fuel : Nat} {id : String} (h : g.Shallow n id) (hfuel : n ≤ fuel) :
    Command.subtree g fuel id = Command.subtree g n id := by
  induction n generalizing fuel id with
  | zero => exact h.elim
  | succ n ih =>
    obtain ⟨fuel, rfl⟩ : ∃ k, fuel = k + 1 := ⟨fuel - 1, by omega⟩
    rw [Command.subtree]
    congr 1
    refine List.flatMap_congr fun c hc => ih (h c hc) (by omega)

theorem mem_subtree_self {n : Nat} {id : String} (h : g.Shallow n id) :
    id ∈ Command.subtree g n id := by
  cases n with
  | zero => exact h.elim
  | succ n => exact List.mem_append_right _ (List.mem_singleton.mpr rfl)

/-- The ids from an id downward are closed under taking children. -/
theorem mem_subtree_of_child {n : Nat} {id x c : String} (h : g.Shallow n id)
    (hx : x ∈ Command.subtree g n id) (hc : c ∈ g.childIds x) : c ∈ Command.subtree g n id := by
  induction n generalizing id with
  | zero => exact h.elim
  | succ n ih =>
    rw [Command.subtree] at hx ⊢
    refine List.mem_append_left _ (List.mem_flatMap.mpr ?_)
    rcases List.mem_append.mp hx with hx | hx
    · obtain ⟨child, hchild, hx⟩ := List.mem_flatMap.mp hx
      exact ⟨child, hchild, ih (h child hchild) hx⟩
    · rw [List.mem_singleton.mp hx] at hc
      exact ⟨c, hc, mem_subtree_self (h c hc)⟩

/-- Every other one of the ids from an id downward is a child of one of them. -/
theorem parent_mem_subtree {n : Nat} {id x : String} (hx : x ∈ Command.subtree g n id) :
    x = id ∨ ∃ y ∈ Command.subtree g n id, x ∈ g.childIds y := by
  induction n generalizing id with
  | zero => cases hx
  | succ n ih =>
    rw [Command.subtree] at hx ⊢
    rcases List.mem_append.mp hx with hx | hx
    · obtain ⟨child, hchild, hx⟩ := List.mem_flatMap.mp hx
      right
      rcases ih hx with rfl | ⟨y, hy, hx⟩
      · exact ⟨id, List.mem_append_right _ (List.mem_singleton.mpr rfl), hchild⟩
      · exact ⟨y, List.mem_append_left _ (List.mem_flatMap.mpr ⟨child, hchild, hy⟩), hx⟩
    · exact .inl (List.mem_singleton.mp hx)

/-! ## The loop of a deletion -/

/-- Collects ids for a deletion: takes the last pending id, adds its children to those pending, and
puts the id before the ones taken earlier.  The pending ids stand in reverse.  There is no answer if
the fuel does not suffice. -/
def collect (g : RuleGraph) : (fuel : Nat) → (pending taken : List String) → Option (List String)
  | _, [], taken => some taken
  | 0, _ :: _, _ => none
  | fuel + 1, id :: pending, taken =>
      g.collect fuel ((g.childIds id).reverse ++ pending) (id :: taken)

/-- The loop comes from an id to the rest of the pending ids, with all ids from the given one
downward taken. -/
def Collects (g : RuleGraph) (ids taken : List String) : Prop :=
  ∃ steps, ∀ fuel pending earlier,
    g.collect (fuel + steps) (ids ++ pending) earlier = g.collect fuel pending (taken ++ earlier)

theorem Collects.append {ids ids' taken taken' : List String} (h : g.Collects ids taken)
    (h' : g.Collects ids' taken') : g.Collects (ids ++ ids') (taken' ++ taken) := by
  obtain ⟨steps, h⟩ := h
  obtain ⟨steps', h'⟩ := h'
  refine ⟨steps' + steps, fun fuel pending earlier => ?_⟩
  rw [← Nat.add_assoc, List.append_assoc, h, h', List.append_assoc]

theorem collects_reverse {n : Nat} {ids : List String}
    (h : ∀ c ∈ ids, g.Collects [c] (Command.subtree g n c)) :
    g.Collects ids.reverse (ids.flatMap (Command.subtree g n)) := by
  induction ids with
  | nil => exact ⟨0, fun _ _ _ => rfl⟩
  | cons c ids ih =>
    rw [List.reverse_cons, List.flatMap_cons]
    exact (ih fun c' hc' => h c' (List.mem_cons_of_mem c hc')).append (h c List.mem_cons_self)

theorem collects_subtree {n : Nat} {id : String} (h : g.Shallow n id) :
    g.Collects [id] (Command.subtree g n id) := by
  induction n generalizing id with
  | zero => exact h.elim
  | succ n ih =>
    obtain ⟨steps, hchildren⟩ := collects_reverse fun c hc => ih (h c hc)
    refine ⟨steps + 1, fun fuel pending earlier => ?_⟩
    show g.collect (fuel + steps) ((g.childIds id).reverse ++ pending) (id :: earlier) = _
    rw [hchildren]
    rw [Command.subtree, List.append_assoc]
    rfl

theorem exists_collect_eq {n : Nat} {id : String} (h : g.Shallow n id) :
    ∃ fuel, g.collect fuel [id] [] = some (Command.subtree g n id) := by
  obtain ⟨steps, hcollect⟩ := collects_subtree h
  refine ⟨0 + steps, ?_⟩
  have := hcollect 0 [] []
  rw [List.append_nil, List.append_nil] at this
  rw [this]
  rfl

/-! ## Nested groups -/

theorem Linked.id_mem_childIds (h : g.Linked) {id : String} {child : Node}
    (hchild : child ∈ g.childNodes id) : child.id ∈ g.childIds id := by
  obtain ⟨c, hc, hnode⟩ := List.mem_filterMap.mp hchild
  rw [h.node?_id hnode]
  exact hc

theorem readChild_congr {nested nested' : Node → List ActionDefinition →
      Except AssemblyError (String × List ActionDefinition)} {p : PartialRule} {child : Node}
    (h : ∀ actions, nested child actions = nested' child actions) :
    g.readChild nested p child = g.readChild nested' p child := by
  unfold readChild
  rw [h]

theorem foldGroup_fuel (hlinked : g.Linked) {n fuel : Nat} {group : Node}
    {actions : List ActionDefinition} (h : g.Shallow n group.id) (hfuel : n ≤ fuel) :
    g.foldGroup fuel group actions = g.foldGroup n group actions := by
  induction n generalizing fuel group actions with
  | zero => exact h.elim
  | succ n ih =>
    obtain ⟨fuel, rfl⟩ : ∃ k, fuel = k + 1 := ⟨fuel - 1, by omega⟩
    rw [foldGroup]
    congr 1
    refine foldlM_congr fun child hchild p => readChild_congr fun actions => ?_
    exact ih (h _ (hlinked.id_mem_childIds hchild)) (by omega)

theorem operator_ne_notFound {node : Node} {id : String} :
    node.operator ≠ .error (.notFound id) := by
  unfold Node.operator
  dsimp only
  split <;> nofun

/-- A child of a rule group is missed only where the reader of nested groups misses it. -/
theorem readChild_eq_notFound {nested : Node → List ActionDefinition →
      Except AssemblyError (String × List ActionDefinition)} {p : PartialRule} {child : Node}
    {id : String} (h : g.readChild nested p child = .error (.notFound id)) :
    nested child p.actions = .error (.notFound id) := by
  rw [readChild] at h
  cases htype : child.type <;> rw [htype] at h <;> dsimp only at h
  case ruleGroup =>
    rcases bind_eq_error.mp h with h | ⟨_, -, h⟩
    · exact h
    · cases h
  case conditionalOperator =>
    split at h
    · cases h
    · rcases bind_eq_error.mp h with h | ⟨_, -, h⟩
      · exact absurd h operator_ne_notFound
      · cases h
  case condition => split at h <;> cases h
  all_goals cases h

/-- The fuel of the assembly is not what ends it. -/
theorem foldGroup_ne_notFound (hlinked : g.Linked) {n : Nat} {group : Node}
    {actions : List ActionDefinition} {id : String} (h : g.Shallow n group.id) :
    g.foldGroup n group actions ≠ .error (.notFound id) := by
  intro hbad
  induction n generalizing group actions with
  | zero => exact h.elim
  | succ n ih =>
    rw [foldGroup] at hbad
    rcases bind_eq_error.mp hbad with hfold | ⟨p, -, hpending⟩
    · obtain ⟨child, hchild, p, hread⟩ := exists_of_foldlM_eq_error hfold
      exact ih (h _ (hlinked.id_mem_childIds hchild)) (readChild_eq_notFound hread)
    · split at hpending <;> cases hpending

/-! ## The walks come to an end -/

/-- The recursion of the assembly over nested groups ends, and with more fuel it ends alike; the
loop of a deletion ends with the ids that the deletion removes. -/
structure WalksEnd (g : RuleGraph) : Prop where
  subtree : ∀ id (fuel : Nat), g.slots.length < fuel → Command.subtree g fuel id = g.below id
  fold : ∀ (group : Node) (actions : List ActionDefinition) (fuel : Nat), g.slots.length < fuel →
    g.foldGroup fuel group actions = g.foldGroup (g.slots.length + 1) group actions ∧
      ∀ id, g.foldGroup fuel group actions ≠ .error (.notFound id)
  collect : ∀ id, ∃ fuel, g.collect fuel [id] [] = some (g.below id)

theorem Forest.walksEnd (hforest : g.Forest) (hlinked : g.Linked) : g.WalksEnd := by
  constructor
  · exact fun id fuel hfuel => subtree_fuel (shallow_of_forest hlinked hforest id) hfuel
  · intro group actions fuel hfuel
    have hshallow := shallow_of_forest hlinked hforest group.id
    have hfold : g.foldGroup fuel group actions = _ := foldGroup_fuel hlinked hshallow hfuel
    refine ⟨hfold, fun id => ?_⟩
    rw [hfold]
    exact foldGroup_ne_notFound hlinked hshallow
  · exact fun id => exists_collect_eq (shallow_of_forest hlinked hforest id)

end RuleGraph

end CommissionRules
