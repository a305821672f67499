import CommissionRules.Proofs.Graph.Additions
import CommissionRules.Proofs.Graph.Names

/-!
# What commands leave alone

A command that is refused leaves the whole graph as it is.  One that is carried out changes no node
that is there before and after, except for the data of the node that an update is addressed to, and
nodes come and go only as the answer says: `RuleGraph.dispatch_framed`.
-/

namespace CommissionRules

/-! ## Frames -/

/-- What a command may not change in a node: everything, but not the data of the node that it is to
update. -/
def GraphCommand.untouched : GraphCommand → Node → Node
  | .update id _, node => if node.id = id then node.bare else node
  | _, node => node

def CommandOutcome.removed : CommandOutcome → List String
  | .deleted deletion => deletion.removed
  | _ => []

/-- Whether a command may add nodes: a creation adds the node of its answer, and the name node of
this node if it is a group. -/
def GraphCommand.Adds : GraphCommand → CommandOutcome → List Node → Prop
  | .create type _, outcome, added => ∃ node names, outcome = .created node ∧ node.type = type ∧
      added = node :: names ∧ names.map Node.type = type.nameType?.toList ∧
        ∀ name ∈ names, name.parent = some node.id
  | _, _, added => added = []

namespace RuleGraph

/-- The ids of the nodes in the order of their creation. -/
def ids (g : RuleGraph) : List String := g.nodes.map Node.id

/-- The nodes that stand in another graph, too. -/
def sharedWith (g other : RuleGraph) : List Node := g.nodes.filter (·.id ∈ other.ids)

/-- The nodes that do not stand in another graph. -/
def missingFrom (g other : RuleGraph) : List Node := g.nodes.filter (·.id ∉ other.ids)

/-- What a command does to a graph, given its outcome, and what it leaves alone. -/
structure Framed (g : RuleGraph) (command : GraphCommand) (outcome : CommandOutcome)
    (g' : RuleGraph) : Prop where
  /-- The nodes that are there before and after are the same in the same order. -/
  kept : (g'.sharedWith g).map command.untouched = (g.sharedWith g').map command.untouched
  removed : ∀ id, id ∈ outcome.removed ↔ id ∈ g.ids ∧ id ∉ g'.ids
  added : command.Adds outcome (g'.missingFrom g)
  /-- Every new node is counted once with its type. -/
  counted : ∀ type, (g'.counter.get type).toNat =
    (g.counter.get type).toNat + (g'.missingFrom g).countP (·.type = type)
  uncounted : g'.missingFrom g = [] → g'.counter = g.counter ∧ g'.lastToken = g.lastToken

variable {g g' : RuleGraph} {now : Int64} {command : GraphCommand} {outcome : CommandOutcome}

theorem mem_ids {node : Node} (h : node ∈ g.nodes) : node.id ∈ g.ids := List.mem_map_of_mem h

theorem sharedWith_of_subset (h : g.ids ⊆ g'.ids) : g.sharedWith g' = g.nodes :=
  List.filter_eq_self.mpr fun _ hnode => decide_eq_true (h (mem_ids hnode))

theorem missingFrom_of_subset (h : g.ids ⊆ g'.ids) : g.missingFrom g' = [] :=
  List.filter_eq_nil_iff.mpr fun _ hnode hmissing =>
    of_decide_eq_true hmissing (h (mem_ids hnode))

namespace Framed

/-- Where the ids stay, no node comes or goes. -/
theorem of_ids (hids : g'.ids = g.ids)
    (hkept : g'.nodes.map command.untouched = g.nodes.map command.untouched)
    (hcounter : g'.counter = g.counter) (hlast : g'.lastToken = g.lastToken)
    (hremoved : outcome.removed = []) (hadds : command.Adds outcome []) :
    g.Framed command outcome g' := by
  have hnone : g'.missingFrom g = [] := missingFrom_of_subset (hids ▸ fun _ h => h)
  refine ⟨?_, fun id => ?_, hnone ▸ hadds, fun type => ?_, fun _ => ⟨hcounter, hlast⟩⟩
  · rwa [sharedWith_of_subset (hids ▸ fun _ h => h), sharedWith_of_subset (hids ▸ fun _ h => h)]
  · rw [hremoved, hids]
    exact ⟨fun h => (nomatch h), fun h => absurd h.1 h.2⟩
  · rw [hnone, hcounter]
    rfl

/-! ## Deletions -/

theorem mem_ids_removeAll (h : g.Consistent) {removed : List String} {id : String} :
    id ∈ (g.removeAll removed).ids ↔ id ∈ g.ids ∧ id ∉ removed := by
  simp only [ids, List.mem_map, h.mem_removeAll]
  constructor
  · rintro ⟨node, ⟨hmem, hkept⟩, rfl⟩
    exact ⟨⟨node, hmem, rfl⟩, hkept⟩
  · rintro ⟨⟨node, hmem, rfl⟩, hkept⟩
    exact ⟨node, ⟨hmem, hkept⟩, rfl⟩

/-- The ids of a deletion go, and all other nodes stay. -/
theorem removeAll (h : g.Consistent) (deletion : Deletion) (hlive : deletion.removed ⊆ g.ids)
    (hadds : command.Adds (.deleted deletion) []) :
    g.Framed command (.deleted deletion) (g.removeAll deletion.removed) := by
  have hsubset : (g.removeAll deletion.removed).ids ⊆ g.ids :=
    fun _ hid => ((mem_ids_removeAll h).mp hid).1
  have hnone := missingFrom_of_subset hsubset
  have hcounter := (counter_removeAll (g := g) deletion.removed).1
  refine ⟨?_, fun id => ?_, hnone ▸ hadds, fun type => ?_,
    fun _ => ⟨hcounter, lastToken_removeAll _⟩⟩
  · rw [sharedWith_of_subset hsubset, h.nodes_removeAll, sharedWith]
    congr 1
    refine List.filter_congr fun node hmem => ?_
    have hiff : node.id ∈ (g.removeAll deletion.removed).ids ↔ _ := mem_ids_removeAll h
    simp [hiff, mem_ids hmem]
  · show id ∈ deletion.removed ↔ _
    rw [mem_ids_removeAll h]
    constructor
    · exact fun hid => ⟨hlive hid, fun hkept => hkept.2 hid⟩
    · exact fun ⟨hid, hgone⟩ => by_contra fun hkept => hgone ⟨hid, hkept⟩
  · rw [hnone, hcounter]
    rfl

theorem deletionOf_live (h : g.Consistent) {id : String} {node : Node}
    (hnode : g.node? id = some node) : (g.deletionOf node id).removed ⊆ g.ids := by
  intro c hc
  rcases (mem_deletionOf h).mp hc with rfl | ⟨-, child, hmem, -, rfl, -⟩
  · obtain ⟨hmem, rfl⟩ := h.node?_eq_some.mp hnode
    exact mem_ids hmem
  · exact mem_ids hmem

theorem below_live (h : g.Consistent) {id : String} (hid : g.contains id) :
    g.below id ⊆ g.ids := by
  intro c hc
  rcases parent_mem_subtree hc with rfl | ⟨p, -, hchild⟩
  · obtain ⟨node, hmem, rfl⟩ := h.contains_iff.mp hid
    exact mem_ids hmem
  · obtain ⟨child, hmem, -, rfl⟩ := h.mem_childIds.mp hchild
    exact mem_ids hmem

/-! ## Creations -/

/-- The new nodes come last, with ids that are not there before. -/
theorem withNew {length : Nat} (h : g.Reached length) {type : NodeType}
    (hrange : g.InRange now type) (requested parent : Option String) :
    g.Framed (.create type requested) (.created (g.newNode now type parent))
      (g.withNew now type parent) := by
  have hnodes : (g.withNew now type parent).nodes = g.nodes ++ g.newNodes now type parent :=
    nodes_withNew now type parent
  have hsubset : g.ids ⊆ (g.withNew now type parent).ids := by
    rw [ids, ids, hnodes, List.map_append]
    exact List.subset_append_left _ _
  have hfresh {added : Node} (hadded : added ∈ g.newNodes now type parent) :
      added.id ∉ g.ids := by
    intro hid
    obtain ⟨node, hmem, hid⟩ := List.mem_map.mp hid
    exact (h.newNodes_fresh hrange hadded hmem).1 hid
  have hadded : (g.withNew now type parent).missingFrom g = g.newNodes now type parent := by
    rw [missingFrom, hnodes, List.filter_append]
    have hold : g.nodes.filter (·.id ∉ g.ids) = [] := missingFrom_of_subset fun _ h => h
    rw [hold, List.nil_append]
    exact List.filter_eq_self.mpr fun added h => decide_eq_true (hfresh h)
  have hshared : (g.withNew now type parent).sharedWith g = g.nodes := by
    rw [sharedWith, hnodes, List.filter_append]
    have hold : g.nodes.filter (·.id ∈ g.ids) = g.nodes := sharedWith_of_subset fun _ h => h
    have hnew : (g.newNodes now type parent).filter (·.id ∈ g.ids) = [] :=
      List.filter_eq_nil_iff.mpr fun added h hid => hfresh h (of_decide_eq_true hid)
    rw [hold, hnew, List.append_nil]
  refine ⟨?_, fun id => ?_, ?_, fun type' => ?_, fun hnone => ?_⟩
  · rw [hshared, sharedWith_of_subset hsubset]
  · exact ⟨fun hid => (nomatch hid), fun hid => absurd (hsubset hid.1) hid.2⟩
  · rw [hadded]
    refine ⟨_, _, rfl, rfl, rfl, ?_, fun name hname => ?_⟩
    · cases type.nameType? <;> rfl
    · obtain ⟨nameType, -, rfl⟩ := Option.map_eq_some_iff.mp (Option.mem_toList.mp hname)
      rfl
  · rw [hadded]
    exact counter_withNew hrange parent type'
  · rw [hadded] at hnone
    cases hnone

/-! ## Updates -/

theorem withData (h : g.Linked) {id : String} {patch data : Json} {slot : Nat} {node : Node}
    (hslot : g.index.get? id = some slot) (hnode : g.slots[slot]? = some (some node)) :
    g.Framed (.update id patch) (.updated id) (g.withData slot node data) := by
  have hid : node.id = id := by
    obtain ⟨node', hnode', hid⟩ := h.slot hslot
    rwa [← eq_of_slot hnode hnode'] at hid
  refine of_ids ?_ ?_ rfl rfl rfl rfl
  · exact map_nodes_of_slots (map_slots_withData Node.id hnode rfl)
  · refine map_nodes_of_slots (map_slots_withData _ hnode ?_)
    show (if node.id = id then _ else _) = if node.id = id then _ else _
    rw [if_pos hid, if_pos hid]
    rfl

end Framed

/-! ## Commands -/

theorem Reached.framed {length : Nat} (h : g.Reached length)
    (heffect : Effect g now command (.ok outcome) g') : g.Framed command outcome g' := by
  cases heffect with
  | created type requested parent hname hparent hrange => exact .withNew h hrange requested parent
  | updated id patch slot node hslot hnode => exact .withData h.consistent.linked hslot hnode
  | deleted id node hnode =>
    exact .removeAll h.consistent _ (Framed.deletionOf_live h.consistent hnode) rfl
  | deletedSubtree id hid =>
    exact .removeAll h.consistent ⟨g.below id, []⟩ (Framed.below_live h.consistent hid) rfl
  | selected => exact .of_ids rfl rfl rfl rfl rfl rfl
  | unselected => exact .of_ids rfl rfl rfl rfl rfl rfl

/-- In a graph that fewer than `2 ^ 63` commands make from an empty one, a command that is refused
changes nothing, and one that is carried out changes no more than its outcome says.  Only the
creation of a condition or an operator can overflow, when no number is left for it. -/
theorem dispatch_framed (layout : Layout) (steps : List (Int64 × GraphCommand))
    (hlength : steps.length < 2 ^ 63) (now : Int64) (command : GraphCommand) :
    let g := (empty layout).run steps
    (∀ e, (g.dispatch now command).1 = .error e → (g.dispatch now command).2 = g) ∧
      (∀ outcome, (g.dispatch now command).1 = .ok outcome →
        g.Framed command outcome (g.dispatch now command).2) ∧
      ((g.dispatch now command).1 = .error .overflow → ∃ type requested,
        command = .create type requested ∧ type.requiresGroup ∧
          ¬ ∃ token, g.Available now type token) := by
  intro g
  have hreached := reached_run layout steps
  refine ⟨fun e he => g.dispatch_error now he, fun outcome hok => ?_, fun hoverflow => ?_⟩
  · have heffect := g.dispatch_effect now command
    rw [hok] at heffect
    exact hreached.framed heffect
  · obtain ⟨type, requested, parent, rfl, -, -, hrange⟩ :=
      (g.dispatch_overflow_iff now).mp hoverflow
    rw [hreached.inRange_iff hlength, Classical.not_imp] at hrange
    exact ⟨type, requested, rfl, hrange⟩

theorem dispatch_framed_orphaning : orphaning.length < 2 ^ 63 ∧
    let g := (empty .standard).run orphaning
    ∃ outcome, (g.dispatch 0 (.delete "actionGroup-1")).1 = .ok outcome ∧
      outcome.removed = ["actionName-1", "actionGroup-1"] ∧
      g.Framed (.delete "actionGroup-1") outcome (g.dispatch 0 (.delete "actionGroup-1")).2 :=
  ⟨by decide, _, rfl, rfl, (dispatch_framed .standard orphaning (by decide) 0 _).2.1 _ rfl⟩

end RuleGraph

end CommissionRules
