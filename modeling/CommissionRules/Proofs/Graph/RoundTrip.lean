import CommissionRules.Proofs.Graph.Acceptance
import CommissionRules.Proofs.Graph.Names
import CommissionRules.Proofs.Graph.Restore

/-!
# Export and import

What a graph answers depends on its nodes alone, in their order, as long as its index and its lists
of children agree with them.  The export of a graph that commands made passes the checks of the
import, which inserts the same nodes in the same order and leaves the counter as it is.  So nothing
is lost but the selection: `RuleGraph.import_export`.
-/

namespace CommissionRules

open Relation

/-! ## The order of an export -/

namespace GraphSnapshot

theorem lastIndex?_eq_none {id : String} {order : List String} (h : id ∉ order) (start : Nat) :
    lastIndex? id start order = none := by
  induction order generalizing start with
  | nil => rfl
  | cons other order ih =>
    rw [List.mem_cons, not_or] at h
    rw [lastIndex?, ih h.2]
    exact if_neg (Ne.symm h.1)

/-- Where no id comes twice, the last place of an id is its place. -/
theorem lastIndex?_of_getElem? {id : String} {order : List String} (hnodup : order.Nodup) {i : Nat}
    (h : order[i]? = some id) (start : Nat) : lastIndex? id start order = some (start + i) := by
  induction order generalizing i start with
  | nil => cases h
  | cons other order ih =>
    obtain ⟨hother, hnodup⟩ := List.nodup_cons.mp hnodup
    rw [lastIndex?]
    cases i with
    | zero =>
      cases h
      rw [lastIndex?_eq_none hother]
      exact if_pos rfl
    | succ i =>
      rw [ih hnodup h]
      dsimp only
      rw [Nat.add_right_comm, Nat.add_assoc]

/-- An order that names the nodes as they stand leaves them so. -/
theorem sortedNodes_of_order {s : GraphSnapshot} (hids : (s.nodes.map Node.id).Nodup)
    (horder : s.order = s.nodes.map Node.id) : s.sortedNodes = s.nodes := by
  have hrank {i : Nat} (hi : i < s.nodes.length) : rank s.order s.nodes[i] = i := by
    have hplace : s.order[i]? = some s.nodes[i].id := by
      rw [horder, List.getElem?_map, List.getElem?_eq_getElem hi]
      rfl
    rw [rank, lastIndex?_of_getElem? (horder ▸ hids) hplace, Nat.zero_add]
    rfl
  have hsorted : (s.nodes.map fun node => (rank s.order node, node)).Pairwise
      fun a b => decide (a.1 ≤ b.1) = true := by
    rw [List.pairwise_map, List.pairwise_iff_getElem]
    intro i j hi hj hlt
    rw [hrank hi, hrank hj, decide_eq_true_iff]
    exact Nat.le_of_lt hlt
  rw [sortedNodes, List.mergeSort_of_pairwise hsorted, List.map_map]
  exact List.map_id _

end GraphSnapshot

namespace RuleGraph

variable {g g' : RuleGraph}

/-! ## Graphs with the same nodes -/

section SameNodes

variable (h : g.Indexed) (h' : g'.Indexed) (hnodes : g'.nodes = g.nodes)

include h h' hnodes

theorem node?_congr (id : String) : g'.node? id = g.node? id := by
  refine Option.ext fun node => ?_
  show g'.node? id = some node ↔ g.node? id = some node
  rw [h.node?_eq_some, h'.node?_eq_some, hnodes]

theorem contains_congr (id : String) : g'.contains id = g.contains id := by
  rw [Bool.eq_iff_iff, h.contains_iff, h'.contains_iff, hnodes]

theorem childIds_congr (id : String) : g'.childIds id = g.childIds id := by
  rw [h.children, h'.children, hnodes]

theorem childNodes_congr (id : String) : g'.childNodes id = g.childNodes id := by
  rw [h.childNodes_eq, h'.childNodes_eq, hnodes]

theorem childrenOf_congr (id : String) : g'.childrenOf id = g.childrenOf id := by
  rw [childrenOf, childrenOf, contains_congr h h' hnodes, childNodes_congr h h' hnodes]

theorem orphans_congr : g'.orphans = g.orphans := by
  rw [orphans, orphans, hnodes]
  congr 1
  funext node
  simp only [contains_congr h h' hnodes]

theorem nameOf_congr (group : Node) (nameType : NodeType) :
    g'.nameOf group nameType = g.nameOf group nameType := by
  rw [nameOf, nameOf, childNodes_congr h h' hnodes]

theorem foldGroup_congr (fuel : Nat) : g'.foldGroup fuel = g.foldGroup fuel := by
  have hread (nested : Node → List ActionDefinition →
      Except AssemblyError (String × List ActionDefinition)) :
      g'.readChild nested = g.readChild nested := by
    funext p child
    rw [readChild, readChild]
    simp only [actionOf, nameOf_congr h h' hnodes]
  induction fuel with
  | zero => rfl
  | succ fuel ih =>
    funext group actions
    rw [foldGroup, foldGroup, ih, hread, childNodes_congr h h' hnodes]

/-- The slots, which may number more in one graph, count for nothing in a forest. -/
theorem assemble_congr (hforest : g.Forest) (id : String) : g'.assemble id = g.assemble id := by
  have hforest' : g'.Forest := hforest.of_links fun hlink => by
    rw [ParentLink, hnodes] at hlink
    exact hlink
  have hends := hforest.walksEnd h.linked
  have hends' := hforest'.walksEnd h'.linked
  have hfold (group : Node) : g'.foldGroup (g'.slots.length + 1) group [] =
      g.foldGroup (g.slots.length + 1) group [] := by
    let fuel := max g.slots.length g'.slots.length + 1
    have hle : g.slots.length < fuel := by omega
    have hle' : g'.slots.length < fuel := by omega
    rw [← (hends.fold group [] fuel hle).1, ← (hends'.fold group [] fuel hle').1,
      foldGroup_congr h h' hnodes]
  rw [assemble, assemble, node?_congr h h' hnodes]
  simp only [hfold, nameOf_congr h h' hnodes]

end SameNodes

/-! ## The export of a graph -/

/-- Every type of which there is a node has an entry in the counter. -/
def Counted (g : RuleGraph) : Prop :=
  ∀ node ∈ g.nodes, (g.counter.recorded? node.type).isSome

theorem Counted.of_nodes (h : g.Counted) (hcounter : g'.counter = g.counter)
    (htypes : ∀ node ∈ g'.nodes, ∃ node' ∈ g.nodes, node'.type = node.type) : g'.Counted := by
  intro node hmem
  obtain ⟨node', hmem', htype⟩ := htypes node hmem
  rw [hcounter, ← htype]
  exact h node' hmem'

theorem Counted.add (h : g.Counted) (node : Node) : (g.add node).Counted := by
  intro other hmem
  show ((g.counter.set node.type (g.counter.get node.type + 1)).recorded? other.type).isSome
  rw [NodeCounter.recorded?_set]
  split
  · rfl
  · next hother =>
    rw [nodes_add] at hmem
    rcases List.mem_append.mp hmem with hmem | hmem
    · exact h other hmem
    · exact absurd (congrArg Node.type (List.mem_singleton.mp hmem)) hother

theorem Counted.withNew (h : g.Counted) (now : Int64) (type : NodeType) (parent : Option String) :
    (g.withNew now type parent).Counted := by
  have hallocated : (g.allocated now type).Counted := h
  have hnode : (g.withNode now type parent).Counted := hallocated.add _
  rw [RuleGraph.withNew]
  cases type.nameType? with
  | none => exact hnode
  | some nameType => exact hnode.add _

theorem Counted.effect (h : g.Counted) (hlinked : g.Linked) {now : Int64} {command : GraphCommand}
    {answer : Except CommandFailure CommandOutcome} (heffect : Effect g now command answer g') :
    g'.Counted := by
  have removed (ids : List String) : (g.removeAll ids).Counted :=
    h.of_nodes (counter_removeAll ids).1 fun node hmem =>
      ⟨node, hlinked.mem_of_removeAll hmem, rfl⟩
  cases heffect with
  | refused => exact h
  | overflowed => exact h
  | created type requested parent => exact h.withNew now type parent
  | updated id patch slot node hslot hnode =>
    refine h.of_nodes rfl fun other hmem => ?_
    obtain ⟨other', hmem', -, htype, -⟩ := mem_of_bare (bare_withData _ hnode) hmem
    exact ⟨other', hmem', htype⟩
  | deleted => exact removed _
  | deletedSubtree => exact removed _
  | selected => exact h
  | unselected => exact h

/-- A graph that so many commands can have made, none of which has taken a name node alone. -/
structure Exportable (g : RuleGraph) (length : Nat) : Prop where
  reached : g.Reached length
  names : g.NamesKept
  counted : g.Counted

theorem Exportable.run {layout : Layout} {steps : List (Int64 × GraphCommand)}
    (hstrips : ∀ before now command, before ++ [(now, command)] <+: steps →
      ¬ ((RuleGraph.empty layout).run before).StripsGroup command) :
    ((RuleGraph.empty layout).run steps).Exportable steps.length := by
  induction steps using List.reverseRecOn with
  | nil => exact ⟨.empty layout, .empty layout, fun _ hmem => nomatch hmem⟩
  | append_singleton before step ih =>
    obtain ⟨hreached, hnames, hcounted⟩ := ih fun earlier now command hearlier =>
      hstrips earlier now command (hearlier.trans (List.prefix_append before [step]))
    have heffect := dispatch_effect ((RuleGraph.empty layout).run before) step.1 step.2
    rw [run_concat, List.length_append, List.length_singleton]
    exact ⟨hreached.effect heffect,
      hnames.effect hreached heffect (hstrips before _ _ List.prefix_rfl),
      hcounted.effect hreached.consistent.linked heffect⟩

namespace Exportable

variable {length : Nat}

/-- Different name nodes belong to different groups. -/
theorem nodup_named (h : g.Exportable length) :
    (g.nodes.filterMap GraphSnapshot.named?).Nodup := by
  have hconsistent := h.reached.consistent
  have hids := hconsistent.nodup_ids
  rw [List.Nodup, List.pairwise_map] at hids
  rw [List.Nodup, List.pairwise_filterMap]
  refine hids.imp_of_mem fun {name other} hname hother hne p hp q hq heq => hne ?_
  subst heq
  have hin {name : Node} (hmem : name ∈ g.nodes) (hnamed : GraphSnapshot.named? name = some p) :
      name.type.isName ∧ name ∈ g.namesOf p := by
    obtain ⟨hisName, hparent⟩ := GraphSnapshot.named?_eq_some.mp hnamed
    exact ⟨hisName, mem_namesOf.mpr ⟨hmem, hisName, hparent⟩⟩
  obtain ⟨hisName, hmem⟩ := hin hname hp
  obtain ⟨p', group, hparent, hfound, htype⟩ := h.names.owned name hname hisName
  rw [(mem_namesOf.mp hmem).2.2, Option.some.injEq] at hparent
  subst hparent
  obtain ⟨hgroup, rfl⟩ := hconsistent.node?_eq_some.mp hfound
  obtain ⟨only, honly, -⟩ := h.names.named group hgroup _ htype
  rw [hconsistent.names_eq] at honly
  have hmem' := (hin hother hq).2
  rw [honly, List.mem_singleton] at hmem hmem'
  rw [hmem, hmem']

theorem wellFormed (h : g.Exportable length) : GraphSnapshot.WellFormed g.nodes := by
  have hconsistent := h.reached.consistent
  refine ⟨hconsistent.nodup_ids, fun node hmem => ⟨fun hname => ?_, ?_⟩, ?_, ?_, hconsistent.forest⟩
  · obtain ⟨p, group, hparent, hfound, htype⟩ := h.names.owned node hmem hname
    obtain ⟨hgroup, rfl⟩ := hconsistent.node?_eq_some.mp hfound
    exact ⟨group, hgroup, hparent, htype⟩
  · intro _ parent hparent hlink
    obtain ⟨i, hi⟩ := mem_nodes.mp hmem
    obtain ⟨j, hj⟩ := mem_nodes.mp hparent
    exact (hconsistent.earlier hi hj hlink).1
  · exact h.nodup_named
  · intro group hgroup htype
    obtain ⟨nameType, hnameType⟩ :=
      Option.isSome_iff_exists.mp (group.type.isSome_nameType? ▸ htype)
    obtain ⟨name, hname, -⟩ := h.names.named group hgroup nameType hnameType
    rw [hconsistent.names_eq] at hname
    obtain ⟨hmem, hisName, hparent⟩ := mem_namesOf.mp (hname ▸ List.mem_singleton.mpr rfl)
    exact GraphSnapshot.mem_named_iff.mpr ⟨name, hmem, hisName, hparent⟩

/-- The counter is not below the numbers in the ids, so that the import leaves it as it is. -/
theorem counter_restored (h : g.Exportable length) (hlength : length < 2 ^ 63) {g' : RuleGraph}
    (hcounter : g'.counter = g.counter) : (g.nodes.foldl restore g').counter = g.counter := by
  rw [counter_foldl_restore_of_le, hcounter]
  intro node hmem count hcount
  obtain ⟨entry, hentry⟩ := Option.isSome_iff_exists.mp (h.counted node hmem)
  refine ⟨entry, hcounter ▸ hentry, ?_⟩
  have hissued := h.reached.recorded.id node hmem
  rw [Issued] at hissued
  split at hissued
  · next hgroup =>
    rw [countOf?, if_pos hgroup] at hcount
    cases hcount
  · next hgroup =>
    obtain ⟨given, hle, hid⟩ := hissued
    have hentry' : g.counter.get node.type = entry := congrArg (·.getD 0) hentry
    have hbound := h.reached.counter node.type
    have hgiven : given.toNat < 2 ^ 63 := by
      have := UInt64.le_iff_toNat_le.mp hle
      omega
    rw [countOf?_counterId (Bool.eq_false_iff.mpr hgroup) hid hgiven, Option.some.injEq] at hcount
    rw [← hcount, ← hentry']
    exact hle

theorem imported (h : g.Exportable length) (hlength : length < 2 ^ 63) :
    ∃ g', ofSnapshot g.toSnapshot = .ok g' ∧ g'.Indexed ∧ g'.nodes = g.nodes ∧
      g'.counter = g.counter ∧ g'.selection = none := by
  have hwell := h.wellFormed
  have hsorted : g.toSnapshot.sortedNodes = g.nodes :=
    GraphSnapshot.sortedNodes_of_order hwell.ids rfl
  have hcheck : g.toSnapshot.check = .ok () := GraphSnapshot.check_of_wellFormed hwell
  refine ⟨graphOf g.toSnapshot, ofSnapshot_eq_ok.mpr ⟨hcheck, rfl⟩, indexed_graphOf hwell.ids, ?_,
    ?_, ?_⟩
  · exact (nodes_graphOf _).trans hsorted
  · rw [graphOf, nodes_storeOf, hsorted]
    exact h.counter_restored hlength rfl
  · exact selection_graphOf _

end Exportable

/-- Of a graph that fewer than `2 ^ 63` commands have made from the empty one, none of them the
deletion of a subtree at a name node, the import of the export succeeds.  It gives the same nodes in
the same order, the same children of every id, the same orphans, the same counter and the same
assembled rules; only the selection is lost. -/
theorem import_export (layout : Layout) (steps : List (Int64 × GraphCommand))
    (hlength : steps.length < 2 ^ 63)
    (hstrips : ∀ before now command, before ++ [(now, command)] <+: steps →
      ¬ ((empty layout).run before).StripsGroup command) :
    let g := (empty layout).run steps
    ∃ g', ofSnapshot g.toSnapshot = .ok g' ∧ g'.nodes = g.nodes ∧
      (∀ id, g'.childIds id = g.childIds id ∧ g'.childrenOf id = g.childrenOf id) ∧
      g'.orphans = g.orphans ∧ g'.counter = g.counter ∧
      (∀ id, g'.assemble id = g.assemble id) ∧ g'.selection = none := by
  intro g
  have h : g.Exportable steps.length := .run hstrips
  obtain ⟨g', himport, hindexed', hnodes, hcounter, hselection⟩ := h.imported hlength
  have hindexed := h.reached.consistent.indexed
  refine ⟨g', himport, hnodes, fun id => ⟨?_, ?_⟩, ?_, hcounter, fun id => ?_, hselection⟩
  · exact childIds_congr hindexed hindexed' hnodes id
  · exact childrenOf_congr hindexed hindexed' hnodes id
  · exact orphans_congr hindexed hindexed' hnodes
  · exact assemble_congr hindexed hindexed' hnodes h.reached.consistent.forest id

/-- A group that lost its parent is an orphan again after the import. -/
theorem import_export_orphaning : ∃ g', ofSnapshot ((empty .standard).run orphaning).toSnapshot =
    .ok g' ∧ g'.orphans.map Node.id = ["actionGroup-1"] := by
  have hstrips : ∀ before now command, before ++ [(now, command)] <+: orphaning →
      ¬ ((empty .standard).run before).StripsGroup command := by
    intro before now command hsteps
    have hmem : (now, command) ∈ orphaning :=
      hsteps.subset (List.mem_append_right _ (List.mem_singleton.mpr rfl))
    simp only [orphaning, List.mem_cons, Prod.mk.injEq, List.not_mem_nil, or_false] at hmem
    rcases hmem with ⟨-, rfl⟩ | ⟨-, rfl⟩ | ⟨-, rfl⟩ <;> exact id
  obtain ⟨g', himport, -, -, horphans, -⟩ :=
    import_export .standard orphaning (by decide) hstrips
  refine ⟨g', himport, ?_⟩
  rw [horphans]
  decide +kernel

end RuleGraph

end CommissionRules
