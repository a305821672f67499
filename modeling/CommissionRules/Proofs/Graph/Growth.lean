import CommissionRules.Proofs.Graph.Consistency
import CommissionRules.Proofs.Graph.Ids
import CommissionRules.Proofs.Graph.Order

/-!
# Growth

A graph that grows from the empty one gives every node a new id: the counter of a type is at
least the number in every id of that type that was ever given, and the numbers that come from
the clock are checked against the nodes.  The ids of groups come from counters only, so that a
new id is not that of a missing parent either.  No creation takes a count that is out of range, so
that every graph of a run is consistent: `RuleGraph.reached_run`.
-/

namespace CommissionRules

theorem NodeCounter.isSome_next? {counter : NodeCounter} {type : NodeType} :
    (counter.next? type).isSome ↔ (counter.get type).toNat + 1 < 2 ^ 64 := by
  rw [next?]
  split
  · next hcount => exact iff_of_true rfl hcount
  · next hcount => exact iff_of_false Bool.false_ne_true hcount

namespace RuleGraph

variable {g : RuleGraph}

theorem InRange.count {now : Int64} {type : NodeType} (h : g.InRange now type) :
    (g.counter.get type).toNat + 1 < 2 ^ 64 := NodeCounter.isSome_next?.mp h.counted

theorem InRange.nameCount {now : Int64} {type : NodeType} (h : g.InRange now type)
    (nameType : NodeType) (hname : type.nameType? = some nameType) :
    (g.counter.get nameType).toNat + 1 < 2 ^ 64 :=
  NodeCounter.isSome_next?.mp (h.nameCounted nameType hname)

/-- The name node of a group is counted after the group, in a counter of its own. -/
theorem InRange.nameCount_withNode {now : Int64} {type nameType : NodeType}
    (h : g.InRange now type) (parent : Option String) (hname : type.nameType? = some nameType) :
    ((g.withNode now type parent).counter.get nameType).toNat + 1 < 2 ^ 64 := by
  rw [get_withNode parent hname]
  exact h.nameCount nameType hname

/-! ## Ids that were given -/

/-- The graph has given an id to a node of a type, be it still there or not. -/
def Issued (g : RuleGraph) (type : NodeType) (id : String) : Prop :=
  if type.requiresGroup then ∃ token, id = tokenId type token
  else ∃ count, count ≤ g.counter.get type ∧ id = counterId type count

/-- The ids of the nodes and of their parents were given by the graph. -/
structure Recorded (g : RuleGraph) : Prop where
  id : ∀ node ∈ g.nodes, g.Issued node.type node.id
  parent : ∀ node ∈ g.nodes, ∀ p, node.parent = some p → ∃ type, type.isGroup ∧ g.Issued type p

theorem Issued.mono {g' : RuleGraph} {type : NodeType} {id : String} (h : g.Issued type id)
    (hle : g.counter.get type ≤ g'.counter.get type) : g'.Issued type id := by
  rw [Issued] at h ⊢
  split
  · next hgroup => rwa [if_pos hgroup] at h
  · next hgroup =>
    rw [if_neg hgroup] at h
    obtain ⟨count, hcount, hid⟩ := h
    exact ⟨count, UInt64.le_trans hcount hle, hid⟩

theorem counterId_ne_tokenId {type type' : NodeType} (h : type ≠ type') (count : UInt64)
    (token : Int64) : counterId type count ≠ tokenId type' token :=
  fun heq => h (NodeType.idText_inj.mp heq).1

theorem isGroup_requiresGroup {type : NodeType} (h : type.isGroup) :
    type.requiresGroup = false := by
  cases type <;> first | rfl | cases h

theorem toNat_succ {count : UInt64} (h : count.toNat + 1 < 2 ^ 64) :
    (count + 1).toNat = count.toNat + 1 := by
  rw [UInt64.toNat_add]
  show (count.toNat + 1) % 2 ^ 64 = count.toNat + 1
  omega

/-- The next id of a counter was not given. -/
theorem not_issued_counterId {type : NodeType} (htype : type.requiresGroup = false)
    (hcount : (g.counter.get type).toNat + 1 < 2 ^ 64) (type' : NodeType) :
    ¬ g.Issued type' (counterId type (g.counter.get type + 1)) := by
  rw [Issued]
  split
  · next hgroup =>
    intro hissued
    obtain ⟨token, hid⟩ := hissued
    have hne : type ≠ type' := by
      intro heq
      subst heq
      rw [htype] at hgroup
      cases hgroup
    exact counterId_ne_tokenId hne _ _ hid
  · intro hissued
    obtain ⟨count, hle, hid⟩ := hissued
    obtain ⟨rfl, rfl⟩ := counterId_inj.mp hid
    rw [UInt64.le_iff_toNat_le, toNat_succ hcount] at hle
    omega

/-- The next id of a counter is not that of a node, nor that of a parent. -/
theorem counterId_free (hrecorded : g.Recorded) {type : NodeType}
    (htype : type.requiresGroup = false) (hcount : (g.counter.get type).toNat + 1 < 2 ^ 64) :
    (∀ node ∈ g.nodes, node.id ≠ counterId type (g.counter.get type + 1)) ∧
      ∀ node ∈ g.nodes, node.parent ≠ some (counterId type (g.counter.get type + 1)) := by
  have hnew := not_issued_counterId htype hcount
  constructor
  · intro node hmem hid
    exact hnew node.type (hid ▸ hrecorded.id node hmem)
  · intro node hmem hparent
    obtain ⟨group, -, hissued⟩ := hrecorded.parent node hmem _ hparent
    exact hnew group hissued

/-- A number that the search finds is the least that may be given. -/
theorem newToken_isLeast {now : Int64} {type : NodeType}
    (hnumber : (g.nextToken now type).isSome) :
    IsLeast {token | g.Available now type token} (g.newToken now type) := by
  obtain ⟨token, htoken⟩ := Option.isSome_iff_exists.mp hnumber
  rw [newToken, htoken]
  exact nextToken_isLeast htoken

/-- The id of a new node is not that of a node, nor that of a parent. -/
theorem newId_free (hconsistent : g.Consistent) (hrecorded : g.Recorded) {now : Int64}
    {type : NodeType} (hrange : g.InRange now type) :
    (∀ node ∈ g.nodes, node.id ≠ g.newId now type) ∧
      ∀ node ∈ g.nodes, node.parent ≠ some (g.newId now type) := by
  rw [newId]
  split
  · next htype =>
    constructor
    · intro node hmem hid
      have hfree := (newToken_isLeast (hrange.number htype)).1.free
      rw [hconsistent.contains_iff.mpr ⟨node, hmem, hid⟩] at hfree
      cases hfree
    -- A parent is a group, and the ids of groups come from counters.
    · intro node hmem hparent
      obtain ⟨group, hgroup, hissued⟩ := hrecorded.parent node hmem _ hparent
      have hcounted := isGroup_requiresGroup hgroup
      rw [Issued] at hissued
      rw [if_neg (by rw [hcounted]; exact Bool.false_ne_true)] at hissued
      obtain ⟨count, -, hid⟩ := hissued
      refine counterId_ne_tokenId ?_ _ _ hid.symm
      intro heq
      subst heq
      rw [htype] at hcounted
      cases hcounted
  · next htype => exact counterId_free hrecorded (Bool.eq_false_iff.mpr htype) hrange.count

/-! ## Creation -/

theorem get_add (node : Node) (type : NodeType) :
    (g.add node).counter.get type =
      if type = node.type then g.counter.get type + 1 else g.counter.get type := by
  show (g.counter.set node.type (g.counter.get node.type + 1)).get type = _
  rw [NodeCounter.get_set]
  split
  · next heq => rw [heq]
  · rfl

theorem get_le_add {node : Node} (hcount : (g.counter.get node.type).toNat + 1 < 2 ^ 64)
    (type : NodeType) : g.counter.get type ≤ (g.add node).counter.get type := by
  rw [get_add]
  split
  · next heq =>
    rw [heq, UInt64.le_iff_toNat_le, toNat_succ hcount]
    omega
  · exact UInt64.le_refl _

theorem Recorded.add (h : g.Recorded) {node : Node}
    (hcount : (g.counter.get node.type).toNat + 1 < 2 ^ 64)
    (hid : (g.add node).Issued node.type node.id)
    (hparent : ∀ p, node.parent = some p → ∃ type, type.isGroup ∧ g.Issued type p) :
    (g.add node).Recorded := by
  constructor
  · intro other hmem
    rw [nodes_add] at hmem
    rcases List.mem_append.mp hmem with hmem | hmem
    · exact (h.id other hmem).mono (get_le_add hcount _)
    · rwa [List.mem_singleton.mp hmem]
  · intro other hmem p hother
    have hissued : ∃ type, type.isGroup ∧ g.Issued type p := by
      rw [nodes_add] at hmem
      rcases List.mem_append.mp hmem with hmem | hmem
      · exact h.parent other hmem p hother
      · rw [List.mem_singleton.mp hmem] at hother
        exact hparent p hother
    obtain ⟨type, hgroup, hissued⟩ := hissued
    exact ⟨type, hgroup, hissued.mono (get_le_add hcount _)⟩

theorem Consistent.recount (h : g.Consistent) (counter : NodeCounter) (lastToken : Int64) :
    ({ g with counter, lastToken } : RuleGraph).Consistent :=
  ⟨h.index, h.children, h.pruned, h.selected, h.earlier, h.grouped, h.start⟩

theorem Consistent.add (h : g.Consistent) {node : Node}
    (hfresh : ∀ other ∈ g.nodes, other.id ≠ node.id)
    (hunnamed : ∀ other ∈ g.nodes, other.parent ≠ some node.id)
    (hparent : ∀ p, node.parent = some p →
      ∃ parent : Node, g.node? p = some parent ∧ parent.type.isGroup)
    (hgrouped : node.type.requiresGroup → node.parent ≠ none)
    (hstart : node.type = .initial → node.parent = none) : (g.add node).Consistent :=
  (h.recount _ g.lastToken).insert hfresh hunnamed hparent hgrouped hstart

/-- The parent of a new node is a group; only a start node is without one in any case, and only a
node that needs no group can be without one. -/
theorem newParent_eq_ok (h : g.Linked) {type : NodeType} {requested parent : Option String}
    (hparent : g.newParent type requested = .ok parent) :
    (∀ p, parent = some p → ∃ node : Node, g.node? p = some node ∧ node.type.isGroup) ∧
      (type.requiresGroup → parent ≠ none) ∧ (type = .initial → parent = none) := by
  rw [newParent] at hparent
  split at hparent
  · next id hid =>
    cases hgroup : g.group id with
    | error e =>
      rw [hgroup] at hparent
      cases hparent
    | ok group =>
      rw [hgroup] at hparent
      cases hparent
      obtain ⟨hnode, htype⟩ := group_eq_ok.mp hgroup
      refine ⟨fun p hp => ?_, fun _ => Option.some_ne_none _, fun hinitial => ?_⟩
      · cases hp
        rw [h.node?_id hnode]
        exact ⟨group, hnode, htype⟩
      · rw [if_pos hinitial] at hid
        cases hid
  · split at hparent
    · cases hparent
    · next hgroup =>
      cases hparent
      exact ⟨fun _ hp => (nomatch hp), fun htype => absurd htype hgroup, fun _ => rfl⟩

theorem withNode_sound (hconsistent : g.Consistent) (hrecorded : g.Recorded) {now : Int64}
    {type : NodeType} {requested parent : Option String}
    (hparent : g.newParent type requested = .ok parent) (hrange : g.InRange now type) :
    (g.withNode now type parent).Consistent ∧ (g.withNode now type parent).Recorded := by
  obtain ⟨hfresh, hunnamed⟩ := newId_free hconsistent hrecorded hrange
  obtain ⟨hgroup, hgrouped, hstart⟩ := newParent_eq_ok hconsistent.linked hparent
  have hallocated : (g.allocated now type).Consistent := hconsistent.recount g.counter _
  have hallocated' : (g.allocated now type).Recorded := ⟨hrecorded.id, hrecorded.parent⟩
  refine ⟨hallocated.add hfresh hunnamed hgroup hgrouped hstart, hallocated'.add hrange.count ?_ ?_⟩
  · show Issued _ type (g.newId now type)
    rw [Issued, newId]
    split
    · exact ⟨_, rfl⟩
    · refine ⟨_, ?_, rfl⟩
      rw [get_add]
      exact UInt64.le_of_eq (if_pos rfl).symm
  · intro p hp
    obtain ⟨node, hnode, htype⟩ := hgroup p hp
    obtain ⟨hmem, rfl⟩ := hconsistent.node?_eq_some.mp hnode
    exact ⟨node.type, htype, hrecorded.id node hmem⟩

theorem nameType?_eq_some {type nameType : NodeType} (h : type.nameType? = some nameType) :
    type.isGroup ∧ nameType.requiresGroup = false ∧ nameType ≠ .initial := by
  cases type <;> cases h <;> decide

theorem mem_add (node : Node) : node ∈ (g.add node).nodes := by
  rw [nodes_add]
  exact List.mem_append_right _ (List.mem_singleton.mpr rfl)

theorem Linked.size_le (h : g.Linked) : g.size ≤ g.slots.length := by
  have hsubset : g.index.keys ⊆ g.nodes.map Node.id := by
    intro id hid
    obtain ⟨slot, hslot⟩ := Option.isSome_iff_exists.mp (Dict.mem_keys.mp hid)
    obtain ⟨node, hnode, rfl⟩ := h.slot hslot
    exact List.mem_map_of_mem (mem_nodes.mpr ⟨slot, hnode⟩)
  have hle := (g.index.nodup_keys.subperm hsubset).length_le
  rw [Dict.length_keys, List.length_map] at hle
  exact hle.trans (List.length_filterMap_le _ _)

/-- The name node of a group that was just added gets a free id as well. -/
theorem withName_sound (hconsistent : g.Consistent) (hrecorded : g.Recorded) {group : Node}
    {nameType : NodeType} (hgroup : group ∈ g.nodes) (hname : group.type.nameType? = some nameType)
    (hcount : (g.counter.get nameType).toNat + 1 < 2 ^ 64) (index : UInt64) :
    (g.add (g.nameNode group.id nameType index)).Consistent ∧
      (g.add (g.nameNode group.id nameType index)).Recorded := by
  obtain ⟨htype, hcounted, hinitial⟩ := nameType?_eq_some hname
  have hplain : ¬ nameType.requiresGroup := Bool.eq_false_iff.mp hcounted
  have hfree := counterId_free hrecorded hcounted hcount
  constructor
  · refine hconsistent.add hfree.1 hfree.2 ?_ (absurd · hplain) (absurd · hinitial)
    intro p hp
    cases hp
    exact ⟨group, hconsistent.node?_eq_some.mpr ⟨hgroup, rfl⟩, htype⟩
  · refine hrecorded.add hcount ?_ ?_
    · show Issued _ nameType (g.nameId nameType)
      rw [Issued, if_neg hplain]
      refine ⟨_, ?_, rfl⟩
      rw [get_add]
      exact UInt64.le_of_eq (if_pos rfl).symm
    · intro p hp
      cases hp
      exact ⟨group.type, htype, hrecorded.id group hgroup⟩

theorem withNew_sound (hconsistent : g.Consistent) (hrecorded : g.Recorded) {now : Int64}
    {type : NodeType} {requested parent : Option String}
    (hparent : g.newParent type requested = .ok parent) (hrange : g.InRange now type) :
    (g.withNew now type parent).Consistent ∧ (g.withNew now type parent).Recorded := by
  have hnode := withNode_sound hconsistent hrecorded hparent hrange
  rw [withNew]
  cases hname : type.nameType? with
  | none => exact hnode
  | some nameType =>
    dsimp only
    have hcount := hrange.nameCount_withNode parent hname
    have hmem : g.newNode now type parent ∈ (g.withNode now type parent).nodes := mem_add _
    obtain ⟨hconsistent', hrecorded'⟩ :=
      withName_sound hnode.1 hnode.2 hmem hname hcount (g.counter.get type + 1)
    refine ⟨hconsistent'.withSelection ?_, hrecorded'.id, hrecorded'.parent⟩
    intro id hid
    cases hid
    refine ⟨g.newNode now type parent, hconsistent'.node?_eq_some.mpr ⟨?_, rfl⟩,
      (nameType?_eq_some hname).1⟩
    rw [nodes_add]
    exact List.mem_append_left _ hmem

theorem counter_withNew_le (now : Int64) (type : NodeType) (parent : Option String)
    (type' : NodeType) :
    ((g.withNew now type parent).counter.get type').toNat ≤ (g.counter.get type').toNat + 1 := by
  have succ_le (count : UInt64) : (count + 1).toNat ≤ count.toNat + 1 := by
    rw [UInt64.toNat_add]
    exact Nat.mod_le _ _
  have hnode : (g.withNode now type parent).counter.get type' =
      if type' = type then g.counter.get type' + 1 else g.counter.get type' :=
    get_add (g.newNode now type parent) type'
  rw [withNew]
  cases hname : type.nameType? with
  | none =>
    dsimp only
    rw [hnode]
    split
    · exact succ_le _
    · exact Nat.le_succ _
  | some nameType =>
    dsimp only
    show ((add _ _).counter.get type').toNat ≤ _
    rw [get_add, hnode]
    split
    · next heq =>
      have hne : type' ≠ type := heq ▸ nameType?_ne hname
      rw [if_neg hne]
      exact succ_le _
    · split
      · exact succ_le _
      · exact Nat.le_succ _

theorem length_slots_withNew_le (now : Int64) (type : NodeType) (parent : Option String) :
    (g.withNew now type parent).slots.length ≤ g.slots.length + 2 := by
  have hadd (g : RuleGraph) (node : Node) : (g.add node).slots.length = g.slots.length + 1 :=
    List.length_append
  have hnode : (g.withNode now type parent).slots.length = g.slots.length + 1 :=
    hadd _ (g.newNode now type parent)
  rw [withNew]
  cases type.nameType? with
  | none =>
    dsimp only
    omega
  | some nameType =>
    show (add _ _).slots.length ≤ _
    rw [hadd, hnode]

/-! ## Runs -/

/-- A graph that as many commands can have made from the empty one. -/
structure Reached (g : RuleGraph) (length : Nat) : Prop where
  consistent : g.Consistent
  recorded : g.Recorded
  counter : ∀ type, (g.counter.get type).toNat ≤ length
  slots : g.slots.length ≤ 2 * length

namespace Reached

variable {length : Nat}

theorem empty (layout : Layout) : (empty layout).Reached 0 where
  consistent := .empty layout
  recorded := ⟨fun _ h => (nomatch h), fun _ h => (nomatch h)⟩
  counter type := by cases type <;> exact Nat.le_refl 0
  slots := Nat.le_refl 0

theorem succ (h : g.Reached length) : g.Reached (length + 1) :=
  ⟨h.consistent, h.recorded, fun type => Nat.le_succ_of_le (h.counter type),
    Nat.le_trans h.slots (by omega)⟩

theorem remove (h : g.Reached length) (id : String) : (g.remove id).Reached length := by
  obtain ⟨-, heq⟩ | ⟨slot, node, -, hnode, -, heq⟩ := h.consistent.linked.remove_cases id
  · rwa [heq]
  · rw [heq]
    refine ⟨h.consistent.without hnode, ⟨?_, ?_⟩, h.counter, ?_⟩
    · exact fun other hmem => h.recorded.id other (mem_nodes_without hmem)
    · exact fun other hmem => h.recorded.parent other (mem_nodes_without hmem)
    · rw [without]
      rw [List.length_set]
      exact h.slots

theorem removeAll (h : g.Reached length) (ids : List String) :
    (g.removeAll ids).Reached length := by
  induction ids generalizing g with
  | nil => exact h
  | cons id ids ih => exact ih (h.remove id)

theorem withData (h : g.Reached length) {slot : Nat} {node : Node} (data : Json)
    (hnode : g.slots[slot]? = some (some node)) : (g.withData slot node data).Reached length := by
  have hbare := bare_withData data hnode
  refine ⟨h.consistent.withData data hnode, ⟨?_, ?_⟩, h.counter, ?_⟩
  · intro other hmem
    obtain ⟨other', hmem', hid, htype, -⟩ := mem_of_bare hbare hmem
    rw [← hid, ← htype]
    exact h.recorded.id other' hmem'
  · intro other hmem p hparent
    obtain ⟨other', hmem', -, -, hup⟩ := mem_of_bare hbare hmem
    exact h.recorded.parent other' hmem' p (hup.trans hparent)
  · rw [RuleGraph.withData]
    rw [List.length_set]
    exact h.slots

theorem withSelection (h : g.Reached length) {selection : Option String}
    (hselection : ∀ id, selection = some id →
      ∃ node : Node, g.node? id = some node ∧ node.type.isGroup) :
    (g.withSelection selection).Reached length :=
  ⟨h.consistent.withSelection hselection, ⟨h.recorded.id, h.recorded.parent⟩, h.counter, h.slots⟩

theorem withNew (h : g.Reached length) {now : Int64} {type : NodeType}
    {requested parent : Option String} (hparent : g.newParent type requested = .ok parent)
    (hrange : g.InRange now type) : (g.withNew now type parent).Reached (length + 1) := by
  have hslots := h.slots
  obtain ⟨hconsistent, hrecorded⟩ := withNew_sound h.consistent h.recorded hparent hrange
  refine ⟨hconsistent, hrecorded, fun type' => ?_, ?_⟩
  · have hle := counter_withNew_le (g := g) now type parent type'
    exact Nat.le_trans hle (Nat.succ_le_succ (h.counter type'))
  · have := length_slots_withNew_le (g := g) now type parent
    omega

theorem effect (h : g.Reached length) {now : Int64} {command : GraphCommand}
    {answer : Except CommandFailure CommandOutcome} {g' : RuleGraph}
    (heffect : Effect g now command answer g') : g'.Reached (length + 1) := by
  cases heffect with
  | refused => exact h.succ
  | overflowed => exact h.succ
  | created type requested parent hname hparent hrange => exact h.withNew hparent hrange
  | updated id patch slot node hslot hnode => exact (h.withData _ hnode).succ
  | deleted => exact (h.removeAll _).succ
  | deletedSubtree => exact (h.removeAll _).succ
  | selected id node hgroup =>
    refine (h.withSelection fun id' hid => ?_).succ
    cases hid
    exact ⟨node, group_eq_ok.mp hgroup⟩
  | unselected =>
    refine (h.withSelection fun id hid => ?_).succ
    cases hid

/-- So few commands leave room in the counters, and so only the search for a number can overflow. -/
theorem inRange_iff (h : g.Reached length) (hlength : length < 2 ^ 63) {now : Int64}
    {type : NodeType} : g.InRange now type ↔
      (type.requiresGroup → ∃ token, g.Available now type token) := by
  have hcount (type : NodeType) : (g.counter.next? type).isSome := by
    have := h.counter type
    exact NodeCounter.isSome_next?.mpr (by omega)
  constructor
  · exact fun hrange hgroup => nextToken_isSome_iff.mp (hrange.number hgroup)
  · intro hnumber
    exact ⟨hcount type, fun nameType _ => hcount nameType,
      fun hgroup => nextToken_isSome_iff.mpr (hnumber hgroup)⟩

end Reached

theorem reached_run (layout : Layout) (steps : List (Int64 × GraphCommand)) :
    ((empty layout).run steps).Reached steps.length := by
  induction steps using List.reverseRecOn with
  | nil => exact .empty layout
  | append_singleton before step ih =>
    rw [List.length_append, List.length_singleton, run_concat]
    exact ih.effect (dispatch_effect _ _ _)

/-- In every graph that commands make from the empty one, the slots are in the order of creation,
the ids are unique and indexed, the lists of children are those of the parents and no list is kept
in vain, a group is selected if anything is, every parent is a group of an earlier slot, and
conditions, operators and the start node stand where they may. -/
theorem run_consistent (layout : Layout) (steps : List (Int64 × GraphCommand)) :
    let g := (empty layout).run steps
    (∀ before, before <+: steps → ((empty layout).run before).Continues g) ∧
    ((g.nodes.map Node.id).Nodup ∧
      (∀ (id : String) (slot : Nat), g.index.get? id = some slot ↔
        ∃ node : Node, g.slots[slot]? = some (some node) ∧ node.id = id) ∧
      g.size = g.nodes.length) ∧
    (∀ p, g.childIds p = (g.nodes.filter fun node => node.parent = some p).map Node.id ∧
      (g.childIds p).Nodup ∧
      ((g.children.get? p).isSome → g.contains p ∨ ∃ node ∈ g.nodes, node.parent = some p)) ∧
    (∀ id, g.selection = some id → ∃ node : Node, g.node? id = some node ∧ node.type.isGroup) ∧
    ((∀ (i j : Nat) (node parent : Node), g.slots[i]? = some (some node) →
        g.slots[j]? = some (some parent) → node.parent = some parent.id →
          parent.type.isGroup ∧ j < i) ∧
      g.Forest) ∧
    ∀ node ∈ g.nodes, (node.type.requiresGroup → node.parent ≠ none) ∧
      (node.type = .initial → node.parent = none) := by
  intro g
  have h : g.Consistent := (reached_run layout steps).consistent
  refine ⟨fun before hbefore => ?_, ⟨h.nodup_ids, fun _ _ => h.index, h.size_eq⟩, fun p => ?_,
    fun _ => h.selected, ⟨fun _ _ _ _ => h.earlier, h.forest⟩, fun node hmem => ?_⟩
  · exact continues_run_of_prefix (Linked.empty layout) hbefore
  · exact ⟨h.children p, h.nodup_childIds p, h.children_needed⟩
  · exact ⟨h.grouped node hmem, h.start node hmem⟩

/-- A group is created in another one and loses it again. -/
def orphaning : List (Int64 × GraphCommand) :=
  [(0, .create .ruleGroup none), (0, .create .actionGroup none), (0, .delete "ruleGroup-1")]

theorem run_consistent_orphaning :
    ((empty .standard).run orphaning).size = ((empty .standard).run orphaning).nodes.length :=
  (run_consistent .standard orphaning).2.1.2.2

example : ((empty .standard).run orphaning).nodes.map (fun node => (node.id, node.parent)) =
    [("actionGroup-1", some "ruleGroup-1"), ("actionName-1", some "actionGroup-1")] := by
  decide +kernel

end RuleGraph

end CommissionRules
