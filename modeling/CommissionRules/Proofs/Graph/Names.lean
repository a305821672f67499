import CommissionRules.Proofs.Graph.Growth
import CommissionRules.Proofs.Graph.Walks

/-!
# Name nodes

A group is created with its name node, and a deletion takes both or none, unless it is the
deletion of a subtree that starts at the name node itself.  So the groups of a run keep their
name nodes exactly as long as no such deletion takes place: `RuleGraph.names_kept_iff`.
-/

namespace CommissionRules

namespace RuleGraph

variable {g : RuleGraph}

/-- Every group has one name node among its children, which is of its kind, and every name node is a
child of a group of its kind. -/
structure NamesKept (g : RuleGraph) : Prop where
  named : ∀ group ∈ g.nodes, ∀ nameType, group.type.nameType? = some nameType →
    ∃ name : Node, (g.childNodes group.id).filter (·.type.isName) = [name] ∧ name.type = nameType
  owned : ∀ name ∈ g.nodes, name.type.isName →
    ∃ (p : String) (group : Node), name.parent = some p ∧ g.node? p = some group ∧
      group.type.nameType? = some name.type

/-- The name nodes with a parent. -/
def namesOf (g : RuleGraph) (p : String) : List Node :=
  g.nodes.filter fun node => node.type.isName && node.parent = some p

theorem mem_namesOf {p : String} {node : Node} :
    node ∈ g.namesOf p ↔ node ∈ g.nodes ∧ node.type.isName ∧ node.parent = some p := by
  rw [namesOf, List.mem_filter, Bool.and_eq_true, decide_eq_true_iff]

theorem Consistent.names_eq (h : g.Consistent) (p : String) :
    (g.childNodes p).filter (·.type.isName) = g.namesOf p := by
  rw [h.childNodes_eq, List.filter_filter]
  rfl

theorem isName_nameType? {type nameType : NodeType} (h : type.nameType? = some nameType) :
    type.isName = false ∧ nameType.isName ∧ type.isGroup := by
  cases type <;> cases h <;> decide

theorem isGroup_of_isName {type : NodeType} (h : type.isName) : type.isGroup = false := by
  cases type <;> first | rfl | cases h

theorem NamesKept.empty (layout : Layout) : (empty layout).NamesKept :=
  ⟨fun _ h => (nomatch h), fun _ h => (nomatch h)⟩

/-! ## Creation -/

/-- A creation adds a name node to the new group only. -/
theorem namesOf_withNew {now : Int64} {type : NodeType} (parent : Option String)
    (htype : type.isName = false) (p : String) :
    (g.withNew now type parent).namesOf p = g.namesOf p ++
      if p = g.newId now type then
        (type.nameType?.map fun nameType =>
          g.nameNode (g.newId now type) nameType (g.counter.get type + 1)).toList
      else [] := by
  have hplain : (g.newNode now type parent).type.isName = false := htype
  rw [namesOf, nodes_withNew, List.filter_append, List.filter_cons_of_neg (by simp [hplain])]
  congr 1
  cases hname : type.nameType? with
  | none => split <;> rfl
  | some nameType =>
    have hisName : nameType.isName := (isName_nameType? hname).2.1
    split
    · next heq => simp [nameNode, hisName, heq]
    · next hne => simp [nameNode, Ne.symm hne]

/-- Where the new id is free, a new group has no name node but its own. -/
theorem NamesKept.withNew (h : g.NamesKept) {now : Int64} {type : NodeType}
    {parent : Option String} (htype : type.isName = false) (hconsistent : g.Consistent)
    (hconsistent' : (g.withNew now type parent).Consistent)
    (hfresh : ∀ node ∈ g.nodes, node.id ≠ g.newId now type)
    (hunnamed : ∀ node ∈ g.nodes, node.parent ≠ some (g.newId now type)) :
    (g.withNew now type parent).NamesKept := by
  have hold {node : Node} (hmem : node ∈ g.nodes) : node ∈ (g.withNew now type parent).nodes := by
    rw [nodes_withNew]
    exact List.mem_append_left _ hmem
  have hnone : g.namesOf (g.newId now type) = [] := by
    refine List.eq_nil_iff_forall_not_mem.mpr fun node hmem => ?_
    obtain ⟨hmem, -, hparent⟩ := mem_namesOf.mp hmem
    exact hunnamed node hmem hparent
  constructor
  · intro group hgroup nameType hgroupType
    rw [hconsistent'.names_eq, namesOf_withNew parent htype]
    rw [nodes_withNew] at hgroup
    rcases List.mem_append.mp hgroup with hgroup | hgroup
    · obtain ⟨name, hname, hnameType⟩ := h.named group hgroup nameType hgroupType
      rw [hconsistent.names_eq] at hname
      rw [if_neg (hfresh group hgroup), List.append_nil]
      exact ⟨name, hname, hnameType⟩
    · rcases List.mem_cons.mp hgroup with rfl | hgroup
      · have hname : type.nameType? = some nameType := hgroupType
        have hid : (g.newNode now type parent).id = g.newId now type := rfl
        rw [hid, if_pos rfl, hnone, hname]
        exact ⟨_, rfl, rfl⟩
      · obtain ⟨nameType', hname, rfl⟩ := Option.map_eq_some_iff.mp (Option.mem_toList.mp hgroup)
        have hisName := (isName_nameType? hname).2.1
        have hplain : nameType'.isName = false := (isName_nameType? hgroupType).1
        rw [hplain] at hisName
        cases hisName
  · intro name hmem hisName
    rw [nodes_withNew] at hmem
    rcases List.mem_append.mp hmem with hmem | hmem
    · obtain ⟨p, group, hparent, hfound, hgroupType⟩ := h.owned name hmem hisName
      obtain ⟨hgroup, hid⟩ := hconsistent.node?_eq_some.mp hfound
      exact ⟨p, group, hparent, hconsistent'.node?_eq_some.mpr ⟨hold hgroup, hid⟩, hgroupType⟩
    · rcases List.mem_cons.mp hmem with rfl | hmem
      · have hisName' : type.isName := hisName
        rw [htype] at hisName'
        cases hisName'
      · obtain ⟨nameType, hname, rfl⟩ := Option.map_eq_some_iff.mp (Option.mem_toList.mp hmem)
        refine ⟨g.newId now type, g.newNode now type parent, rfl,
          hconsistent'.node?_eq_some.mpr ⟨?_, rfl⟩, hname⟩
        rw [nodes_withNew]
        exact List.mem_append_right _ List.mem_cons_self

/-! ## Removal -/

/-- The name nodes are kept by a removal that takes a name node exactly if it takes its parent. -/
theorem NamesKept.removeAll (h : g.NamesKept) (hconsistent : g.Consistent) {ids : List String}
    (hids : ∀ name ∈ g.nodes, name.type.isName → ∀ p, name.parent = some p →
      (name.id ∈ ids ↔ p ∈ ids)) : (g.removeAll ids).NamesKept := by
  have hconsistent' := hconsistent.removeAll ids
  have hmem {node : Node} : node ∈ (g.removeAll ids).nodes ↔ node ∈ g.nodes ∧ node.id ∉ ids :=
    hconsistent.mem_removeAll
  constructor
  · intro group hgroup nameType htype
    obtain ⟨hgroup, hkept⟩ := hmem.mp hgroup
    obtain ⟨name, hname, hnameType⟩ := h.named group hgroup nameType htype
    refine ⟨name, ?_, hnameType⟩
    rw [hconsistent.names_eq] at hname
    rw [hconsistent'.names_eq]
    have hsame : (g.removeAll ids).namesOf group.id =
        (g.namesOf group.id).filter fun node => !ids.contains node.id := by
      unfold namesOf
      rw [hconsistent.nodes_removeAll, List.filter_filter, List.filter_filter]
      congr 1
      funext node
      exact Bool.and_comm _ _
    obtain ⟨hnode, hisName, hparent⟩ := mem_namesOf.mp (hname ▸ List.mem_singleton.mpr rfl)
    have hkept' : name.id ∉ ids := fun hmem => hkept ((hids name hnode hisName _ hparent).mp hmem)
    rw [hsame, hname]
    simpa using hkept'
  · intro name hname hisName
    obtain ⟨hname, hkept⟩ := hmem.mp hname
    obtain ⟨p, group, hparent, hfound, htype⟩ := h.owned name hname hisName
    obtain ⟨hgroup, rfl⟩ := hconsistent.node?_eq_some.mp hfound
    refine ⟨group.id, group, hparent, hconsistent'.node?_eq_some.mpr ⟨hmem.mpr ⟨hgroup, ?_⟩, rfl⟩,
      htype⟩
    exact fun hgone => hkept ((hids name hname hisName _ hparent).mpr hgone)

/-- A deletion removes the node and, of a group, the name nodes of its kind. -/
theorem mem_deletionOf (hconsistent : g.Consistent) {node : Node} {id c : String} :
    c ∈ (g.deletionOf node id).removed ↔
      c = id ∨ node.type.isGroup ∧ ∃ child ∈ g.nodes, child.parent = some id ∧ child.id = c ∧
        some child.type = node.type.nameType? := by
  have hname : g.isNameChild node c ↔
      ∃ child, g.node? c = some child ∧ some child.type = node.type.nameType? := by
    rw [isNameChild, Option.any_eq_true]
    simp only [decide_eq_true_iff]
  rw [deletionOf]
  dsimp only
  rw [List.mem_append, List.mem_singleton, or_comm, List.mem_filter, hname]
  refine or_congr_right ⟨?_, ?_⟩
  · intro hremoved
    obtain ⟨hchild, child, hfound, htype⟩ := hremoved
    split at hchild
    · next hgroup =>
      obtain ⟨hmem, hid⟩ := hconsistent.node?_eq_some.mp hfound
      obtain ⟨other, hother, hparent, hid'⟩ := hconsistent.mem_childIds.mp hchild
      rw [hconsistent.eq_of_id hother hmem (hid'.trans hid.symm)] at hparent
      exact ⟨hgroup, child, hmem, hparent, hid, htype⟩
    · cases hchild
  · intro hremoved
    obtain ⟨hgroup, child, hmem, hparent, hid, htype⟩ := hremoved
    rw [if_pos hgroup]
    exact ⟨hconsistent.mem_childIds.mpr ⟨child, hmem, hparent, hid⟩, child,
      hconsistent.node?_eq_some.mpr ⟨hmem, hid⟩, htype⟩

/-- A group goes with its name node, and no other deletion takes a name node. -/
theorem NamesKept.deletion (h : g.NamesKept) (hconsistent : g.Consistent) {id : String}
    {node : Node} (hnode : g.node? id = some node) (hplain : node.type.isName = false) :
    (g.removeAll (g.deletionOf node id).removed).NamesKept := by
  obtain ⟨hmem, hid⟩ := hconsistent.node?_eq_some.mp hnode
  refine h.removeAll hconsistent fun name hname hisName p hparent => ?_
  obtain ⟨p', group, hparent', hfound, htype⟩ := h.owned name hname hisName
  rw [hparent, Option.some.injEq] at hparent'
  subst hparent'
  obtain ⟨hgroup, rfl⟩ := hconsistent.node?_eq_some.mp hfound
  rw [mem_deletionOf hconsistent, mem_deletionOf hconsistent]
  constructor
  · intro hremoved
    rcases hremoved with heq | ⟨-, child, hchild, hup, heq, -⟩
    · rw [hconsistent.eq_of_id hname hmem (heq.trans hid.symm), hplain] at hisName
      cases hisName
    · rw [hconsistent.eq_of_id hchild hname heq, hparent, Option.some.injEq] at hup
      exact .inl hup
  · intro hremoved
    rcases hremoved with heq | ⟨-, child, hchild, -, heq, hchildType⟩
    · have hself : group = node := hconsistent.eq_of_id hgroup hmem (heq.trans hid.symm)
      rw [hself] at htype
      exact .inr ⟨(isName_nameType? htype).2.2, name, hname, heq ▸ hparent, rfl, htype.symm⟩
    · rw [hconsistent.eq_of_id hchild hgroup heq] at hchildType
      have hgroupName := (isName_nameType? hchildType.symm).2.1
      rw [(isName_nameType? htype).1] at hgroupName
      cases hgroupName

/-- A subtree that does not start at a name node takes its name nodes with their groups. -/
theorem NamesKept.subtree (h : g.NamesKept) (hconsistent : g.Consistent) {id : String} {node : Node}
    (hnode : g.node? id = some node) (hplain : node.type.isName = false) :
    (g.removeAll (g.below id)).NamesKept := by
  have hshallow := shallow_of_forest hconsistent.linked hconsistent.forest id
  refine h.removeAll hconsistent fun name hname hisName p hparent => ?_
  constructor
  · intro hmem
    rcases parent_mem_subtree hmem with hid | ⟨y, hy, hchild⟩
    · have heq : g.node? id = some name := hconsistent.node?_eq_some.mpr ⟨hname, hid⟩
      rw [hnode, Option.some.injEq] at heq
      rw [heq, hisName] at hplain
      cases hplain
    · obtain ⟨child, hmem, hchild, hid⟩ := hconsistent.mem_childIds.mp hchild
      rw [hconsistent.eq_of_id hmem hname hid, hparent, Option.some.injEq] at hchild
      exact hchild ▸ hy
  · intro hmem
    exact mem_subtree_of_child hshallow hmem
      (hconsistent.mem_childIds.mpr ⟨name, hname, hparent, rfl⟩)

/-- Only groups have children. -/
theorem Consistent.childIds_eq_nil (h : g.Consistent) {id : String} {node : Node}
    (hnode : g.node? id = some node) (hplain : node.type.isGroup = false) : g.childIds id = [] := by
  refine List.eq_nil_iff_forall_not_mem.mpr fun c hc => ?_
  obtain ⟨child, hchild, hparent, -⟩ := h.mem_childIds.mp hc
  obtain ⟨hmem, hid⟩ := h.node?_eq_some.mp hnode
  obtain ⟨i, hi⟩ := mem_nodes.mp hchild
  obtain ⟨j, hj⟩ := mem_nodes.mp hmem
  have hgroup := (h.earlier hi hj (by rw [hparent, hid])).1
  rw [hplain] at hgroup
  cases hgroup

/-- A name node has nothing below it. -/
theorem below_name (hconsistent : g.Consistent) {id : String} {name : Node}
    (hname : g.node? id = some name) (hisName : name.type.isName) : g.below id = [id] := by
  rw [below, Command.subtree, hconsistent.childIds_eq_nil hname (isGroup_of_isName hisName)]
  rfl

/-- The deletion of a subtree that starts at a name node leaves a group without its name node. -/
theorem NamesKept.not_of_name (h : g.NamesKept) (hconsistent : g.Consistent) {id : String}
    {name : Node} (hname : g.node? id = some name) (hisName : name.type.isName) :
    ¬ (g.removeAll (g.below id)).NamesKept := by
  rw [below_name hconsistent hname hisName]
  show ¬ (g.remove id).NamesKept
  intro hkept
  have hconsistent' := hconsistent.remove id
  obtain ⟨hmem, hid⟩ := hconsistent.node?_eq_some.mp hname
  obtain ⟨p, group, hparent, hfound, htype⟩ := h.owned name hmem hisName
  obtain ⟨hgroup, rfl⟩ := hconsistent.node?_eq_some.mp hfound
  have hstays : group ∈ (g.remove id).nodes := by
    rw [hconsistent.nodes_remove, List.mem_filter, bne_iff_ne]
    refine ⟨hgroup, fun heq => ?_⟩
    rw [hconsistent.eq_of_id hgroup hmem (heq.trans hid.symm)] at htype
    rw [(isName_nameType? htype).1] at hisName
    cases hisName
  -- The group had one name node, and any that it still had would be that one.
  obtain ⟨only, honly, -⟩ := h.named group hgroup _ htype
  obtain ⟨left, hleft, -⟩ := hkept.named group hstays _ htype
  rw [hconsistent.names_eq] at honly
  rw [hconsistent'.names_eq] at hleft
  obtain ⟨hleftMem, hleftName, hleftParent⟩ := mem_namesOf.mp (hleft ▸ List.mem_singleton.mpr rfl)
  rw [hconsistent.nodes_remove, List.mem_filter, bne_iff_ne] at hleftMem
  have hleft' : left ∈ g.namesOf group.id := mem_namesOf.mpr ⟨hleftMem.1, hleftName, hleftParent⟩
  have hname' : name ∈ g.namesOf group.id := mem_namesOf.mpr ⟨hmem, hisName, hparent⟩
  rw [honly, List.mem_singleton] at hleft' hname'
  exact hleftMem.2 (by rw [hleft', ← hname', hid])

/-! ## Data -/

theorem namesOf_bare {g' : RuleGraph}
    (h : g'.slots.map (Option.map Node.bare) = g.slots.map (Option.map Node.bare)) (p : String) :
    (g'.namesOf p).map Node.bare = (g.namesOf p).map Node.bare := by
  have hnames (g : RuleGraph) : (g.namesOf p).map Node.bare =
      (g.nodes.map Node.bare).filter fun node => node.type.isName && node.parent = some p := by
    rw [List.filter_map]
    rfl
  rw [hnames, hnames, map_nodes_of_slots h]

theorem NamesKept.withData (h : g.NamesKept) (hconsistent : g.Consistent) {slot : Nat} {node : Node}
    (data : Json) (hnode : g.slots[slot]? = some (some node)) :
    (g.withData slot node data).NamesKept := by
  have hbare := bare_withData data hnode
  have hconsistent' := hconsistent.withData data hnode
  constructor
  · intro group hgroup nameType htype
    obtain ⟨group', hgroup', hid, htype', -⟩ := mem_of_bare hbare hgroup
    rw [← htype'] at htype
    obtain ⟨name, hname, hnameType⟩ := h.named group' hgroup' nameType htype
    rw [hconsistent.names_eq, hid] at hname
    have hnames := namesOf_bare hbare group.id
    rw [hname] at hnames
    obtain ⟨name', hname', heq⟩ := List.map_eq_singleton_iff.mp hnames
    rw [hconsistent'.names_eq]
    exact ⟨name', hname', (congrArg Node.type heq).trans hnameType⟩
  · intro name hname hisName
    obtain ⟨name', hname', -, htype', hparent'⟩ := mem_of_bare hbare hname
    rw [← htype'] at hisName
    obtain ⟨p, group, hparent, hgroup, htype⟩ := h.owned name' hname' hisName
    obtain ⟨group', hgroup', -, hgroupType, -⟩ := node?_of_bare hbare.symm rfl hgroup
    refine ⟨p, group', hparent'.symm.trans hparent, hgroup', ?_⟩
    rw [hgroupType, htype, htype']

/-! ## Commands and runs -/

/-- A deletion of a subtree that starts at a name node. -/
def StripsGroup (g : RuleGraph) : GraphCommand → Prop
  | .deleteSubtree id => ∃ name, g.node? id = some name ∧ name.type.isName
  | _ => False

theorem NamesKept.effect {length : Nat} (h : g.NamesKept) (hreached : g.Reached length)
    {now : Int64} {command : GraphCommand} {answer : Except CommandFailure CommandOutcome}
    {g' : RuleGraph}
    (heffect : Effect g now command answer g') (hstrips : ¬ g.StripsGroup command) :
    g'.NamesKept := by
  have hconsistent := hreached.consistent
  cases heffect with
  | refused => exact h
  | overflowed => exact h
  | created type requested parent hname hparent hrange =>
    obtain ⟨hfresh, hunnamed⟩ := newId_free hconsistent hreached.recorded hrange
    exact h.withNew hname hconsistent (hreached.withNew hparent hrange).consistent hfresh hunnamed
  | updated id patch slot node hslot hnode => exact h.withData hconsistent _ hnode
  | deleted id node hnode hname => exact h.deletion hconsistent hnode hname
  | deletedSubtree id hid =>
    obtain ⟨node, hmem, hnode⟩ := hconsistent.contains_iff.mp hid
    have hfound := hconsistent.node?_eq_some.mpr ⟨hmem, hnode⟩
    refine h.subtree hconsistent hfound (Bool.eq_false_iff.mpr fun hisName => ?_)
    exact hstrips ⟨node, hfound, hisName⟩
  | selected => exact ⟨h.named, h.owned⟩
  | unselected => exact ⟨h.named, h.owned⟩

theorem StripsGroup.not_namesKept (hkept : g.NamesKept) (hconsistent : g.Consistent) {now : Int64}
    {command : GraphCommand} (h : g.StripsGroup command) :
    ¬ (g.dispatch now command).2.NamesKept := by
  cases command with
  | deleteSubtree id =>
    obtain ⟨name, hname, hisName⟩ := h
    have hmem := (hconsistent.node?_eq_some.mp hname)
    rw [dispatch_deleteSubtree, if_pos (hconsistent.contains_iff.mpr ⟨name, hmem⟩)]
    exact hkept.not_of_name hconsistent hname hisName
  | create | update | delete | select | clearSelection => exact h.elim

/-- In a run from the empty graph every group keeps its name node, and every name node its group,
exactly if no deletion of a subtree in it starts at a name node. -/
theorem names_kept_iff (layout : Layout) (steps : List (Int64 × GraphCommand)) :
    (∀ before, before <+: steps → ((empty layout).run before).NamesKept) ↔
      ∀ before now command, before ++ [(now, command)] <+: steps →
        ¬ ((empty layout).run before).StripsGroup command := by
  constructor
  · intro h before now command hsteps hstrips
    have hbefore := (List.prefix_append before [(now, command)]).trans hsteps
    have hafter := h _ hsteps
    rw [run_concat] at hafter
    exact hstrips.not_namesKept (h before hbefore) (reached_run layout before).consistent hafter
  · intro h before hsteps
    induction before using List.reverseRecOn with
    | nil => exact .empty layout
    | append_singleton before step ih =>
      have hbefore := (List.prefix_append before [step]).trans hsteps
      rw [run_concat]
      exact (ih hbefore).effect (reached_run layout before) (dispatch_effect _ _ _)
        (h before _ _ hsteps)

/-- A run of one creation keeps the name node that it makes. -/
theorem names_kept_group :
    ((empty .standard).run [(0, .create .ruleGroup none)]).NamesKept := by
  refine (names_kept_iff .standard _).mpr ?_ _ List.prefix_rfl
  intro before now command hsteps hstrips
  have hmem : (now, command) ∈ [((0 : Int64), GraphCommand.create .ruleGroup none)] :=
    hsteps.subset (List.mem_append_right _ (List.mem_singleton.mpr rfl))
  cases List.mem_singleton.mp hmem
  exact hstrips

/-- The deletion of the subtree at the name node of a new group leaves the group alone. -/
theorem stripped_group : ¬ ((empty .standard).run
    [(0, .create .ruleGroup none), (0, .deleteSubtree "ruleName-1")]).NamesKept := by
  have hnodes : ((empty .standard).run [(0, .create .ruleGroup none),
      (0, .deleteSubtree "ruleName-1")]).nodes.map (fun node => (node.id, node.type)) =
        [("ruleGroup-1", NodeType.ruleGroup)] := by decide +kernel
  have hchildren : (((empty .standard).run [(0, .create .ruleGroup none),
      (0, .deleteSubtree "ruleName-1")]).childNodes "ruleGroup-1").length = 0 := by decide +kernel
  generalize (empty .standard).run _ = g at hnodes hchildren
  intro h
  obtain ⟨group, hgroup, heq⟩ := List.mem_map.mp (hnodes ▸ List.mem_singleton.mpr rfl)
  rw [Prod.mk.injEq] at heq
  obtain ⟨name, hname, -⟩ := h.named group hgroup .ruleName (by rw [heq.2]; rfl)
  rw [heq.1, List.eq_nil_of_length_eq_zero hchildren] at hname
  cases hname

end RuleGraph

end CommissionRules
