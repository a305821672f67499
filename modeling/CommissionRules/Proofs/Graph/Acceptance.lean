import CommissionRules.Proofs.Graph.Import

/-!
# Accepted snapshots

The checks of an import let exactly the well-formed lists of nodes pass:
`GraphSnapshot.check_iff_wellFormed`.  A list is well-formed if the ids are different, the name
nodes and the groups belong to each other, conditions and operators stand in no other node than a
group, and no node is its own ancestor.  The counter and the order of a snapshot have no part in it,
nor has the order of the nodes.
-/

namespace CommissionRules

open Relation

theorem NodeType.isSome_nameType? (type : NodeType) : type.nameType?.isSome = type.isGroup := by
  cases type <;> rfl

namespace GraphSnapshot

variable {nodes : List Node} {node : Node}

/-- A node stands where its type allows. -/
structure Fits (nodes : List Node) (node : Node) : Prop where
  /-- A name node belongs to a group of its kind. -/
  name : node.type.isName → ∃ group ∈ nodes, node.parent = some group.id ∧
    group.type.nameType? = some node.type
  /-- The parent of a condition or an operator is a group, if it is there. -/
  grouped : node.type.requiresGroup → ∀ parent ∈ nodes, node.parent = some parent.id →
    parent.type.isGroup

/-- The id of the group to which a name node belongs. -/
def named? (node : Node) : Option String := if node.type.isName then node.parent else none

theorem named?_eq_some {p : String} :
    named? node = some p ↔ node.type.isName ∧ node.parent = some p := by
  rw [named?]
  split
  · next hname => rw [and_iff_right hname]
  · next hname => exact iff_of_false (fun h => nomatch h) fun h => hname h.1

theorem mem_named_iff {p : String} : p ∈ nodes.filterMap named? ↔
    ∃ name ∈ nodes, name.type.isName ∧ name.parent = some p := by
  simp only [List.mem_filterMap, named?_eq_some]

structure WellFormed (nodes : List Node) : Prop where
  ids : (nodes.map Node.id).Nodup
  fits : ∀ node ∈ nodes, Fits nodes node
  /-- No group has two name nodes. -/
  named : (nodes.filterMap named?).Nodup
  /-- Every group has a name node. -/
  complete : ∀ group ∈ nodes, group.type.isGroup → group.id ∈ nodes.filterMap named?
  acyclic : ∀ id, ¬ TransGen (Names nodes) id id

/-! ## The checks of one node -/

/-- A node whose parent is not there fits unless it is a name node. -/
theorem fits_iff_of_alone (halone : node.parent.bind (find? nodes) = none) :
    Fits nodes node ↔ ¬ node.type.isName := by
  have hnone := bind_find?_eq_none halone
  constructor
  · intro hfits hname
    obtain ⟨group, hmem, hlink, -⟩ := hfits.name hname
    exact hnone group hmem hlink
  · intro hname
    exact ⟨fun hisName => absurd hisName hname,
      fun _ other hmem hlink => absurd hlink (hnone other hmem)⟩

/-- A node whose parent is there fits if this parent, the only one with its id, has the right
type. -/
theorem fits_iff_of_attached (hids : (nodes.map Node.id).Nodup) {parent : Node}
    (hattached : node.parent.bind (find? nodes) = some parent) :
    Fits nodes node ↔ (node.type.requiresGroup → parent.type.isGroup) ∧
      (node.type.isName → parent.type.nameType? = some node.type) := by
  obtain ⟨hfound, hparent⟩ := bind_find?_eq_some hattached
  constructor
  · intro hfits
    refine ⟨fun hrequires => hfits.grouped hrequires parent hfound hparent, fun hname => ?_⟩
    obtain ⟨group, hmem, hlink, htype⟩ := hfits.name hname
    rwa [bind_find?_unique hids hattached hmem hlink] at htype
  · intro h
    obtain ⟨hgrouped, htyped⟩ := h
    refine ⟨fun hname => ⟨parent, hfound, hparent, htyped hname⟩, ?_⟩
    intro hrequires other hmem hlink
    rw [bind_find?_unique hids hattached hmem hlink]
    exact hgrouped hrequires

theorem named?_of_attached {parent : Node}
    (hattached : node.parent.bind (find? nodes) = some parent) :
    named? node = if node.type.isName then some parent.id else none := by
  rw [named?, (bind_find?_eq_some hattached).2]

theorem named?_of_not_isName (hname : ¬ node.type.isName) : named? node = none := if_neg hname

/-- The parent suits the node if the node fits and is the first to name its parent. -/
theorem suits_iff (hids : (nodes.map Node.id).Nodup) {parent : Node}
    (hattached : node.parent.bind (find? nodes) = some parent) {named : List String} :
    Suits named node parent ↔ Fits nodes node ∧ ∀ p, named? node = some p → p ∉ named := by
  rw [fits_iff_of_attached hids hattached, named?_of_attached hattached]
  constructor
  · intro h
    refine ⟨⟨h.grouped, h.typed⟩, fun p hp => ?_⟩
    split at hp
    · next hname =>
      cases hp
      exact h.first hname
    · cases hp
  · intro h
    obtain ⟨⟨hgrouped, htyped⟩, hfirst⟩ := h
    exact ⟨hgrouped, htyped, fun hname => hfirst parent.id (if_pos hname)⟩

theorem cons_named?_of_attached {parent : Node}
    (hattached : node.parent.bind (find? nodes) = some parent) (named : List String) :
    (if node.type.isName then parent.id :: named else named) =
      (named? node).toList ++ named := by
  rw [named?_of_attached hattached]
  split <;> rfl

/-- A node that fits passes, if no name node before it has the same parent and it leads into no
circle. -/
theorem checkNode_of_fits (hids : (nodes.map Node.id).Nodup) (hfits : Fits nodes node)
    {before : List String} (hnew : ∀ p, named? node = some p → p ∉ before) :
    checkNode nodes before node =
      if isCyclic nodes node then .error (.cycle node.id)
      else .ok ((named? node).toList ++ before) := by
  have hcheck := nodeCheck nodes before node
  generalize checkNode nodes before node = answer at hcheck ⊢
  cases hcheck with
  | root hname hparent =>
    have halone : node.parent.bind (find? nodes) = none := by rw [hparent, Option.bind_none]
    exact absurd hname ((fits_iff_of_alone halone).mp hfits)
  | stray hname hparent hstray =>
    obtain ⟨group, hmem, hlink, -⟩ := hfits.name hname
    rw [hparent, Option.some.injEq] at hlink
    exact absurd hlink.symm (hstray group hmem)
  | alone hname halone =>
    rw [isCyclic_of_bind_eq_none halone, named?_of_not_isName hname]
    rfl
  | ungrouped hattached hrequires hgroup =>
    exact absurd (((fits_iff_of_attached hids hattached).mp hfits).1 hrequires) hgroup
  | mistyped hattached hname htype =>
    exact absurd (((fits_iff_of_attached hids hattached).mp hfits).2 hname) htype
  | second hattached hname _ hnamed =>
    exact absurd hnamed (((suits_iff hids hattached).mpr ⟨hfits, hnew⟩).first hname)
  | cyclic _ _ hcyclic => rw [if_pos hcyclic]
  | passed hattached _ hends =>
    rw [hends, if_neg Bool.false_ne_true, cons_named?_of_attached hattached]

/-- A node that passes fits, and if it is a name node, it is noted as the first of its group. -/
theorem fits_of_checkNode (hids : (nodes.map Node.id).Nodup) {before after : List String}
    (h : checkNode nodes before node = .ok after) :
    Fits nodes node ∧ after = (named? node).toList ++ before ∧
      ∀ p, named? node = some p → p ∉ before := by
  cases h ▸ nodeCheck nodes before node with
  | alone hname halone =>
    rw [named?_of_not_isName hname]
    exact ⟨(fits_iff_of_alone halone).mpr hname, rfl, fun _ hp => nomatch hp⟩
  | passed hattached hsuits _ =>
    obtain ⟨hfits, hnew⟩ := (suits_iff hids hattached).mp hsuits
    exact ⟨hfits, cons_named?_of_attached hattached before, hnew⟩

/-! ## All checks -/

theorem checkNodes_of_fits (hids : (nodes.map Node.id).Nodup) {rest : List Node}
    (hrest : ∀ node ∈ rest, Fits nodes node ∧ isCyclic nodes node = false) {before : List String}
    (hnodup : (rest.filterMap named?).Nodup) (hnew : ∀ p ∈ rest.filterMap named?, p ∉ before) :
    checkNodes nodes before rest = .ok ((rest.filterMap named?).reverse ++ before) := by
  induction rest generalizing before with
  | nil => rfl
  | cons node rest ih =>
    obtain ⟨⟨hfits, hacyclic⟩, hrest'⟩ := List.forall_mem_cons.mp hrest
    have hnode {before : List String} (hnew : ∀ p, named? node = some p → p ∉ before) :
        checkNode nodes before node = .ok ((named? node).toList ++ before) := by
      rw [checkNode_of_fits hids hfits hnew, hacyclic, if_neg Bool.false_ne_true]
    rw [checkNodes]
    cases hnamed : named? node with
    | none =>
      rw [List.filterMap_cons_none hnamed] at hnodup hnew ⊢
      rw [hnode (by rw [hnamed]; exact fun _ h => nomatch h), hnamed]
      exact ih hrest' hnodup hnew
    | some p =>
      rw [List.filterMap_cons_some hnamed] at hnodup hnew ⊢
      obtain ⟨hother, hnodup⟩ := List.nodup_cons.mp hnodup
      have hfresh : p ∉ before := hnew p List.mem_cons_self
      rw [hnode (by rw [hnamed]; intro q hq; cases hq; exact hfresh), hnamed, List.reverse_cons,
        List.append_assoc]
      refine ih hrest' hnodup fun q hq hbefore => ?_
      rcases List.mem_cons.mp hbefore with rfl | hbefore
      · exact hother hq
      · exact hnew q (List.mem_cons_of_mem _ hq) hbefore

theorem firstDuplicate?_of_nodup {seen : List String} (hids : (nodes.map Node.id).Nodup)
    (hseen : ∀ node ∈ nodes, node.id ∉ seen) : firstDuplicate? seen nodes = none := by
  induction nodes generalizing seen with
  | nil => rfl
  | cons node nodes ih =>
    rw [List.map_cons, List.nodup_cons] at hids
    have hnew : seen.contains node.id = false := by
      rw [← Bool.not_eq_true, List.contains_iff_mem]
      exact hseen node List.mem_cons_self
    rw [firstDuplicate?, hnew, if_neg Bool.false_ne_true]
    refine ih hids.2 fun other hmem hother => ?_
    rcases List.mem_cons.mp hother with heq | hother
    · exact hids.1 (heq ▸ List.mem_map_of_mem hmem)
    · exact hseen other (List.mem_cons_of_mem _ hmem) hother

theorem check_of_wellFormed {s : GraphSnapshot} (h : WellFormed s.nodes) : s.check = .ok () := by
  have hacyclic : ∀ node ∈ s.nodes, isCyclic s.nodes node = false := by
    intro node hmem
    rw [← Bool.not_eq_true, isCyclic_iff h.ids hmem]
    exact fun ⟨other, _, hcircle⟩ => h.acyclic other hcircle
  have hnodes := checkNodes_of_fits h.ids
    (fun node hmem => ⟨h.fits node hmem, hacyclic node hmem⟩) h.named fun _ _ => List.not_mem_nil
  have hcomplete : unnamed? ((s.nodes.filterMap named?).reverse ++ []) s.nodes = none := by
    rw [unnamed?, List.findSome?_eq_none_iff]
    intro group hmem
    split
    · rfl
    · next hmissing =>
      rw [List.contains_iff_mem, List.append_nil, List.mem_reverse] at hmissing
      rw [Option.map_eq_none_iff, ← Option.not_isSome_iff_eq_none, NodeType.isSome_nameType?]
      exact fun htype => hmissing (h.complete group hmem htype)
  have hduplicate : firstDuplicate? [] s.nodes = none :=
    firstDuplicate?_of_nodup h.ids fun _ _ => List.not_mem_nil
  exact check_eq_ok.mpr ⟨hduplicate, _, hnodes, hcomplete⟩

/-! ## What the checks establish -/

theorem fits_of_checkNodes (hids : (nodes.map Node.id).Nodup) {rest : List Node}
    {before after : List String} (h : checkNodes nodes before rest = .ok after) :
    (∀ node ∈ rest, Fits nodes node) ∧ after = (rest.filterMap named?).reverse ++ before ∧
      (rest.filterMap named?).Nodup ∧ ∀ p ∈ rest.filterMap named?, p ∉ before := by
  induction rest generalizing before with
  | nil =>
    exact ⟨fun _ hmem => (nomatch hmem), (Except.ok.inj h).symm, List.nodup_nil,
      fun _ hmem => (nomatch hmem)⟩
  | cons node rest ih =>
    obtain ⟨between, hnode, hrest⟩ := bind_eq_ok.mp h
    obtain ⟨hfits, rfl, hnew⟩ := fits_of_checkNode hids hnode
    obtain ⟨hothers, rfl, hnodup, hfresh⟩ := ih hrest
    refine ⟨List.forall_mem_cons.mpr ⟨hfits, hothers⟩, ?_⟩
    cases hnamed : named? node with
    | none =>
      rw [List.filterMap_cons_none hnamed]
      rw [hnamed] at hfresh
      exact ⟨rfl, hnodup, hfresh⟩
    | some p =>
      rw [List.filterMap_cons_some hnamed]
      rw [hnamed] at hfresh
      refine ⟨by simp, List.nodup_cons.mpr ⟨fun hmem => ?_, hnodup⟩, ?_⟩
      · exact hfresh p hmem List.mem_cons_self
      · refine List.forall_mem_cons.mpr ⟨hnew p hnamed, fun q hq hmem => ?_⟩
        exact hfresh q hq (List.mem_cons_of_mem _ hmem)

theorem wellFormed_of_check {s : GraphSnapshot} (h : s.check = .ok ()) : WellFormed s.nodes := by
  obtain ⟨hduplicate, named, hnodes, hcomplete⟩ := check_eq_ok.mp h
  have hids := (nodup_of_firstDuplicate? hduplicate).1
  obtain ⟨hfits, rfl, hnodup, -⟩ := fits_of_checkNodes hids hnodes
  refine ⟨hids, hfits, hnodup, fun group hmem htype => ?_, acyclic_of_check h⟩
  rw [unnamed?, List.findSome?_eq_none_iff] at hcomplete
  have hgroup := hcomplete group hmem
  split at hgroup
  · next hnamed =>
    rwa [List.contains_iff_mem, List.append_nil, List.mem_reverse] at hnamed
  · rw [Option.map_eq_none_iff, ← Option.not_isSome_iff_eq_none,
      NodeType.isSome_nameType?] at hgroup
    exact absurd htype hgroup

/-- The checks let exactly the well-formed lists of nodes pass. -/
theorem check_iff_wellFormed {s : GraphSnapshot} : s.check = .ok () ↔ WellFormed s.nodes :=
  ⟨wellFormed_of_check, check_of_wellFormed⟩

/-- No group has two name nodes exactly if no two name nodes have the same parent, where all of them
have one. -/
theorem nodup_named_iff (hfits : ∀ node ∈ nodes, Fits nodes node) :
    (nodes.filterMap named?).Nodup ↔
      nodes.Pairwise fun a b => a.type.isName → b.type.isName → a.parent ≠ b.parent := by
  rw [List.Nodup, List.pairwise_filterMap]
  refine List.Pairwise.iff_of_mem fun {a b} ha _ => ?_
  simp only [named?_eq_some]
  constructor
  · intro h hnameA hnameB hsame
    obtain ⟨group, -, hgroup, -⟩ := (hfits a ha).name hnameA
    exact h group.id ⟨hnameA, hgroup⟩ group.id ⟨hnameB, hsame ▸ hgroup⟩ rfl
  · rintro h p ⟨hnameA, hp⟩ q ⟨hnameB, hq⟩ rfl
    exact h hnameA hnameB (hp.trans hq.symm)

/-- There is no circle exactly if no node with a parent leads into one. -/
theorem acyclic_iff : (∀ id, ¬ TransGen (Names nodes) id id) ↔
    ∀ node ∈ nodes, ∀ parent ∈ nodes, node.parent = some parent.id →
      ¬ LeadsIntoCircle nodes node.id := by
  constructor
  · intro h node _ parent _ _ hleads
    obtain ⟨other, -, hcircle⟩ := hleads
    exact h other hcircle
  · intro h id hcircle
    obtain ⟨_, ⟨node, hmem, rfl, hparent⟩, hpath⟩ := TransGen.head'_iff.mp hcircle
    -- The parent of a node on a circle is on it as well, and so it is there.
    obtain ⟨_, ⟨parent, hfound, rfl, -⟩, -⟩ :=
      TransGen.head'_iff.mp (TransGen.tail' hpath ⟨node, hmem, rfl, hparent⟩)
    exact h node hmem parent hfound hparent (.of_circle hcircle)

theorem WellFormed.perm {nodes' : List Node} (h : WellFormed nodes) (hperm : nodes.Perm nodes') :
    WellFormed nodes' := by
  have hnamed := hperm.filterMap named?
  refine ⟨(hperm.map Node.id).nodup_iff.mp h.ids, fun node hmem => ?_, hnamed.nodup_iff.mp h.named,
    fun group hmem htype => ?_, fun id hcircle => h.acyclic id (TransGen.mono ?_ _ _ hcircle)⟩
  · obtain ⟨hname, hgrouped⟩ := h.fits node (hperm.mem_iff.mpr hmem)
    refine ⟨fun hisName => ?_, fun hrequires parent hparent =>
      hgrouped hrequires parent (hperm.mem_iff.mpr hparent)⟩
    obtain ⟨group, hgroup, hlink⟩ := hname hisName
    exact ⟨group, hperm.mem_iff.mp hgroup, hlink⟩
  · exact hnamed.mem_iff.mp (h.complete group (hperm.mem_iff.mpr hmem) htype)
  · intro child parent hlink
    obtain ⟨node, hmem, hnode⟩ := hlink
    exact ⟨node, hperm.mem_iff.mpr hmem, hnode⟩

end GraphSnapshot

namespace RuleGraph

theorem exists_ofSnapshot_iff {s : GraphSnapshot} :
    (∃ g, ofSnapshot s = .ok g) ↔ GraphSnapshot.WellFormed s.nodes := by
  rw [← GraphSnapshot.check_iff_wellFormed]
  constructor
  · intro h
    obtain ⟨g, hg⟩ := h
    exact (ofSnapshot_ok hg).1
  · intro h
    exact ⟨_, bind_eq_ok.mpr ⟨(), h, rfl⟩⟩

/-- An import accepts a list of nodes exactly if their ids are distinct, every name node stands in a
group of its kind and no two in the same one, every group has a name node, the parents of conditions
and operators are groups where they are there at all, and no node with a parent that is there is on
a circle of parents or leads into one.  The counter and the order do not matter. -/
theorem import_accepts_iff (nodes : List Node) (counter : NodeCounter) (order : List String) :
    (∃ g, ofSnapshot ⟨nodes, counter, order⟩ = .ok g) ↔
      (nodes.map Node.id).Nodup ∧
      (∀ name ∈ nodes, name.type.isName → ∃ group ∈ nodes, name.parent = some group.id ∧
        group.type.nameType? = some name.type) ∧
      nodes.Pairwise (fun a b => a.type.isName → b.type.isName → a.parent ≠ b.parent) ∧
      (∀ group ∈ nodes, group.type.isGroup →
        ∃ name ∈ nodes, name.type.isName ∧ name.parent = some group.id) ∧
      (∀ node ∈ nodes, node.type.requiresGroup → ∀ parent ∈ nodes,
        node.parent = some parent.id → parent.type.isGroup) ∧
      (∀ node ∈ nodes, ∀ parent ∈ nodes, node.parent = some parent.id →
        ¬ GraphSnapshot.LeadsIntoCircle nodes node.id) := by
  rw [exists_ofSnapshot_iff, ← GraphSnapshot.acyclic_iff]
  constructor
  · rintro ⟨hids, hfits, hnamed, hcomplete, hacyclic⟩
    refine ⟨hids, fun name hmem => (hfits name hmem).name,
      (GraphSnapshot.nodup_named_iff hfits).mp hnamed, ?_,
      fun node hmem => (hfits node hmem).grouped, hacyclic⟩
    exact fun group hmem htype => GraphSnapshot.mem_named_iff.mp (hcomplete group hmem htype)
  · rintro ⟨hids, hname, hapart, hcomplete, hgrouped, hacyclic⟩
    have hfits : ∀ node ∈ nodes, GraphSnapshot.Fits nodes node := fun node hmem =>
      ⟨hname node hmem, hgrouped node hmem⟩
    refine ⟨hids, hfits, (GraphSnapshot.nodup_named_iff hfits).mpr hapart, ?_, hacyclic⟩
    exact fun group hmem htype => GraphSnapshot.mem_named_iff.mpr (hcomplete group hmem htype)

theorem wellFormed_ofSnapshot {s : GraphSnapshot} {g : RuleGraph} (h : ofSnapshot s = .ok g) :
    GraphSnapshot.WellFormed g.nodes := by
  obtain ⟨hcheck, -, hperm⟩ := ofSnapshot_ok h
  exact (GraphSnapshot.wellFormed_of_check hcheck).perm hperm.symm

end RuleGraph

end CommissionRules
