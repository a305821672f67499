import CommissionRules.Proofs.Graph.Acceptance

/-!
# Refused snapshots

The error of a refused import is about a fault of the nodes: `StructuralError.TrueOf` says which one
for each error.  All errors are true but one.  The search for circles stops at the first node whose
parents lead into a circle and blames that node, which need not be on the circle itself.
-/

namespace CommissionRules

open Relation

/-- The fault that an error of an import is about is there in the nodes. -/
def StructuralError.TrueOf (nodes : List Node) : StructuralError → Prop
  | .duplicateId id => 2 ≤ (nodes.map Node.id).count id
  | .danglingParent id parent => ∃ name ∈ nodes, name.id = id ∧ name.type.isName ∧
      name.parent = some parent ∧ ∀ node ∈ nodes, node.id ≠ parent
  | .notAGroup id => ∃ parent ∈ nodes, parent.id = id ∧ ¬ parent.type.isGroup ∧
      ∃ node ∈ nodes, node.type.requiresGroup ∧ node.parent = some id
  | .misplacedNameNode id => ∃ name ∈ nodes, name.id = id ∧ name.type.isName ∧
      ∀ group ∈ nodes, name.parent = some group.id → group.type.nameType? ≠ some name.type
  | .duplicateNameNode id nameType =>
      (∃ group ∈ nodes, group.id = id ∧ group.type.nameType? = some nameType) ∧
        2 ≤ nodes.countP fun name => name.type = nameType ∧ name.parent = some id
  | .missingNameNode id nameType =>
      (∃ group ∈ nodes, group.id = id ∧ group.type.nameType? = some nameType) ∧
        ∀ name ∈ nodes, name.type.isName → name.parent ≠ some id
  | .cycle id => TransGen (GraphSnapshot.Names nodes) id id
  | .noGroupSelected | .managedNode _ => False

namespace GraphSnapshot

variable {nodes : List Node} {node : Node}

/-! ## The errors of the single checks -/

theorem two_le_count_of_firstDuplicate? {seen : List String} {id : String}
    (h : firstDuplicate? seen nodes = some id) :
    2 ≤ (nodes.map Node.id).count id + seen.count id := by
  induction nodes generalizing seen with
  | nil => cases h
  | cons node nodes ih =>
    rw [firstDuplicate?] at h
    rw [List.map_cons, List.count_cons]
    split at h
    · next hseen =>
      cases h
      have hpos := List.count_pos_iff.mpr (List.contains_iff_mem.mp hseen)
      rw [beq_self_eq_true, if_pos rfl]
      omega
    · have hrest := ih h
      rw [List.count_cons] at hrest
      omega

theorem two_le_countP {p : Node → Bool} {before after : List Node}
    (hnodes : nodes = before ++ node :: after) {other : Node} (hother : other ∈ before)
    (hfirst : p other) (hsecond : p node) : 2 ≤ nodes.countP p := by
  have hpos := List.countP_pos_iff.mpr ⟨other, hother, hfirst⟩
  rw [hnodes, List.countP_append, List.countP_cons, if_pos hsecond]
  omega

/-- Where the nodes before it fit, a node whose name or parent is refused is so rightly.  The only
other refusal is that of a node that fits but leads into a circle. -/
theorem checkNode_eq_error (hids : (nodes.map Node.id).Nodup) {before after : List Node}
    (hnodes : nodes = before ++ node :: after) (hbefore : ∀ other ∈ before, Fits nodes other)
    {e : StructuralError} (h : checkNode nodes (before.filterMap named?).reverse node = .error e) :
    e.TrueOf nodes ∨
      e = .cycle node.id ∧ Fits nodes node ∧ isCyclic nodes node = true ∧
        ∀ p, named? node = some p → p ∉ before.filterMap named? := by
  have hmem : node ∈ nodes := hnodes ▸ List.mem_append_right _ List.mem_cons_self
  cases h ▸ nodeCheck nodes (before.filterMap named?).reverse node with
  | root hname hparent =>
    refine .inl ⟨node, hmem, rfl, hname, fun _ _ hlink => ?_⟩
    rw [hparent] at hlink
    cases hlink
  | stray hname hparent hstray => exact .inl ⟨node, hmem, rfl, hname, hparent, hstray⟩
  | @ungrouped parent hattached hrequires hgroup =>
    obtain ⟨hfound, hparent⟩ := bind_find?_eq_some hattached
    exact .inl ⟨parent, hfound, rfl, hgroup, node, hmem, hrequires, hparent⟩
  | mistyped hattached hname htype =>
    refine .inl ⟨node, hmem, rfl, hname, fun group hgroup hlink => ?_⟩
    rwa [bind_find?_unique hids hattached hgroup hlink]
  | @second parent hattached hname htype hnamed =>
    obtain ⟨hfound, hparent⟩ := bind_find?_eq_some hattached
    rw [List.mem_reverse, mem_named_iff] at hnamed
    obtain ⟨other, hother, hisName, hlink⟩ := hnamed
    -- The other name node fits, so that it has the type that the parent asks for too.
    obtain ⟨group, hgroup, hlink', htype'⟩ := (hbefore other hother).name hisName
    rw [hlink, Option.some.injEq] at hlink'
    rw [List.inj_on_of_nodup_map hids hgroup hfound hlink'.symm, htype, Option.some.injEq] at htype'
    refine .inl ⟨⟨parent, hfound, rfl, htype⟩, ?_⟩
    exact two_le_countP hnodes hother (decide_eq_true ⟨htype'.symm, hlink⟩)
      (decide_eq_true ⟨rfl, hparent⟩)
  | cyclic hattached hsuits hcyclic =>
    obtain ⟨hfits, hnew⟩ := (suits_iff hids hattached).mp hsuits
    exact .inr ⟨rfl, hfits, hcyclic, fun p hp hbefore => hnew p hp (List.mem_reverse.mpr hbefore)⟩

theorem trueOf_of_unnamed? {id : String} {nameType : NodeType}
    (h : unnamed? (nodes.filterMap named?).reverse nodes = some (id, nameType)) :
    (StructuralError.missingNameNode id nameType).TrueOf nodes := by
  obtain ⟨group, hmem, hgroup⟩ := List.exists_of_findSome?_eq_some h
  split at hgroup
  · cases hgroup
  · next hmissing =>
    obtain ⟨_, htype, heq⟩ := Option.map_eq_some_iff.mp hgroup
    cases heq
    refine ⟨⟨group, hmem, rfl, htype⟩, fun name hname hisName hlink => hmissing ?_⟩
    rw [List.contains_iff_mem, List.mem_reverse, mem_named_iff]
    exact ⟨name, hname, hisName, hlink⟩

/-! ## The errors of all checks -/

theorem checkNodes_append {named : List String} {first second : List Node} :
    checkNodes nodes named (first ++ second) =
      checkNodes nodes named first >>= fun named => checkNodes nodes named second := by
  induction first generalizing named with
  | nil => rfl
  | cons node first ih =>
    rw [List.cons_append, checkNodes, checkNodes]
    cases checkNode nodes named node with
    | error e => rfl
    | ok named => exact ih

/-- The checks of nodes fail at the first one that does not pass. -/
theorem exists_of_checkNodes_eq_error {named : List String} {rest : List Node} {e : StructuralError}
    (h : checkNodes nodes named rest = .error e) :
    ∃ before node after named', rest = before ++ node :: after ∧
      checkNodes nodes named before = .ok named' ∧ checkNode nodes named' node = .error e := by
  induction rest generalizing named with
  | nil => cases h
  | cons node rest ih =>
    rcases bind_eq_error.mp h with hnode | ⟨between, hnode, hrest⟩
    · exact ⟨[], node, rest, named, rfl, rfl, hnode⟩
    · obtain ⟨before, first, after, named', rfl, hbefore, hfirst⟩ := ih hrest
      exact ⟨node :: before, first, after, named', rfl,
        bind_eq_ok.mpr ⟨between, hnode, hbefore⟩, hfirst⟩

theorem nodup_named_concat_iff {before : List Node} :
    ((before ++ [node]).filterMap named?).Nodup ↔
      (before.filterMap named?).Nodup ∧
        ∀ p, named? node = some p → p ∉ before.filterMap named? := by
  rw [List.filterMap_append]
  cases hnamed : named? node with
  | none =>
    rw [List.filterMap_cons_none hnamed, List.filterMap_nil, List.append_nil]
    exact (and_iff_left fun _ h => nomatch h).symm
  | some p =>
    rw [List.filterMap_cons_some hnamed, List.filterMap_nil, ← List.concat_eq_append,
      List.nodup_concat, and_comm]
    simp

/-- The first node that leads into a circle, where all nodes up to it are right otherwise: the
checks stop there. -/
structure StopsInCircle (nodes before : List Node) (first : Node) : Prop where
  ids : (nodes.map Node.id).Nodup
  fits : ∀ node ∈ before ++ [first], Fits nodes node
  named : ((before ++ [first]).filterMap named?).Nodup
  ends : ∀ node ∈ before, ¬ LeadsIntoCircle nodes node.id
  leads : LeadsIntoCircle nodes first.id

theorem StopsInCircle.checkNodes_eq_error {before after : List Node}
    (h : StopsInCircle nodes before node) (hnodes : nodes = before ++ node :: after) :
    checkNodes nodes [] nodes = .error (.cycle node.id) := by
  have hmem {other : Node} (hother : other ∈ before ++ [node]) : other ∈ nodes := by
    rw [hnodes, List.append_cons]
    exact List.mem_append_left _ hother
  obtain ⟨hnodup, hnew⟩ := nodup_named_concat_iff.mp h.named
  obtain ⟨hfits, hfit⟩ := List.forall_mem_append.mp h.fits
  have hpassed : checkNodes nodes [] before = .ok (before.filterMap named?).reverse := by
    rw [checkNodes_of_fits h.ids (fun other hother => ⟨hfits other hother, ?_⟩) hnodup
      fun _ _ => List.not_mem_nil, List.append_nil]
    rw [← Bool.not_eq_true, isCyclic_iff h.ids (hmem (List.mem_append_left _ hother))]
    exact h.ends other hother
  have hcyclic := (isCyclic_iff h.ids (hmem (List.mem_append_right _ List.mem_cons_self))).mpr
    h.leads
  have hstop : checkNode nodes (before.filterMap named?).reverse node = .error (.cycle node.id) := by
    rw [checkNode_of_fits h.ids (hfit node (List.mem_singleton.mpr rfl)), hcyclic, if_pos rfl]
    exact fun p hp hbefore => hnew p hp (List.mem_reverse.mp hbefore)
  calc checkNodes nodes [] nodes
      = checkNodes nodes [] (before ++ node :: after) := congrArg _ hnodes
    _ = checkNodes nodes (before.filterMap named?).reverse (node :: after) := by
        rw [checkNodes_append, hpassed, ok_bind]
    _ = .error (.cycle node.id) := bind_eq_error.mpr (.inl hstop)

theorem StopsInCircle.check_eq_error {s : GraphSnapshot} {before after : List Node}
    (h : StopsInCircle s.nodes before node) (hnodes : s.nodes = before ++ node :: after) :
    s.check = .error (.cycle node.id) := by
  have hduplicate : firstDuplicate? [] s.nodes = none :=
    firstDuplicate?_of_nodup h.ids fun _ _ => List.not_mem_nil
  exact GraphSnapshot.check_eq_error.mpr (.inr ⟨hduplicate, .inl (h.checkNodes_eq_error hnodes)⟩)

/-- An error of the checks is true, unless it is about the first node that leads into a circle. -/
theorem check_eq_error_cases {s : GraphSnapshot} {e : StructuralError} (h : s.check = .error e) :
    e.TrueOf s.nodes ∨
      ∃ before first after, s.nodes = before ++ first :: after ∧
        StopsInCircle s.nodes before first ∧ e = .cycle first.id := by
  rcases check_eq_error.mp h with
    ⟨id, hduplicate, rfl⟩ | ⟨hduplicate, hchecks | ⟨named, hchecks, group, type, hunnamed, rfl⟩⟩
  · exact .inl (two_le_count_of_firstDuplicate? hduplicate)
  · have hids := (nodup_of_firstDuplicate? hduplicate).1
    obtain ⟨before, node, after, _, hnodes, hpassed, hnode⟩ :=
      exists_of_checkNodes_eq_error hchecks
    obtain ⟨hfits, rfl, hnodup, -⟩ := fits_of_checkNodes hids hpassed
    rw [List.append_nil] at hnode
    refine (checkNode_eq_error hids hnodes hfits hnode).imp_right fun hstops => ?_
    obtain ⟨rfl, hfit, hcyclic, hnew⟩ := hstops
    have hmem : node ∈ s.nodes := hnodes ▸ List.mem_append_right _ List.mem_cons_self
    refine ⟨before, node, after, hnodes, ⟨hids, ?_, ?_, ?_, ?_⟩, rfl⟩
    · exact List.forall_mem_append.mpr ⟨hfits, List.forall_mem_singleton.mpr hfit⟩
    · exact nodup_named_concat_iff.mpr ⟨hnodup, hnew⟩
    · intro other hother hleads
      obtain ⟨_, _, hpass⟩ := checkNode_of_checkNodes hpassed hother
      have hmem' : other ∈ s.nodes := hnodes ▸ List.mem_append_left _ hother
      rw [← isCyclic_iff hids hmem', not_isCyclic_of_checkNode hpass] at hleads
      cases hleads
    · exact (isCyclic_iff hids hmem).mp hcyclic
  · -- All nodes have passed, so that only a name node can be missing.
    obtain ⟨-, rfl, -, -⟩ := fits_of_checkNodes (nodup_of_firstDuplicate? hduplicate).1 hchecks
    rw [List.append_nil] at hunnamed
    exact .inl (trueOf_of_unnamed? hunnamed)

end GraphSnapshot

namespace RuleGraph

theorem ofSnapshot_eq_error {s : GraphSnapshot} {e : StructuralError} :
    ofSnapshot s = .error e ↔ s.check = .error e := by
  constructor
  · intro h
    rcases bind_eq_error.mp h with hcheck | ⟨_, -, h⟩
    · exact hcheck
    · cases h
  · exact fun hcheck => bind_eq_error.mpr (.inl hcheck)

/-- The error with which an import refuses a list of nodes is true, unless the first node that leads
into a circle is not on one itself, where all nodes up to it are right otherwise. -/
theorem import_errors_true_iff (nodes : List Node) (counter : NodeCounter) (order : List String) :
    (∀ e, ofSnapshot ⟨nodes, counter, order⟩ = .error e → e.TrueOf nodes) ↔
      ∀ before first after, nodes = before ++ first :: after →
        GraphSnapshot.StopsInCircle nodes before first →
          TransGen (GraphSnapshot.Names nodes) first.id first.id := by
  constructor
  · intro h before first after hnodes hstops
    exact h (.cycle first.id) (ofSnapshot_eq_error.mpr (hstops.check_eq_error hnodes))
  · intro h e he
    rcases GraphSnapshot.check_eq_error_cases (ofSnapshot_eq_error.mp he) with
      htrue | ⟨before, first, after, hnodes, hstops, rfl⟩
    · exact htrue
    · exact h before first after hnodes hstops

/-- A rule group inside one of two rule groups that contain each other. -/
def besideCircle : GraphSnapshot :=
  { nodes :=
      [⟨"C", .ruleGroup, ⟨⟨0⟩, ⟨0⟩⟩, some "A", false, .null⟩,
        ⟨"A", .ruleGroup, ⟨⟨0⟩, ⟨0⟩⟩, some "B", false, .null⟩,
        ⟨"B", .ruleGroup, ⟨⟨0⟩, ⟨0⟩⟩, some "A", false, .null⟩]
    counter := .empty
    order := [] }

/-- The import blames the group that contains neither of the others. -/
theorem besideCircle_blamed : ∃ e, ofSnapshot besideCircle = .error e ∧
    ¬ e.TrueOf besideCircle.nodes := by
  refine ⟨.cycle "C", ofSnapshot_eq_error.mpr (by rfl), fun hcircle => ?_⟩
  obtain ⟨_, -, node, hmem, -, hparent⟩ := TransGen.tail'_iff.mp hcircle
  simp only [besideCircle, List.mem_cons, List.not_mem_nil, or_false] at hmem
  rcases hmem with rfl | rfl | rfl <;> exact absurd hparent (by decide)

end RuleGraph

end CommissionRules
