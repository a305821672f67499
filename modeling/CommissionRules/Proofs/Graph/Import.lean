import Mathlib.Data.List.Nodup
import Mathlib.Data.List.Perm.Subperm
import CommissionRules.Graph.Snapshot
import CommissionRules.Proofs.Graph.Walks

/-!
# Imports

The check of a node has one answer for each fault of the node and one for none
(`GraphSnapshot.NodeCheck`).  The checks of a snapshot find every circle of its parent links, so
that an imported graph is a forest: `RuleGraph.forest_ofSnapshot`.
-/

namespace CommissionRules

open Relation

namespace GraphSnapshot

variable {nodes : List Node} {node : Node}

/-! ## What the checks say -/

theorem find?_eq_some {id : String} (h : find? nodes id = some node) :
    node ∈ nodes ∧ node.id = id := by
  have hid := List.find?_some h
  exact ⟨List.mem_reverse.mp (List.mem_of_find?_eq_some h), beq_iff_eq.mp hid⟩

theorem find?_eq_none {id : String} (h : find? nodes id = none) : ∀ node ∈ nodes, node.id ≠ id := by
  intro node hmem
  have := List.find?_eq_none.mp h node (List.mem_reverse.mpr hmem)
  rwa [beq_iff_eq] at this

theorem nodup_of_firstDuplicate? {seen : List String} (h : firstDuplicate? seen nodes = none) :
    (nodes.map Node.id).Nodup ∧ ∀ node ∈ nodes, node.id ∉ seen := by
  induction nodes generalizing seen with
  | nil => exact ⟨List.nodup_nil, fun _ hmem => (nomatch hmem)⟩
  | cons node nodes ih =>
    rw [firstDuplicate?] at h
    split at h
    · cases h
    · next hnew =>
      obtain ⟨hnodup, hfresh⟩ := ih h
      rw [List.contains_iff_mem] at hnew
      refine ⟨List.nodup_cons.mpr ⟨?_, hnodup⟩, ?_⟩
      · intro hmem
        obtain ⟨other, hother, hid⟩ := List.mem_map.mp hmem
        exact hfresh other hother (hid ▸ List.mem_cons_self)
      · intro other hother
        rcases List.mem_cons.mp hother with rfl | hother
        · exact hnew
        · exact fun hmem => hfresh other hother (List.mem_cons_of_mem _ hmem)

theorem checkNode_of_checkNodes {named named' : List String} {rest : List Node}
    (h : checkNodes nodes named rest = .ok named') (hmem : node ∈ rest) :
    ∃ before after, checkNode nodes before node = .ok after := by
  induction rest generalizing named with
  | nil => cases hmem
  | cons first rest ih =>
    obtain ⟨after, hfirst, hrest⟩ := bind_eq_ok.mp h
    rcases List.mem_cons.mp hmem with rfl | hmem
    · exact ⟨named, after, hfirst⟩
    · exact ih hrest hmem

/-- The parent that the checks find is the node with the id that the child names. -/
theorem bind_find?_eq_some {parent : Node} (h : node.parent.bind (find? nodes) = some parent) :
    parent ∈ nodes ∧ node.parent = some parent.id := by
  obtain ⟨p, hparent, hfind⟩ := Option.bind_eq_some_iff.mp h
  obtain ⟨hmem, rfl⟩ := find?_eq_some hfind
  exact ⟨hmem, hparent⟩

theorem bind_find?_eq_none (h : node.parent.bind (find? nodes) = none) :
    ∀ other ∈ nodes, node.parent ≠ some other.id := by
  intro other hmem hlink
  rw [hlink, Option.bind_some] at h
  exact find?_eq_none h other hmem rfl

theorem bind_find?_unique (hids : (nodes.map Node.id).Nodup) {parent other : Node}
    (h : node.parent.bind (find? nodes) = some parent) (hmem : other ∈ nodes)
    (hlink : node.parent = some other.id) : other = parent := by
  obtain ⟨hfound, hparent⟩ := bind_find?_eq_some h
  rw [hparent, Option.some.injEq] at hlink
  exact List.inj_on_of_nodup_map hids hmem hfound hlink.symm

/-- A parent gives a child what the child asks for, where the groups of `named` have a name node
already. -/
structure Suits (named : List String) (node parent : Node) : Prop where
  grouped : node.type.requiresGroup → parent.type.isGroup
  typed : node.type.isName → parent.type.nameType? = some node.type
  first : node.type.isName → parent.id ∉ named

/-- The answers of the check of one node, each with its reason. -/
inductive NodeCheck (nodes : List Node) (named : List String) (node : Node) :
    Except StructuralError (List String) → Prop where
  | root (hname : node.type.isName) (hparent : node.parent = none) :
      NodeCheck nodes named node (.error (.misplacedNameNode node.id))
  | stray {p : String} (hname : node.type.isName) (hparent : node.parent = some p)
      (hstray : ∀ other ∈ nodes, other.id ≠ p) :
      NodeCheck nodes named node (.error (.danglingParent node.id p))
  | alone (hname : ¬ node.type.isName) (halone : node.parent.bind (find? nodes) = none) :
      NodeCheck nodes named node (.ok named)
  | ungrouped {parent : Node} (hparent : node.parent.bind (find? nodes) = some parent)
      (hrequires : node.type.requiresGroup) (hgroup : ¬ parent.type.isGroup) :
      NodeCheck nodes named node (.error (.notAGroup parent.id))
  | mistyped {parent : Node} (hparent : node.parent.bind (find? nodes) = some parent)
      (hname : node.type.isName) (htype : parent.type.nameType? ≠ some node.type) :
      NodeCheck nodes named node (.error (.misplacedNameNode node.id))
  | second {parent : Node} (hparent : node.parent.bind (find? nodes) = some parent)
      (hname : node.type.isName) (htype : parent.type.nameType? = some node.type)
      (hnamed : parent.id ∈ named) :
      NodeCheck nodes named node (.error (.duplicateNameNode parent.id node.type))
  | cyclic {parent : Node} (hparent : node.parent.bind (find? nodes) = some parent)
      (hsuits : Suits named node parent) (hcyclic : isCyclic nodes node = true) :
      NodeCheck nodes named node (.error (.cycle node.id))
  | passed {parent : Node} (hparent : node.parent.bind (find? nodes) = some parent)
      (hsuits : Suits named node parent) (hends : isCyclic nodes node = false) :
      NodeCheck nodes named node (.ok (if node.type.isName then parent.id :: named else named))

/-- What the check of a node says, which is all that is used of it from here on. -/
theorem nodeCheck (nodes : List Node) (named : List String) (node : Node) :
    NodeCheck nodes named node (checkNode nodes named node) := by
  rw [checkNode]
  cases hparent : node.parent with
  | none =>
    dsimp only
    split
    · next hname => exact .root hname hparent
    · next hname => exact .alone hname (by rw [hparent, Option.bind_none])
  | some p =>
    dsimp only
    cases hfind : find? nodes p with
    | none =>
      dsimp only
      split
      · next hname => exact .stray hname hparent (find?_eq_none hfind)
      · next hname => exact .alone hname (by rw [hparent, Option.bind_some, hfind])
    | some parent =>
      have hattached : node.parent.bind (find? nodes) = some parent := by
        rw [hparent, Option.bind_some, hfind]
      obtain ⟨-, rfl⟩ := find?_eq_some hfind
      dsimp only
      split
      · next hungrouped =>
        rw [Bool.and_eq_true, Bool.not_eq_true', ← Bool.not_eq_true] at hungrouped
        exact .ungrouped hattached hungrouped.1 hungrouped.2
      next hgrouped =>
      split
      · next hmistyped =>
        rw [Bool.and_eq_true, decide_eq_true_iff] at hmistyped
        exact .mistyped hattached hmistyped.1 hmistyped.2
      next htyped =>
      have htype : node.type.isName → parent.type.nameType? = some node.type := by
        intro hname
        simpa [hname] using htyped
      split
      · next hsecond =>
        rw [Bool.and_eq_true, List.contains_iff_mem] at hsecond
        exact .second hattached hsecond.1 (htype hsecond.1) hsecond.2
      next hfirst =>
      have hsuits : Suits named node parent := by
        refine ⟨fun hrequires => ?_, htype, fun hname => ?_⟩
        · simpa [hrequires] using hgrouped
        · simpa [hname] using hfirst
      split
      · next hcyclic => exact .cyclic hattached hsuits hcyclic
      · next hends => exact .passed hattached hsuits (Bool.eq_false_iff.mpr hends)

theorem isCyclic_of_bind_eq_none (h : node.parent.bind (find? nodes) = none) :
    isCyclic nodes node = false := by
  rw [isCyclic, climbsInCircle, h]

theorem not_isCyclic_of_checkNode {before after : List String}
    (h : checkNode nodes before node = .ok after) : isCyclic nodes node = false := by
  cases h ▸ nodeCheck nodes before node with
  | alone _ halone => exact isCyclic_of_bind_eq_none halone
  | passed _ _ hends => exact hends

/-- A snapshot passes if it passes the three checks, one after the other. -/
theorem check_eq_ok {s : GraphSnapshot} :
    s.check = .ok () ↔
      firstDuplicate? [] s.nodes = none ∧
        ∃ named, checkNodes s.nodes [] s.nodes = .ok named ∧ unnamed? named s.nodes = none := by
  rw [check]
  cases firstDuplicate? [] s.nodes with
  | some id => simp
  | none =>
    simp only [bind_eq_ok, true_and]
    refine exists_congr fun named => and_congr_right fun _ => ?_
    cases unnamed? named s.nodes with
    | none => simp
    | some group => simp

/-- The error of a snapshot is that of the first check that it does not pass. -/
theorem check_eq_error {s : GraphSnapshot} {e : StructuralError} :
    s.check = .error e ↔
      (∃ id, firstDuplicate? [] s.nodes = some id ∧ .duplicateId id = e) ∨
      firstDuplicate? [] s.nodes = none ∧
        (checkNodes s.nodes [] s.nodes = .error e ∨
          ∃ named, checkNodes s.nodes [] s.nodes = .ok named ∧
            ∃ group type, unnamed? named s.nodes = some (group, type) ∧
              .missingNameNode group type = e) := by
  rw [check]
  cases firstDuplicate? [] s.nodes with
  | some id => simp
  | none =>
    simp only [bind_eq_error, true_and, reduceCtorEq, false_and, exists_false, false_or]
    refine or_congr_right (exists_congr fun named => and_congr_right fun _ => ?_)
    rcases unnamed? named s.nodes with _ | ⟨group, type⟩
    · simp
    · simp

/-! ## Circles -/

/-- A node of a list with the first id names the second id as its parent. -/
def Names (nodes : List Node) (child parent : String) : Prop :=
  ∃ node ∈ nodes, node.id = child ∧ node.parent = some parent

/-- The parents lead from an id into a circle, which the id need not be on. -/
def LeadsIntoCircle (nodes : List Node) (id : String) : Prop :=
  ∃ other, ReflTransGen (Names nodes) id other ∧ TransGen (Names nodes) other other

theorem LeadsIntoCircle.of_circle {id : String} (h : TransGen (Names nodes) id id) :
    LeadsIntoCircle nodes id :=
  ⟨id, .refl, h⟩

theorem LeadsIntoCircle.head {id p : String} (hlink : Names nodes id p)
    (h : LeadsIntoCircle nodes p) : LeadsIntoCircle nodes id := by
  obtain ⟨other, hpath, hcircle⟩ := h
  exact ⟨other, .head hlink hpath, hcircle⟩

/-- What leads into a circle has a parent that does so. -/
theorem LeadsIntoCircle.step {id : String} (h : LeadsIntoCircle nodes id) :
    ∃ p, Names nodes id p ∧ LeadsIntoCircle nodes p := by
  obtain ⟨other, hpath, hcircle⟩ := h
  rcases ReflTransGen.cases_head hpath with rfl | ⟨p, hlink, hpath⟩
  · obtain ⟨p, hlink, hpath⟩ := TransGen.head'_iff.mp hcircle
    exact ⟨p, hlink, id, hpath, hcircle⟩
  · exact ⟨p, hlink, other, hpath, hcircle⟩

/-- Where following the parents of a node comes back to an id below it, the node leads into a
circle. -/
theorem leadsIntoCircle_of_climbs {fuel : Nat} {seen : List String} (hmem : node ∈ nodes)
    (hseen : ∀ s ∈ seen, ReflTransGen (Names nodes) s node.id)
    (h : climbsInCircle nodes fuel seen node = true) : LeadsIntoCircle nodes node.id := by
  induction fuel generalizing node seen with
  | zero => cases h
  | succ fuel ih =>
    rw [climbsInCircle] at h
    cases hparent : node.parent with
    | none =>
      rw [hparent] at h
      cases h
    | some p =>
      rw [hparent, Option.bind_some] at h
      cases hfind : find? nodes p with
      | none =>
        rw [hfind] at h
        cases h
      | some parent =>
        obtain ⟨hfound, rfl⟩ := find?_eq_some hfind
        rw [hfind] at h
        dsimp only at h
        have hlink : Names nodes node.id parent.id := ⟨node, hmem, rfl, hparent⟩
        refine .head hlink ?_
        rcases (Bool.or_eq_true _ _).mp h with hback | h
        · rw [List.contains_iff_mem] at hback
          exact .of_circle (.tail' (hseen _ hback) hlink)
        · refine ih hfound (fun s hs => ?_) h
          rcases List.mem_cons.mp hs with rfl | hs
          · exact .refl
          · exact (hseen s hs).tail hlink

/-- Where following the parents of a node comes to an end, the node leads into no circle. -/
theorem not_leadsIntoCircle_of_climbs (hids : (nodes.map Node.id).Nodup) {fuel : Nat}
    {seen : List String} (hmem : node ∈ nodes) (hnodup : seen.Nodup)
    (hseen : seen ⊆ nodes.map Node.id) (hlength : nodes.length < fuel + seen.length)
    (h : climbsInCircle nodes fuel seen node = false) : ¬ LeadsIntoCircle nodes node.id := by
  induction fuel generalizing node seen with
  | zero =>
    -- More ids would have been seen than there are nodes.
    have hle := (hnodup.subperm hseen).length_le
    rw [List.length_map] at hle
    omega
  | succ fuel ih =>
    intro hleads
    obtain ⟨p, ⟨other, hother, hid, hparent⟩, hleads⟩ := hleads.step
    rw [List.inj_on_of_nodup_map hids hother hmem hid] at hparent
    rw [climbsInCircle] at h
    rw [hparent, Option.bind_some] at h
    cases hfind : find? nodes p with
    | none =>
      -- No node has this id, so that the path ends at it.
      obtain ⟨_, ⟨child, hchild, hid, -⟩, -⟩ := hleads.step
      exact find?_eq_none hfind child hchild hid
    | some parent =>
      obtain ⟨hfound, rfl⟩ := find?_eq_some hfind
      rw [hfind] at h
      dsimp only at h
      rw [Bool.or_eq_false_iff] at h
      have hnew : parent.id ∉ seen := by
        rw [← List.contains_iff_mem, h.1]
        exact Bool.false_ne_true
      refine ih hfound (List.nodup_cons.mpr ⟨hnew, hnodup⟩) ?_ ?_ h.2 hleads
      · exact List.cons_subset.mpr ⟨List.mem_map_of_mem hfound, hseen⟩
      · rw [List.length_cons]
        omega

theorem isCyclic_iff (hids : (nodes.map Node.id).Nodup) (hmem : node ∈ nodes) :
    isCyclic nodes node = true ↔ LeadsIntoCircle nodes node.id := by
  constructor
  · refine leadsIntoCircle_of_climbs hmem fun s hs => ?_
    rw [List.mem_singleton.mp hs]
  · intro hleads
    by_contra hends
    refine not_leadsIntoCircle_of_climbs hids hmem (List.nodup_singleton _) ?_ ?_
      (Bool.eq_false_iff.mpr hends) hleads
    · exact List.cons_subset.mpr ⟨List.mem_map_of_mem hmem, List.nil_subset _⟩
    · rw [List.length_singleton]
      omega

theorem acyclic_of_check {s : GraphSnapshot} (h : s.check = .ok ()) (id : String) :
    ¬ TransGen (Names s.nodes) id id := by
  obtain ⟨hduplicate, named, hnodes, -⟩ := check_eq_ok.mp h
  have hids := (nodup_of_firstDuplicate? hduplicate).1
  intro hcircle
  obtain ⟨p, ⟨node, hmem, rfl, -⟩, -⟩ := TransGen.head'_iff.mp hcircle
  obtain ⟨before, after, hnode⟩ := checkNode_of_checkNodes hnodes hmem
  have hcyclic := (isCyclic_iff hids hmem).mpr (.of_circle hcircle)
  rw [not_isCyclic_of_checkNode hnode] at hcyclic
  cases hcyclic

theorem sortedNodes_perm (s : GraphSnapshot) : s.sortedNodes.Perm s.nodes := by
  unfold sortedNodes
  dsimp only
  have hsnd : (s.nodes.map fun node => (rank s.order node, node)).map (·.2) = s.nodes := by
    rw [List.map_map]
    exact List.map_id _
  have hperm := (List.mergeSort_perm (s.nodes.map fun node => (rank s.order node, node))
    fun a b => a.1 ≤ b.1).map (·.2)
  rwa [hsnd] at hperm

end GraphSnapshot

namespace RuleGraph

variable {g : RuleGraph}

/-! ## The imported graph -/

theorem nodes_foldl_insert (nodes : List Node) :
    (nodes.foldl insert g).nodes = g.nodes ++ nodes := by
  induction nodes generalizing g with
  | nil => exact (List.append_nil _).symm
  | cons node nodes ih =>
    rw [List.foldl_cons, ih, nodes_insert, List.append_assoc]
    rfl

theorem Linked.foldl_insert (h : g.Linked) (nodes : List Node) :
    (nodes.foldl RuleGraph.insert g).Linked := by
  induction nodes generalizing g with
  | nil => exact h
  | cons node nodes ih => exact ih (h.insert node)

/-- Restoring the counters does not touch the store. -/
theorem foldl_restore (nodes : List Node) :
    ∃ counter lastToken, nodes.foldl restore g = { g with counter, lastToken } := by
  induction nodes generalizing g with
  | nil => exact ⟨_, _, rfl⟩
  | cons node nodes ih =>
    obtain ⟨counter, lastToken, hrest⟩ := ih (g := g.restore node)
    refine ⟨counter, lastToken, ?_⟩
    rw [List.foldl_cons, hrest]
    rw [restore]
    split
    · rfl
    · split <;> rfl

/-- The graph of a snapshot holds the nodes of the snapshot, linked by its index and its lists of
children. -/
theorem ofSnapshot_ok {snapshot : GraphSnapshot} (h : ofSnapshot snapshot = .ok g) :
    snapshot.check = .ok () ∧ g.Linked ∧ g.nodes.Perm snapshot.nodes := by
  obtain ⟨_, hcheck, hg⟩ := bind_eq_ok.mp h
  let store := snapshot.sortedNodes.foldl insert (empty .standard)
  have hstore : store.Linked := (Linked.empty .standard).foldl_insert _
  obtain ⟨counter, lastToken, hrestore⟩ :=
    foldl_restore (g := { store with counter := snapshot.counter }) store.nodes
  cases hg
  refine ⟨hcheck, ?_, ?_⟩
  · show (store.nodes.foldl restore { store with counter := snapshot.counter }).Linked
    rw [hrestore]
    exact ⟨hstore.slot, hstore.child⟩
  · show (store.nodes.foldl restore { store with counter := snapshot.counter }).nodes.Perm _
    rw [hrestore]
    show store.nodes.Perm _
    rw [nodes_foldl_insert]
    exact snapshot.sortedNodes_perm

theorem forest_ofSnapshot {snapshot : GraphSnapshot} (h : ofSnapshot snapshot = .ok g) :
    g.Forest := by
  obtain ⟨hcheck, -, hperm⟩ := ofSnapshot_ok h
  intro id hcircle
  refine GraphSnapshot.acyclic_of_check hcheck id (TransGen.mono ?_ _ _ hcircle)
  intro c p hlink
  obtain ⟨node, hmem, hnode⟩ := hlink
  exact ⟨node, hperm.mem_iff.mp hmem, hnode⟩

/-- From an imported graph on, a run passes through forests only, in which all walks down come to an
end, exactly if no creation in it makes a circle. -/
theorem forest_iff_no_circle_made {snapshot : GraphSnapshot} (h : ofSnapshot snapshot = .ok g)
    (steps : List (Int64 × GraphCommand)) :
    (∀ before, before <+: steps → (g.run before).Forest ∧ (g.run before).WalksEnd) ↔
      ∀ before now command, before ++ [(now, command)] <+: steps →
        ¬ (g.run before).MakesCircle now command := by
  have hlinked := (ofSnapshot_ok h).2.1
  rw [← forest_run hlinked (forest_ofSnapshot h)]
  constructor
  · exact fun h before hbefore => (h before hbefore).1
  · intro hforest before hbefore
    have hnow := hforest before hbefore
    exact ⟨hnow, hnow.walksEnd (hlinked.run before)⟩

/-- A rule group whose parent does not exist, and its name node.  The first rule group that is
created after the import gets the id of the missing parent. -/
def strayGroup : GraphSnapshot :=
  { nodes :=
      [⟨"A", .ruleGroup, ⟨⟨0⟩, ⟨0⟩⟩, some "ruleGroup-1", false, .null⟩,
        ⟨"B", .ruleName, ⟨⟨0⟩, ⟨0⟩⟩, some "A", true, .null⟩]
    counter := .empty
    order := [] }

def strayGraph : RuleGraph :=
  let store := strayGroup.nodes.foldl insert (empty .standard)
  store.nodes.foldl restore { store with counter := .empty }

theorem strayGroup_imported : ofSnapshot strayGroup = .ok strayGraph := by
  have hcheck : strayGroup.check = .ok () := by rfl
  have hsorted : strayGroup.sortedNodes = strayGroup.nodes := by
    rw [GraphSnapshot.sortedNodes, List.mergeSort_of_pairwise]
    · rfl
    · decide
  rw [ofSnapshot, hcheck, hsorted]
  rfl

/-- Above another node there is only the stray group or its missing parent. -/
theorem climbs_strayGraph {c id : String} (h : strayGraph.Climbs c id) :
    id = c ∨ id = "A" ∨ id = "ruleGroup-1" := by
  rcases ReflTransGen.cases_tail h with heq | ⟨_, -, node, hmem, -, hparent⟩
  · exact .inl heq
  · have hmem' : node ∈ strayGroup.nodes :=
      (ofSnapshot_ok strayGroup_imported).2.2.mem_iff.mp hmem
    rcases List.mem_pair.mp hmem' with rfl | rfl
    · exact .inr (.inr (Option.some.inj hparent).symm)
    · exact .inr (.inl (Option.some.inj hparent).symm)

/-- An action group created in the stray group gets an id that no node has as its parent, and so it
is on no circle. -/
theorem strayGroup_forest : ∃ g, ofSnapshot strayGroup = .ok g ∧
    (g.run [(0, .create .actionGroup (some "A"))]).contains "actionGroup-1" ∧
    (g.run [(0, .create .actionGroup (some "A"))]).Forest ∧
    (g.run [(0, .create .actionGroup (some "A"))]).WalksEnd := by
  have hid : strayGraph.newId 0 .actionGroup = "actionGroup-1" := by decide +kernel
  have hnameId : strayGraph.nameId .actionName = "actionName-1" := by decide +kernel
  have hparent : strayGraph.newParent .actionGroup (some "A") = .ok (some "A") := by
    decide +kernel
  have hmakes : ¬ strayGraph.MakesCircle 0 (.create .actionGroup (some "A")) := by
    rintro ⟨-, -, parent, hparent', hcloses⟩
    cases hparent.symm.trans hparent'
    rw [ClosesCircle, hid] at hcloses
    rcases hcloses with ⟨p, hp, hclimbs⟩ | ⟨nameType, hname, hclimbs | ⟨p, hp, hclimbs⟩⟩
    · cases hp
      exact absurd (climbs_strayGraph hclimbs) (by decide)
    · cases hname
      rw [hnameId] at hclimbs
      exact absurd (climbs_strayGraph hclimbs) (by decide)
    · cases hname
      cases hp
      rw [hnameId] at hclimbs
      exact absurd (climbs_strayGraph hclimbs) (by decide)
  refine ⟨strayGraph, strayGroup_imported, by decide +kernel, ?_⟩
  refine (forest_iff_no_circle_made strayGroup_imported _).mpr ?_ _ List.prefix_rfl
  refine forall_prefix_cons.mpr ⟨hmakes, fun before now command hbefore => ?_⟩
  exact absurd (List.prefix_nil.mp hbefore) (List.append_ne_nil_of_right_ne_nil _ nofun)

/-- A rule group created in the stray group gets the id of the missing parent, and so becomes an
ancestor of itself. -/
theorem strayGroup_circle : ∃ g, ofSnapshot strayGroup = .ok g ∧
    ¬ (g.run [(0, .create .ruleGroup (some "A"))]).Forest := by
  have hid : strayGraph.newId 0 .ruleGroup = "ruleGroup-1" := by decide +kernel
  have hparent : strayGraph.newParent .ruleGroup (some "A") = .ok (some "A") := by decide +kernel
  have hmem : ⟨"A", .ruleGroup, ⟨⟨0⟩, ⟨0⟩⟩, some "ruleGroup-1", false, .null⟩ ∈ strayGraph.nodes :=
    (ofSnapshot_ok strayGroup_imported).2.2.mem_iff.mpr List.mem_cons_self
  have hclimbs : strayGraph.Climbs "A" (strayGraph.newId 0 .ruleGroup) := by
    rw [hid]
    exact .single ⟨_, hmem, rfl, rfl⟩
  have hmakes : strayGraph.MakesCircle 0 (.create .ruleGroup (some "A")) :=
    ⟨rfl, by decide +kernel, some "A", hparent, .inl ⟨"A", rfl, hclimbs⟩⟩
  exact ⟨strayGraph, strayGroup_imported, hmakes.not_forest⟩

end RuleGraph

end CommissionRules
