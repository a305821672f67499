import Mathlib.Data.List.Forall2
import CommissionRules.Proofs.Graph.Frame
import CommissionRules.Proofs.Graph.Lifetime

/-!
# Deletions

The deletion of a subtree names the ids below an id in post-order, each of them once
(`RuleGraph.postOrder_iff`, `RuleGraph.nodup_subtree`).  What a removal orphans are the children
that it keeps of the nodes that it takes (`RuleGraph.orphans_removeAll`), which are none for a
subtree, and all but the name node for a group.  So the answers of both deletions say exactly what
happens to the graph: `RuleGraph.Deletes`.
-/

namespace CommissionRules

open Relation

namespace RuleGraph

variable {g g' : RuleGraph} {id : String}

/-! ## The ids below an id -/

/-- A walk over the ids from an id downward: those below its children, child by child in the order
of their creation, and the id itself last. -/
inductive PostOrder (g : RuleGraph) : String → List String → Prop
  | intro (id : String) (walks : List (List String))
      (children : List.Forall₂ (PostOrder g)
        ((g.nodes.filter fun node => node.parent = some id).map Node.id) walks) :
      PostOrder g id (walks.flatten ++ [id])

theorem postOrder_subtree (h : g.Consistent) {n : Nat} (hshallow : g.Shallow n id) :
    g.PostOrder id (Command.subtree g n id) := by
  induction n generalizing id with
  | zero => exact hshallow.elim
  | succ n ih =>
    rw [Command.subtree, List.flatMap_def]
    refine .intro id _ ?_
    rw [← h.children, List.forall₂_map_right_iff, List.forall₂_same]
    exact fun c hc => ih (hshallow c hc)

/-- There is no other such walk. -/
theorem PostOrder.eq_subtree (h : g.Consistent) {n : Nat} (hshallow : g.Shallow n id)
    {walk : List String} (hwalk : g.PostOrder id walk) : walk = Command.subtree g n id := by
  induction n generalizing id walk with
  | zero => exact hshallow.elim
  | succ n ih =>
    obtain ⟨_, walks, hwalks⟩ := hwalk
    rw [← h.children] at hwalks
    rw [Command.subtree, List.flatMap_def]
    congr 2
    have heq {ids : List String} {walks : List (List String)} (hids : ∀ c ∈ ids, g.Shallow n c)
        (hwalks : List.Forall₂ g.PostOrder ids walks) : walks = ids.map (Command.subtree g n) := by
      induction hwalks with
      | nil => rfl
      | cons hfirst _ hrest =>
        obtain ⟨hshallow, hids⟩ := List.forall_mem_cons.mp hids
        rw [List.map_cons, ih hshallow hfirst, hrest hids]
    exact heq hshallow hwalks

theorem postOrder_iff (h : g.Consistent) {walk : List String} :
    g.PostOrder id walk ↔ walk = g.below id := by
  have hshallow := shallow_of_forest h.linked h.forest id
  exact ⟨(·.eq_subtree h hshallow), fun hwalk => hwalk ▸ postOrder_subtree h hshallow⟩

theorem mem_subtree_iff (h : g.Consistent) {n : Nat} (hshallow : g.Shallow n id) {c : String} :
    c ∈ Command.subtree g n id ↔ g.Climbs c id := by
  constructor
  · intro hmem
    induction n generalizing id with
    | zero => exact hshallow.elim
    | succ n ih =>
      rw [Command.subtree] at hmem
      rcases List.mem_append.mp hmem with hmem | hmem
      · obtain ⟨child, hchild, hmem⟩ := List.mem_flatMap.mp hmem
        exact (ih (hshallow child hchild) hmem).tail (h.linked.child hchild)
      · rw [List.mem_singleton.mp hmem]
        exact .refl
  · intro hclimbs
    induction hclimbs using ReflTransGen.head_induction_on with
    | refl => exact mem_subtree_self hshallow
    | head hlink _ ih =>
      obtain ⟨node, hmem, hid, hparent⟩ := hlink
      exact mem_subtree_of_child hshallow ih (h.mem_childIds.mpr ⟨node, hmem, hparent, hid⟩)

theorem nodup_subtree (h : g.Consistent) {n : Nat} (hshallow : g.Shallow n id) :
    (Command.subtree g n id).Nodup := by
  induction n generalizing id with
  | zero => exact hshallow.elim
  | succ n ih =>
    rw [Command.subtree, List.nodup_append, List.nodup_flatMap]
    refine ⟨⟨fun c hc => ih (hshallow c hc), ?_⟩, List.nodup_singleton id, ?_⟩
    · refine (h.nodup_childIds id).imp_of_mem fun {c c'} hc hc' hne x hx hx' => hne ?_
      rw [mem_subtree_iff h (hshallow c hc)] at hx
      rw [mem_subtree_iff h (hshallow c' hc')] at hx'
      exact h.indexed.eq_of_climbs h.forest (h.linked.child hc) (h.linked.child hc') hx hx'
    · intro x hx y hy heq
      obtain ⟨c, hc, hx⟩ := List.mem_flatMap.mp hx
      rw [mem_subtree_iff h (hshallow c hc), heq, List.mem_singleton.mp hy] at hx
      exact h.forest id (.tail' hx (h.linked.child hc))

/-! ## Removals -/

theorem selection_remove (h : g.Consistent) (id : String) :
    (g.remove id).selection = g.selection.filter (· ≠ id) := by
  obtain ⟨habsent, heq⟩ | ⟨slot, node, -, -, rfl, heq⟩ := h.linked.remove_cases id
  · -- Only nodes are selected.
    rw [heq]
    cases hselection : g.selection with
    | none => rfl
    | some selected =>
      have hne : selected ≠ id := by
        rintro rfl
        obtain ⟨node, hnode, -⟩ := h.selected hselection
        rw [h.contains_iff.mpr ⟨node, h.node?_eq_some.mp hnode⟩] at habsent
        cases habsent
      rw [Option.filter_some, if_pos (decide_eq_true hne)]
  · rw [heq, without]
    cases g.selection with
    | none => rfl
    | some selected => by_cases hsame : selected = node.id <;> simp [Option.filter_some, hsame]

/-- A removal clears the selection exactly if it takes the selected group. -/
theorem selection_removeAll (h : g.Consistent) (ids : List String) :
    (g.removeAll ids).selection = g.selection.filter (· ∉ ids) := by
  induction ids generalizing g with
  | nil =>
    show g.selection = _
    cases g.selection <;> rfl
  | cons id ids ih =>
    have hrest : ((g.remove id).removeAll ids).selection = _ := ih (h.remove id)
    refine hrest.trans ?_
    rw [selection_remove h, Option.filter_filter]
    congr 1
    funext selected
    simp [not_or]

theorem contains_removeAll (h : g.Consistent) {ids : List String} :
    (g.removeAll ids).contains id ↔ g.contains id ∧ id ∉ ids := by
  rw [(h.removeAll ids).contains_iff, h.contains_iff, ← List.mem_map, ← List.mem_map]
  exact Framed.mem_ids_removeAll h

theorem id_mem_orphans (h : g.Consistent) {node : Node} (hmem : node ∈ g.nodes) :
    node.id ∈ g.orphans.map Node.id ↔ ∃ p, node.parent = some p ∧ g.contains p = false := by
  rw [List.mem_map]
  constructor
  · rintro ⟨other, hother, hid⟩
    obtain ⟨hother, hmissing⟩ := mem_orphans.mp hother
    rwa [h.eq_of_id hother hmem hid] at hmissing
  · exact fun hmissing => ⟨node, mem_orphans.mpr ⟨hmem, hmissing⟩, rfl⟩

/-- The nodes that a removal orphans are those that it keeps of the children of removed nodes. -/
theorem orphans_removeAll (h : g.Consistent) {ids : List String} (hlive : ids ⊆ g.ids) :
    ((g.removeAll ids).orphans.map Node.id).filter (· ∉ g.orphans.map Node.id) =
      (g.nodes.filter fun node => node.id ∉ ids ∧ ∃ p ∈ ids, node.parent = some p).map Node.id := by
  have hcontains {p : String} (hp : p ∈ ids) : g.contains p := by
    obtain ⟨node, hmem, rfl⟩ := List.mem_map.mp (hlive hp)
    exact h.contains_iff.mpr ⟨node, hmem, rfl⟩
  have hnodes : (g.removeAll ids).orphans =
      g.nodes.filter fun node => node.id ∉ ids ∧ ∃ p, node.parent = some p ∧
        (g.removeAll ids).contains p = false := by
    rw [orphans, h.nodes_removeAll, List.filter_filter]
    refine List.filter_congr fun node _ => ?_
    cases node.parent <;> simp [Bool.and_comm]
  rw [List.filter_map, hnodes, List.filter_filter]
  congr 1
  refine List.filter_congr fun node hmem => ?_
  rw [Bool.eq_iff_iff, Bool.and_eq_true, decide_eq_true_iff, decide_eq_true_iff]
  have hsame : ((fun x => decide (x ∉ g.orphans.map Node.id)) ∘ Node.id) node = true ↔
      node.id ∉ g.orphans.map Node.id := decide_eq_true_iff
  rw [hsame, id_mem_orphans h hmem]
  constructor
  · -- A parent that was there before and is not there after was removed.
    rintro ⟨hold, hkept, p, hparent, hmissing⟩
    refine ⟨hkept, p, ?_, hparent⟩
    by_contra hp
    rw [Bool.eq_false_iff, Ne, contains_removeAll h] at hmissing
    exact hold ⟨p, hparent, Bool.eq_false_iff.mpr fun hp' => hmissing ⟨hp', hp⟩⟩
  · rintro ⟨hkept, p, hp, hparent⟩
    refine ⟨?_, hkept, p, hparent, ?_⟩
    · rintro ⟨q, hq, hmissing⟩
      rw [hparent, Option.some.injEq] at hq
      rw [← hq, hcontains hp] at hmissing
      cases hmissing
    · rw [Bool.eq_false_iff, Ne, contains_removeAll h]
      exact fun hlater => hlater.2 hp

/-! ## Deletions -/

/-- A deletion takes exactly the nodes that it names, each once.  It names as orphaned, in the order
of creation, the nodes that lose their parent by it, and the selection goes with the selected
group. -/
structure Deletes (g : RuleGraph) (deletion : Deletion) (g' : RuleGraph) : Prop where
  live : deletion.removed ⊆ g.ids
  once : deletion.removed.Nodup
  nodes : g'.nodes = g.nodes.filter (·.id ∉ deletion.removed)
  orphaned : deletion.orphaned = (g'.orphans.map Node.id).filter (· ∉ g.orphans.map Node.id)
  selection : g'.selection = g.selection.filter (· ∉ deletion.removed)

/-- A removal is a deletion that names as orphaned the children that it keeps of removed nodes. -/
theorem Deletes.removeAll (h : g.Consistent) {deletion : Deletion}
    (hlive : deletion.removed ⊆ g.ids) (honce : deletion.removed.Nodup)
    (horphaned : deletion.orphaned = (g.nodes.filter fun node => node.id ∉ deletion.removed ∧
      ∃ p ∈ deletion.removed, node.parent = some p).map Node.id) :
    g.Deletes deletion (g.removeAll deletion.removed) := by
  refine ⟨hlive, honce, ?_, horphaned.trans (orphans_removeAll h hlive).symm,
    selection_removeAll h _⟩
  rw [h.nodes_removeAll]
  refine List.filter_congr fun node _ => ?_
  simp

/-- The deletion of a subtree takes the children with their parents. -/
theorem Deletes.below (h : g.Consistent) (hid : g.contains id) :
    g.Deletes ⟨g.below id, []⟩ (g.removeAll (g.below id)) := by
  have hshallow := shallow_of_forest h.linked h.forest id
  refine .removeAll h (Framed.below_live h hid) (nodup_subtree h hshallow) ?_
  refine (List.map_eq_nil_iff.mpr (List.filter_eq_nil_iff.mpr fun node hmem hkept => ?_)).symm
  obtain ⟨hkept, p, hp, hparent⟩ := of_decide_eq_true hkept
  exact hkept (mem_subtree_of_child hshallow hp (h.mem_childIds.mpr ⟨node, hmem, hparent, rfl⟩))

/-- The ids of the children of a node that are name nodes of its kind. -/
def ownNames (g : RuleGraph) (node : Node) : List String :=
  (g.nodes.filter fun child =>
    child.parent = some node.id ∧ some child.type = node.type.nameType?).map Node.id

theorem mem_ownNames {node : Node} : id ∈ g.ownNames node ↔ ∃ child ∈ g.nodes,
    child.parent = some node.id ∧ some child.type = node.type.nameType? ∧ child.id = id := by
  rw [ownNames, List.mem_map]
  simp only [List.mem_filter, decide_eq_true_iff, and_assoc]

theorem nodup_ownNames (h : g.Consistent) (node : Node) : (g.ownNames node).Nodup :=
  h.nodup_ids.sublist (List.filter_sublist.map _)

/-- A deletion removes the name nodes of a node and the node, and it orphans the other children. -/
theorem deletionOf_eq (h : g.Consistent) {node : Node} (hmem : node ∈ g.nodes) :
    g.deletionOf node node.id = ⟨g.ownNames node ++ [node.id],
      (g.nodes.filter fun child =>
        child.parent = some node.id ∧ some child.type ≠ node.type.nameType?).map Node.id⟩ := by
  have hchildren : (if node.type.isGroup then g.childIds node.id else []) =
      (g.nodes.filter fun child => child.parent = some node.id).map Node.id := by
    rw [← h.children]
    split
    · rfl
    · next hplain =>
      exact (h.childIds_eq_nil (h.node?_eq_some.mpr ⟨hmem, rfl⟩) (Bool.eq_false_iff.mpr hplain)).symm
  have hname {child : Node} (hchild : child ∈ g.nodes) :
      g.isNameChild node child.id = decide (some child.type = node.type.nameType?) := by
    rw [isNameChild, h.node?_eq_some.mpr ⟨hchild, rfl⟩, Option.any_some]
  have hnames : ((g.nodes.filter fun child => child.parent = some node.id).map Node.id).filter
      (g.isNameChild node) = g.ownNames node := by
    rw [List.filter_map, List.filter_filter, ownNames]
    refine congrArg _ (List.filter_congr fun child hchild => ?_)
    rw [Function.comp_apply, hname hchild, Bool.decide_and, Bool.and_comm]
  have hothers : ((g.nodes.filter fun child => child.parent = some node.id).map Node.id).filter
      (fun c => !g.isNameChild node c) = (g.nodes.filter fun child =>
        child.parent = some node.id ∧ some child.type ≠ node.type.nameType?).map Node.id := by
    rw [List.filter_map, List.filter_filter]
    refine congrArg _ (List.filter_congr fun child hchild => ?_)
    rw [Function.comp_apply, hname hchild, Bool.decide_and, Bool.and_comm, decide_not]
  rw [deletionOf, hchildren, hnames, hothers]

theorem Deletes.deletionOf (h : g.Consistent) {node : Node} (hmem : node ∈ g.nodes) :
    g.Deletes (g.deletionOf node node.id) (g.removeAll (g.deletionOf node node.id).removed) := by
  have hnode : g.node? node.id = some node := h.node?_eq_some.mpr ⟨hmem, rfl⟩
  have hlive := Framed.deletionOf_live h hnode
  have hapart {child : Node} (hchild : child ∈ g.nodes) (hparent : child.parent = some node.id) :
      child.id ≠ node.id := fun hid =>
    h.forest node.id (.single ⟨child, hchild, hid, hparent⟩)
  rw [deletionOf_eq h hmem] at hlive ⊢
  refine .removeAll h hlive ?_ ?_
  · rw [List.nodup_append]
    refine ⟨nodup_ownNames h node, List.nodup_singleton _, fun c hc c' hc' heq => ?_⟩
    obtain ⟨child, hchild, hparent, -, rfl⟩ := mem_ownNames.mp hc
    exact hapart hchild hparent (heq.trans (List.mem_singleton.mp hc'))
  · refine congrArg _ (List.filter_congr fun child hchild => decide_eq_decide.mpr ?_)
    simp only [List.mem_append, List.mem_singleton, not_or]
    constructor
    · rintro ⟨hparent, htype⟩
      refine ⟨⟨fun hname => ?_, hapart hchild hparent⟩, node.id, .inr rfl, hparent⟩
      obtain ⟨other, hother, -, htype', hid⟩ := mem_ownNames.mp hname
      rw [h.eq_of_id hother hchild hid] at htype'
      exact htype htype'
    · rintro ⟨⟨hkept, -⟩, p, hp | rfl, hparent⟩
      · -- A name node has no children.
        obtain ⟨name, hname, -, htype, rfl⟩ := mem_ownNames.mp hp
        have hnone := h.childIds_eq_nil (h.node?_eq_some.mpr ⟨hname, rfl⟩)
          (isGroup_of_isName (isName_nameType? htype.symm).2.1)
        have hmem : child.id ∈ g.childIds name.id := h.mem_childIds.mpr ⟨child, hchild, hparent, rfl⟩
        rw [hnone] at hmem
        cases hmem
      · exact ⟨hparent, fun htype => hkept (mem_ownNames.mpr ⟨child, hchild, hparent, htype, rfl⟩)⟩

/-! ## Name nodes -/

/-- No two name nodes have the same parent. -/
def NamesApart (g : RuleGraph) : Prop :=
  ∀ name ∈ g.nodes, ∀ other ∈ g.nodes, name.type.isName → other.type.isName →
    name.parent = other.parent → name.id = other.id

theorem NamesApart.effect (h : g.NamesApart) {length : Nat} (hreached : g.Reached length)
    {now : Int64} {command : GraphCommand} {answer : Except CommandFailure CommandOutcome}
    (heffect : Effect g now command answer g') : g'.NamesApart := by
  rcases hreached.consistent.linked.created_or_shrinks heffect with
    ⟨type, _, parent, -, -, hplain, -, hrange, rfl⟩ | hshrinks
  · have hnew {added : Node} (hadded : added ∈ g.newNodes now type parent)
        (hisName : added.type.isName) : ∃ nameType, type.nameType? = some nameType ∧
          added = g.nameNode (g.newId now type) nameType (g.counter.get type + 1) := by
      rcases mem_newNodes.mp hadded with rfl | hname
      · rw [show (g.newNode now type parent).type = type from rfl, hplain] at hisName
        cases hisName
      · exact hname
    -- A name node that was there before is not one of the new group.
    have hold {node added : Node} (hnode : node ∈ g.nodes)
        (hadded : added ∈ g.newNodes now type parent) (hisName : added.type.isName) :
        node.parent ≠ added.parent := by
      obtain ⟨nameType, -, rfl⟩ := hnew hadded hisName
      have hgroup : g.newNode now type parent ∈ g.newNodes now type parent := List.mem_cons_self
      exact (hreached.newNodes_fresh hrange hgroup hnode).2
    intro name hname other hother hisName hisName' hparent
    rw [nodes_withNew, List.mem_append] at hname hother
    rcases hname with hname | hname <;> rcases hother with hother | hother
    · exact h name hname other hother hisName hisName' hparent
    · exact absurd hparent (hold hname hother hisName')
    · exact absurd hparent.symm (hold hother hname hisName)
    · obtain ⟨nameType, htype, rfl⟩ := hnew hname hisName
      obtain ⟨nameType', htype', rfl⟩ := hnew hother hisName'
      rw [htype, Option.some.injEq] at htype'
      rw [htype']
  · intro name hname other hother hisName hisName' hparent
    obtain ⟨name', hname', hid, htype, hup⟩ := hshrinks.old hname
    obtain ⟨other', hother', hid', htype', hup'⟩ := hshrinks.old hother
    rw [← hid, ← hid']
    exact h name' hname' other' hother' (htype ▸ hisName) (htype' ▸ hisName')
      (hup.trans (hparent.trans hup'.symm))

theorem namesApart_run (layout : Layout) (steps : List (Int64 × GraphCommand)) :
    ((empty layout).run steps).NamesApart := by
  induction steps using List.reverseRecOn with
  | nil => exact fun _ hmem => nomatch hmem
  | append_singleton before step ih =>
    rw [run_concat]
    exact ih.effect (reached_run layout before) (dispatch_effect _ _ _)

theorem NamesApart.length_ownNames_le (h : g.NamesApart) (hconsistent : g.Consistent)
    (node : Node) : (g.ownNames node).length ≤ 1 := by
  have hsame {c c' : String} (hc : c ∈ g.ownNames node) (hc' : c' ∈ g.ownNames node) : c = c' := by
    obtain ⟨name, hname, hparent, htype, rfl⟩ := mem_ownNames.mp hc
    obtain ⟨other, hother, hparent', htype', rfl⟩ := mem_ownNames.mp hc'
    exact h name hname other hother (isName_nameType? htype.symm).2.1
      (isName_nameType? htype'.symm).2.1 (hparent.trans hparent'.symm)
  have hnodup := nodup_ownNames hconsistent node
  rcases hnames : g.ownNames node with _ | ⟨c, _ | ⟨c', rest⟩⟩
  · exact Nat.zero_le 1
  · exact Nat.le_refl 1
  · rw [hnames] at hnodup hsame
    exact absurd (hsame (List.mem_cons_self) (List.mem_cons_of_mem _ List.mem_cons_self))
      (List.ne_of_not_mem_cons (List.nodup_cons.mp hnodup).1)

/-! ## Runs -/

/-- In a graph that commands make from an empty one, the deletion of a subtree removes the ids from
an id downward in post-order, which is the order in which the loop of the deletion collects them,
and it orphans no node.  The deletion of a node removes the node and at most one name node, which is
a child of it and of its kind.  Either deletion removes and orphans exactly what its answer says. -/
theorem deletion_exact (layout : Layout) (steps : List (Int64 × GraphCommand)) (now : Int64) :
    let g := (empty layout).run steps
    ∀ node ∈ g.nodes,
      (∃ removed,
        (g.dispatch now (.deleteSubtree node.id)).1 = .ok (.deleted ⟨removed, []⟩) ∧
        (∀ walk, g.PostOrder node.id walk ↔ walk = removed) ∧
        (∃ fuel, g.collect fuel [node.id] [] = some removed) ∧
        (∀ c, c ∈ removed ↔ g.Climbs c node.id) ∧
        g.Deletes ⟨removed, []⟩ (g.dispatch now (.deleteSubtree node.id)).2) ∧
      (node.type.isName = false → ∃ names orphaned,
        (g.dispatch now (.delete node.id)).1 = .ok (.deleted ⟨names ++ [node.id], orphaned⟩) ∧
        (∀ c, c ∈ names ↔ ∃ child ∈ g.nodes, child.parent = some node.id ∧
          some child.type = node.type.nameType? ∧ child.id = c) ∧
        names.length ≤ 1 ∧
        g.Deletes ⟨names ++ [node.id], orphaned⟩ (g.dispatch now (.delete node.id)).2) := by
  intro g node hmem
  have h : g.Consistent := (reached_run layout steps).consistent
  have hlive : g.contains node.id := h.contains_iff.mpr ⟨node, hmem, rfl⟩
  have hshallow := shallow_of_forest h.linked h.forest node.id
  constructor
  · refine ⟨g.below node.id, ?_⟩
    rw [dispatch_deleteSubtree, if_pos hlive]
    exact ⟨rfl, fun _ => postOrder_iff h, exists_collect_eq hshallow,
      fun _ => mem_subtree_iff h hshallow, .below h hlive⟩
  · intro hplain
    refine ⟨g.ownNames node, (g.deletionOf node node.id).orphaned, ?_⟩
    have hdeletion : g.deletionOf node node.id =
        ⟨g.ownNames node ++ [node.id], (g.deletionOf node node.id).orphaned⟩ := by
      rw [deletionOf_eq h hmem]
    rw [dispatch_delete, h.node?_eq_some.mpr ⟨hmem, rfl⟩]
    dsimp only
    rw [hplain, if_neg Bool.false_ne_true, ← hdeletion]
    exact ⟨rfl, fun _ => mem_ownNames, (namesApart_run layout steps).length_ownNames_le h node,
      .deletionOf h hmem⟩

/-- A rule group with an action group and a condition in it. -/
def nesting : List (Int64 × GraphCommand) :=
  [(0, .create .ruleGroup none), (0, .create .actionGroup (some "ruleGroup-1")),
    (1, .create .condition (some "ruleGroup-1"))]

theorem deletion_exact_nesting :
    let g := (empty .standard).run nesting
    g.PostOrder "ruleGroup-1"
      ["ruleName-1", "actionName-1", "actionGroup-1", "condition-1", "ruleGroup-1"] ∧
    g.Deletes ⟨["ruleName-1", "ruleGroup-1"], ["actionGroup-1", "condition-1"]⟩
      (g.dispatch 0 (.delete "ruleGroup-1")).2 := by
  intro g
  have hgroup : g.nodes.any (fun node => node.id = "ruleGroup-1" && !node.type.isName) := by
    decide +kernel
  obtain ⟨node, hmem, hnode⟩ := List.any_eq_true.mp hgroup
  rw [Bool.and_eq_true, decide_eq_true_iff, Bool.not_eq_true'] at hnode
  obtain ⟨⟨removed, hanswer, hwalk, -⟩, hplain⟩ :=
    deletion_exact .standard nesting 0 node hmem
  obtain ⟨names, orphaned, hanswer', -, -, hdeletes⟩ := hplain hnode.2
  rw [hnode.1] at hanswer hwalk hanswer' hdeletes
  constructor
  · refine (hwalk _).mpr ?_
    have hsubtree : (g.dispatch 0 (.deleteSubtree "ruleGroup-1")).1 = .ok (.deleted
      ⟨["ruleName-1", "actionName-1", "actionGroup-1", "condition-1", "ruleGroup-1"], []⟩) := rfl
    cases hsubtree.symm.trans hanswer
    rfl
  · have hdelete : (g.dispatch 0 (.delete "ruleGroup-1")).1 = .ok (.deleted
      ⟨["ruleName-1", "ruleGroup-1"], ["actionGroup-1", "condition-1"]⟩) := rfl
    rw [hdelete, Except.ok.injEq, CommandOutcome.deleted.injEq] at hanswer'
    rwa [hanswer']

end RuleGraph

end CommissionRules
