import CommissionRules.Proofs.Graph.Growth
import CommissionRules.Proofs.Graph.Restore

/-!
# Unique ids

The ids of the nodes stay different from each other as long as no creation gives an id that is in
use: `RuleGraph.nodup_ids_iff`.  A counter gives only new ids if it is above every number that
stands with the text of its type in an id, whatever the type of the node is that has this id:
`RuleGraph.Covered`.  An import ensures this for the ids that fit the types of their nodes.
-/

namespace CommissionRules

namespace RuleGraph

variable {g g' : RuleGraph}

/-! ## Commands that keep the ids different -/

/-- A creation that gives one of the nodes that it adds the id of a node. -/
def RepeatsId (g : RuleGraph) (now : Int64) : GraphCommand → Prop
  | .create type requested =>
      type.isName = false ∧ g.InRange now type ∧
        (∃ parent, g.newParent type requested = .ok parent) ∧
        (g.contains (g.newId now type) ∨
          ∃ nameType, type.nameType? = some nameType ∧ g.contains (g.nameId nameType))
  | _ => False

theorem Indexed.add (h : g.Indexed) {node : Node} (hfresh : g.contains node.id = false) :
    (g.add node).Indexed := by
  refine (h.recount _ g.lastToken).insert fun other hother hid => ?_
  rw [h.contains_iff.mpr ⟨other, hother, hid⟩] at hfresh
  cases hfresh

theorem nameId_ne_newId {now : Int64} {type nameType : NodeType}
    (h : type.nameType? = some nameType) : g.nameId nameType ≠ g.newId now type := by
  have hcounted := isGroup_requiresGroup (nameType?_eq_some h).1
  rw [nameId, newId, hcounted, if_neg Bool.false_ne_true]
  exact fun heq => nameType?_ne h (counterId_inj.mp heq).1

theorem Indexed.withNew (h : g.Indexed) {now : Int64} {type : NodeType} (parent : Option String)
    (hid : g.contains (g.newId now type) = false)
    (hnameId : ∀ nameType, type.nameType? = some nameType →
      g.contains (g.nameId nameType) = false) : (g.withNew now type parent).Indexed := by
  have hnode : (g.withNode now type parent).Indexed :=
    (h.recount g.counter _ : (g.allocated now type).Indexed).add hid
  rw [RuleGraph.withNew]
  cases hname : type.nameType? with
  | none => exact hnode
  | some nameType =>
    dsimp only
    have hfresh : (g.withNode now type parent).contains (g.nameId nameType) = false := by
      rw [Bool.eq_false_iff]
      intro hcontains
      rcases contains_insert.mp hcontains with heq | hold
      · exact nameId_ne_newId hname heq
      · have hnew := hnameId nameType hname
        rw [show g.contains (g.nameId nameType) = true from hold] at hnew
        cases hnew
    have hadd : ((g.withNode now type parent).add ((g.withNode now type parent).nameNode
        (g.newId now type) nameType (g.counter.get type + 1))).Indexed := by
      refine hnode.add ?_
      show (g.withNode now type parent).contains
        ((g.withNode now type parent).nameId nameType) = false
      rw [nameId_withNode parent hname]
      exact hfresh
    exact ⟨hadd.index, hadd.children⟩

theorem Indexed.effect (h : g.Indexed) {now : Int64} {command : GraphCommand}
    {answer : Except CommandFailure CommandOutcome} (heffect : Effect g now command answer g')
    (hrepeats : ¬ g.RepeatsId now command) : g'.Indexed := by
  cases heffect with
  | refused => exact h
  | overflowed => exact h
  | created type requested parent hname hparent hrange =>
    refine h.withNew parent ?_ ?_
    · refine Bool.eq_false_iff.mpr fun hcontains => ?_
      exact hrepeats ⟨hname, hrange, ⟨parent, hparent⟩, .inl hcontains⟩
    · intro nameType hnameType
      refine Bool.eq_false_iff.mpr fun hcontains => ?_
      exact hrepeats ⟨hname, hrange, ⟨parent, hparent⟩, .inr ⟨nameType, hnameType, hcontains⟩⟩
  | updated id patch slot node hslot hnode => exact h.withData _ hnode
  | deleted => exact h.removeAll _
  | deletedSubtree => exact h.removeAll _
  | selected => exact ⟨h.index, h.children⟩
  | unselected => exact ⟨h.index, h.children⟩

theorem RepeatsId.not_nodup (hindexed : g.Indexed) {now : Int64} {command : GraphCommand}
    (h : g.RepeatsId now command) :
    ¬ ((g.dispatch now command).2.nodes.map Node.id).Nodup := by
  cases command with
  | create type requested =>
    obtain ⟨hname, hrange, ⟨parent, hparent⟩, hrepeated⟩ := h
    rw [dispatch_create_eq hname hparent hrange]
    dsimp only
    rw [nodes_withNew, List.map_append, List.nodup_append]
    intro hnodup
    have hold {id : String} (hcontains : g.contains id) : id ∈ g.nodes.map Node.id := by
      obtain ⟨node, hmem, hid⟩ := hindexed.contains_iff.mp hcontains
      exact hid ▸ List.mem_map_of_mem hmem
    rcases hrepeated with hcontains | ⟨nameType, hnameType, hcontains⟩
    · exact hnodup.2.2 _ (hold hcontains) (g.newId now type) List.mem_cons_self rfl
    · refine hnodup.2.2 _ (hold hcontains) (g.nameId nameType) (List.mem_cons_of_mem _ ?_) rfl
      rw [hnameType]
      exact List.mem_singleton.mpr rfl
  | update | delete | deleteSubtree | select | clearSelection => exact h.elim

theorem Indexed.run (h : g.Indexed) {steps : List (Int64 × GraphCommand)}
    (hrepeats : ∀ before now command, before ++ [(now, command)] <+: steps →
      ¬ (g.run before).RepeatsId now command) : (g.run steps).Indexed := by
  induction steps using List.reverseRecOn with
  | nil => exact h
  | append_singleton before step ih =>
    have hbefore := ih fun earlier now command hearlier =>
      hrepeats earlier now command (hearlier.trans (List.prefix_append before [step]))
    rw [run_concat]
    exact hbefore.effect (dispatch_effect _ _ _) (hrepeats before _ _ List.prefix_rfl)

/-- A repeated id would show in the list of ids at once. -/
theorem Indexed.run_of_nodup (h : g.Indexed) {steps : List (Int64 × GraphCommand)}
    (hnodup : ∀ before, before <+: steps → ((g.run before).nodes.map Node.id).Nodup) :
    (g.run steps).Indexed := by
  induction steps using List.reverseRecOn with
  | nil => exact h
  | append_singleton before step ih =>
    have hbefore := ih fun earlier hearlier =>
      hnodup earlier (hearlier.trans (List.prefix_append before [step]))
    have hafter := hnodup _ List.prefix_rfl
    rw [run_concat] at hafter ⊢
    exact hbefore.effect (dispatch_effect _ _ _) fun hrepeats => hrepeats.not_nodup hbefore hafter

theorem Indexed.nodup_run_iff (h : g.Indexed) {steps : List (Int64 × GraphCommand)} :
    (∀ before, before <+: steps → ((g.run before).nodes.map Node.id).Nodup) ↔
      ∀ before now command, before ++ [(now, command)] <+: steps →
        ¬ (g.run before).RepeatsId now command := by
  constructor
  · intro hnodup before now command hsteps hrepeats
    have hbefore := (List.prefix_append before [(now, command)]).trans hsteps
    have hindexed := h.run_of_nodup fun earlier hearlier =>
      hnodup earlier (hearlier.trans hbefore)
    have hafter := hnodup _ hsteps
    rw [run_concat] at hafter
    exact hrepeats.not_nodup hindexed hafter
  · intro hrepeats before hsteps
    refine (h.run fun earlier now command hearlier => ?_).nodup_ids
    exact hrepeats earlier now command (hearlier.trans hsteps)

/-! ## Counters above all ids -/

/-- No counter is below a number that stands with the text of its type in an id. -/
def Covered (g : RuleGraph) : Prop :=
  ∀ node ∈ g.nodes, ∀ type count, type.requiresGroup = false → node.id = counterId type count →
    count ≤ g.counter.get type

theorem Covered.of_nodes (h : g.Covered) (hcounter : g'.counter = g.counter)
    (hids : ∀ node ∈ g'.nodes, ∃ node' ∈ g.nodes, node'.id = node.id) : g'.Covered := by
  intro node hmem type count htype hid
  obtain ⟨node', hmem', hid'⟩ := hids node hmem
  rw [hcounter]
  exact h node' hmem' type count htype (hid'.trans hid)

theorem Covered.add (h : g.Covered) {node : Node}
    (hcount : (g.counter.get node.type).toNat + 1 < 2 ^ 64)
    (hnode : ∀ type count, type.requiresGroup = false → node.id = counterId type count →
      type = node.type ∧ count = g.counter.get type + 1) : (g.add node).Covered := by
  intro other hmem type count htype hid
  rw [nodes_add] at hmem
  rcases List.mem_append.mp hmem with hmem | hmem
  · exact UInt64.le_trans (h other hmem type count htype hid) (get_le_add hcount type)
  · rw [List.mem_singleton.mp hmem] at hid
    obtain ⟨hself, rfl⟩ := hnode type count htype hid
    rw [get_add, if_pos hself]
    exact UInt64.le_refl _

/-- Where the counters are above all ids, no id is given twice. -/
structure Guarded (g : RuleGraph) : Prop where
  indexed : g.Indexed
  covered : g.Covered

theorem Covered.counterId_free (h : g.Covered) (hindexed : g.Indexed) {type : NodeType}
    (htype : type.requiresGroup = false) (hcount : (g.counter.get type).toNat + 1 < 2 ^ 64) :
    g.contains (counterId type (g.counter.get type + 1)) = false := by
  rw [Bool.eq_false_iff]
  intro hcontains
  obtain ⟨node, hmem, hid⟩ := hindexed.contains_iff.mp hcontains
  have hle := UInt64.le_iff_toNat_le.mp (h node hmem type _ htype hid)
  rw [toNat_succ hcount] at hle
  omega

theorem Covered.withNew (h : g.Covered) {now : Int64} {type : NodeType} (parent : Option String)
    (hrange : g.InRange now type) : (g.withNew now type parent).Covered := by
  have hnode : (g.withNode now type parent).Covered := by
    have hallocated : (g.allocated now type).Covered := h
    refine hallocated.add hrange.count fun type' count htype hid => ?_
    have hid' : g.newId now type = counterId type' count := hid
    rw [newId] at hid'
    split at hid'
    · next hgroup =>
      refine absurd hid'.symm (counterId_ne_tokenId ?_ _ _)
      intro heq
      rw [heq, hgroup] at htype
      cases htype
    · obtain ⟨rfl, rfl⟩ := counterId_inj.mp hid'
      exact ⟨rfl, rfl⟩
  rw [RuleGraph.withNew]
  cases hname : type.nameType? with
  | none => exact hnode
  | some nameType =>
    dsimp only
    have hcount := hrange.nameCount_withNode parent hname
    refine hnode.add hcount fun type' count htype hid => ?_
    obtain ⟨rfl, rfl⟩ := counterId_inj.mp hid
    exact ⟨rfl, rfl⟩

namespace Guarded

theorem not_repeatsId (h : g.Guarded) (now : Int64) (command : GraphCommand) :
    ¬ g.RepeatsId now command := by
  cases command with
  | create type requested =>
    intro hrepeats
    obtain ⟨-, hrange, -, hcontains | ⟨nameType, hname, hcontains⟩⟩ := hrepeats
    · rw [newId] at hcontains
      split at hcontains
      · next htype =>
        rw [(newToken_isLeast (hrange.number htype)).1.free] at hcontains
        cases hcontains
      · next htype =>
        rw [h.covered.counterId_free h.indexed (Bool.eq_false_iff.mpr htype) hrange.count]
          at hcontains
        cases hcontains
    · rw [nameId, h.covered.counterId_free h.indexed (nameType?_eq_some hname).2.1
        (hrange.nameCount nameType hname)] at hcontains
      cases hcontains
  | update | delete | deleteSubtree | select | clearSelection => exact id

theorem effect (h : g.Guarded) {now : Int64} {command : GraphCommand}
    {answer : Except CommandFailure CommandOutcome} (heffect : Effect g now command answer g') :
    g'.Guarded := by
  refine ⟨h.indexed.effect heffect (h.not_repeatsId now command), ?_⟩
  have removed (ids : List String) : (g.removeAll ids).Covered :=
    h.covered.of_nodes (counter_removeAll ids).1 fun node hmem =>
      ⟨node, h.indexed.linked.mem_of_removeAll hmem, rfl⟩
  cases heffect with
  | refused => exact h.covered
  | overflowed => exact h.covered
  | created type requested parent hname hparent hrange => exact h.covered.withNew parent hrange
  | updated id patch slot node hslot hnode =>
    refine h.covered.of_nodes rfl fun other hmem => ?_
    obtain ⟨other', hmem', hid, -⟩ := mem_of_bare (bare_withData _ hnode) hmem
    exact ⟨other', hmem', hid⟩
  | deleted => exact removed _
  | deletedSubtree => exact removed _
  | selected => exact h.covered
  | unselected => exact h.covered

theorem run (h : g.Guarded) (steps : List (Int64 × GraphCommand)) : (g.run steps).Guarded := by
  induction steps generalizing g with
  | nil => exact h
  | cons step steps ih => exact ih (h.effect (dispatch_effect _ _ _))

end Guarded

/-! ## Imported graphs -/

/-- Every id that reads like one of a counter is that of a node of the same type, or its number is
not above the stored counter. -/
def OwnIds (s : GraphSnapshot) : Prop :=
  ∀ node ∈ s.nodes, ∀ type count, type.requiresGroup = false → node.id = counterId type count →
    count ≤ s.counter.get type ∨ node.type = type ∧ count.toNat < 2 ^ 63

theorem covered_ofSnapshot {s : GraphSnapshot} (h : ofSnapshot s = .ok g) (hown : OwnIds s) :
    g.Covered := by
  obtain ⟨-, rfl⟩ := ofSnapshot_eq_ok.mp h
  intro node hmem type count htype hid
  have hstored : node ∈ (storeOf s).nodes := by
    rw [nodes_graphOf, ← nodes_storeOf] at hmem
    exact hmem
  have hmem' : node ∈ s.nodes := by
    rw [nodes_storeOf] at hstored
    exact s.sortedNodes_perm.mem_iff.mp hstored
  rcases hown node hmem' type count htype hid with hle | ⟨rfl, hcount⟩
  · exact UInt64.le_trans hle
      (get_le_foldl_restore (g := { storeOf s with counter := s.counter }) _ type)
  · exact count_le_foldl_restore hstored (countOf?_counterId htype hid hcount)

/-- From an imported graph on, the ids of the nodes are different from each other all along a run,
and the index is as large as their list, exactly if no creation in it repeats an id.  None does if
every id that reads like one of a counter is that of a node of the same type. -/
theorem nodup_ids_iff {snapshot : GraphSnapshot} (h : ofSnapshot snapshot = .ok g)
    (steps : List (Int64 × GraphCommand)) :
    ((∀ before, before <+: steps → ((g.run before).nodes.map Node.id).Nodup ∧
        (g.run before).size = (g.run before).nodes.length) ↔
      ∀ before now command, before ++ [(now, command)] <+: steps →
        ¬ (g.run before).RepeatsId now command) ∧
    (OwnIds snapshot → ∀ before now command, before ++ [(now, command)] <+: steps →
      ¬ (g.run before).RepeatsId now command) := by
  have hindexed := indexed_ofSnapshot h
  constructor
  · rw [← hindexed.nodup_run_iff]
    constructor
    · exact fun hnodup before hbefore => (hnodup before hbefore).1
    · intro hnodup before hbefore
      refine ⟨hnodup before hbefore, (hindexed.run_of_nodup fun earlier hearlier => ?_).size_eq⟩
      exact hnodup earlier (hearlier.trans hbefore)
  · intro hown before now command _
    have hguarded : g.Guarded := ⟨hindexed, covered_ofSnapshot h hown⟩
    exact (hguarded.run before).not_repeatsId now command

/-- A start node alone. -/
def startAlone (id : String) : GraphSnapshot :=
  { nodes := [⟨id, .initial, ⟨⟨0⟩, ⟨0⟩⟩, none, false, .null⟩]
    counter := .empty
    order := [] }

theorem startAlone_imported (id : String) : ofSnapshot (startAlone id) =
    .ok (((empty .standard).insert ⟨id, .initial, ⟨⟨0⟩, ⟨0⟩⟩, none, false, .null⟩).restore
      ⟨id, .initial, ⟨⟨0⟩, ⟨0⟩⟩, none, false, .null⟩) := by
  have hcheck : (startAlone id).check = .ok () := rfl
  have hsorted : (startAlone id).sortedNodes = (startAlone id).nodes := by
    rw [GraphSnapshot.sortedNodes, List.mergeSort_of_pairwise]
    · rfl
    · exact List.pairwise_singleton _ _
  rw [ofSnapshot, hcheck, hsorted]
  rfl

/-- After a start node whose id fits its type, another one gets the next id. -/
theorem startAlone_nodup : ∃ g, ofSnapshot (startAlone "initial-3") = .ok g ∧
    OwnIds (startAlone "initial-3") ∧
    ((g.run [(0, .create .initial none)]).nodes.map Node.id).Nodup := by
  have hown : OwnIds (startAlone "initial-3") := by
    intro node hmem type count htype hid
    rw [List.mem_singleton.mp hmem] at hid ⊢
    obtain ⟨rfl, rfl⟩ :=
      counterId_inj.mp (show counterId .initial 3 = counterId type count from hid)
    exact .inr ⟨rfl, by decide⟩
  refine ⟨_, startAlone_imported "initial-3", hown, ?_⟩
  have hunique := nodup_ids_iff (startAlone_imported "initial-3") [(0, .create .initial none)]
  exact (hunique.1.mpr (hunique.2 hown) _ List.prefix_rfl).1

/-- The counter of rule groups does not see a start node with an id that reads like one of theirs,
so that the first rule group gets this id again. -/
theorem startAlone_repeated : ∃ g, ofSnapshot (startAlone "ruleGroup-1") = .ok g ∧
    ¬ (((g.run [(0, .create .ruleGroup none)]).nodes.map Node.id).Nodup ∧
      (g.run [(0, .create .ruleGroup none)]).size =
        (g.run [(0, .create .ruleGroup none)]).nodes.length) := by
  refine ⟨_, startAlone_imported "ruleGroup-1", ?_⟩
  decide +kernel

end RuleGraph

end CommissionRules
