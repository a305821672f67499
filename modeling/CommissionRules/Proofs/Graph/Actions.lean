import CommissionRules.Proofs.Graph.Series

/-!
# The actions of a rule group

The actions of an assembled rule are the action groups in a rule group and in the rule groups nested
in it, in the order of a walk that goes into a nested group where it stands among the members:
`RuleGraph.Gathers`.  No action group comes twice, since in a forest no two members of a group have
a node below both of them: `RuleGraph.Gathers.nodup`.  With what a group must be like to be
assembled at all, this says what the assembly does: `RuleGraph.assembly_exact`.
-/

namespace CommissionRules

open Relation

namespace RuleGraph

variable {g : RuleGraph} {id : String}

/-- The action groups among some nodes and, in the place of each rule group, those in it. -/
inductive Gathers (g : RuleGraph) : List Node → List Node → Prop
  | nil : Gathers g [] []
  | action {node : Node} {rest found : List Node} (htype : node.type = .actionGroup)
      (later : Gathers g rest found) : Gathers g (node :: rest) (node :: found)
  | group {node : Node} {rest inner found : List Node} (htype : node.type = .ruleGroup)
      (nested : Gathers g (g.members node.id) inner) (later : Gathers g rest found) :
      Gathers g (node :: rest) (inner ++ found)
  | other {node : Node} {rest found : List Node}
      (htype : node.type ∉ [NodeType.actionGroup, .ruleGroup]) (later : Gathers g rest found) :
      Gathers g (node :: rest) found

/-! ## Nodes below a member -/

/-- A node, or what is within it if it is a rule group. -/
def From (g : RuleGraph) (child node : Node) : Prop :=
  node = child ∨ child.type = .ruleGroup ∧ g.Within child.id node

theorem within_iff {node : Node} :
    g.Within id node ↔ ∃ child ∈ g.members id, g.From child node := by
  constructor
  · intro h
    cases h with
    | member hmem => exact ⟨node, hmem, .inl rfl⟩
    | nested hmem htype hbelow => exact ⟨_, hmem, .inr ⟨htype, hbelow⟩⟩
  · rintro ⟨child, hmem, rfl | ⟨htype, hbelow⟩⟩
    · exact .member hmem
    · exact .nested hmem htype hbelow

theorem parentLink_of_mem_members {node : Node} (h : node ∈ g.members id) :
    g.ParentLink node.id id := by
  obtain ⟨hmem, hparent⟩ := List.mem_filter.mp h
  exact ⟨node, hmem, rfl, of_decide_eq_true hparent⟩

theorem Within.climbs {node : Node} (h : g.Within id node) : g.Climbs node.id id := by
  induction h with
  | member hmem => exact .single (parentLink_of_mem_members hmem)
  | nested hmem _ _ ih => exact ih.tail (parentLink_of_mem_members hmem)

theorem From.climbs {child node : Node} (h : g.From child node) : g.Climbs node.id child.id := by
  rcases h with rfl | ⟨-, hwithin⟩
  · exact .refl
  · exact hwithin.climbs

/-- Nothing is below two members at once. -/
theorem not_from_both (hindexed : g.Indexed) (hforest : g.Forest) {child node : Node}
    {rest : List Node} (hsublist : (child :: rest).Sublist (g.members id))
    (h : g.From child node) : ¬ ∃ other ∈ rest, g.From other node := by
  rintro ⟨other, hother, hfrom⟩
  have hnodup : ((child :: rest).map Node.id).Nodup :=
    hindexed.nodup_ids.sublist ((hsublist.trans List.filter_sublist).map _)
  have hlink {c : Node} (hc : c ∈ child :: rest) : g.ParentLink c.id id :=
    parentLink_of_mem_members (hsublist.subset hc)
  have heq : child.id = other.id := hindexed.eq_of_climbs hforest (hlink List.mem_cons_self)
    (hlink (List.mem_cons_of_mem _ hother)) h.climbs hfrom.climbs
  exact (List.nodup_cons.mp hnodup).1 (heq ▸ List.mem_map_of_mem hother)

namespace Gathers

variable {children found found' : List Node}

theorem unique (h : g.Gathers children found) (h' : g.Gathers children found') :
    found = found' := by
  induction h generalizing found' with
  | nil =>
    cases h'
    rfl
  | action htype _ ih =>
    cases h' with
    | action _ later => rw [ih later]
    | group htype' | other htype' => simp [htype] at htype'
  | group htype _ _ ihNested ih =>
    cases h' with
    | group _ nested later => rw [ihNested nested, ih later]
    | action htype' | other htype' => simp [htype] at htype'
  | other htype _ ih =>
    cases h' with
    | other _ later => exact ih later
    | action htype' | group htype' => simp [htype'] at htype

theorem mem_iff (h : g.Gathers children found) {node : Node} :
    node ∈ found ↔ node.type = .actionGroup ∧ ∃ child ∈ children, g.From child node := by
  induction h with
  | nil => simp
  | @action action rest found htype _ ih =>
    have hself : g.From action node ↔ node = action := or_iff_left fun h => by simp [htype] at h
    rw [List.mem_cons, ih, List.exists_mem_cons_iff, hself, and_or_left]
    exact or_congr_left (iff_and_self.mpr fun heq => heq ▸ htype)
  | group htype _ _ ihNested ih =>
    rw [List.mem_append, ihNested, ih, List.exists_mem_cons_iff, ← within_iff, and_or_left]
    refine or_congr_left (and_congr_right fun haction => ?_)
    constructor
    · exact fun h => .inr ⟨htype, h⟩
    · rintro (rfl | ⟨-, h⟩)
      · rw [htype] at haction
        cases haction
      · exact h
  | other htype _ ih =>
    rw [ih, List.exists_mem_cons_iff]
    refine and_congr_right fun haction => (or_iff_right ?_).symm
    rintro (rfl | ⟨hgroup, -⟩)
    · simp [haction] at htype
    · simp [hgroup] at htype

/-- An action group that was gathered from two members would lie below both of them. -/
theorem nodup (h : g.Gathers children found) (hindexed : g.Indexed) (hforest : g.Forest)
    (hsublist : children.Sublist (g.members id)) : found.Nodup := by
  induction h generalizing id with
  | nil => exact List.nodup_nil
  | @action action rest found htype later ih =>
    refine List.nodup_cons.mpr ⟨fun hmem => ?_, ih ((List.sublist_cons_self _ _).trans hsublist)⟩
    exact not_from_both hindexed hforest hsublist (.inl rfl) (later.mem_iff.mp hmem).2
  | group htype nested later ihNested ih =>
    refine List.nodup_append.mpr ⟨ihNested (List.Sublist.refl _),
      ih ((List.sublist_cons_self _ _).trans hsublist), fun node hmem other hother heq => ?_⟩
    subst heq
    have hwithin : g.Within _ node := within_iff.mpr (nested.mem_iff.mp hmem).2
    exact not_from_both hindexed hforest hsublist (.inr ⟨htype, hwithin⟩)
      (later.mem_iff.mp hother).2
  | other _ _ ih => exact ih ((List.sublist_cons_self _ _).trans hsublist)

end Gathers

/-! ## The fold -/

variable {nested : Node → List ActionDefinition →
  Except AssemblyError (String × List ActionDefinition)}

/-- Some nodes add the action groups among them and in them to those found so far, in reverse. -/
def Adding (g : RuleGraph) (children : List Node) (before after : List ActionDefinition) : Prop :=
  ∃ found, g.Gathers children found ∧ after = (found.map g.actionOf).reverse ++ before

/-- The induction is on the members: each one adds its own part behind those found before. -/
theorem foldlM_adding {children : List Node} {p p' : PartialRule}
    (hnested : ∀ child ∈ children, child.type = .ruleGroup → ∀ {actions text actions'},
      nested child actions = .ok (text, actions') → g.Adding (g.members child.id) actions actions')
    (hfold : children.foldlM (g.readChild nested) p = .ok p') :
    g.Adding children p.actions p'.actions := by
  induction children generalizing p with
  | nil =>
    cases hfold
    exact ⟨[], .nil, rfl⟩
  | cons child children ih =>
    rw [List.foldlM_cons] at hfold
    obtain ⟨q, hread, hfold⟩ := bind_eq_ok.mp hfold
    obtain ⟨found, hfound, hactions⟩ :=
      ih (fun other hother => hnested other (List.mem_cons_of_mem _ hother)) hfold
    cases readChild_eq_ok.mp hread with
    | condition htype => exact ⟨found, .other (by simp [htype]) hfound, hactions⟩
    | group htype hgroup =>
      obtain ⟨inner, hinner, rfl⟩ := hnested child List.mem_cons_self htype hgroup
      refine ⟨inner ++ found, .group htype hinner hfound, ?_⟩
      rw [hactions, List.map_append, List.reverse_append, List.append_assoc]
      rfl
    | operator htype => exact ⟨found, .other (by simp [htype]) hfound, hactions⟩
    | action htype =>
      refine ⟨child :: found, .action htype hfound, ?_⟩
      rw [hactions, List.map_cons, List.reverse_cons, List.append_assoc]
      rfl
    | other htype =>
      have hother : child.type ∉ [NodeType.actionGroup, .ruleGroup] := fun hmem => by
        rcases List.mem_pair.mp hmem with heq | heq <;> simp [heq] at htype
      exact ⟨found, .other hother hfound, hactions⟩

theorem foldGroup_adding (hindexed : g.Indexed) {fuel : Nat} {group : Node}
    {actions actions' : List ActionDefinition} {text : String}
    (hfold : g.foldGroup fuel group actions = .ok (text, actions')) :
    g.Adding (g.members group.id) actions actions' := by
  induction fuel generalizing group actions actions' text with
  | zero => cases hfold
  | succ fuel ih =>
    obtain ⟨p, hchildren, hfold⟩ := bind_eq_ok.mp hfold
    rw [hindexed.childNodes_eq] at hchildren
    have hadding : g.Adding (g.members group.id) actions p.actions :=
      foldlM_adding (fun _ _ _ => ih) hchildren
    split at hfold
    · cases hfold
    · cases hfold
      exact hadding

/-! ## Assembly -/

theorem Built.forest (h : g.Built) : g.Forest := by
  rcases h with ⟨snapshot, hsnapshot⟩ | ⟨layout, steps, -, rfl⟩
  · exact forest_ofSnapshot hsnapshot
  · exact (reached_run layout steps).consistent.forest

theorem exists_assemble_iff (hbuilt : g.Built) : (∃ rule, g.assemble id = .ok rule) ↔
    (∃ group ∈ g.nodes, group.id = id ∧ group.type = .ruleGroup) ∧ g.SoundThroughout id := by
  have hindexed := hbuilt.indexed
  have hshallow (group : Node) := shallow_of_forest hindexed.linked hbuilt.forest group.id
  constructor
  · rintro ⟨rule, hrule⟩
    obtain ⟨group, condition, actions, hnode, htype, hfold, -⟩ := assemble_eq_ok.mp hrule
    obtain ⟨hmem, rfl⟩ := hindexed.node?_eq_some.mp hnode
    have hsound := (foldGroup_ok_iff hindexed (hshallow group)).mp ⟨_, hfold⟩
    exact ⟨⟨group, hmem, rfl, htype⟩, hsound⟩
  · rintro ⟨⟨group, hmem, rfl, htype⟩, hsound⟩
    obtain ⟨⟨condition, actions⟩, hfold⟩ :=
      (foldGroup_ok_iff hindexed (hshallow group)).mpr hsound
    have hnode : g.node? group.id = some group := hindexed.node?_eq_some.mpr ⟨hmem, rfl⟩
    exact ⟨_, assemble_eq_ok.mpr ⟨group, condition, actions, hnode, htype, hfold, rfl⟩⟩

theorem assemble_actions (hbuilt : g.Built) {rule : RuleDefinition}
    (h : g.assemble id = .ok rule) : ∃ found, g.Gathers (g.members id) found ∧
      rule.actions = found.map g.actionOf ∧
      (rule.actions.map ActionDefinition.groupId).Nodup := by
  have hindexed := hbuilt.indexed
  obtain ⟨group, condition, actions, hnode, -, hfold, rfl⟩ := assemble_eq_ok.mp h
  obtain ⟨-, rfl⟩ := hindexed.node?_eq_some.mp hnode
  obtain ⟨found, hfound, rfl⟩ := foldGroup_adding hindexed hfold
  have hactions : ((found.map g.actionOf).reverse ++ []).reverse = found.map g.actionOf := by
    rw [List.append_nil, List.reverse_reverse]
  have hlive {node : Node} (hmem : node ∈ found) : node ∈ g.nodes :=
    (within_iff.mpr (hfound.mem_iff.mp hmem).2).mem
  have hnodup : found.Nodup := hfound.nodup hindexed hbuilt.forest (List.Sublist.refl _)
  refine ⟨found, hfound, hactions, ?_⟩
  rw [hactions, List.map_map]
  exact hnodup.map_on fun node hmem other hother => hindexed.eq_of_id (hlive hmem) (hlive hother)

/-- A graph that an accepted import or fewer than `2 ^ 63` commands from the empty graph made
assembles exactly the rule groups whose members, and those of the rule groups within them, are
complete and in series.  The actions are the action groups in these groups, each of them once, in
the order of a walk through the groups. -/
theorem assembly_exact (hbuilt : g.Built) (id : String) :
    ((∃ rule, g.assemble id = .ok rule) ↔
      (∃ group ∈ g.nodes, group.id = id ∧ group.type = .ruleGroup) ∧ g.SoundThroughout id) ∧
    ∀ rule, g.assemble id = .ok rule → ∃ found,
      (∀ found', g.Gathers (g.members id) found' ↔ found' = found) ∧
      (∀ node, node ∈ found ↔ node.type = .actionGroup ∧ g.Within id node) ∧
      rule.actions = found.map g.actionOf ∧
      (rule.actions.map ActionDefinition.groupId).Nodup := by
  refine ⟨exists_assemble_iff hbuilt, fun rule hrule => ?_⟩
  obtain ⟨found, hfound, hactions, hnodup⟩ := assemble_actions hbuilt hrule
  refine ⟨found, fun found' => ?_, fun node => ?_, hactions, hnodup⟩
  · exact ⟨fun h => h.unique hfound, fun h => h ▸ hfound⟩
  · exact hfound.mem_iff.trans (and_congr_right fun _ => within_iff.symm)

/-- A rule group with action groups before and after a nested group, and one in it. -/
def actionsAround : List (Int64 × GraphCommand) :=
  [(1, .create .ruleGroup none), (1, .create .condition (some "ruleGroup-1")),
    (1, .create .actionGroup (some "ruleGroup-1")),
    (2, .create .conditionalOperator (some "ruleGroup-1")),
    (2, .create .ruleGroup (some "ruleGroup-1")),
    (2, .create .actionGroup (some "ruleGroup-2")),
    (2, .create .actionGroup (some "ruleGroup-1")),
    (3, .update "condition-1" (.obj [("expression", .str "true")]))]

theorem assembly_exact_around : let g := (empty .standard).run actionsAround
    g.Built ∧ g.SoundThroughout "ruleGroup-1" ∧ ∃ found,
      g.Gathers (g.members "ruleGroup-1") found ∧
      found.map Node.id = ["actionGroup-1", "actionGroup-2", "actionGroup-3"] := by
  intro g
  have hbuilt : g.Built := .inr ⟨.standard, actionsAround, by decide, rfl⟩
  have hassemble : g.assemble "ruleGroup-1" = .ok ⟨"ruleGroup-1", "Rule 1", "(true) && ((true))",
      [⟨"actionGroup-1", "Action 1", "", ""⟩, ⟨"actionGroup-2", "Action 2", "", ""⟩,
        ⟨"actionGroup-3", "Action 3", "", ""⟩]⟩ := by decide +kernel
  obtain ⟨hsound, hactions⟩ := assembly_exact hbuilt "ruleGroup-1"
  obtain ⟨found, hfound, -, heq, -⟩ := hactions _ hassemble
  have hids : found.map Node.id = (found.map g.actionOf).map ActionDefinition.groupId := by
    rw [List.map_map]
    rfl
  refine ⟨hbuilt, (hsound.mp ⟨_, hassemble⟩).2, found, (hfound found).mpr rfl, ?_⟩
  rw [hids, ← heq]
  rfl

end RuleGraph

end CommissionRules
