import CommissionRules.Proofs.Graph.Additions

/-!
# Ids over the life of a graph

An id is given once: also an id whose node is gone does not come back.  The counters have counted
every node that was ever added, and the numbers of conditions and operators only rise
(`RuleGraph.Allotted`).  So a new node has no children but its name node, and a node without its
parent never gets one again: `RuleGraph.ids_never_reused`.
-/

namespace CommissionRules

namespace RuleGraph

variable {g g' : RuleGraph} {now : Int64} {command : GraphCommand}

/-! ## All nodes of a run -/

/-- The nodes that a command adds: those in the slots that the graph does not have before. -/
def additions (g : RuleGraph) (now : Int64) (command : GraphCommand) : List Node :=
  ((g.dispatch now command).2.slots.drop g.slots.length).filterMap id

/-- All nodes that a run adds, in the order of their creation and with what they hold then, whether
or not they are still there at its end. -/
def everAdded (g : RuleGraph) : List (Int64 × GraphCommand) → List Node
  | [] => []
  | (now, command) :: rest => g.additions now command ++ (g.dispatch now command).2.everAdded rest

theorem additions_of_created {type : NodeType} {parent : Option String}
    (h : (g.dispatch now command).2 = g.withNew now type parent) :
    g.additions now command = g.newNodes now type parent := by
  rw [additions, h, slots_withNew, List.drop_left, List.filterMap_map]
  exact List.filterMap_some

theorem additions_of_shrinks (h : g.Shrinks (g.dispatch now command).2) :
    g.additions now command = [] := by
  rw [additions, ← h.length, List.drop_length, List.filterMap_nil]

/-- A node after a command was added by it, or it was there with the same id, type and parent. -/
theorem Linked.mem_dispatch (h : g.Linked) {node : Node}
    (hmem : node ∈ (g.dispatch now command).2.nodes) :
    node ∈ g.additions now command ∨ ∃ node' ∈ g.nodes,
      node'.id = node.id ∧ node'.type = node.type ∧ node'.parent = node.parent := by
  rcases h.created_or_shrinks (g.dispatch_effect now command) with
    ⟨type, requested, parent, -, -, -, -, hrange, hnew⟩ | hshrinks
  · rw [additions_of_created hnew]
    rw [hnew, nodes_withNew] at hmem
    exact (List.mem_append.mp hmem).symm.imp_right fun hold => ⟨node, hold, rfl, rfl, rfl⟩
  · exact .inr (hshrinks.old hmem)

theorem everAdded_append (g : RuleGraph) (steps later : List (Int64 × GraphCommand)) :
    g.everAdded (steps ++ later) = g.everAdded steps ++ (g.run steps).everAdded later := by
  induction steps generalizing g with
  | nil => rfl
  | cons step rest ih =>
    rw [List.cons_append, everAdded, ih, everAdded, List.append_assoc]
    rfl

/-- A node after a run was added by it, or it was there with the same id, type and parent. -/
theorem Linked.mem_run (h : g.Linked) {steps : List (Int64 × GraphCommand)} {node : Node}
    (hmem : node ∈ (g.run steps).nodes) : ∃ node' ∈ g.nodes ++ g.everAdded steps,
      node'.id = node.id ∧ node'.type = node.type ∧ node'.parent = node.parent := by
  induction steps generalizing g with
  | nil => exact ⟨node, List.mem_append_left _ hmem, rfl, rfl, rfl⟩
  | cons step rest ih =>
    obtain ⟨node', hmem', hid, htype, hparent⟩ := ih (h.effect (g.dispatch_effect _ _)) hmem
    rw [everAdded]
    rcases List.mem_append.mp hmem' with hbetween | hlater
    · rcases h.mem_dispatch hbetween with hadded | ⟨old, hold, hid', htype', hparent'⟩
      · exact ⟨node', List.mem_append_right _ (List.mem_append_left _ hadded), hid, htype, hparent⟩
      · exact ⟨old, List.mem_append_left _ hold, hid'.trans hid, htype'.trans htype,
          hparent'.trans hparent⟩
    · exact ⟨node', List.mem_append_right _ (List.mem_append_right _ hlater), hid, htype, hparent⟩

namespace Reached

variable {length : Nat}

theorem dispatch (h : g.Reached length) (now : Int64) (command : GraphCommand) :
    (g.dispatch now command).2.Reached (length + 1) :=
  h.effect (g.dispatch_effect now command)

theorem additions_fresh (h : g.Reached length) {added node : Node}
    (hadded : added ∈ g.additions now command) (hnode : node ∈ g.nodes) :
    node.id ≠ added.id ∧ node.parent ≠ some added.id := by
  rcases h.consistent.linked.created_or_shrinks (g.dispatch_effect now command) with
    ⟨type, requested, parent, -, -, -, -, hrange, hnew⟩ | hshrinks
  · rw [additions_of_created hnew] at hadded
    exact h.newNodes_fresh hrange hadded hnode
  · rw [additions_of_shrinks hshrinks] at hadded
    cases hadded

end Reached

theorem Linked.counter_dispatch (h : g.Linked) (now : Int64) (command : GraphCommand)
    (type : NodeType) : ((g.dispatch now command).2.counter.get type).toNat =
      (g.counter.get type).toNat + (g.additions now command).countP (·.type = type) := by
  rcases h.created_or_shrinks (g.dispatch_effect now command) with
    ⟨_, requested, parent, -, -, -, -, hrange, hnew⟩ | hshrinks
  · rw [additions_of_created hnew, hnew]
    exact counter_withNew hrange parent type
  · rw [additions_of_shrinks hshrinks, hshrinks.counter]
    rfl

/-- A run counts every node that it adds once. -/
theorem Linked.counter_run (h : g.Linked) (steps : List (Int64 × GraphCommand))
    (type : NodeType) : ((g.run steps).counter.get type).toNat =
      (g.counter.get type).toNat + (g.everAdded steps).countP (·.type = type) := by
  induction steps generalizing g with
  | nil => rfl
  | cons step rest ih =>
    have hstep := h.counter_dispatch step.1 step.2 type
    have hrest := ih (h.effect (g.dispatch_effect step.1 step.2))
    rw [everAdded, List.countP_append, ← Nat.add_assoc, ← hstep]
    exact hrest

/-! ## Rising numbers -/

/-- What holds of all nodes that a graph ever had, and of the numbers of the conditions and
operators among them: the ids are different, and no number is above the counter of its type or the
last number given. -/
structure Allotted (g : RuleGraph) (given : List Node) (tokens : List Int64) : Prop where
  counted : ∀ node ∈ given, node.type.requiresGroup = false →
    ∃ count, count ≤ g.counter.get node.type ∧ node.id = counterId node.type count
  numbered : List.Forall₂ (fun node token => node.id = tokenId node.type token)
    (given.filter (·.type.requiresGroup)) tokens
  rising : tokens.Pairwise (· < ·)
  last : ∀ token ∈ tokens, token ≤ g.lastToken
  nodup : (given.map Node.id).Nodup

theorem exists_of_forall₂ {α β : Type} {R : α → β → Prop} {as : List α} {bs : List β}
    (h : List.Forall₂ R as bs) {a : α} (ha : a ∈ as) : ∃ b ∈ bs, R a b := by
  induction h with
  | nil => cases ha
  | @cons head b as bs hhead htail ih =>
    rcases List.mem_cons.mp ha with rfl | ha
    · exact ⟨b, List.mem_cons_self, hhead⟩
    · obtain ⟨b', hb', hr⟩ := ih ha
      exact ⟨b', List.mem_cons_of_mem b hb', hr⟩

namespace Allotted

variable {given : List Node} {tokens : List Int64}

theorem empty (layout : Layout) : (empty layout).Allotted [] [] where
  counted _ h := (nomatch h)
  numbered := .nil
  rising := .nil
  last _ h := (nomatch h)
  nodup := .nil

theorem counterId_notMem (h : g.Allotted given tokens) {type : NodeType}
    (hplain : type.requiresGroup = false) (hcount : (g.counter.get type).toNat + 1 < 2 ^ 64) :
    counterId type (g.counter.get type + 1) ∉ given.map Node.id := by
  intro hmem
  obtain ⟨node, hnode, hid⟩ := List.mem_map.mp hmem
  cases hgroup : node.type.requiresGroup with
  | false =>
    obtain ⟨count, hle, hid'⟩ := h.counted node hnode hgroup
    obtain ⟨rfl, rfl⟩ := counterId_inj.mp (hid.symm.trans hid')
    rw [UInt64.le_iff_toNat_le, toNat_succ hcount] at hle
    omega
  | true =>
    obtain ⟨token, -, hid'⟩ :=
      exists_of_forall₂ h.numbered (List.mem_filter.mpr ⟨hnode, hgroup⟩)
    refine counterId_ne_tokenId (fun heq => ?_) _ _ (hid.symm.trans hid')
    rw [heq, hgroup] at hplain
    cases hplain

theorem tokenId_notMem (h : g.Allotted given tokens) {type : NodeType}
    (hgroup : type.requiresGroup) {token : Int64} (hlast : g.lastToken < token) :
    tokenId type token ∉ given.map Node.id := by
  intro hmem
  obtain ⟨node, hnode, hid⟩ := List.mem_map.mp hmem
  cases hnodeGroup : node.type.requiresGroup with
  | false =>
    obtain ⟨count, -, hid'⟩ := h.counted node hnode hnodeGroup
    refine counterId_ne_tokenId (fun heq => ?_) _ _ (hid'.symm.trans hid)
    rw [heq, hgroup] at hnodeGroup
    cases hnodeGroup
  | true =>
    obtain ⟨token', hmem, hid'⟩ :=
      exists_of_forall₂ h.numbered (List.mem_filter.mpr ⟨hnode, hnodeGroup⟩)
    obtain ⟨-, rfl⟩ := tokenId_inj.mp (hid.symm.trans hid')
    have hle := Int64.le_iff_toInt_le.mp (h.last token hmem)
    have hlt := Int64.lt_iff_toInt_lt.mp hlast
    omega

theorem of_shrinks (h : g.Allotted given tokens) (hshrinks : g.Shrinks g') :
    g'.Allotted given tokens where
  counted := hshrinks.counter ▸ h.counted
  numbered := h.numbered
  rising := h.rising
  last := hshrinks.lastToken ▸ h.last
  nodup := h.nodup

section Add

variable {node : Node} (h : g.Allotted given tokens)

include h

theorem nodup_concat (hfresh : node.id ∉ given.map Node.id) :
    ((given ++ [node]).map Node.id).Nodup := by
  rw [List.map_append, List.nodup_append]
  refine ⟨h.nodup, List.nodup_singleton _, fun id hid other hother heq => ?_⟩
  rw [List.map_singleton, List.mem_singleton] at hother
  exact hfresh (hother ▸ heq ▸ hid)

theorem addCounted (hplain : node.type.requiresGroup = false)
    (hcount : (g.counter.get node.type).toNat + 1 < 2 ^ 64)
    (hid : node.id = counterId node.type (g.counter.get node.type + 1)) :
    (g.add node).Allotted (given ++ [node]) tokens where
  counted other hmem hother := by
    rcases List.mem_append.mp hmem with hmem | hmem
    · obtain ⟨count, hle, hid'⟩ := h.counted other hmem hother
      exact ⟨count, UInt64.le_trans hle (get_le_add hcount other.type), hid'⟩
    · rw [List.mem_singleton.mp hmem, get_add, if_pos rfl]
      exact ⟨_, UInt64.le_refl _, hid⟩
  numbered := by
    rw [List.filter_append, List.filter_singleton, hplain]
    exact (List.append_nil _).symm ▸ h.numbered
  rising := h.rising
  last := h.last
  nodup := h.nodup_concat (hid ▸ h.counterId_notMem hplain hcount)

theorem addNumbered (hgroup : node.type.requiresGroup) {token : Int64}
    (hrises : g.lastToken < token) (hid : node.id = tokenId node.type token)
    (hcount : (g.counter.get node.type).toNat + 1 < 2 ^ 64) :
    ({ g with lastToken := token }.add node).Allotted (given ++ [node]) (tokens ++ [token]) where
  counted other hmem hother := by
    rcases List.mem_append.mp hmem with hmem | hmem
    · obtain ⟨count, hle, hid'⟩ := h.counted other hmem hother
      exact ⟨count, UInt64.le_trans hle (get_le_add hcount other.type), hid'⟩
    · rw [List.mem_singleton.mp hmem, hgroup] at hother
      cases hother
  numbered := by
    rw [List.filter_append, List.filter_singleton, hgroup]
    exact List.rel_append h.numbered (.cons hid .nil)
  rising := by
    refine List.pairwise_append.mpr ⟨h.rising, List.pairwise_singleton _ _, ?_⟩
    intro earlier hearlier later hlater
    rw [List.mem_singleton.mp hlater, Int64.lt_iff_toInt_lt]
    have hle := Int64.le_iff_toInt_le.mp (h.last earlier hearlier)
    have hlt := Int64.lt_iff_toInt_lt.mp hrises
    omega
  last other hmem := by
    rw [Int64.le_iff_toInt_le]
    show other.toInt ≤ token.toInt
    rcases List.mem_append.mp hmem with hmem | hmem
    · have hle := Int64.le_iff_toInt_le.mp (h.last other hmem)
      have hlt := Int64.lt_iff_toInt_lt.mp hrises
      omega
    · rw [List.mem_singleton.mp hmem]
  nodup := h.nodup_concat (hid ▸ h.tokenId_notMem hgroup hrises)

end Add

/-! ## Creations -/

/-- A node that is counted is given its id by the counter, and so is the name node of a group. -/
theorem withNew_counted (h : g.Allotted given tokens) {type : NodeType}
    (hplain : type.requiresGroup = false) {now : Int64} (hrange : g.InRange now type)
    (parent : Option String) :
    (g.withNew now type parent).Allotted (given ++ g.newNodes now type parent) tokens := by
  have hallocated : g.allocated now type = g := by
    rw [allocated, if_neg (Bool.eq_false_iff.mp hplain)]
  have hid : (g.newNode now type parent).id = counterId type (g.counter.get type + 1) :=
    if_neg (Bool.eq_false_iff.mp hplain)
  have hnode : (g.withNode now type parent).Allotted
      (given ++ [g.newNode now type parent]) tokens := by
    rw [withNode, hallocated]
    exact h.addCounted hplain hrange.count hid
  rw [newNodes, withNew]
  cases hname : type.nameType? with
  | none => exact hnode
  | some nameType =>
    have hcount := hrange.nameCount_withNode parent hname
    have hid' : g.nameId nameType = counterId nameType
        ((g.withNode now type parent).counter.get nameType + 1) :=
      (nameId_withNode parent hname).symm
    have hadd : ((g.withNode now type parent).add
        (g.nameNode (g.newId now type) nameType (g.counter.get type + 1))).Allotted _ tokens :=
      hnode.addCounted (nameType?_eq_some hname).2.1 hcount hid'
    rw [List.append_assoc] at hadd
    dsimp only
    rw [nameNode_withNode hname]
    exact ⟨hadd.counted, hadd.numbered, hadd.rising, hadd.last, hadd.nodup⟩

/-- A condition or an operator gets a number above the last one. -/
theorem withNew_numbered (h : g.Allotted given tokens) {type : NodeType}
    (hgroup : type.requiresGroup) {now : Int64} (hrange : g.InRange now type)
    (parent : Option String) :
    (g.withNew now type parent).Allotted (given ++ g.newNodes now type parent)
        (tokens ++ [g.newToken now type]) := by
  have hrises : g.lastToken < g.newToken now type :=
    (newToken_isLeast (hrange.number hgroup)).1.last
  have hname : type.nameType? = none := by
    cases type <;> first | rfl | cases hgroup
  have hallocated : g.allocated now type = { g with lastToken := g.newToken now type } := by
    rw [allocated, if_pos hgroup]
  have hid : (g.newNode now type parent).id = tokenId type (g.newToken now type) :=
    if_pos hgroup
  rw [newNodes, withNew, hname]
  dsimp only
  rw [withNode, hallocated]
  exact h.addNumbered hgroup hrises hid hrange.count

/-! ## Runs -/

/-- A command takes one number, if it adds a condition or an operator, or none. -/
theorem dispatch (h : g.Allotted given tokens) (hlinked : g.Linked) (now : Int64)
    (command : GraphCommand) :
    ∃ later, (g.dispatch now command).2.Allotted (given ++ g.additions now command)
      (tokens ++ later) := by
  rcases hlinked.created_or_shrinks (g.dispatch_effect now command) with
    ⟨type, requested, parent, -, -, -, -, hrange, hnew⟩ | hshrinks
  · rw [additions_of_created hnew, hnew]
    by_cases hgroup : type.requiresGroup
    · exact ⟨_, h.withNew_numbered hgroup hrange parent⟩
    · refine ⟨[], ?_⟩
      rw [List.append_nil]
      exact h.withNew_counted (Bool.eq_false_iff.mpr hgroup) hrange parent
  · refine ⟨[], ?_⟩
    rw [additions_of_shrinks hshrinks, List.append_nil, List.append_nil]
    exact h.of_shrinks hshrinks

theorem run (h : g.Allotted given tokens) (hlinked : g.Linked)
    (steps : List (Int64 × GraphCommand)) :
    ∃ later, (g.run steps).Allotted (given ++ g.everAdded steps) (tokens ++ later) := by
  induction steps generalizing g given tokens with
  | nil => exact ⟨[], by rwa [everAdded, List.append_nil, List.append_nil]⟩
  | cons step rest ih =>
    obtain ⟨first, hstep⟩ := h.dispatch hlinked step.1 step.2
    obtain ⟨later, hrun⟩ := ih hstep (hlinked.effect (g.dispatch_effect step.1 step.2))
    refine ⟨first ++ later, ?_⟩
    rw [everAdded, ← List.append_assoc, ← List.append_assoc]
    exact hrun

end Allotted

end RuleGraph

end CommissionRules
