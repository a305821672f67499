import CommissionRules.Proofs.Graph.Allotment

/-!
# Counters and numbers in range

The counters and the numbers of imported nodes are whatever the snapshot says, so that a sum in a
creation may be out of range, and the program ends.  It does not all along a run exactly if each
counter has room for the nodes of its type and each condition or operator finds a free number:
`RuleGraph.creations_in_range_iff`.  However a run goes, every counter counts the nodes that are
added, and their numbers rise.
-/

namespace CommissionRules

namespace RuleGraph

variable {g : RuleGraph} {now : Int64} {command : GraphCommand} {type : NodeType}
  {steps : List (Int64 × GraphCommand)}

/-! ## Rising counters and numbers -/

/-- What a command does to the counters and to the numbers. -/
structure Rises (g : RuleGraph) (now : Int64) (command : GraphCommand) : Prop where
  /-- Each node that is added is counted with its type. -/
  counter : ∀ type, ((g.dispatch now command).2.counter.get type).toNat =
    (g.counter.get type).toNat + (g.additions now command).countP (·.type = type)
  /-- The last number given is that of the condition or operator that is added, if there is one. -/
  lastToken : (g.additions now command).filter (·.type.requiresGroup) = [] ∧
      (g.dispatch now command).2.lastToken = g.lastToken ∨
    ∃ node, (g.additions now command).filter (·.type.requiresGroup) = [node] ∧
      node.id = tokenId node.type (g.dispatch now command).2.lastToken ∧
      IsLeast {token | g.Available now node.type token} (g.dispatch now command).2.lastToken

theorem lastToken_withNew (parent : Option String) : (g.withNew now type parent).lastToken =
    if type.requiresGroup then g.newToken now type else g.lastToken := by
  rw [withNew]
  cases type.nameType? <;> rfl

theorem filter_newNodes (parent : Option String) :
    (g.newNodes now type parent).filter (·.type.requiresGroup) =
      if type.requiresGroup then [g.newNode now type parent] else [] := by
  cases type <;> rfl

theorem Linked.rises (h : g.Linked) (now : Int64) (command : GraphCommand) :
    g.Rises now command := by
  refine ⟨h.counter_dispatch now command, ?_⟩
  rcases h.created_or_shrinks (g.dispatch_effect now command) with
    ⟨type, requested, parent, -, -, -, -, hrange, hnew⟩ | hshrinks
  · rw [additions_of_created hnew, hnew, filter_newNodes, lastToken_withNew]
    by_cases hgroup : type.requiresGroup
    · rw [if_pos hgroup, if_pos hgroup]
      exact .inr ⟨_, rfl, if_pos hgroup, newToken_isLeast (hrange.number hgroup)⟩
    · rw [if_neg hgroup, if_neg hgroup]
      exact .inl ⟨rfl, rfl⟩
  · rw [additions_of_shrinks hshrinks]
    exact .inl ⟨rfl, hshrinks.lastToken⟩

/-- The numbers of conditions and operators rise, all above the last one before the run. -/
theorem Linked.numbers_rise (h : g.Linked) (steps : List (Int64 × GraphCommand)) :
    ∃ tokens : List Int64, (g.lastToken :: tokens).Pairwise (· < ·) ∧
      List.Forall₂ (fun node token => node.id = tokenId node.type token)
        ((g.everAdded steps).filter (·.type.requiresGroup)) tokens := by
  induction steps generalizing g with
  | nil => exact ⟨[], List.pairwise_singleton _ _, .nil⟩
  | cons step rest ih =>
    obtain ⟨tokens, hrises, hnumbered⟩ := ih (h.effect (g.dispatch_effect step.1 step.2))
    rw [everAdded, List.filter_append]
    rcases (h.rises step.1 step.2).lastToken with ⟨hnone, hlast⟩ | ⟨node, hnode, hid, hleast⟩
    · rw [hnone, ← hlast]
      exact ⟨tokens, hrises, hnumbered⟩
    · rw [hnode]
      refine ⟨_ :: tokens, ?_, .cons hid hnumbered⟩
      have hlt : g.lastToken < (g.dispatch step.1 step.2).2.lastToken := hleast.1.last
      refine List.pairwise_cons.mpr ⟨fun token hmem => ?_, hrises⟩
      rcases List.mem_cons.mp hmem with rfl | hmem
      · exact hlt
      · exact Int64.lt_trans hlt (List.rel_of_pairwise_cons hrises hmem)

/-! ## Commands in range -/

theorem count_types (nodes : List Node) (type : NodeType) :
    (nodes.map Node.type).count type = nodes.countP (·.type = type) := by
  rw [List.count, List.countP_map]
  rfl

/-- The types of the nodes that a command is to add, whether or not it overflows. -/
def demanded (g : RuleGraph) : GraphCommand → List NodeType
  | .create type requested =>
      match type.isName, g.newParent type requested with
      | false, .ok _ => type :: type.nameType?.toList
      | _, _ => []
  | _ => []

/-- Where a command is to create a condition or an operator, there is a number for it. -/
def FindsNumber (g : RuleGraph) (now : Int64) : GraphCommand → Prop
  | .create type requested =>
      type.requiresGroup → (∃ parent, g.newParent type requested = .ok parent) →
        ∃ token, g.Available now type token
  | _ => True

theorem demanded_create {requested parent : Option String} (hname : type.isName = false)
    (hparent : g.newParent type requested = .ok parent) :
    g.demanded (.create type requested) = type :: type.nameType?.toList := by
  rw [demanded, hname, hparent]

/-- There is room for each of some nodes if they are of different types. -/
theorem room_iff {types : List NodeType} (h : types.Nodup) :
    (∀ type, (g.counter.get type).toNat + types.count type < 2 ^ 64) ↔
      ∀ type ∈ types, (g.counter.get type).toNat + 1 < 2 ^ 64 := by
  refine forall_congr' fun type => ?_
  have hlt : (g.counter.get type).toNat < 2 ^ 64 := UInt64.toNat_lt _
  rw [h.count]
  split
  · next hmem => exact ⟨fun hroom _ => hroom, fun hroom => hroom hmem⟩
  · next hmem => exact ⟨fun _ h => absurd h hmem, fun _ => hlt⟩

theorem inRange_iff_room : g.InRange now type ↔
    (∀ type', (g.counter.get type').toNat +
      (type :: type.nameType?.toList).count type' < 2 ^ 64) ∧
    (type.requiresGroup → ∃ token, g.Available now type token) := by
  have hnodup : (type :: type.nameType?.toList).Nodup := by
    cases type <;> decide
  rw [room_iff hnodup, List.forall_mem_cons, ← nextToken_isSome_iff, and_assoc]
  simp only [Option.mem_toList, ← NodeCounter.isSome_next?]
  exact ⟨fun h => ⟨h.counted, h.nameCounted, h.number⟩, fun h => ⟨h.1, h.2.1, h.2.2⟩⟩

theorem create_in_range_iff {requested : Option String} :
    (g.dispatch now (.create type requested)).1 ≠ .error .overflow ↔
      (type.isName = false → ∀ parent, g.newParent type requested = .ok parent →
        g.InRange now type) := by
  rw [Ne, dispatch_overflow_iff]
  constructor
  · intro h hname parent hparent
    by_contra hrange
    exact h ⟨type, requested, parent, rfl, hname, hparent, hrange⟩
  · rintro h ⟨_, _, parent, heq, hname, hparent, hrange⟩
    cases heq
    exact hrange (h hname parent hparent)

theorem not_overflow_iff : (g.dispatch now command).1 ≠ .error .overflow ↔
    (∀ type, (g.counter.get type).toNat + (g.demanded command).count type < 2 ^ 64) ∧
      g.FindsNumber now command := by
  have hlt (type : NodeType) : (g.counter.get type).toNat + [].count type < 2 ^ 64 :=
    UInt64.toNat_lt _
  cases command with
  | create type requested =>
    rw [create_in_range_iff, demanded, FindsNumber]
    cases hname : type.isName with
    | true =>
      have hplain : ¬ type.requiresGroup := by
        cases type <;> first | exact Bool.false_ne_true | cases hname
      exact ⟨fun _ => ⟨hlt, fun hgroup => absurd hgroup hplain⟩, fun _ => nofun⟩
    | false =>
      cases hparent : g.newParent type requested with
      | error e => exact ⟨fun _ => ⟨hlt, fun _ => nofun⟩, fun _ _ => nofun⟩
      | ok parent =>
        have hnumber : (type.requiresGroup → ∃ token, g.Available now type token) ↔
            (type.requiresGroup → (∃ p, (.ok parent : Except GraphError _) = .ok p) →
              ∃ token, g.Available now type token) :=
          imp_congr_right fun _ => ⟨fun h _ => h, fun h => h ⟨parent, rfl⟩⟩
        dsimp only
        rw [← hnumber, ← inRange_iff_room]
        exact ⟨fun h => h rfl parent rfl, fun h _ _ _ => h⟩
  | update | delete | deleteSubtree | select | clearSelection =>
    rw [Ne, dispatch_overflow_iff]
    exact ⟨fun _ => ⟨hlt, trivial⟩, fun _ => nofun⟩

/-- A command that does not overflow adds the nodes that it is to add. -/
theorem Linked.types_additions (h : g.Linked)
    (hrange : (g.dispatch now command).1 ≠ .error .overflow) :
    (g.additions now command).map Node.type = g.demanded command := by
  rcases h.created_or_shrinks (g.dispatch_effect now command) with
    ⟨type, requested, parent, rfl, -, hname, hparent, -, hnew⟩ | hshrinks
  · rw [additions_of_created hnew, demanded_create hname hparent, newNodes]
    cases type.nameType? <;> rfl
  · rw [additions_of_shrinks hshrinks]
    cases command with
    | create type requested =>
      rw [demanded]
      split
      · next parent hname hparent =>
        -- The slots of the added nodes would be more than there were.
        have hin := create_in_range_iff.mp hrange hname parent hparent
        have hlength := hshrinks.length
        rw [dispatch_create_eq hname hparent hin, slots_withNew, List.length_append,
          List.length_map, newNodes, List.length_cons] at hlength
        omega
      · rfl
    | update | delete | deleteSubtree | select | clearSelection => rfl

/-! ## Runs in range -/

/-- No command of a run overflows. -/
def RunsInRange (g : RuleGraph) (steps : List (Int64 × GraphCommand)) : Prop :=
  ∀ before now command, before ++ [(now, command)] <+: steps →
    ((g.run before).dispatch now command).1 ≠ .error .overflow

theorem runsInRange_cons : g.RunsInRange ((now, command) :: steps) ↔
    (g.dispatch now command).1 ≠ .error .overflow ∧
      (g.dispatch now command).2.RunsInRange steps :=
  forall_prefix_cons

/-- Commands that overflow leave nothing behind: a run without them comes to the same graph. -/
theorem exists_runsInRange (g : RuleGraph) (steps : List (Int64 × GraphCommand)) :
    ∃ done, done.Sublist steps ∧ g.RunsInRange done ∧ g.run done = g.run steps := by
  induction steps generalizing g with
  | nil => exact ⟨[], .slnil, fun before now command hbefore => by simp at hbefore, rfl⟩
  | cons step rest ih =>
    by_cases hoverflow : (g.dispatch step.1 step.2).1 = .error .overflow
    · obtain ⟨done, hsublist, hrange, hrun⟩ := ih g
      refine ⟨done, hsublist.cons step, hrange, ?_⟩
      show g.run done = (g.dispatch step.1 step.2).2.run rest
      rw [g.dispatch_error step.1 hoverflow, hrun]
    · obtain ⟨done, hsublist, hrange, hrun⟩ := ih (g.dispatch step.1 step.2).2
      exact ⟨step :: done, hsublist.cons_cons step, runsInRange_cons.mpr ⟨hoverflow, hrange⟩, hrun⟩

/-- The types of all nodes that a run is to add. -/
def everDemanded (g : RuleGraph) : List (Int64 × GraphCommand) → List NodeType
  | [] => []
  | (now, command) :: rest => g.demanded command ++ (g.dispatch now command).2.everDemanded rest

theorem RunsInRange.types_everAdded (h : g.RunsInRange steps) (hlinked : g.Linked) :
    (g.everAdded steps).map Node.type = g.everDemanded steps := by
  induction steps generalizing g with
  | nil => rfl
  | cons step rest ih =>
    obtain ⟨hstep, hrest⟩ := runsInRange_cons.mp h
    rw [everAdded, List.map_append, hlinked.types_additions hstep,
      ih hrest (hlinked.effect (g.dispatch_effect step.1 step.2))]
    rfl

/-- The induction is on the commands: a counter has room for the nodes of the first one and of the
others together. -/
theorem runsInRange_iff (hlinked : g.Linked) : g.RunsInRange steps ↔
    (∀ type, (g.counter.get type).toNat + (g.everDemanded steps).count type < 2 ^ 64) ∧
    ∀ before now command, before ++ [(now, command)] <+: steps →
      (g.run before).FindsNumber now command := by
  constructor
  · intro h
    constructor
    · intro type
      rw [← h.types_everAdded hlinked, count_types, ← hlinked.counter_run steps type]
      exact UInt64.toNat_lt _
    · exact fun before now command hbefore => (not_overflow_iff.mp (h before now command hbefore)).2
  · induction steps generalizing g with
    | nil => exact fun _ before now command hbefore => by simp at hbefore
    | cons step rest ih =>
      rintro ⟨hcount, hfinds⟩
      obtain ⟨hfirst, hlater⟩ := forall_prefix_cons.mp hfinds
      simp only [everDemanded, List.count_append] at hcount
      have hstep : (g.dispatch step.1 step.2).1 ≠ .error .overflow := by
        refine not_overflow_iff.mpr ⟨fun type => ?_, hfirst⟩
        have := hcount type
        omega
      refine runsInRange_cons.mpr
        ⟨hstep, ih (hlinked.effect (g.dispatch_effect _ _)) ⟨fun type => ?_, hlater⟩⟩
      rw [hlinked.counter_dispatch step.1 step.2 type, ← count_types,
        hlinked.types_additions hstep, Nat.add_assoc]
      exact hcount type

/-! ## Room enough -/

/-- Room for a run in the counters and, above a limit for the last number and the clock, in the
numbers, each of which may lie above the one before by as much as there are slots at the end. -/
structure RoomFor (g : RuleGraph) (limit : Int) (bound : Nat)
    (steps : List (Int64 × GraphCommand)) : Prop where
  counter : ∀ type, (g.counter.get type).toNat + steps.length < 2 ^ 64
  slots : g.slots.length + 2 * steps.length ≤ bound
  last : g.lastToken.toInt ≤ limit
  clock : ∀ step ∈ steps, step.1.toInt ≤ limit
  numbers : limit + steps.length * (bound + 2) < 2 ^ 63

namespace RoomFor

variable {limit : Int} {bound : Nat}

theorem next_le (h : g.RoomFor limit bound ((now, command) :: steps)) :
    limit + (bound + 2) + steps.length * (bound + 2) < 2 ^ 63 ∧ limit + (bound + 2) < 2 ^ 63 := by
  have hnumbers := h.numbers
  rw [List.length_cons] at hnumbers
  have hsplit : ((steps.length + 1 : Nat) : Int) * (bound + 2) =
      steps.length * (bound + 2) + (bound + 2) := by
    push_cast
    ring
  have hpositive : 0 ≤ (steps.length : Int) * (bound + 2) := by positivity
  omega

theorem search (h : g.RoomFor limit bound ((now, command) :: steps)) (hlinked : g.Linked)
    (type : NodeType) : ∃ token, g.nextToken now type = some token ∧
      token.toInt ≤ limit + (bound + 2) := by
  have hnext := h.next_le
  have hlast := h.last
  have hnow : now.toInt ≤ limit := h.clock _ List.mem_cons_self
  have hsize := hlinked.size_le
  have hslots := h.slots
  have hone : (g.lastToken + 1).toInt = g.lastToken.toInt + 1 := toInt_succ (by omega)
  have hstart : (max now (g.lastToken + 1)).toInt ≤ limit + 1 := by
    rw [toInt_max, hone]
    omega
  have hroom : (max now (g.lastToken + 1)).toInt + (g.size + 1 : Nat) < 2 ^ 63 := by omega
  obtain ⟨token, htoken, hle⟩ := @freeToken_le g type _ _ hroom
  refine ⟨token, ?_, by omega⟩
  rw [nextToken, succToken?_eq_some.mpr hone]
  exact htoken

theorem inRange (h : g.RoomFor limit bound ((now, command) :: steps)) (hlinked : g.Linked)
    (type : NodeType) : g.InRange now type := by
  have hcounter (type : NodeType) : (g.counter.next? type).isSome := by
    have := h.counter type
    rw [List.length_cons] at this
    exact NodeCounter.isSome_next?.mpr (by omega)
  obtain ⟨token, htoken, -⟩ := h.search hlinked type
  exact ⟨hcounter type, fun nameType _ => hcounter nameType, fun _ => htoken ▸ rfl⟩

theorem not_overflow (h : g.RoomFor limit bound ((now, command) :: steps))
    (hlinked : g.Linked) : (g.dispatch now command).1 ≠ .error .overflow := by
  rw [Ne, dispatch_overflow_iff]
  rintro ⟨type, requested, parent, -, -, -, hrange⟩
  exact hrange (h.inRange hlinked type)

theorem dispatch_le (h : g.RoomFor limit bound ((now, command) :: steps)) (hlinked : g.Linked) :
    (∀ type, ((g.dispatch now command).2.counter.get type).toNat ≤
        (g.counter.get type).toNat + 1) ∧
      (g.dispatch now command).2.slots.length ≤ g.slots.length + 2 ∧
      (g.dispatch now command).2.lastToken.toInt ≤ limit + (bound + 2) := by
  have hlast := h.last
  rcases hlinked.created_or_shrinks (g.dispatch_effect now command) with
    ⟨type, _, parent, -, -, -, -, -, hnew⟩ | hshrinks
  · rw [hnew, lastToken_withNew]
    refine ⟨counter_withNew_le now type parent, length_slots_withNew_le now type parent, ?_⟩
    split
    · obtain ⟨token, htoken, hle⟩ := h.search hlinked type
      rw [newToken, htoken]
      exact hle
    · omega
  · rw [hshrinks.counter, hshrinks.length, hshrinks.lastToken]
    exact ⟨fun _ => by omega, by omega, by omega⟩

/-- A command leaves room for the rest of its run. -/
theorem dispatch (h : g.RoomFor limit bound ((now, command) :: steps)) (hlinked : g.Linked) :
    (g.dispatch now command).2.RoomFor (limit + (bound + 2)) bound steps := by
  obtain ⟨hcounter, hlength, hlast⟩ := h.dispatch_le hlinked
  refine ⟨fun type => ?_, ?_, hlast, fun step hmem => ?_, h.next_le.1⟩
  · have := hcounter type
    have := h.counter type
    rw [List.length_cons] at this
    omega
  · have := h.slots
    rw [List.length_cons] at this
    omega
  · have := h.clock step (List.mem_cons_of_mem _ hmem)
    omega

theorem runsInRange (h : g.RoomFor limit bound steps) (hlinked : g.Linked) :
    g.RunsInRange steps := by
  induction steps generalizing g limit with
  | nil => exact fun before now command hbefore => by simp at hbefore
  | cons step rest ih =>
    exact runsInRange_cons.mpr ⟨h.not_overflow hlinked,
      ih (h.dispatch hlinked) (hlinked.effect (g.dispatch_effect _ _))⟩

end RoomFor

/-! ## Imported graphs -/

theorem lastToken_le_restore (node : Node) :
    g.lastToken.toInt ≤ (g.restore node).lastToken.toInt := by
  rw [restore]
  split
  · exact Int.le_refl _
  · split
    · rw [toInt_max]
      exact Int.le_max_left _ _
    · exact Int.le_refl _

theorem lastToken_le_foldl_restore (nodes : List Node) :
    g.lastToken.toInt ≤ (nodes.foldl restore g).lastToken.toInt := by
  induction nodes generalizing g with
  | nil => exact Int.le_refl _
  | cons node nodes ih => exact Int.le_trans (lastToken_le_restore node) ih

/-- The last number is not below that of any condition or operator. -/
theorem suffix_le_foldl_restore {nodes : List Node} {node : Node} (hmem : node ∈ nodes)
    (hgroup : node.type.requiresGroup) {number : Int64}
    (hnumber : Node.suffix? node.id = some number) :
    number.toInt ≤ (nodes.foldl restore g).lastToken.toInt := by
  induction nodes generalizing g with
  | nil => cases hmem
  | cons first nodes ih =>
    rcases List.mem_cons.mp hmem with rfl | hmem
    · refine Int.le_trans ?_ (lastToken_le_foldl_restore nodes)
      rw [restore, hnumber]
      dsimp only
      rw [if_pos hgroup, toInt_max]
      exact Int.le_max_right _ _
    · exact ih hmem

theorem suffix_le_ofSnapshot {snapshot : GraphSnapshot} (h : ofSnapshot snapshot = .ok g)
    {node : Node} (hmem : node ∈ snapshot.nodes) (hgroup : node.type.requiresGroup)
    {number : Int64} (hnumber : Node.suffix? node.id = some number) :
    number.toInt ≤ g.lastToken.toInt := by
  obtain ⟨-, rfl⟩ := ofSnapshot_eq_ok.mp h
  have hstored : node ∈ (storeOf snapshot).nodes := by
    rw [nodes_storeOf]
    exact snapshot.sortedNodes_perm.mem_iff.mpr hmem
  exact suffix_le_foldl_restore hstored hgroup hnumber

/-- From an imported graph on, no sum in a run is out of range exactly if each counter has room for
the nodes of its type that the run is to add and each condition or operator finds a free number;
then they are all added.  Each command counts the nodes that it adds, and the numbers of conditions
and operators rise, above those of all that were imported.  There is room if the counters, the last
number and the clock keep far enough below the ends of their ranges. -/
theorem creations_in_range_iff {snapshot : GraphSnapshot} (h : ofSnapshot snapshot = .ok g)
    (steps : List (Int64 × GraphCommand)) :
    (g.RunsInRange steps ↔
      (∀ type, (g.counter.get type).toNat + (g.everDemanded steps).count type < 2 ^ 64) ∧
      ∀ before now command, before ++ [(now, command)] <+: steps →
        (g.run before).FindsNumber now command) ∧
    (g.RunsInRange steps → (g.everAdded steps).map Node.type = g.everDemanded steps) ∧
    (∀ before now command, before ++ [(now, command)] <+: steps →
      (g.run before).Rises now command) ∧
    (∃ tokens : List Int64, tokens.Pairwise (· < ·) ∧
      List.Forall₂ (fun node token => node.id = tokenId node.type token)
        ((g.everAdded steps).filter (·.type.requiresGroup)) tokens ∧
      ∀ node ∈ snapshot.nodes, node.type.requiresGroup → ∀ number,
        Node.suffix? node.id = some number → ∀ token ∈ tokens, number < token) ∧
    ∀ limit : Int, (∀ type, (g.counter.get type).toNat + steps.length < 2 ^ 64) →
      g.lastToken.toInt ≤ limit → (∀ step ∈ steps, step.1.toInt ≤ limit) →
      limit + steps.length * ((g.slots.length + 2 * steps.length : Nat) + 2) < 2 ^ 63 →
        g.RunsInRange steps := by
  have hlinked : g.Linked := (ofSnapshot_ok h).2.1
  refine ⟨runsInRange_iff hlinked, fun hruns => hruns.types_everAdded hlinked,
    fun before now command _ => (hlinked.run before).rises now command, ?_,
    fun limit hcounter hlast hclock hnumbers => ?_⟩
  · obtain ⟨tokens, hrises, hnumbered⟩ := hlinked.numbers_rise steps
    refine ⟨tokens, hrises.of_cons, hnumbered, ?_⟩
    intro node hmem hgroup number hnumber token htoken
    have hle := suffix_le_ofSnapshot h hmem hgroup hnumber
    have hlt := Int64.lt_iff_toInt_lt.mp (List.rel_of_pairwise_cons hrises htoken)
    rw [Int64.lt_iff_toInt_lt]
    omega
  · have hroom : g.RoomFor limit (g.slots.length + 2 * steps.length) steps :=
      ⟨hcounter, Nat.le_refl _, hlast, hclock, hnumbers⟩
    exact hroom.runsInRange hlinked

/-- The counter of the rule groups stands at its greatest value. -/
def spentCounter : GraphSnapshot :=
  ⟨[], NodeCounter.empty.set .ruleGroup 0xFFFFFFFFFFFFFFFF, []⟩

theorem spentCounter_imported : ofSnapshot spentCounter =
    .ok { empty .standard with counter := spentCounter.counter } := by
  have hcheck : spentCounter.check = .ok () := rfl
  have hsorted : spentCounter.sortedNodes = [] := spentCounter.sortedNodes_perm.eq_nil
  rw [ofSnapshot, hcheck, hsorted]
  rfl

/-- The next rule group would have the number `2 ^ 64`. -/
theorem creations_in_range_spent : ∃ g, ofSnapshot spentCounter = .ok g ∧
    (g.dispatch 0 (.create .ruleGroup none)).1 = .error .overflow ∧
    ¬ g.RunsInRange [(0, .create .ruleGroup none)] := by
  obtain ⟨g, hg, hrange⟩ : ∃ g, ofSnapshot spentCounter = .ok g ∧ ¬ g.InRange 0 .ruleGroup ∧
      g.newParent .ruleGroup none = .ok none :=
    ⟨_, spentCounter_imported, by decide +kernel, rfl⟩
  have hoverflow : (g.dispatch 0 (.create .ruleGroup none)).1 = .error .overflow :=
    (g.dispatch_overflow_iff 0).mpr ⟨.ruleGroup, none, none, rfl, rfl, hrange.2, hrange.1⟩
  exact ⟨g, hg, hoverflow, fun hruns => hruns [] 0 _ List.prefix_rfl hoverflow⟩

/-- Conditions in a group beside an imported start node. -/
def laterConditions : List (Int64 × GraphCommand) :=
  [(5, .create .ruleGroup none), (5, .create .condition none), (5, .create .condition none)]

theorem creations_in_range_later : ∃ g, ofSnapshot (startAlone "initial-3") = .ok g ∧
    g.RunsInRange laterConditions ∧
    (g.everAdded laterConditions).map Node.type =
      [.ruleGroup, .ruleName, .condition, .condition] := by
  refine ⟨_, startAlone_imported "initial-3", ?_⟩
  obtain ⟨-, hadded, -, -, hroom⟩ :=
    creations_in_range_iff (startAlone_imported "initial-3") laterConditions
  have hruns := hroom 5 (by intro type; cases type <;> decide +kernel) (by decide +kernel)
    (by decide +kernel) (by decide +kernel)
  exact ⟨hruns, (hadded hruns).trans (by decide +kernel)⟩

end RuleGraph

end CommissionRules
