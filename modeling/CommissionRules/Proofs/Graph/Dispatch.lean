import CommissionRules.Graph

/-!
# What commands do

A command fails and leaves the graph alone, or it changes the graph in one of a few ways:
`RuleGraph.Effect`.  The graph after a creation is `RuleGraph.withNew`, that after a deletion is the
graph without a list of ids: `RuleGraph.removeAll`.  Only a creation can overflow:
`RuleGraph.InRange`.  A run is the graph after a list of commands.
-/

namespace CommissionRules

namespace RuleGraph

variable (g : RuleGraph) (now : Int64)

/-! ## Changes -/

/-- The number of the next condition or operator, where there is one in range. -/
def newToken (type : NodeType) : Int64 := (g.nextToken now type).getD 0

/-- No sum in a creation is out of range: neither the counts of the node and of its name node nor,
for a condition or an operator, a number that the search for a free one comes to. -/
structure InRange (type : NodeType) : Prop where
  counted : (g.counter.next? type).isSome
  nameCounted : ∀ nameType ∈ type.nameType?, (g.counter.next? nameType).isSome
  number : type.requiresGroup → (g.nextToken now type).isSome

instance (type : NodeType) : Decidable (g.InRange now type) :=
  decidable_of_iff ((g.counter.next? type).isSome ∧
      (∀ nameType ∈ type.nameType?, (g.counter.next? nameType).isSome) ∧
      (type.requiresGroup → (g.nextToken now type).isSome))
    ⟨fun h => ⟨h.1, h.2.1, h.2.2⟩, fun h => ⟨h.counted, h.nameCounted, h.number⟩⟩

/-- The id that the next node of a type gets. -/
def newId (type : NodeType) : String :=
  if type.requiresGroup then tokenId type (g.newToken now type)
  else counterId type (g.counter.get type + 1)

/-- The graph in which the number of the next node is taken. -/
def allocated (type : NodeType) : RuleGraph :=
  { g with lastToken := if type.requiresGroup then g.newToken now type else g.lastToken }

def newNode (type : NodeType) (parent : Option String) : Node :=
  { id := g.newId now type
    type
    position := g.newPosition type parent (g.counter.get type)
    parent
    confined := parent.isSome
    data := type.newData (g.counter.get type + 1) }

def nameId (nameType : NodeType) : String := counterId nameType (g.counter.get nameType + 1)

/-- The name node of a group, given the number of the group. -/
def nameNode (group : String) (nameType : NodeType) (index : UInt64) : Node :=
  { id := g.nameId nameType
    type := nameType
    position := ⟨g.layout.nameX, g.layout.nameY⟩
    parent := some group
    confined := true
    data := nameType.newData index }

/-- The graph with one more node, which is counted. -/
def add (node : Node) : RuleGraph :=
  { g with counter := g.counter.set node.type (g.counter.get node.type + 1) }.insert node

def withSelection (selection : Option String) : RuleGraph := { g with selection }

/-- The graph with a new node but without its name node. -/
def withNode (type : NodeType) (parent : Option String) : RuleGraph :=
  (g.allocated now type).add (g.newNode now type parent)

/-- The graph with a new node, and with its name node if it is a group. -/
def withNew (type : NodeType) (parent : Option String) : RuleGraph :=
  let g' := g.withNode now type parent
  match type.nameType? with
  | none => g'
  | some nameType =>
      let group := g.newId now type
      (g'.add (g'.nameNode group nameType (g.counter.get type + 1))).withSelection (some group)

theorem nameType?_ne {type nameType : NodeType} (h : type.nameType? = some nameType) :
    nameType ≠ type := by
  intro heq
  subst heq
  cases nameType <;> cases h

/-- A new group is not counted with the name nodes. -/
theorem get_withNode {g : RuleGraph} {now : Int64} {type nameType : NodeType}
    (parent : Option String) (h : type.nameType? = some nameType) :
    (g.withNode now type parent).counter.get nameType = g.counter.get nameType := by
  have hcounter :
      (g.withNode now type parent).counter = g.counter.set type (g.counter.get type + 1) := rfl
  rw [hcounter, NodeCounter.get_set, if_neg (nameType?_ne h)]

/-- After a group is added, what is left of the sums is the count of its name node. -/
theorem nameCounted_iff {g : RuleGraph} {now : Int64} {type nameType : NodeType}
    (parent : Option String) (hname : type.nameType? = some nameType)
    (hcounted : (g.counter.next? type).isSome)
    (hnumber : type.requiresGroup → (g.nextToken now type).isSome) :
    ((g.withNode now type parent).counter.next? nameType).isSome ↔ g.InRange now type := by
  rw [NodeCounter.next?, get_withNode parent hname]
  refine ⟨fun h => ⟨hcounted, fun nameType' hname' => ?_, hnumber⟩,
    fun h => h.nameCounted nameType hname⟩
  cases hname.symm.trans hname'
  exact h

/-- The graph with other data in a node. -/
def withData (slot : Nat) (node : Node) (data : Json) : RuleGraph :=
  { g with slots := g.slots.set slot (some { node with data }) }

def removeAll (ids : List String) : RuleGraph := ids.foldl remove g

/-- Whether a node is the name node of a group of a type. -/
def isNameChild (group : Node) (child : String) : Bool :=
  (g.node? child).any fun node => some node.type = group.type.nameType?

/-- The ids that the deletion of a node removes, and those that it orphans. -/
def deletionOf (node : Node) (id : String) : Deletion :=
  let children := if node.type.isGroup then g.childIds id else []
  ⟨children.filter (g.isNameChild node) ++ [id], children.filter fun c => !g.isNameChild node c⟩

/-- All ids from an id downward. -/
def below (id : String) : List String := Command.subtree g (g.slots.length + 1) id

end RuleGraph

/-! ## Computations -/

namespace Command

variable {α β : Type} (g : RuleGraph)

theorem run_bind (m : Command α) (f : α → Command β) :
    (m >>= f).run g = match m.run g with
      | some (.ok a, g') => (f a).run g'
      | some (.error e, g') => some (.error e, g')
      | none => none := by
  show (m.run g).bind (fun result => (ExceptT.bindCont f result.1) result.2) = _
  rcases m.run g with _ | ⟨_ | _, _⟩ <;> rfl

theorem run_pure (a : α) : (pure a : Command α).run g = some (.ok a, g) := rfl

theorem run_throw (e : GraphError) : (throw e : Command α).run g = some (.error e, g) := rfl

theorem run_get : (get : Command RuleGraph).run g = some (.ok g, g) := rfl

theorem run_ask (question : RuleGraph → Except GraphError α) :
    (ask question).run g = some (question g, g) := by
  rw [ask, run_bind, run_get]
  cases h : question g with
  | ok a => simp only [h, run_pure]
  | error e => simp only [h, run_throw]

theorem run_checked_bind (sum : Option α) (f : α → Command β) :
    (checked sum >>= f).run g = sum.bind fun a => (f a).run g := by
  rw [run_bind]
  cases sum <;> rfl

/-- A computation that overflows unless a condition holds, and the rest of a command. -/
theorem run_bind_ite {m : Command α} {condition : Prop} [Decidable condition] {a : α}
    {g' : RuleGraph} (h : m.run g = if condition then some (.ok a, g') else none)
    (f : α → Command β) :
    (m >>= f).run g = if condition then (f a).run g' else none := by
  rw [run_bind, h]
  by_cases hcondition : condition
  · rw [if_pos hcondition, if_pos hcondition]
  · rw [if_neg hcondition, if_neg hcondition]

theorem next?_bind (counter : NodeCounter) (type : NodeType) (f : UInt64 → Option α) :
    (counter.next? type).bind f =
      if (counter.next? type).isSome then f (counter.get type + 1) else none := by
  rw [NodeCounter.next?]
  split <;> rfl

theorem run_allocate (now : Int64) (type : NodeType) :
    (allocate now type).run g =
      if (type.requiresGroup → (g.nextToken now type).isSome) ∧
          (¬ type.requiresGroup → (g.counter.next? type).isSome) then
        some (.ok (g.newId now type), g.allocated now type)
      else none := by
  rw [allocate, RuleGraph.newId, RuleGraph.allocated, RuleGraph.newToken, run_bind, run_get]
  dsimp only
  by_cases hgroup : type.requiresGroup
  · rw [if_pos hgroup, if_pos hgroup, if_pos hgroup, run_checked_bind]
    cases hnext : g.nextToken now type with
    | none => rw [if_neg fun h => Bool.false_ne_true (h.1 hgroup), Option.bind_none]
    | some token =>
      rw [if_pos ⟨fun _ => rfl, absurd hgroup⟩]
      rfl
  · rw [if_neg hgroup, if_neg hgroup, if_neg hgroup, run_checked_bind, next?_bind]
    by_cases hcount : (g.counter.next? type).isSome
    · rw [if_pos hcount, if_pos ⟨fun h => absurd h hgroup, fun _ => hcount⟩]
      rfl
    · rw [if_neg hcount, if_neg fun h => hcount (h.2 hgroup)]

theorem run_add (node : Node) : (add node).run g =
    if (g.counter.next? node.type).isSome then some (.ok ⟨⟩, g.add node) else none := by
  rw [add, run_bind, run_get]
  dsimp only
  rw [run_checked_bind, NodeCounter.increment, Option.bind_map, next?_bind]
  rfl

theorem run_addName (group : Node) (nameType : NodeType) (index : UInt64) :
    (addName group nameType index).run g =
      if (g.counter.next? nameType).isSome then
        some (.ok ⟨⟩, (g.add (g.nameNode group.id nameType index)).withSelection (some group.id))
      else none := by
  rw [addName, run_bind, run_get]
  dsimp only
  rw [run_checked_bind, next?_bind]
  by_cases hcount : (g.counter.next? nameType).isSome
  · rw [if_pos hcount, if_pos hcount, run_bind_ite g (run_add g _), if_pos hcount]
    rfl
  · rw [if_neg hcount, if_neg hcount]

theorem run_create (now : Int64) (type : NodeType) (requested : Option String) :
    (create now type requested).run g =
      if type.isName then some (.error (.structural (.managedNode type)), g)
      else match g.newParent type requested with
        | .error e => some (.error e, g)
        | .ok parent =>
          if g.InRange now type then
            some (.ok (g.newNode now type parent), g.withNew now type parent)
          else none := by
  rw [create]
  by_cases hname : type.isName
  · rw [if_pos hname, if_pos hname, run_bind, run_throw]
  · rw [if_neg hname, if_neg hname, run_bind, run_ask]
    cases hparent : g.newParent type requested with
    | error e => rfl
    | ok parent =>
      dsimp only
      rw [run_bind, run_get]
      dsimp only
      rw [run_bind_ite g (run_allocate g now type), run_checked_bind, next?_bind,
        run_bind_ite _ (run_add _ _)]
      by_cases hid : (type.requiresGroup → (g.nextToken now type).isSome) ∧
          (¬ type.requiresGroup → (g.counter.next? type).isSome)
      · by_cases hcount : (g.counter.next? type).isSome
        · have hcount' : ((g.allocated now type).counter.next? type).isSome := hcount
          rw [if_pos hid, if_pos hcount, if_pos hcount', RuleGraph.withNew]
          cases hnameType : type.nameType? with
          | none =>
            have hrange : g.InRange now type :=
              ⟨hcount, fun nameType h => (by rw [hnameType] at h; cases h), hid.1⟩
            rw [if_pos hrange]
            rfl
          | some nameType =>
            dsimp only
            rw [run_bind_ite _ (run_addName _ _ nameType _)]
            have hiff := RuleGraph.nameCounted_iff parent hnameType hcount hid.1
            exact ite_congr (propext hiff) (fun _ => rfl) fun _ => rfl
        · rw [if_pos hid, if_neg hcount, if_neg fun hrange => hcount hrange.counted]
      · rw [if_neg hid, if_neg fun hrange => hid ⟨hrange.number, fun _ => hrange.counted⟩]

theorem run_update (id : String) (patch : Json) :
    (update id patch).run g = some (match g.index.get? id with
      | none => (.error (.notFound id), g)
      | some slot => match (g.slots[slot]?).join with
        | none => (.error (.notFound id), g)
        | some node => (.ok ⟨⟩, g.withData slot node (patched node.data patch))) := by
  rw [update, run_bind, run_get]
  dsimp only
  cases g.index.get? id with
  | none => rfl
  | some slot =>
    dsimp only
    cases (g.slots[slot]?).join <;> rfl

theorem run_delete (id : String) :
    (delete id).run g = some (match g.node? id with
      | none => (.error (.notFound id), g)
      | some node =>
        if node.type.isName then (.error (.structural (.managedNode node.type)), g)
        else (.ok (g.deletionOf node id), g.removeAll (g.deletionOf node id).removed)) := by
  rw [delete, run_bind, run_get]
  dsimp only
  cases g.node? id with
  | none => rfl
  | some node =>
    dsimp only
    by_cases hname : node.type.isName
    · rw [if_pos hname, if_pos hname]
      rfl
    · rw [if_neg hname, if_neg hname]
      rfl

theorem run_deleteSubtree (id : String) :
    (deleteSubtree id).run g = some (
      if g.contains id then (.ok ⟨g.below id, []⟩, g.removeAll (g.below id))
      else (.error (.notFound id), g)) := by
  rw [deleteSubtree, run_bind, run_get]
  dsimp only
  split <;> rfl

theorem run_select (id : String) :
    (select id).run g = some (match g.group id with
      | .error e => (.error e, g)
      | .ok _ => (.ok ⟨⟩, g.withSelection (some id))) := by
  rw [select, run_bind, run_ask]
  cases g.group id <;> rfl

theorem run_clearSelection : clearSelection.run g = some (.ok ⟨⟩, g.withSelection none) := rfl

end Command

/-! ## Commands -/

namespace RuleGraph

variable (g : RuleGraph) (now : Int64)

theorem dispatch_create (type : NodeType) (requested : Option String) :
    g.dispatch now (.create type requested) =
      if type.isName then (.error (.refused (.structural (.managedNode type))), g)
      else match g.newParent type requested with
        | .error e => (.error (.refused e), g)
        | .ok parent =>
          if g.InRange now type then
            (.ok (.created (g.newNode now type parent)), g.withNew now type parent)
          else (.error .overflow, g) := by
  rw [dispatch, GraphCommand.perform, Command.run_bind, Command.run_create]
  by_cases hname : type.isName
  · rw [if_pos hname, if_pos hname]
    rfl
  · rw [if_neg hname, if_neg hname]
    cases g.newParent type requested with
    | error e => rfl
    | ok parent =>
      dsimp only
      by_cases hrange : g.InRange now type
      · rw [if_pos hrange, if_pos hrange]
        rfl
      · rw [if_neg hrange, if_neg hrange]

theorem dispatch_create_eq {g : RuleGraph} {now : Int64} {type : NodeType}
    {requested parent : Option String} (hname : type.isName = false)
    (hparent : g.newParent type requested = .ok parent) (hrange : g.InRange now type) :
    g.dispatch now (.create type requested) =
      (.ok (.created (g.newNode now type parent)), g.withNew now type parent) := by
  rw [dispatch_create, if_neg (Bool.eq_false_iff.mp hname), hparent]
  exact if_pos hrange

theorem dispatch_update (id : String) (patch : Json) :
    g.dispatch now (.update id patch) = match g.index.get? id with
      | none => (.error (.refused (.notFound id)), g)
      | some slot => match (g.slots[slot]?).join with
        | none => (.error (.refused (.notFound id)), g)
        | some node =>
          (.ok (.updated id), g.withData slot node (Command.patched node.data patch)) := by
  rw [dispatch, GraphCommand.perform, Command.run_bind, Command.run_update]
  cases g.index.get? id with
  | none => rfl
  | some slot =>
    dsimp only
    cases (g.slots[slot]?).join <;> rfl

theorem dispatch_delete (id : String) :
    g.dispatch now (.delete id) = match g.node? id with
      | none => (.error (.refused (.notFound id)), g)
      | some node =>
        if node.type.isName then (.error (.refused (.structural (.managedNode node.type))), g)
        else (.ok (.deleted (g.deletionOf node id)),
          g.removeAll (g.deletionOf node id).removed) := by
  rw [dispatch, GraphCommand.perform, Command.run_bind, Command.run_delete]
  cases g.node? id with
  | none => rfl
  | some node =>
    dsimp only
    by_cases hname : node.type.isName
    · rw [if_pos hname, if_pos hname]
      rfl
    · rw [if_neg hname, if_neg hname]
      rfl

theorem dispatch_deleteSubtree (id : String) :
    g.dispatch now (.deleteSubtree id) =
      if g.contains id then (.ok (.deleted ⟨g.below id, []⟩), g.removeAll (g.below id))
      else (.error (.refused (.notFound id)), g) := by
  rw [dispatch, GraphCommand.perform, Command.run_bind, Command.run_deleteSubtree]
  by_cases hid : g.contains id
  · rw [if_pos hid, if_pos hid]
    rfl
  · rw [if_neg hid, if_neg hid]
    rfl

theorem dispatch_select (id : String) :
    g.dispatch now (.select id) = match g.group id with
      | .error e => (.error (.refused e), g)
      | .ok _ => (.ok (.selected (some id)), g.withSelection (some id)) := by
  rw [dispatch, GraphCommand.perform, Command.run_bind, Command.run_select]
  cases g.group id <;> rfl

theorem dispatch_clearSelection :
    g.dispatch now .clearSelection = (.ok (.selected none), g.withSelection none) := by
  rw [dispatch, GraphCommand.perform, Command.run_bind, Command.run_clearSelection]
  rfl

/-- What a command can do: its answer, and the graph afterwards. -/
inductive Effect : GraphCommand → Except CommandFailure CommandOutcome → RuleGraph → Prop
  | refused (command : GraphCommand) (e : GraphError) : Effect command (.error (.refused e)) g
  | overflowed (type : NodeType) (requested parent : Option String) (hname : type.isName = false)
      (hparent : g.newParent type requested = .ok parent) (hrange : ¬ g.InRange now type) :
      Effect (.create type requested) (.error .overflow) g
  | created (type : NodeType) (requested parent : Option String) (hname : type.isName = false)
      (hparent : g.newParent type requested = .ok parent) (hrange : g.InRange now type) :
      Effect (.create type requested) (.ok (.created (g.newNode now type parent)))
        (g.withNew now type parent)
  | updated (id : String) (patch : Json) (slot : Nat) (node : Node)
      (hslot : g.index.get? id = some slot) (hnode : g.slots[slot]? = some (some node)) :
      Effect (.update id patch) (.ok (.updated id))
        (g.withData slot node (Command.patched node.data patch))
  | deleted (id : String) (node : Node) (hnode : g.node? id = some node)
      (hname : node.type.isName = false) :
      Effect (.delete id) (.ok (.deleted (g.deletionOf node id)))
        (g.removeAll (g.deletionOf node id).removed)
  | deletedSubtree (id : String) (hid : g.contains id) :
      Effect (.deleteSubtree id) (.ok (.deleted ⟨g.below id, []⟩)) (g.removeAll (g.below id))
  | selected (id : String) (node : Node) (hgroup : g.group id = .ok node) :
      Effect (.select id) (.ok (.selected (some id))) (g.withSelection (some id))
  | unselected : Effect .clearSelection (.ok (.selected none)) (g.withSelection none)

theorem dispatch_effect (command : GraphCommand) :
    Effect g now command (g.dispatch now command).1 (g.dispatch now command).2 := by
  cases command with
  | create type requested =>
    rw [dispatch_create]
    split
    · exact .refused _ _
    · next hname =>
      cases hparent : g.newParent type requested with
      | error e => exact .refused _ _
      | ok parent =>
        dsimp only
        split
        · next hrange =>
          exact .created type requested parent (Bool.eq_false_iff.mpr hname) hparent hrange
        · next hrange =>
          exact .overflowed type requested parent (Bool.eq_false_iff.mpr hname) hparent hrange
  | update id patch =>
    rw [dispatch_update]
    cases hslot : g.index.get? id with
    | none => exact .refused _ _
    | some slot =>
      dsimp only
      cases hnode : (g.slots[slot]?).join with
      | none => exact .refused _ _
      | some node => exact .updated id patch slot node hslot (Option.join_eq_some_iff.mp hnode)
  | delete id =>
    rw [dispatch_delete]
    cases hnode : g.node? id with
    | none => exact .refused _ _
    | some node =>
      dsimp only
      split
      · exact .refused _ _
      · next hname => exact .deleted id node hnode (Bool.eq_false_iff.mpr hname)
  | deleteSubtree id =>
    rw [dispatch_deleteSubtree]
    split
    · next hid => exact .deletedSubtree id hid
    · exact .refused _ _
  | select id =>
    rw [dispatch_select]
    cases hgroup : g.group id with
    | error e => exact .refused _ _
    | ok node => exact .selected id node hgroup
  | clearSelection =>
    rw [dispatch_clearSelection]
    exact .unselected

theorem dispatch_error {command : GraphCommand} {failure : CommandFailure}
    (h : (g.dispatch now command).1 = .error failure) : (g.dispatch now command).2 = g := by
  have heffect := g.dispatch_effect now command
  rw [h] at heffect
  generalize (g.dispatch now command).2 = g' at heffect ⊢
  cases heffect <;> rfl

/-- Only a creation overflows, where it is not refused and a sum in it is out of range. -/
theorem dispatch_overflow_iff {command : GraphCommand} :
    (g.dispatch now command).1 = .error .overflow ↔
      ∃ type requested parent, command = .create type requested ∧ type.isName = false ∧
        g.newParent type requested = .ok parent ∧ ¬ g.InRange now type := by
  constructor
  · intro h
    have heffect := g.dispatch_effect now command
    rw [h] at heffect
    generalize (g.dispatch now command).2 = g' at heffect
    cases heffect with
    | overflowed type requested parent hname hparent hrange =>
      exact ⟨type, requested, parent, rfl, hname, hparent, hrange⟩
  · rintro ⟨type, requested, parent, rfl, hname, hparent, hrange⟩
    rw [dispatch_create, if_neg (Bool.eq_false_iff.mp hname), hparent]
    exact congrArg Prod.fst (if_neg hrange)

/-! ## Runs -/

/-- The graph after commands, each dispatched at a time.  A command that is refused or overflows
leaves it as it is, so that it is also the graph after the other commands alone. -/
def run (g : RuleGraph) (steps : List (Int64 × GraphCommand)) : RuleGraph :=
  steps.foldl (fun g step => (g.dispatch step.1 step.2).2) g

theorem run_append (steps later : List (Int64 × GraphCommand)) :
    g.run (steps ++ later) = (g.run steps).run later := List.foldl_append

theorem run_concat (steps : List (Int64 × GraphCommand)) (step : Int64 × GraphCommand) :
    g.run (steps ++ [step]) = ((g.run steps).dispatch step.1 step.2).2 :=
  List.foldl_append

/-- The first command stands before all others of a run. -/
theorem forall_prefix_cons {now : Int64} {command : GraphCommand}
    {steps : List (Int64 × GraphCommand)}
    {P : List (Int64 × GraphCommand) → Int64 → GraphCommand → Prop} :
    (∀ before now' command', before ++ [(now', command')] <+: (now, command) :: steps →
        P before now' command') ↔
      P [] now command ∧ ∀ before now' command', before ++ [(now', command')] <+: steps →
        P ((now, command) :: before) now' command' := by
  constructor
  · intro h
    refine ⟨h [] now command (List.prefix_append [(now, command)] steps), ?_⟩
    exact fun before now' command' hbefore =>
      h _ now' command' (List.cons_prefix_cons.mpr ⟨rfl, hbefore⟩)
  · rintro ⟨hfirst, hrest⟩ before now' command' hbefore
    cases before with
    | nil =>
      obtain ⟨heq, -⟩ := List.cons_prefix_cons.mp hbefore
      cases heq
      exact hfirst
    | cons step before =>
      obtain ⟨rfl, hlater⟩ := List.cons_prefix_cons.mp hbefore
      exact hrest before now' command' hlater

end RuleGraph

end CommissionRules
