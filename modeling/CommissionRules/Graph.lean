import CommissionRules.Config
import CommissionRules.Dict
import CommissionRules.Graph.Error

/-!
# Rule graphs

A rule graph is an arena of nodes in the order of their creation, with an index from ids to slots
and a record of the children of every id that some node names as its parent, whether or not that
id is a node.  A slot whose node was removed stays empty.

Commands change the graph one at a time.  A command is a computation on the graph that may be
refused; the time, in milliseconds, is an input of the commands that need it.  The counts and the
numbers in the ids have 64 bits, and their additions are checked: a sum out of range ends the
program, so that the command has neither an answer nor a graph after it.
-/

namespace CommissionRules

structure RuleGraph where
  slots : List (Option Node)
  index : Dict Nat
  children : Dict (List String)
  selection : Option String
  counter : NodeCounter
  layout : Layout
  /-- The greatest number given to a condition or operator. -/
  lastToken : Int64

abbrev Command := ExceptT GraphError (StateT RuleGraph Option)

/-- The ids that a deletion has removed, and those that it has left without their parent. -/
structure Deletion where
  removed : List String
  orphaned : List String
deriving DecidableEq, Repr

namespace RuleGraph

def empty (layout : Layout) : RuleGraph :=
  ⟨[], .empty, .empty, none, .empty, layout, 0⟩

instance : Inhabited RuleGraph := ⟨empty .standard⟩

variable (g : RuleGraph)

/-! ## Queries -/

/-- All nodes in the order of their creation. -/
def nodes : List Node := g.slots.filterMap id

def node? (id : String) : Option Node := do
  let slot ← g.index.get? id
  let content ← g.slots[slot]?
  content

def contains (id : String) : Bool := g.index.contains id

def size : Nat := g.index.size

/-- The ids of the nodes that name the given id as their parent. -/
def childIds (id : String) : List String := (g.children.get? id).getD []

/-- The children of an id that are nodes. -/
def childNodes (id : String) : List Node := (g.childIds id).filterMap g.node?

/-- The children of a node in the order of their creation. -/
def childrenOf (id : String) : Except GraphError (List Node) :=
  if g.contains id then .ok (g.childNodes id) else .error (.notFound id)

/-- The nodes whose parent does not exist. -/
def orphans : List Node :=
  g.nodes.filter fun node => (node.parent.map fun parent => !g.contains parent).getD false

def roots (type : NodeType) : List Node :=
  g.nodes.filter fun node => node.type = type && node.parent.isNone

/-! ## Slots -/

def insert (node : Node) : RuleGraph :=
  { g with
    children := match node.parent with
      | none => g.children
      | some parent => g.children.insert parent (g.childIds parent ++ [node.id])
    index := g.index.insert node.id g.slots.length
    slots := g.slots ++ [some node] }

/-- Takes a node out of the list of its parent.  An empty list goes if the parent is not in the
index. -/
def unlink (children : Dict (List String)) (index : Dict Nat) (id : String) :
    (parent : Option String) → Dict (List String)
  | none => children
  | some parent =>
      match children.get? parent with
      | none => children
      | some siblings =>
          let others := siblings.filter (· != id)
          if others.isEmpty && !index.contains parent then children.erase parent
          else children.insert parent others

/-- Drops a list of children that is empty. -/
def dropEmpty (children : Dict (List String)) (id : String) : Dict (List String) :=
  if children.get? id = some [] then children.erase id else children

/-- Removes a node: its slot becomes empty, the lists of children are pruned, and the selection is
cleared if the node was selected. -/
def remove (id : String) : RuleGraph :=
  match g.index.get? id with
  | none => g
  | some slot =>
      let index := g.index.erase id
      match (g.slots[slot]?).join with
      | none => { g with index }
      | some node =>
          { g with
            index
            slots := g.slots.set slot none
            children := dropEmpty (unlink g.children index id node.parent) id
            selection := if g.selection = some id then none else g.selection }

/-! ## Ids -/

def counterId (type : NodeType) (count : UInt64) : String := type.text ++ "-" ++ toString count

def tokenId (type : NodeType) (token : Int64) : String := type.text ++ "-" ++ toString token

def succToken? (token : Int64) : Option Int64 :=
  if token.toInt + 1 < 0x8000000000000000 then some (token + 1) else none

/-- The first number from the given one on whose id is free, if there is one in range.  There are at
most as many ids as nodes, which bounds the fuel. -/
def freeToken (type : NodeType) : (fuel : Nat) → Int64 → Option Int64
  | 0, token => some token
  | fuel + 1, token =>
      if g.contains (tokenId type token) then (succToken? token).bind (freeToken type fuel)
      else some token

/-- The number of the next condition or operator: the time, or more if it was used already. -/
def nextToken (now : Int64) (type : NodeType) : Option Int64 :=
  (succToken? g.lastToken).bind fun next => g.freeToken type (g.size + 1) (max now next)

/-! ## Commands -/

def group (id : String) : Except GraphError Node :=
  match g.node? id with
  | none => .error (.notFound id)
  | some node => if node.type.isGroup then .ok node else .error (.structural (.notAGroup id))

/-- The parent of a new node: the start node has none, and any other node goes into the requested
group, or else into the selected one. -/
def newParent (type : NodeType) (requested : Option String) :
    Except GraphError (Option String) :=
  match if type = .initial then none else requested.or g.selection with
  | some id => (g.group id).map fun node => some node.id
  | none => if type.requiresGroup then .error (.structural .noGroupSelected) else .ok none

/-- Where a new node is placed, given how many nodes of its type were made before. -/
def newPosition (type : NodeType) (parent : Option String) (index : UInt64) : Position :=
  let layout := g.layout
  match parent with
  | some _ =>
      ⟨layout.nestedX, if type = .conditionalOperator then layout.operatorY else layout.nestedY⟩
  | none =>
      let offset := Number.ofNat index.toNat
      ⟨layout.baseX.add (offset.mul layout.dx), layout.baseY.add (offset.mul layout.dy)⟩

end RuleGraph

namespace Command

open RuleGraph

def ask {α : Type} (question : RuleGraph → Except GraphError α) : Command α := do
  match question (← get) with
  | .ok a => pure a
  | .error e => throw e

/-- The result of a checked addition. -/
def checked {α : Type} (sum : Option α) : Command α := liftM sum

def allocate (now : Int64) (type : NodeType) : Command String := do
  let g ← get
  if type.requiresGroup then
    let token ← checked (g.nextToken now type)
    set { g with lastToken := token }
    pure (tokenId type token)
  else
    let count ← checked (g.counter.next? type)
    pure (counterId type count)

def add (node : Node) : Command Unit := do
  let g ← get
  let counter ← checked (g.counter.increment node.type)
  set ({ g with counter }.insert node)

/-- Creates the name node of a group, and selects the group. -/
def addName (group : Node) (nameType : NodeType) (index : UInt64) : Command Unit := do
  let g ← get
  let count ← checked (g.counter.next? nameType)
  add
    { id := counterId nameType count
      type := nameType
      position := ⟨g.layout.nameX, g.layout.nameY⟩
      parent := some group.id
      confined := true
      data := nameType.newData index }
  modify fun g => { g with selection := some group.id }

/-- Creates a node.  A group is created with its name node, and becomes the selection. -/
def create (now : Int64) (type : NodeType) (parent : Option String) : Command Node := do
  if type.isName then throw (.structural (.managedNode type))
  let parent ← ask fun g => g.newParent type parent
  let g ← get
  let id ← allocate now type
  let index ← checked (g.counter.next? type)
  let node : Node :=
    { id
      type
      position := g.newPosition type parent (g.counter.get type)
      parent
      confined := parent.isSome
      data := type.newData index }
  add node
  match type.nameType? with
  | some nameType => addName node nameType index
  | none => pure ()
  pure node

/-- Data changed by a patch: the fields of an object are added to those of an object, and anything
else is replaced. -/
def patched : Json → Json → Json
  | .obj fields, .obj patch => .obj (Entries.insertAll patch fields)
  | _, patch => patch

def update (id : String) (patch : Json) : Command Unit := do
  let g ← get
  match g.index.get? id with
  | none => throw (.notFound id)
  | some slot =>
      match (g.slots[slot]?).join with
      | none => throw (.notFound id)
      | some node =>
          let node := { node with data := patched node.data patch }
          set { g with slots := g.slots.set slot (some node) }

/-- Removes a node that is no name node.  A group takes its name node with it and leaves its other
children without their parent. -/
def delete (id : String) : Command Deletion := do
  let g ← get
  match g.node? id with
  | none => throw (.notFound id)
  | some node =>
      if node.type.isName then throw (.structural (.managedNode node.type))
      let isName (child : String) : Bool :=
        (g.node? child).any fun node' => some node'.type = node.type.nameType?
      let children := if node.type.isGroup then g.childIds id else []
      let removed := children.filter isName ++ [id]
      set (removed.foldl remove g)
      pure ⟨removed, children.filter fun child => !isName child⟩

/-- The ids below an id and the id itself, children first.  The fuel bounds the depth.  In a forest
it is never used up; around a circle of parents the program has no end, and the list breaks off here
at that depth. -/
def subtree (g : RuleGraph) : (fuel : Nat) → String → List String
  | 0, _ => []
  | fuel + 1, id => (g.childIds id).flatMap (subtree g fuel) ++ [id]

def deleteSubtree (id : String) : Command Deletion := do
  let g ← get
  if g.contains id then
    let removed := subtree g (g.slots.length + 1) id
    set (removed.foldl remove g)
    pure ⟨removed, []⟩
  else throw (.notFound id)

def select (id : String) : Command Unit := do
  let _ ← ask fun g => g.group id
  modify fun g => { g with selection := some id }

def clearSelection : Command Unit := modify fun g => { g with selection := none }

end Command

/-! ## Commands as data -/

inductive GraphCommand where
  | create (type : NodeType) (parent : Option String)
  | update (id : String) (patch : Json)
  | delete (id : String)
  | deleteSubtree (id : String)
  | select (id : String)
  | clearSelection

inductive CommandOutcome where
  | created (node : Node)
  | updated (id : String)
  | deleted (deletion : Deletion)
  | selected (id : Option String)

def GraphCommand.perform (now : Int64) : GraphCommand → Command CommandOutcome
  | create type parent => do return .created (← Command.create now type parent)
  | update id patch => do
      Command.update id patch
      return .updated id
  | delete id => do return .deleted (← Command.delete id)
  | deleteSubtree id => do return .deleted (← Command.deleteSubtree id)
  | select id => do
      Command.select id
      return .selected (some id)
  | clearSelection => do
      Command.clearSelection
      return .selected none

/-- Why a command has no outcome: it is refused, or a sum in it is out of range. -/
inductive CommandFailure where
  | refused (error : GraphError)
  | overflow

/-- Applies a command to a graph at a time: the outcome, and the graph afterwards.  An overflow ends
the program; the graph given with it is the last one that there was. -/
def RuleGraph.dispatch (g : RuleGraph) (now : Int64) (command : GraphCommand) :
    Except CommandFailure CommandOutcome × RuleGraph :=
  match (command.perform now).run g with
  | some (answer, g') => (answer.mapError .refused, g')
  | none => (.error .overflow, g)

end CommissionRules
