import CommissionRules.Graph
import CommissionRules.Json.Decode

/-!
# Snapshots

The exported form of a rule graph: its nodes, its counter, and the order of creation.  An import
checks the structure of a snapshot and rebuilds the graph.  The order of the nodes in the snapshot
does not matter where its order of creation names them.
-/

namespace CommissionRules

structure GraphSnapshot where
  nodes : List Node
  counter : NodeCounter
  order : List String

namespace GraphSnapshot

variable (s : GraphSnapshot)

/-! ## Checks -/

/-- The node with an id; of several ones the last. -/
def find? (nodes : List Node) (id : String) : Option Node :=
  nodes.reverse.find? fun node => node.id == id

/-- The first id that an earlier node has already. -/
def firstDuplicate? : (seen : List String) → List Node → Option String
  | _, [] => none
  | seen, node :: rest =>
      if seen.contains node.id then some node.id else firstDuplicate? (node.id :: seen) rest

/-- Follows the parents of a node and says whether one of them was seen before.  Every step sees a
new id, which bounds the fuel. -/
def climbsInCircle (nodes : List Node) : (fuel : Nat) → (seen : List String) → Node → Bool
  | 0, _, _ => false
  | fuel + 1, seen, node =>
      match node.parent.bind (find? nodes) with
      | none => false
      | some parent =>
          seen.contains parent.id || climbsInCircle nodes fuel (parent.id :: seen) parent

def isCyclic (nodes : List Node) (node : Node) : Bool :=
  climbsInCircle nodes (nodes.length + 1) [node.id] node

/-- Checks a node against its parent, given the groups whose name node came before.  The answer is
the groups with a name node so far. -/
def checkNode (nodes : List Node) (named : List String) (node : Node) :
    Except StructuralError (List String) :=
  match node.parent with
  | none => if node.type.isName then .error (.misplacedNameNode node.id) else .ok named
  | some parentId =>
      match find? nodes parentId with
      | none =>
          if node.type.isName then .error (.danglingParent node.id parentId) else .ok named
      | some parent =>
          if node.type.requiresGroup && !parent.type.isGroup then .error (.notAGroup parentId)
          else if node.type.isName && parent.type.nameType? ≠ some node.type then
            .error (.misplacedNameNode node.id)
          else if node.type.isName && named.contains parentId then
            .error (.duplicateNameNode parentId node.type)
          else if isCyclic nodes node then .error (.cycle node.id)
          else .ok (if node.type.isName then parentId :: named else named)

/-- Checks nodes in order: the groups that have a name node. -/
def checkNodes (nodes : List Node) :
    (named : List String) → List Node → Except StructuralError (List String)
  | named, [] => .ok named
  | named, node :: rest => do
      let named ← checkNode nodes named node
      checkNodes nodes named rest

/-- The first group without a name node, with the type of the node that it lacks. -/
def unnamed? (named : List String) (nodes : List Node) : Option (String × NodeType) :=
  nodes.findSome? fun node =>
    if named.contains node.id then none
    else node.type.nameType?.map fun nameType => (node.id, nameType)

def check : Except StructuralError Unit :=
  match firstDuplicate? [] s.nodes with
  | some id => .error (.duplicateId id)
  | none => do
      let named ← checkNodes s.nodes [] s.nodes
      match unnamed? named s.nodes with
      | some (group, nameType) => .error (.missingNameNode group nameType)
      | none => .ok ()

/-! ## Order -/

/-- The last place of an id in a list, counted from the given number. -/
def lastIndex? (id : String) : (start : Nat) → List String → Option Nat
  | _, [] => none
  | start, other :: rest =>
      match lastIndex? id (start + 1) rest with
      | some place => some place
      | none => if other = id then some start else none

/-- The place of a node in an order of creation; nodes that it does not name come last. -/
def rank (order : List String) (node : Node) : Nat := (lastIndex? node.id 0 order).getD order.length

def sortedNodes : List Node :=
  let ranked := s.nodes.map fun node => (rank s.order node, node)
  (ranked.mergeSort fun a b => a.1 ≤ b.1).map (·.2)

end GraphSnapshot

namespace RuleGraph

/-- Raises the counter or the last token to the number in the id of a node. -/
def restore (g : RuleGraph) (node : Node) : RuleGraph :=
  match Node.suffix? node.id with
  | none => g
  | some suffix =>
      if node.type.requiresGroup then { g with lastToken := max g.lastToken suffix }
      else { g with counter := g.counter.raiseTo node.type (max 0 suffix).toUInt64 }

/-- The graph of a snapshot, if its structure is right.  Nothing is selected in it. -/
def ofSnapshot (snapshot : GraphSnapshot) : Except StructuralError RuleGraph := do
  snapshot.check
  let g := snapshot.sortedNodes.foldl insert (empty .standard)
  .ok (g.nodes.foldl restore { g with counter := snapshot.counter })

def toSnapshot (g : RuleGraph) : GraphSnapshot :=
  ⟨g.nodes, g.counter, g.nodes.map Node.id⟩

end RuleGraph

/-! ## Writing -/

namespace Node

/-- A node as JSON; a part that it does not have is left out. -/
def toJson (node : Node) : Json :=
  .obj ([("id", .str node.id), ("type", .str node.type.text),
      ("position", .obj [("x", .real node.position.x), ("y", .real node.position.y)])]
    ++ (node.parent.map fun parent => ("parentId", .str parent)).toList
    ++ (if node.confined then [("extent", .str "parent")] else [])
    ++ [("data", node.data)])

end Node

def NodeCounter.toJson (counter : NodeCounter) : Json :=
  .obj (counter.entries.map fun (type, count) => (type.text, .int count.toNat))

/-- A snapshot as JSON; an empty order is left out. -/
def GraphSnapshot.toJson (s : GraphSnapshot) : Json :=
  .obj ([("nodes", .arr (s.nodes.map Node.toJson)), ("counter", s.counter.toJson)]
    ++ if s.order.isEmpty then [] else [("order", .arr (s.order.map .str))])

/-! ## Reading -/

open Json (Raw)

def NodeType.ofRaw? (raw : Raw) : Option NodeType := raw.variant? NodeType.ofText?

def Position.ofRaw? (raw : Raw) : Option Position := do
  match ← raw.structure? ["x", "y"] with
  | [x, y] => return ⟨← Raw.required Raw.number? x, ← Raw.required Raw.number? y⟩
  | _ => none

/-- The only bounds that a node can be confined to are those of its parent. -/
def Node.confinedOfRaw? (raw : Raw) : Option Bool :=
  raw.variant? fun name => if name = "parent" then some true else none

def Node.ofRaw? (raw : Raw) : Option Node := do
  match ← raw.structure? ["id", "type", "position", "parentId", "extent", "data"] with
  | [id, type, position, parent, extent, data] =>
      return { id := ← Raw.required Raw.text? id
               type := ← Raw.required NodeType.ofRaw? type
               position := ← Raw.required Position.ofRaw? position
               parent := ← Raw.nullable Raw.text? parent
               confined := (← Raw.nullable Node.confinedOfRaw? extent).getD false
               data := ← Raw.withDefault .null Raw.value? data }
  | _ => none

/-- Reads a counter: an object from types to counts, in which the last count of a type stays. -/
def NodeCounter.ofRaw? : Raw → Option NodeCounter
  | .obj fields => fields.foldlM (fun counter (name, count) => do
      return counter.set (← NodeType.ofText? name) (← count.natural?).toUInt64) .empty
  | _ => none

def GraphSnapshot.ofRaw? (raw : Raw) : Option GraphSnapshot := do
  match ← raw.structure? ["nodes", "counter", "order"] with
  | [nodes, counter, order] =>
      return { nodes := ← Raw.required (Raw.list? Node.ofRaw?) nodes
               counter := ← Raw.withDefault .empty NodeCounter.ofRaw? counter
               order := ← Raw.withDefault [] (Raw.list? Raw.text?) order }
  | _ => none

def GraphSnapshot.read? (text : String) : Option GraphSnapshot := (Raw.read? text).bind ofRaw?

/-- Reads a command: an object whose `command` names it, with the fields of that command. -/
def GraphCommand.ofRaw? (raw : Raw) : Option GraphCommand := do
  match ← raw.structure? ["command", "nodeType", "parentId", "id", "patch"] with
  | [command, type, parent, id, patch] =>
      match ← Raw.required Raw.text? command with
      | "create" =>
          return .create (← Raw.required NodeType.ofRaw? type)
            (← Raw.nullable Raw.text? parent)
      | "update" => return .update (← Raw.required Raw.text? id) (← Raw.required Raw.value? patch)
      | "delete" => return .delete (← Raw.required Raw.text? id)
      | "deleteSubtree" => return .deleteSubtree (← Raw.required Raw.text? id)
      | "select" => return .select (← Raw.required Raw.text? id)
      | "clearSelection" => return .clearSelection
      | _ => none
  | _ => none

end CommissionRules
