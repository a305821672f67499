import CommissionRules.Json
import CommissionRules.Number.Rounding

/-!
# Nodes

The nodes of a rule graph.  A node names its parent by id, whether or not there is such a node.
Groups own a name node each; conditions and operators stand in a group.
-/

namespace CommissionRules

inductive NodeType where
  | ruleGroup
  | actionGroup
  | condition
  | conditionalOperator
  | ruleName
  | actionName
  | initial
deriving DecidableEq, Repr

namespace NodeType

def all : List NodeType :=
  [ruleGroup, actionGroup, condition, conditionalOperator, ruleName, actionName, initial]

def text : NodeType → String
  | ruleGroup => "ruleGroup"
  | actionGroup => "actionGroup"
  | condition => "condition"
  | conditionalOperator => "conditionalOperator"
  | ruleName => "ruleName"
  | actionName => "actionName"
  | initial => "initial"

def ofText? (text : String) : Option NodeType := all.find? fun t => t.text == text

def isGroup : NodeType → Bool
  | ruleGroup | actionGroup => true
  | _ => false

/-- Conditions and operators exist only inside a group. -/
def requiresGroup : NodeType → Bool
  | condition | conditionalOperator => true
  | _ => false

def isName : NodeType → Bool
  | ruleName | actionName => true
  | _ => false

/-- The type of the name node that a group is created with. -/
def nameType? : NodeType → Option NodeType
  | ruleGroup => some ruleName
  | actionGroup => some actionName
  | _ => none

/-- The data of a new node; the index is that of the node, or of the group that it names. -/
def newData (index : UInt64) : NodeType → Json
  | ruleGroup | ruleName => .obj [("label", .str ("Rule " ++ toString index))]
  | actionGroup =>
      .obj [("label", .str ("Action " ++ toString index)), ("onFailure", .str ""),
        ("onSuccess", .str "")]
  | actionName => .obj [("label", .str ("Action " ++ toString index))]
  | condition => .obj [("expression", .str ""), ("label", .str "Condition")]
  | conditionalOperator => .obj [("operator", .str "AND")]
  | initial => .obj [("label", .str "Start")]

end NodeType

structure Position where
  x : Number
  y : Number
deriving DecidableEq

structure Node where
  id : String
  type : NodeType
  position : Position
  parent : Option String
  /-- Whether the node is confined to the bounds of its parent. -/
  confined : Bool
  data : Json

namespace Node

def text? (node : Node) (key : String) : Option String := (node.data.field? key).bind Json.asText?

def label? (node : Node) : Option String := node.text? "label"

/-- Reads an integer of 64 bits: a sign, if any, and digits. -/
def readInt64? (cs : List Char) : Option Int64 :=
  let (negative, digits) := match cs with
    | '-' :: rest => (true, rest)
    | '+' :: rest => (false, rest)
    | _ => (false, cs)
  if digits.isEmpty || !digits.all Char.isDigit then none
  else
    let magnitude := digits.foldl (fun acc c => acc * 10 + (c.toNat - '0'.toNat)) 0
    if negative then
      if magnitude ≤ 0x8000000000000000 then some (.ofInt (-(magnitude : Int))) else none
    else if magnitude < 0x8000000000000000 then some (.ofNat magnitude)
    else none

def suffix? (id : String) : Option Int64 :=
  let reversed := id.toList.reverse
  if reversed.contains '-' then readInt64? (reversed.takeWhile (· != '-')).reverse else none

end Node

/-- How many nodes of each type were ever created; a type that is not counted yet has no entry. -/
structure NodeCounter where
  ruleGroup : Option UInt64
  actionGroup : Option UInt64
  condition : Option UInt64
  conditionalOperator : Option UInt64
  ruleName : Option UInt64
  actionName : Option UInt64
  initial : Option UInt64
deriving DecidableEq

namespace NodeCounter

def empty : NodeCounter := ⟨none, none, none, none, none, none, none⟩

def recorded? (counter : NodeCounter) : NodeType → Option UInt64
  | .ruleGroup => counter.ruleGroup
  | .actionGroup => counter.actionGroup
  | .condition => counter.condition
  | .conditionalOperator => counter.conditionalOperator
  | .ruleName => counter.ruleName
  | .actionName => counter.actionName
  | .initial => counter.initial

def get (counter : NodeCounter) (type : NodeType) : UInt64 := (counter.recorded? type).getD 0

def set (counter : NodeCounter) (type : NodeType) (count : UInt64) : NodeCounter :=
  match type with
  | .ruleGroup => { counter with ruleGroup := some count }
  | .actionGroup => { counter with actionGroup := some count }
  | .condition => { counter with condition := some count }
  | .conditionalOperator => { counter with conditionalOperator := some count }
  | .ruleName => { counter with ruleName := some count }
  | .actionName => { counter with actionName := some count }
  | .initial => { counter with initial := some count }

/-- The number of the next node of a type, if it is in the range of the counts. -/
def next? (counter : NodeCounter) (type : NodeType) : Option UInt64 :=
  let count := counter.get type
  if count.toNat + 1 < 0x10000000000000000 then some (count + 1) else none

/-- Counts one more node of a type, if the count stays in range. -/
def increment (counter : NodeCounter) (type : NodeType) : Option NodeCounter :=
  (counter.next? type).map (counter.set type)

/-- Raises a count to at least the given one. -/
def raiseTo (counter : NodeCounter) (type : NodeType) (floor : UInt64) : NodeCounter :=
  counter.set type (max (counter.get type) floor)

/-- The counts that there are, in the order of the types. -/
def entries (counter : NodeCounter) : List (NodeType × UInt64) :=
  NodeType.all.filterMap fun type => (counter.recorded? type).map fun count => (type, count)

theorem recorded?_set (counter : NodeCounter) (type type' : NodeType) (count : UInt64) :
    (counter.set type count).recorded? type' =
      if type' = type then some count else counter.recorded? type' := by
  cases type <;> cases type' <;> rfl

theorem get_set (counter : NodeCounter) (type type' : NodeType) (count : UInt64) :
    (counter.set type count).get type' = if type' = type then count else counter.get type' := by
  unfold get
  rw [recorded?_set]
  split <;> rfl

end NodeCounter

end CommissionRules
