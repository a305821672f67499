import CommissionRules.Graph
import CommissionRules.Rule
import CommissionRules.Text.Blank

/-!
# Assembly

A rule group is folded into the definition of a rule.  Its conditions and nested rule groups are the
terms of one condition, joined from left to right by the operators between them; the action groups
in it and in its nested groups are the actions.
-/

namespace CommissionRules

/-- A part of a condition, with the operator that joins it to the parts before it. -/
structure Term where
  operator : Option LogicalOp
  text : String
deriving DecidableEq, Repr

namespace Term

def parenthesized (text : String) : String := "(" ++ text ++ ")"

/-- Joins terms to what has been joined so far.  Where the operator changes, everything before it is
put into parentheses. -/
def joinTo (condition : String) (previous : Option LogicalOp) : List Term → String
  | [] => condition
  | ⟨none, text⟩ :: rest => joinTo (parenthesized text) previous rest
  | ⟨some op, text⟩ :: rest =>
      let changes := (previous.map fun p => p != op).getD false
      let before := if changes then parenthesized condition else condition
      joinTo (before ++ " " ++ op.symbol ++ " " ++ parenthesized text) (some op) rest

/-- The condition of some terms; without terms it is true. -/
def join : List Term → String
  | [] => "true"
  | [term] => term.text
  | terms => joinTo "" none terms

end Term

/-- What has been read of a rule group: its terms in reverse, the operator that waits for its
right-hand term, with its node, and the actions in reverse. -/
structure PartialRule where
  terms : List Term
  pending : Option (LogicalOp × String)
  actions : List ActionDefinition

namespace PartialRule

/-- Adds a term.  The operator before it is the pending one, or else `&&`; the first term has
none. -/
def addTerm (p : PartialRule) (text : String) : PartialRule :=
  let operator := match p.pending with
    | some (op, _) => some op
    | none => if p.terms.isEmpty then none else some .and
  { p with terms := ⟨operator, text⟩ :: p.terms, pending := none }

end PartialRule

namespace Node

/-- Letters of the ASCII alphabet in upper case. -/
def asciiUpper (text : String) : String := String.ofList (text.toList.map Char.toUpper)

/-- The operator of an operator node, which is a conjunction if the node does not say. -/
def operator (node : Node) : Except AssemblyError LogicalOp :=
  let value := (node.text? "operator").getD "AND"
  match asciiUpper (Text.trim value) with
  | "AND" | "&&" => .ok .and
  | "OR" | "||" => .ok .or
  | _ => .error (.unknownOperator node.id value)

def expression (node : Node) : String := Text.trim ((node.text? "expression").getD "")

end Node

namespace RuleGraph

variable (g : RuleGraph)

/-- The name of a group: the label of its name node, or else its own label, or else its id. -/
def nameOf (group : Node) (nameType : NodeType) : String :=
  let nameNode := (g.childNodes group.id).find? fun child => child.type = nameType
  ((nameNode.bind Node.label?).or group.label?).getD group.id

def actionOf (group : Node) : ActionDefinition :=
  { groupId := group.id
    name := g.nameOf group .actionName
    onSuccess := (group.text? "onSuccess").getD ""
    onFailure := (group.text? "onFailure").getD "" }

/-- Reads the child of a rule group, given the reader of nested groups. -/
def readChild (nested : Node → List ActionDefinition →
      Except AssemblyError (String × List ActionDefinition))
    (p : PartialRule) (child : Node) : Except AssemblyError PartialRule :=
  match child.type with
  | .condition =>
      if child.expression.isEmpty then .error (.emptyCondition child.id)
      else .ok (p.addTerm child.expression)
  | .ruleGroup => do
      let (condition, actions) ← nested child p.actions
      .ok ({ p with actions }.addTerm (Term.parenthesized condition))
  | .conditionalOperator =>
      if p.terms.isEmpty || p.pending.isSome then .error (.danglingOperator child.id)
      else do
        let op ← child.operator
        .ok { p with pending := some (op, child.id) }
  | .actionGroup => .ok { p with actions := g.actionOf child :: p.actions }
  | .ruleName | .actionName | .initial => .ok p

/-- The condition of a rule group, and the actions found so far, in reverse.  The fuel bounds the
nesting of groups.  In a forest it is never used up; around a circle of groups the program has no
end, and the group at which the fuel is used up counts here as one that is missing. -/
def foldGroup : (fuel : Nat) → Node → List ActionDefinition →
    Except AssemblyError (String × List ActionDefinition)
  | 0, group, _ => .error (.notFound group.id)
  | fuel + 1, group, actions => do
      let p ← (g.childNodes group.id).foldlM (g.readChild (foldGroup fuel)) ⟨[], none, actions⟩
      match p.pending with
      | some (_, id) => .error (.danglingOperator id)
      | none => .ok (Term.join p.terms.reverse, p.actions)

def assemble (id : String) : Except AssemblyError RuleDefinition :=
  match g.node? id with
  | none => .error (.notFound id)
  | some group =>
      if group.type = .ruleGroup then do
        let (condition, actions) ← g.foldGroup (g.slots.length + 1) group []
        .ok ⟨id, g.nameOf group .ruleName, condition, actions.reverse⟩
      else .error (.notARuleGroup id)

end RuleGraph

end CommissionRules
