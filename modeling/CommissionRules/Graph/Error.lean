import CommissionRules.Graph.Node

/-!
# Graph errors

The ways in which a command on a rule graph, an import or the assembly of a rule fails, with their
messages.
-/

namespace CommissionRules

inductive StructuralError where
  | noGroupSelected
  | notAGroup (id : String)
  | danglingParent (node parent : String)
  | cycle (node : String)
  | duplicateId (id : String)
  | duplicateNameNode (group : String) (nameType : NodeType)
  | managedNode (type : NodeType)
  | misplacedNameNode (id : String)
  | missingNameNode (group : String) (nameType : NodeType)
deriving DecidableEq, Repr

namespace StructuralError

def message : StructuralError → String
  | noGroupSelected => "no group selected"
  | notAGroup id => "Node '" ++ id ++ "' is not a rule or action group"
  | danglingParent node parent =>
      "Parent '" ++ parent ++ "' of node '" ++ node ++ "' does not exist"
  | cycle node => "Node '" ++ node ++ "' would become its own ancestor"
  | duplicateId id => "Duplicate node id '" ++ id ++ "'"
  | duplicateNameNode group nameType =>
      "Group '" ++ group ++ "' has more than one '" ++ nameType.text ++ "' child"
  | managedNode type => "'" ++ type.text ++ "' nodes are created together with their group"
  | misplacedNameNode id =>
      "Name node '" ++ id ++ "' is not the name child of a matching group"
  | missingNameNode group nameType =>
      "Group '" ++ group ++ "' has no '" ++ nameType.text ++ "' child"

end StructuralError

inductive GraphError where
  | structural (error : StructuralError)
  | notFound (id : String)
deriving DecidableEq, Repr

namespace GraphError

def message : GraphError → String
  | structural e => e.message
  | notFound id => "Node '" ++ id ++ "' not found"

end GraphError

inductive AssemblyError where
  | notFound (id : String)
  | notARuleGroup (id : String)
  | emptyCondition (id : String)
  | danglingOperator (id : String)
  | unknownOperator (id value : String)
deriving DecidableEq, Repr

namespace AssemblyError

def message : AssemblyError → String
  | notFound id => "Node '" ++ id ++ "' not found"
  | notARuleGroup id => "Node '" ++ id ++ "' is not a rule group"
  | emptyCondition id => "Condition '" ++ id ++ "' has an empty expression"
  | danglingOperator id => "Operator '" ++ id ++ "' is not placed between two conditions"
  | unknownOperator id value => "Operator '" ++ id ++ "' has unsupported value '" ++ value ++ "'"

end AssemblyError

end CommissionRules
