import CommissionRules.Operator
import CommissionRules.Value

/-!
# Expressions

The syntax trees of the expression language.  `Expr.induct` is induction with one case for each
kind of node; the height `Expr.depth` counts nodes along the longest path, and `Expr.tree` draws a
tree with one line for each node.
-/

namespace CommissionRules

/-- What stands between the parentheses of a collection method. -/
inductive Argument (α : Type) where
  | none
  | value (arg : α)
  | lambda (param : String) (body : α)
deriving Inhabited

namespace Argument

variable {α : Type}

def toList : Argument α → List α
  | none => []
  | value arg => [arg]
  | lambda _ body => [body]

end Argument

inductive Expr where
  | literal (value : Value)
  /-- A data source or lambda parameter, followed by property names. -/
  | ref (source : String) (path : List String)
  /-- A property of a computed value. -/
  | member (target : Expr) (property : String)
  | unary (op : UnaryOp) (operand : Expr)
  | binary (op : BinaryOp) (left right : Expr)
  | logical (op : LogicalOp) (left right : Expr)
  | conditional (condition thenBranch elseBranch : Expr)
  | call (function : String) (args : List Expr)
  | method (receiver : Expr) (name : String) (argument : Argument Expr)
deriving Inhabited

/-- The node that an operator between two operands makes. -/
def Connective.apply : Connective → Expr → Expr → Expr
  | binary op, left, right => .binary op left right
  | logical op, left, right => .logical op left right

namespace Expr

/-- The direct children in the order of evaluation. -/
def children : Expr → List Expr
  | literal _ | ref _ _ => []
  | member target _ => [target]
  | unary _ operand => [operand]
  | binary _ left right | logical _ left right => [left, right]
  | conditional condition thenBranch elseBranch => [condition, thenBranch, elseBranch]
  | call _ args => args
  | method receiver _ argument => receiver :: argument.toList

mutual

/-- The height of the tree; a leaf has height one. -/
def depth : Expr → Nat
  | literal _ | ref _ _ => 1
  | member target _ => target.depth + 1
  | unary _ operand => operand.depth + 1
  | binary _ left right | logical _ left right => max left.depth right.depth + 1
  | conditional condition thenBranch elseBranch =>
      max (max condition.depth thenBranch.depth) elseBranch.depth + 1
  | call _ args => depthArgs args + 1
  | method receiver _ argument => max receiver.depth (depthArgument argument) + 1

def depthArgs : List Expr → Nat
  | [] => 0
  | e :: rest => max e.depth (depthArgs rest)

def depthArgument : Argument Expr → Nat
  | .none => 0
  | .value arg => arg.depth
  | .lambda _ body => body.depth

end

def label : Expr → String
  | literal value => "Literal: " ++ value.display
  | ref source path => "Data: " ++ ".".intercalate (source :: path)
  | member _ property => "Member (." ++ property ++ ")"
  | unary op _ => "Unary (" ++ op.symbol ++ ")"
  | binary op _ _ => "Binary (" ++ op.symbol ++ ")"
  | logical op _ _ => "Logical (" ++ op.symbol ++ ")"
  | conditional _ _ _ => "Conditional (?:)"
  | call function _ => "Call " ++ function ++ "()"
  | method _ name (.lambda param _) => "Method ." ++ name ++ "(" ++ param ++ " => ...)"
  | method _ name _ => "Method ." ++ name ++ "()"

/-- A line with its branch, and the lines of the children one level further in. -/
def branch (indent : String) (last : Bool) (label : String) (below : String → String) : String :=
  indent ++ (if last then "└── " else "├── ") ++ label ++ "\n"
    ++ below (indent ++ if last then "    " else "│   ")

mutual

/-- Draws a tree below the given indentation, as the last child or one of the others. -/
def treeAt (indent : String) (last : Bool) : Expr → String
  | e@(literal _) | e@(ref _ _) => branch indent last e.label fun _ => ""
  | e@(member target _) => branch indent last e.label fun inner => target.treeAt inner true
  | e@(unary _ operand) => branch indent last e.label fun inner => operand.treeAt inner true
  | e@(binary _ left right) | e@(logical _ left right) =>
      branch indent last e.label fun inner =>
        left.treeAt inner false ++ right.treeAt inner true
  | e@(conditional condition thenBranch elseBranch) =>
      branch indent last e.label fun inner =>
        condition.treeAt inner false ++ thenBranch.treeAt inner false
          ++ elseBranch.treeAt inner true
  | e@(call _ args) => branch indent last e.label fun inner => treeArgs inner args
  | e@(method receiver _ .none) =>
      branch indent last e.label fun inner => receiver.treeAt inner true
  | e@(method receiver _ (.value arg)) =>
      branch indent last e.label fun inner =>
        receiver.treeAt inner false ++ arg.treeAt inner true
  | e@(method receiver _ (.lambda _ body)) =>
      branch indent last e.label fun inner =>
        receiver.treeAt inner false ++ body.treeAt inner true

def treeArgs (indent : String) : List Expr → String
  | [] => ""
  | e :: rest => e.treeAt indent rest.isEmpty ++ treeArgs indent rest

end

def tree (e : Expr) : String := e.treeAt "" true

/-- Induction with the arguments of a call and of a method taken together. -/
@[elab_as_elim]
theorem induct {motive : Expr → Prop}
    (literal : ∀ value, motive (literal value))
    (ref : ∀ source path, motive (ref source path))
    (member : ∀ target property, motive target → motive (member target property))
    (unary : ∀ op operand, motive operand → motive (unary op operand))
    (binary : ∀ op left right, motive left → motive right → motive (binary op left right))
    (logical : ∀ op left right, motive left → motive right → motive (logical op left right))
    (conditional : ∀ condition thenBranch elseBranch, motive condition → motive thenBranch →
      motive elseBranch → motive (conditional condition thenBranch elseBranch))
    (call : ∀ function args, (∀ arg ∈ args, motive arg) → motive (call function args))
    (method : ∀ receiver name argument, motive receiver →
      (∀ arg ∈ argument.toList, motive arg) → motive (method receiver name argument))
    (e : Expr) : motive e :=
  Expr.rec (motive_1 := motive) (motive_2 := fun args => ∀ arg ∈ args, motive arg)
    (motive_3 := fun argument => ∀ arg ∈ argument.toList, motive arg)
    literal ref member unary binary logical conditional call
    (fun receiver name argument hreceiver hargument =>
      method receiver name argument hreceiver hargument)
    (by simp)
    (fun head tail hhead htail arg harg => by
      rcases List.mem_cons.1 harg with h | h
      · exact h ▸ hhead
      · exact htail arg h)
    (by simp [Argument.toList])
    (fun arg harg arg' h => by simp [Argument.toList] at h; exact h ▸ harg)
    (fun param body hbody arg' h => by simp [Argument.toList] at h; exact h ▸ hbody)
    e

end Expr

end CommissionRules
