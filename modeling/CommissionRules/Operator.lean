/-!
# Operators

The operators of the expression language with their symbols and their place in the grammar: lower
precedence binds tighter, and of operators of one precedence the associativity says which of two
takes the operand between them.
-/

namespace CommissionRules

inductive OperatorKind where
  | comparison
  | arithmetic
  | logic
deriving DecidableEq, Repr

inductive Associativity where
  | left
  | right
deriving DecidableEq, Repr

/-- The entry of an operator.  The arity is 1 before an operand, 2 between two operands, and 3 for
the conditional. -/
structure OperatorSpec where
  id : String
  kind : OperatorKind
  precedence : Nat
  associativity : Associativity
  arity : Nat
deriving DecidableEq, Repr

inductive BinaryOp where
  | power
  | multiply
  | divide
  | modulo
  | add
  | subtract
  | less
  | lessOrEqual
  | greater
  | greaterOrEqual
  | looseEqual
  | looseNotEqual
  | strictEqual
  | strictNotEqual
deriving DecidableEq, Repr

namespace BinaryOp

def all : List BinaryOp :=
  [power, multiply, divide, modulo, add, subtract, less, lessOrEqual, greater, greaterOrEqual,
    looseEqual, looseNotEqual, strictEqual, strictNotEqual]

def symbol : BinaryOp → String
  | power => "**"
  | multiply => "*"
  | divide => "/"
  | modulo => "%"
  | add => "+"
  | subtract => "-"
  | less => "<"
  | lessOrEqual => "<="
  | greater => ">"
  | greaterOrEqual => ">="
  | looseEqual => "=="
  | looseNotEqual => "!="
  | strictEqual => "==="
  | strictNotEqual => "!=="

def ofSymbol? (symbol : String) : Option BinaryOp := all.find? fun op => op.symbol == symbol

def kind : BinaryOp → OperatorKind
  | power | multiply | divide | modulo | add | subtract => .arithmetic
  | _ => .comparison

def precedence : BinaryOp → Nat
  | power => 2
  | multiply | divide | modulo => 3
  | add | subtract => 4
  | less | lessOrEqual | greater | greaterOrEqual => 5
  | looseEqual | looseNotEqual | strictEqual | strictNotEqual => 6

def associativity : BinaryOp → Associativity
  | power => .right
  | _ => .left

def spec (op : BinaryOp) : OperatorSpec := ⟨op.symbol, op.kind, op.precedence, op.associativity, 2⟩

theorem mem_all (op : BinaryOp) : op ∈ all := by cases op <;> decide

end BinaryOp

inductive UnaryOp where
  | not
  | negate
deriving DecidableEq, Repr

namespace UnaryOp

def all : List UnaryOp := [not, negate]

def symbol : UnaryOp → String
  | not => "!"
  | negate => "-"

def ofSymbol? (symbol : String) : Option UnaryOp := all.find? fun op => op.symbol == symbol

def kind : UnaryOp → OperatorKind
  | not => .logic
  | negate => .arithmetic

/-- Operators before an operand bind tightest. -/
def precedence : Nat := 1

def spec (op : UnaryOp) : OperatorSpec := ⟨op.symbol, op.kind, precedence, .right, 1⟩

end UnaryOp

/-- The operators that may leave out their second operand. -/
inductive LogicalOp where
  | and
  | or
deriving DecidableEq, Repr

namespace LogicalOp

def all : List LogicalOp := [and, or]

def symbol : LogicalOp → String
  | and => "&&"
  | or => "||"

def ofSymbol? (symbol : String) : Option LogicalOp := all.find? fun op => op.symbol == symbol

def precedence : LogicalOp → Nat
  | and => 7
  | or => 8

def spec (op : LogicalOp) : OperatorSpec := ⟨op.symbol, .logic, op.precedence, .left, 2⟩

end LogicalOp

/-- The conditional `a ? b : c`, which binds loosest. -/
def conditionalSpec : OperatorSpec := ⟨"?:", .logic, 9, .right, 3⟩

inductive Connective where
  | binary (op : BinaryOp)
  | logical (op : LogicalOp)
deriving DecidableEq, Repr

namespace Connective

def symbol : Connective → String
  | binary op => op.symbol
  | logical op => op.symbol

def spec : Connective → OperatorSpec
  | binary op => op.spec
  | logical op => op.spec

def precedence (c : Connective) : Nat := c.spec.precedence

/-- The loosest precedence that the right operand may have: one of the same precedence belongs to
the right operand of a right-associative operator only. -/
def rightBound (c : Connective) : Nat :=
  match c.spec.associativity with
  | .left => c.precedence - 1
  | .right => c.precedence

end Connective

/-- An operator as it is written.  The minus sign may stand before an operand as well. -/
inductive Symbol where
  | connective (c : Connective)
  | not
deriving DecidableEq, Repr

namespace Symbol

def text : Symbol → String
  | connective c => c.symbol
  | not => "!"

def unary? : Symbol → Option UnaryOp
  | not => some .not
  | connective (.binary .subtract) => some .negate
  | _ => none

/-- The symbols in the order in which the text of an expression is searched for them: a symbol
stands before those that it starts with. -/
def all : List Symbol :=
  [.strictEqual, .strictNotEqual, .power, .lessOrEqual, .greaterOrEqual, .looseEqual,
      .looseNotEqual].map (fun op => connective (.binary op))
    ++ [connective (.logical .and), connective (.logical .or)]
    ++ [.add, .subtract, .multiply, .divide, .modulo, .less, .greater].map
      (fun op => connective (.binary op))
    ++ [not]

theorem mem_all (s : Symbol) : s ∈ all := by
  cases s with
  | not => decide
  | connective c =>
    cases c with
    | binary op => cases op <;> decide
    | logical op => cases op <;> decide

end Symbol

end CommissionRules
