import CommissionRules.EvalError
import CommissionRules.Number.Arithmetic
import CommissionRules.Text.Blank

/-!
# Operations on values

What the operators and the access to properties do with values, without evaluating anything.
-/

namespace CommissionRules

namespace Value

def property (name : String) : Value → Except EvalError Value
  | record fields =>
      match Entries.get? name fields with
      | some value => .ok value
      | none => .error (.propertyNotFound name (record fields).display)
  | other => .error (.propertyNotFound name other.typeName)

def follow : List String → Value → Except EvalError Value
  | [], value => .ok value
  | name :: path, value => do
      let value ← value.property name
      follow path value

/-- Equality that lets numeric texts and booleans stand for numbers. -/
def looseEqual : Value → Value → Bool
  | number n, str s | str s, number n =>
      match Number.read? (Text.trim s) with
      | some m => m.equal n
      | none => false
  | bool b, number n | number n, bool b => (Number.ofNat b.toNat).equal n
  | a, b => a.equal b

end Value

namespace BinaryOp

/-- The order of two numbers or two texts; NaN is unordered. -/
def order (op : BinaryOp) : Value → Value → Except EvalError (Option Ordering)
  | .number a, .number b => .ok (a.compare? b)
  | .str a, .str b => .ok (some (compare a b))
  | .number _, right => .error (.typeMismatch op.symbol "Number" right)
  | .str _, right => .error (.typeMismatch op.symbol "String" right)
  | left, _ => .error (.typeMismatch op.symbol "Number or String" left)

def comparison (op : BinaryOp) (test : Ordering → Bool) (left right : Value) :
    Except EvalError Value := do
  let ordering ← op.order left right
  .ok (.bool ((ordering.map test).getD false))

def operandNumber (op : BinaryOp) : Value → Except EvalError Number
  | .number a => .ok a
  | other => .error (.typeMismatch op.symbol "Number" other)

def arithmetic (op : BinaryOp) (compute : Number → Number → Number) (left right : Value) :
    Except EvalError Value := do
  let a ← op.operandNumber left
  let b ← op.operandNumber right
  .ok (.number (compute a b))

/-- Division and remainder, which zeros of both signs refuse. -/
def division (op : BinaryOp) (compute : Number → Number → Number) (left right : Value) :
    Except EvalError Value := do
  let a ← op.operandNumber left
  let b ← op.operandNumber right
  if b.isZero then .error (.divisionByZero a op b) else .ok (.number (compute a b))

def evaluate (op : BinaryOp) (left right : Value) : Except EvalError Value :=
  match op with
  | power => op.arithmetic Number.pow left right
  | multiply => op.arithmetic Number.mul left right
  | divide => op.division Number.div left right
  | modulo => op.division Number.rem left right
  | add => op.arithmetic Number.add left right
  | subtract => op.arithmetic Number.sub left right
  | less => op.comparison Ordering.isLT left right
  | lessOrEqual => op.comparison Ordering.isLE left right
  | greater => op.comparison Ordering.isGT left right
  | greaterOrEqual => op.comparison Ordering.isGE left right
  | looseEqual => .ok (.bool (left.looseEqual right))
  | looseNotEqual => .ok (.bool (!left.looseEqual right))
  | strictEqual => .ok (.bool (left.equal right))
  | strictNotEqual => .ok (.bool (!left.equal right))

end BinaryOp

namespace UnaryOp

def evaluate : UnaryOp → Value → Except EvalError Value
  | not, .bool b => .ok (.bool !b)
  | negate, .number n => .ok (.number n.neg)
  | not, other => .error (.typeMismatch "!" "Bool" other)
  | negate, other => .error (.typeMismatch "-" "Number" other)

end UnaryOp

end CommissionRules
