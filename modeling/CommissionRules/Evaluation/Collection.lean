import CommissionRules.Evaluation.Run
import CommissionRules.Number.Arithmetic

/-!
# Collection methods

The methods of lists.  What a method evaluates for each item is a function, and what its argument
evaluates to is a computation: an `Operand`.  The methods are defined over operands, and do not know
the expressions that these come from.

A key may be any value.  Groups and distinct items compare by `Value.equal`, so that a key with a
NaN inside equals no key; sorting compares by `Value.sortCompare` and is stable.
-/

namespace CommissionRules

/-- The argument of a method as something that can be evaluated. -/
inductive Operand where
  | none
  | value (result : Eval Value)
  | lambda (apply : Value → Eval Value)

namespace Collection

def applyTo (method : String) (operand : Operand) (item : Value) : Eval Value :=
  match operand with
  | .lambda apply => apply item
  | _ => throw (.invalidArgument method .notALambda)

def test (method : String) (operand : Operand) (item : Value) : Eval Bool := do
  match ← applyTo method operand item with
  | .bool b => pure b
  | other => throw (.typeMismatch method "Bool" other)

def project (method : String) (operand : Operand) (item : Value) : Eval Number := do
  match ← applyTo method operand item with
  | .number n => pure n
  | other => throw (.typeMismatch method "Number" other)

/-- The items on which the lambda is true. -/
def keep (method : String) (operand : Operand) : List Value → Eval (List Value)
  | [] => pure []
  | item :: rest => do
      let kept ← test method operand item
      let others ← keep method operand rest
      pure (if kept then item :: others else others)

/-- Looks for the first item on which the lambda gives the wanted truth value. -/
def find (method : String) (operand : Operand) (wanted : Bool) : List Value → Eval Bool
  | [] => pure false
  | item :: rest => do
      if (← test method operand item) = wanted then pure true
      else find method operand wanted rest

/-- The sum of numbers.  It starts from `-0`, which changes no summand. -/
def total (numbers : List Number) : Number := numbers.foldl Number.add Number.zero.neg

def average (numbers : List Number) : Number := (total numbers).div (.ofNat numbers.length)

def pick (method : String) (item : Option Value) : Eval Value :=
  match item with
  | some value => pure value
  | none => throw (.emptyCollection method)

def keyed (method : String) (operand : Operand) (items : List Value) :
    Eval (List (Value × Value)) :=
  Eval.all (fun item => do
    let key ← applyTo method operand item
    pure (key, item)) items

/-- Adds an item to the group of its key; a new key makes a new group at the end. -/
def addToGroup (key item : Value) : List (Value × List Value) → List (Value × List Value)
  | [] => [(key, [item])]
  | (k, members) :: rest =>
      if k.equal key then (k, members ++ [item]) :: rest
      else (k, members) :: addToGroup key item rest

/-- The groups of items with equal keys, in the order in which the keys were first seen. -/
def groups (items : List (Value × Value)) : List (Value × List Value) :=
  items.foldl (fun acc (key, item) => addToGroup key item acc) []

def groupRecord (group : Value × List Value) : Value :=
  .ofFields [("Key", group.1), ("Items", .list group.2)]

def sorted (descending : Bool) (items : List (Value × Value)) : List Value :=
  let before (a b : Value × Value) : Bool :=
    if descending then (b.1.sortCompare a.1).isLE else (a.1.sortCompare b.1).isLE
  (items.mergeSort before).map (·.2)

/-- The items that equal no earlier one, given the ones that are kept already in reverse. -/
def distinctAfter (kept : List Value) : List Value → List Value
  | [] => kept.reverse
  | item :: rest =>
      if kept.any fun other => other.equal item then distinctAfter kept rest
      else distinctAfter (item :: kept) rest

def distinct (items : List Value) : List Value := distinctAfter [] items

/-- A count is a whole number that is not negative; minus zero is zero. -/
def countOf? : Value → Option Nat
  | .number n => if n.isWhole && (!n.signed || n.isZero) then some n.toUInt64 else none
  | _ => none

/-- The count that a method's argument evaluates to. -/
def count (method : String) (operand : Operand) : Eval Nat := do
  match operand with
  | .value result =>
      let value ← result
      match countOf? value with
      | some n => pure n
      | none => throw (.invalidArgument method (.notACount value))
  | _ => throw (.invalidArgument method .notAValue)

def apply (method : String) (items : List Value) (operand : Operand) : Eval Value := do
  match method with
  | "where" => pure (.list (← keep method operand items))
  | "sum" =>
      let numbers ← Eval.all (project method operand) items
      pure (.number (if numbers.isEmpty then .zero else total numbers))
  | "average" =>
      let numbers ← Eval.all (project method operand) items
      pure (.number (if numbers.isEmpty then .zero else average numbers))
  | "min" =>
      match ← Eval.all (project method operand) items with
      | [] => throw (.emptyCollection method)
      | n :: rest => pure (.number (rest.foldl Number.least n))
  | "max" =>
      match ← Eval.all (project method operand) items with
      | [] => throw (.emptyCollection method)
      | n :: rest => pure (.number (rest.foldl Number.greatest n))
  | "count" => pure (.number (.ofNat items.length))
  | "any" => pure (.bool (← find method operand true items))
  | "all" => pure (.bool (!(← find method operand false items)))
  | "first" => pick method items.head?
  | "last" => pick method items.getLast?
  | "groupBy" =>
      let items ← keyed method operand items
      pure (.list ((groups items).map groupRecord))
  | "orderBy" => pure (.list (sorted false (← keyed method operand items)))
  | "orderByDescending" => pure (.list (sorted true (← keyed method operand items)))
  | "distinct" => pure (.list (distinct items))
  | "take" => pure (.list (items.take (← count method operand)))
  | "skip" => pure (.list (items.drop (← count method operand)))
  | _ => throw (.invalidArgument method .unknownMethod)

end Collection

end CommissionRules
