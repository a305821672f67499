import CommissionRules.Calendar.Text
import CommissionRules.EvalError
import CommissionRules.Number.Arithmetic
import CommissionRules.Text.Case

/-!
# Functions

The functions of the namespaces `Math`, `Date` and `String` on values.  A call may have any name and
any number of arguments: arguments are looked at one by one, the first one before the name inside
the namespace.
-/

namespace CommissionRules.Function

def argument (function : String) (args : List Value) (index : Nat) : Except EvalError Value :=
  match args[index]? with
  | some arg => .ok arg
  | none => .error (.invalidArgument function (.missing (index + 1)))

def numberArgument (function : String) (args : List Value) (index : Nat) :
    Except EvalError Number := do
  match ← argument function args index with
  | .number n => .ok n
  | other => .error (.typeMismatch function "Number" other)

def textArgument (function : String) (args : List Value) (index : Nat) :
    Except EvalError String := do
  match ← argument function args index with
  | .str s => .ok s
  | other => .error (.typeMismatch function "String" other)

def dateArgument (function : String) (args : List Value) (index : Nat) :
    Except EvalError Date := do
  let text := Text.trim (← textArgument function args index)
  match Date.read? text with
  | some d => .ok d
  | none => .error (.invalidArgument function (.notADate text))

def unknown (function : String) : Except EvalError Value :=
  .error (.invalidArgument function .unknownFunction)

def math (function name : String) (args : List Value) : Except EvalError Value := do
  let n ← numberArgument function args 0
  match name with
  | "min" => .ok (.number (n.least (← numberArgument function args 1)))
  | "max" => .ok (.number (n.greatest (← numberArgument function args 1)))
  | "pow" => .ok (.number (n.pow (← numberArgument function args 1)))
  | "abs" => .ok (.number n.abs)
  | "round" => .ok (.number n.round)
  | "floor" => .ok (.number n.floor)
  | "ceil" => .ok (.number n.ceil)
  | "sqrt" =>
      if n.lt .zero then .error (.invalidArgument function (.negativeRoot n))
      else .ok (.number n.sqrt)
  | _ => unknown function

def date (function name : String) (args : List Value) : Except EvalError Value := do
  let d ← dateArgument function args 0
  match name with
  | "year" => .ok (.number (.ofInt d.year))
  | "month" => .ok (.number (.ofNat d.month))
  | "day" => .ok (.number (.ofNat d.day))
  | "quarter" => .ok (.number (.ofNat d.quarter))
  | "daysBetween" =>
      let other ← dateArgument function args 1
      .ok (.number (.ofInt (d.daysUntil other)))
  | "addDays" =>
      let days ← numberArgument function args 1
      match d.addDays? days.toInt64 with
      | some shifted => .ok (.str shifted.text)
      | none => .error (.invalidArgument function (.dateOutOfRange days))
  | _ => unknown function

/-- The text of a scalar: a string is itself. -/
def scalarText : Value → Except EvalError String
  | .str s => .ok s
  | .list items => .error (.typeMismatch "String.concat" "scalar" (.list items))
  | .record fields => .error (.typeMismatch "String.concat" "scalar" (.record fields))
  | scalar => .ok scalar.display

def concat : List Value → Except EvalError String
  | [] => .ok ""
  | arg :: rest => do
      let first ← scalarText arg
      let others ← concat rest
      .ok (first ++ others)

/-- Holds when a text occurs inside another one. -/
def occurs (part : List Char) : List Char → Bool
  | [] => part.isEmpty
  | c :: rest => part.isPrefixOf (c :: rest) || occurs part rest

def text (function name : String) (args : List Value) : Except EvalError Value := do
  if name = "concat" then .ok (.str (← concat args))
  else
    let s ← textArgument function args 0
    match name with
    | "length" => .ok (.number (.ofNat s.length))
    | "upper" => .ok (.str (Text.upper s))
    | "lower" => .ok (.str (Text.lower s))
    | "contains" => .ok (.bool (occurs (← textArgument function args 1).toList s.toList))
    | "startsWith" =>
        .ok (.bool ((← textArgument function args 1).toList.isPrefixOf s.toList))
    | _ => unknown function

/-- The parts of a name before and after its first point.  A name without one is in no
namespace. -/
def splitName (function : String) : String × String :=
  let cs := function.toList
  match cs.dropWhile (· != '.') with
  | _ :: name => (String.ofList (cs.takeWhile (· != '.')), String.ofList name)
  | [] => ("", function)

def call (function : String) (args : List Value) : Except EvalError Value :=
  match splitName function with
  | ("Math", name) => math function name args
  | ("Date", name) => date function name args
  | ("String", name) => text function name args
  | _ => unknown function

end CommissionRules.Function
