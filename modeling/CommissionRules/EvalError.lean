import CommissionRules.Operator
import CommissionRules.Value

/-!
# Evaluation errors

The ways in which the evaluation of an expression fails, with their messages.
-/

namespace CommissionRules

/-- What is wrong with the arguments of a function or method, or with its name. -/
inductive ArgumentFault where
  | unknownFunction
  | unknownMethod
  | missing (number : Nat)
  | notALambda
  | notAValue
  | notACount (found : Value)
  | notADate (text : String)
  | dateOutOfRange (days : Number)
  | negativeRoot (radicand : Number)

namespace ArgumentFault

def message : ArgumentFault → String
  | unknownFunction => "unknown function"
  | unknownMethod => "unknown collection method"
  | missing number => "missing argument " ++ toString number
  | notALambda => "expected a lambda argument"
  | notAValue => "expected a count"
  | notACount found => "expected a non-negative whole number, found " ++ found.display
  | notADate text => "'" ++ text ++ "' is not a date"
  | dateOutOfRange days => "date out of range after adding " ++ days.text ++ " days"
  | negativeRoot radicand => "square root of negative number " ++ radicand.text

end ArgumentFault

inductive EvalError where
  | typeMismatch (operation expected : String) (found : Value)
  | inputNotFound (source : String)
  | propertyNotFound (property target : String)
  | divisionByZero (dividend : Number) (op : BinaryOp) (divisor : Number)
  | emptyCollection (method : String)
  | invalidArgument (function : String) (fault : ArgumentFault)
  | stepBudgetExceeded (limit : Nat)
  | depthExceeded (limit : Nat)
  | timedOut (limit : Nat)

namespace EvalError

def message : EvalError → String
  | typeMismatch operation expected found =>
      "Type mismatch during operation '" ++ operation ++ "': expected " ++ expected
        ++ ", but found value '" ++ found.display ++ "'"
  | inputNotFound source =>
      "Data source '" ++ source ++ "' not found in the provided execution context"
  | propertyNotFound property target =>
      "Property '" ++ property ++ "' not found on value '" ++ target ++ "'"
  | divisionByZero dividend op divisor =>
      "Division by zero in '" ++ dividend.text ++ " " ++ op.symbol ++ " " ++ divisor.text ++ "'"
  | emptyCollection method => "'" ++ method ++ "' is undefined for an empty collection"
  | invalidArgument function fault =>
      "Invalid argument for '" ++ function ++ "': " ++ fault.message
  | stepBudgetExceeded limit => "Evaluation exceeded the step budget of " ++ toString limit
  | depthExceeded limit => "Evaluation exceeded the recursion depth of " ++ toString limit
  | timedOut limit => "Evaluation timed out after " ++ toString limit ++ " ms"

end EvalError

end CommissionRules
