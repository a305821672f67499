import CommissionRules.Validation

/-!
# Compile errors

The ways in which the text of an expression or of a rule is refused, with their messages.
Positions are byte offsets into the text of the expression.
-/

namespace CommissionRules

inductive CompileError where
  | validation (findings : List Finding)
  | unexpectedCharacter (found : Char) (position : Nat)
  | unterminatedString (position : Nat)
  | unexpectedToken (found expected : String) (position : Nat)
  | unexpectedEnd (expected : String)
  | unknownIdentifier (name : String) (position : Nat)
  | unknownProperty (source property : String) (position : Nat)
  | unknownFunction (name : String) (position : Nat)
  | unknownMethod (name : String) (position : Nat)
  | arityMismatch (name : String) (expected found : Nat) (position : Nat)
  | invalidReceiver (method target : String) (position : Nat)
  | tooDeep (limit position : Nat)
  /-- A failure inside one field of a rule. -/
  | inField (rule field : String) (cause : CompileError)
deriving DecidableEq, Repr, Inhabited

namespace CompileError

def quote (s : String) : String := "'" ++ s ++ "'"

def message : CompileError → String
  | validation findings =>
      "Expression failed validation: " ++ "; ".intercalate (findings.map Finding.message)
  | unexpectedCharacter found position =>
      "Unexpected character " ++ quote (String.singleton found) ++ " at position "
        ++ toString position
  | unterminatedString position =>
      "Unterminated string literal starting at position " ++ toString position
  | unexpectedToken found expected position =>
      "Unexpected token " ++ quote found ++ " at position " ++ toString position ++ ", expected "
        ++ expected
  | unexpectedEnd expected => "Unexpected end of expression, expected " ++ expected
  | unknownIdentifier name position =>
      "Unknown identifier " ++ quote name ++ " at position " ++ toString position
  | unknownProperty source property position =>
      "Data source " ++ quote source ++ " has no property " ++ quote property ++ " (position "
        ++ toString position ++ ")"
  | unknownFunction name position =>
      "Unknown function " ++ quote name ++ " at position " ++ toString position
  | unknownMethod name position =>
      "Unknown collection method " ++ quote name ++ " at position " ++ toString position
  | arityMismatch name expected found position =>
      quote name ++ " expects " ++ toString expected ++ " argument(s) but received "
        ++ toString found ++ " (position " ++ toString position ++ ")"
  | invalidReceiver method target position =>
      "Method " ++ quote method ++ " cannot be applied to " ++ target ++ " (position "
        ++ toString position ++ ")"
  | tooDeep limit position =>
      "Expression nesting exceeds the limit of " ++ toString limit ++ " at position "
        ++ toString position
  | inField rule field cause =>
      "Field " ++ quote field ++ " of rule " ++ quote rule ++ " failed to compile: "
        ++ cause.message

/-- The offset of the text that an error is about, where there is one. -/
def position? : CompileError → Option Nat
  | validation _ | unexpectedEnd _ => none
  | unexpectedCharacter _ position | unterminatedString position
  | unexpectedToken _ _ position | unknownIdentifier _ position
  | unknownProperty _ _ position | unknownFunction _ position | unknownMethod _ position
  | arityMismatch _ _ _ position | invalidReceiver _ _ position | tooDeep _ position =>
      some position
  | inField _ _ cause => cause.position?

end CompileError

end CommissionRules
