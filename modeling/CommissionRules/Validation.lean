import CommissionRules.Text.Blank
import CommissionRules.Text.Word

/-!
# Validation

Shallow checks on the text of an expression, made before it is split into tokens.  An error blocks
compilation; a text without errors need not compile.
-/

namespace CommissionRules

inductive Finding where
  | emptyExpression
  | unbalancedParentheses
  | undefinedValues
  | mixedEquality
  | divisionByZero
deriving DecidableEq, Repr

namespace Finding

def message : Finding → String
  | emptyExpression => "Expression cannot be empty"
  | unbalancedParentheses => "Unbalanced parentheses"
  | undefinedValues => "Expression contains undefined values"
  | mixedEquality => "Mixed use of == and === operators"
  | divisionByZero => "Potential division by zero"

end Finding

structure Validation where
  errors : List Finding
  warnings : List Finding
deriving DecidableEq, Repr

namespace Validation

def isValid (v : Validation) : Bool := v.errors.isEmpty

/-- Holds when the first character, if there is one, is outside words. -/
def atWordEnd : List Char → Bool
  | [] => true
  | c :: _ => !Text.isWord c

/-- Holds when a text contains a word as a whole word.  The flag says that the text is not inside a
word already. -/
def containsWord (word : List Char) : (outside : Bool) → List Char → Bool
  | _, [] => false
  | outside, c :: rest =>
      (outside && word.isPrefixOf (c :: rest) && atWordEnd ((c :: rest).drop word.length))
        || containsWord word (!Text.isWord c) rest

/-- The equality operators of a text from left to right: whether each is a strict one. -/
def equalities : List Char → List Bool
  | '=' :: '=' :: '=' :: rest => true :: equalities rest
  | '!' :: '=' :: '=' :: rest => true :: equalities rest
  | '=' :: '=' :: rest => false :: equalities rest
  | '!' :: '=' :: rest => false :: equalities rest
  | _ :: rest => equalities rest
  | [] => []

/-- Holds when a text starts, after white space, with a numeral whose digits are all zero. -/
def startsWithZero (cs : List Char) : Bool :=
  let cs := cs.dropWhile Text.isBlank
  if cs.head? = some '0' then
    let rest := match cs.dropWhile (· == '0') with
      | '.' :: rest => rest.dropWhile (· == '0')
      | rest => rest
    match rest with
    | [] => true
    | c :: _ => c != '.' && !Text.isDigit c
  else false

def dividesByZero : List Char → Bool
  | [] => false
  | c :: rest => (c == '/' && startsWithZero rest) || dividesByZero rest

def ofText (cs : List Char) : Validation :=
  let kinds := equalities cs
  { errors :=
      (if cs.count '(' = cs.count ')' then [] else [.unbalancedParentheses])
        ++ (if containsWord "undefined".toList true cs then [.undefinedValues] else [])
    warnings :=
      (if kinds.contains true && kinds.contains false then [.mixedEquality] else [])
        ++ (if dividesByZero cs then [.divisionByZero] else []) }

end Validation

def validate (expression : String) : Validation :=
  if Text.isBlankText expression then ⟨[.emptyExpression], []⟩
  else .ofText expression.toList

end CommissionRules
