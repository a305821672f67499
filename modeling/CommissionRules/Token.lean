import CommissionRules.CompileError
import CommissionRules.Number.Decimal
import CommissionRules.Operator
import CommissionRules.Text.Blank

/-!
# Tokens

The text of an expression is a sequence of tokens with white space between them.  `lexeme` splits
one token off the start of a text, as the longest one that the text starts with, and
`Token.scan` splits the whole text.  Positions are byte offsets.
-/

namespace CommissionRules

inductive TokenKind where
  | number (value : Number)
  | str (value : String)
  | ident (name : String)
  | bool (value : Bool)
  | null
  | operator (symbol : Symbol)
  | openParen
  | closeParen
  | comma
  | dot
  | question
  | colon
  | arrow
deriving DecidableEq, Inhabited

namespace TokenKind

def text : TokenKind → String
  | number n => n.text
  | str s => "'" ++ s ++ "'"
  | ident name => name
  | bool b => if b then "true" else "false"
  | null => "null"
  | operator symbol => symbol.text
  | openParen => "("
  | closeParen => ")"
  | comma => ","
  | dot => "."
  | question => "?"
  | colon => ":"
  | arrow => "=>"

/-- The token of a single character that stands for itself. -/
def ofChar? : Char → Option TokenKind
  | '(' => some openParen
  | ')' => some closeParen
  | ',' => some comma
  | '.' => some dot
  | '?' => some question
  | ':' => some colon
  | _ => none

def ofWord (word : String) : TokenKind :=
  if word = "true" then bool true
  else if word = "false" then bool false
  else if word = "null" then null
  else ident word

end TokenKind

structure Token where
  kind : TokenKind
  position : Nat
deriving DecidableEq, Inhabited

namespace Token

def byteLength (cs : List Char) : Nat := cs.foldl (fun size c => size + c.utf8Size) 0

def startsWord (c : Char) : Bool := c.isAlpha || c == '_' || c == '$'

def continuesWord (c : Char) : Bool := c.isAlphanum || c == '_' || c == '$'

/-- The character that a backslash and a character stand for. -/
def unescape (c : Char) : Char :=
  if c = 'n' then '\n' else if c = 't' then '\t' else c

/-- Reads a string after its opening quote: its content, its text with the closing quote, and what
follows.  Fails if the string does not end. -/
def readString? (quote : Char) : List Char → Option (List Char × List Char × List Char)
  | [] => none
  | c :: rest =>
      if c = '\\' then
        match rest with
        | [] => none
        | d :: rest =>
            (readString? quote rest).map fun (content, text, rest) =>
              (unescape d :: content, c :: d :: text, rest)
      else if c = quote then some ([], [c], rest)
      else
        (readString? quote rest).map fun (content, text, rest) =>
          (c :: content, c :: text, rest)

/-- The fraction of a number: a point with a digit after it, and the digits from there on.  It is
empty if there is none. -/
def fractionDigits : List Char → List Char
  | '.' :: rest => rest.takeWhile Char.isDigit
  | _ => []

/-- The token that a text starts with, the text of the token, and what follows it.  The position is
that of the text. -/
def lexeme (position : Nat) (cs : List Char) :
    Except CompileError (TokenKind × List Char × List Char) :=
  match cs with
  | [] => .error (.unexpectedEnd "a value")
  | c :: rest =>
      match TokenKind.ofChar? c with
      | some kind => .ok (kind, [c], rest)
      | none =>
          if c.isDigit then
            let whole := cs.takeWhile Char.isDigit
            let rest := cs.dropWhile Char.isDigit
            let fraction := fractionDigits rest
            let text := if fraction.isEmpty then whole else whole ++ '.' :: fraction
            .ok (.number (Number.ofDigits false whole fraction 0), text, cs.drop text.length)
          else if c = '\'' || c = '"' then
            match readString? c rest with
            | some (content, text, rest) => .ok (.str (String.ofList content), c :: text, rest)
            | none => .error (.unterminatedString position)
          else if startsWord c then
            let word := cs.takeWhile continuesWord
            .ok (.ofWord (String.ofList word), word, cs.dropWhile continuesWord)
          else if ['=', '>'].isPrefixOf cs then .ok (.arrow, ['=', '>'], cs.drop 2)
          else
            match Symbol.all.find? fun s => s.text.toList.isPrefixOf cs with
            | some symbol =>
                let text := symbol.text.toList
                .ok (.operator symbol, text, cs.drop text.length)
            | none => .error (.unexpectedCharacter c position)

/-- Splits a text that starts at the given position.  There are at most as many tokens as
characters, which bounds the fuel. -/
def scanFrom : (fuel position : Nat) → List Char → Except CompileError (List Token)
  | 0, _, _ => .ok []
  | fuel + 1, position, cs =>
      let start := position + byteLength (cs.takeWhile Text.isGap)
      match cs.dropWhile Text.isGap with
      | [] => .ok []
      | c :: rest =>
          match lexeme start (c :: rest) with
          | .error e => .error e
          | .ok (kind, text, rest) =>
              match scanFrom fuel (start + byteLength text) rest with
              | .error e => .error e
              | .ok tokens => .ok (⟨kind, start⟩ :: tokens)

def scan (source : String) : Except CompileError (List Token) :=
  scanFrom source.toList.length 0 source.toList

end Token

end CommissionRules
