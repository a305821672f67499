/-!
# Printable text

What is left of a text for a terminal when it is written somewhere else: control sequences and
control characters are dropped, and of the latter only tabs and the ends of lines and pages stay.
-/

namespace CommissionRules.Text

/-- The control characters that are kept. -/
def isLayout (c : Char) : Bool := c == '\t' || c == '\n' || c == '\x0c' || c == '\r'

/-- How far a control sequence has come.  A sequence is an escape with a letter, or it goes on: with
intermediate characters, with the parameters of a control function, with the text of a command to
the system, or with a string of another kind. -/
inductive SequenceState where
  | outside
  | escape
  | intermediate
  | parameters
  | command
  | string
deriving DecidableEq, Repr

/-- Holds when the encoding of a character has the byte that ends strings. -/
def endsString (c : Char) : Bool := (String.singleton c).toUTF8.toList.contains 0x9c

namespace SequenceState

/-- The state after a character that begins no sequence and breaks none off. -/
def next (state : SequenceState) (c : Char) : SequenceState :=
  match state with
  | outside => outside
  | escape =>
      if c == '[' then parameters
      else if c == ']' then command
      else if c == 'P' || c == 'X' || c == '^' || c == '_' then string
      else if ' ' ≤ c && c ≤ '/' then intermediate
      else if '0' ≤ c && c ≤ '~' then outside
      else escape
  | intermediate => if '0' ≤ c && c ≤ '~' then outside else intermediate
  | parameters => if '@' ≤ c && c ≤ '~' then outside else parameters
  | command => if c == '\x07' then outside else command
  | string => if endsString c then outside else string

/-- Holds where a kept control character breaks off a sequence. -/
def isBreakable : SequenceState → Bool
  | escape | intermediate | parameters => true
  | _ => false

end SequenceState

def printableFrom (state : SequenceState) : List Char → List Char
  | [] => []
  | c :: rest =>
      if c == '\x1b' then printableFrom .escape rest
      else if c == '\x18' || c == '\x1a' then printableFrom .outside rest
      else if isLayout c && state.isBreakable then c :: printableFrom .outside rest
      else if state == .outside && (isLayout c || (' ' ≤ c && c != '\x7f')) then
        c :: printableFrom .outside rest
      else printableFrom (state.next c) rest

def printable (text : String) : String := String.ofList (printableFrom .outside text.toList)

end CommissionRules.Text
