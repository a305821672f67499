import CommissionRules.Json

/-!
# Writing JSON

JSON values as text, on one line or indented.  Numbers that are no integers always show a point or
an exponent; they are positional from 10^-5 up to 10^16 and scientific elsewhere.
-/

namespace CommissionRules.Json

/-- A number that is not an integer: its shortest decimal.  Infinities and NaN have no JSON form
and become `null`. -/
def realText (a : Number) : String :=
  let sign := if a.signed then "-" else ""
  if !a.isFinite then "null"
  else if a.isZero then sign ++ "0.0"
  else
    let d := a.shortest
    if (d.digits.length : Int) ≤ d.point && d.point ≤ 16 then sign ++ d.positional ++ ".0"
    else if -5 < d.point && d.point ≤ 16 then sign ++ d.positional
    else sign ++ d.scientific

def escape (c : Char) : List Char :=
  match c with
  | '"' => ['\\', '"']
  | '\\' => ['\\', '\\']
  | '\x08' => ['\\', 'b']
  | '\x0c' => ['\\', 'f']
  | '\n' => ['\\', 'n']
  | '\r' => ['\\', 'r']
  | '\t' => ['\\', 't']
  | _ =>
      if c.toNat < 0x20 then
        ['\\', 'u', '0', '0', Nat.digitChar (c.toNat / 16), Nat.digitChar (c.toNat % 16)]
      else [c]

def quoted (s : String) : String := "\"" ++ String.ofList (s.toList.flatMap escape) ++ "\""

mutual

/-- A value on one line, without white space. -/
def compact : Json → String
  | null => "null"
  | bool b => if b then "true" else "false"
  | int n => toString n
  | real x => realText x
  | str s => quoted s
  | arr items => "[" ++ ",".intercalate (compactItems items) ++ "]"
  | obj fields => "\x7b" ++ ",".intercalate (compactFields fields) ++ "\x7d"

def compactItems : List Json → List String
  | [] => []
  | v :: rest => v.compact :: compactItems rest

def compactFields : List (String × Json) → List String
  | [] => []
  | (k, v) :: rest => (quoted k ++ ":" ++ v.compact) :: compactFields rest

end

/-- Parts on lines of their own between brackets, indented one level deeper than the brackets. -/
def block (opening closing indent : String) (parts : List String) : String :=
  if parts.isEmpty then opening ++ closing
  else
    let inner := indent ++ "  "
    opening ++ "\n" ++ inner ++ (",\n" ++ inner).intercalate parts ++ "\n" ++ indent ++ closing

mutual

/-- A value on several lines, the first of which is already indented. -/
def indented (indent : String) : Json → String
  | arr items => block "[" "]" indent (indentedItems (indent ++ "  ") items)
  | obj fields => block "\x7b" "\x7d" indent (indentedFields (indent ++ "  ") fields)
  | null => "null"
  | bool b => if b then "true" else "false"
  | int n => toString n
  | real x => realText x
  | str s => quoted s

def indentedItems (indent : String) : List Json → List String
  | [] => []
  | v :: rest => v.indented indent :: indentedItems indent rest

def indentedFields (indent : String) : List (String × Json) → List String
  | [] => []
  | (k, v) :: rest => (quoted k ++ ": " ++ v.indented indent) :: indentedFields indent rest

end

end CommissionRules.Json
