import CommissionRules.Calendar
import CommissionRules.Number.Decimal
import CommissionRules.Text.Blank

/-!
# Days as text

A day is written as year, month and day with hyphens between them.  A year outside 0 to 9999 has a
sign and at least four digits.

Three notations are read: the day alone, a timestamp with its offset from universal time, and a
day and a time without an offset.  In the first and the last one, white space may stand before each
number and numbers may have fewer digits; a year without a sign has at most four.
-/

namespace CommissionRules.Date

/-! ## Writing -/

/-- A natural number with zeros in front of it up to the given width. -/
def padded (width n : Nat) : String :=
  let digits := Nat.toDigits 10 n
  String.ofList (List.replicate (width - digits.length) '0' ++ digits)

def yearText (year : Int) : String :=
  if 0 ≤ year && year ≤ 9999 then padded 4 year.toNat
  else (if year < 0 then "-" else "+") ++ padded 4 year.natAbs

def text (d : Date) : String :=
  yearText d.year ++ "-" ++ padded 2 d.month ++ "-" ++ padded 2 d.day

/-! ## Reading -/

/-- Reads a number of at least one and at most `most` digits. -/
def readDigits? (most : Nat) (cs : List Char) : Option (Nat × List Char) :=
  let digits := (cs.take most).takeWhile Char.isDigit
  if digits.isEmpty then none else some (Number.digitsValue digits, cs.drop digits.length)

def readExactly? (count : Nat) (cs : List Char) : Option (Nat × List Char) :=
  let digits := cs.take count
  if digits.length = count && digits.all Char.isDigit then
    some (Number.digitsValue digits, cs.drop count)
  else none

/-- Reads a number of one or two digits after white space, if any. -/
def readLoose? (cs : List Char) : Option (Nat × List Char) := readDigits? 2 (Text.trimStart cs)

/-- Reads a year.  With a sign it may have any number of digits. -/
def readYear? (cs : List Char) : Option (Int × List Char) :=
  match Text.trimStart cs with
  | '-' :: rest => (readDigits? rest.length rest).map fun (n, rest) => (-(n : Int), rest)
  | '+' :: rest => (readDigits? rest.length rest).map fun (n, rest) => ((n : Int), rest)
  | cs => (readDigits? 4 cs).map fun (n, rest) => ((n : Int), rest)

def readChar? (c : Char) : List Char → Option (List Char)
  | d :: rest => if d = c then some rest else none
  | [] => none

/-- Reads a day in the first notation, and what follows it. -/
def readLooseDay? (cs : List Char) : Option (Date × List Char) := do
  let (year, cs) ← readYear? cs
  let cs ← readChar? '-' cs
  let (month, cs) ← readLoose? cs
  let cs ← readChar? '-' cs
  let (day, cs) ← readLoose? cs
  let d ← of? year month day
  return (d, cs)

/-- A time of day; the second may be a leap second. -/
def isTime (hour minute second : Nat) : Bool := hour ≤ 23 && minute ≤ 59 && second ≤ 60

/-- The notation of a day alone. -/
def readDay? (cs : List Char) : Option Date := do
  let (d, rest) ← readLooseDay? cs
  if rest.isEmpty then some d else none

/-- The notation of a day and a time without an offset. -/
def readLocal? (cs : List Char) : Option Date := do
  let (d, cs) ← readLooseDay? cs
  let cs ← readChar? 'T' cs
  let (hour, cs) ← readLoose? cs
  let cs ← readChar? ':' cs
  let (minute, cs) ← readLoose? cs
  let cs ← readChar? ':' cs
  let (second, cs) ← readLoose? cs
  if isTime hour minute second && cs.isEmpty then some d else none

/-- Reads the fraction of a second, if there is one. -/
def readFraction? : List Char → Option (List Char)
  | '.' :: rest => (readDigits? rest.length rest).map (·.2)
  | cs => some cs

/-- An offset from universal time takes up the whole text: the letter for none, or a sign, hours
and minutes. -/
def isOffset (cs : List Char) : Bool :=
  match cs with
  | [] => false
  | c :: rest =>
      if c == 'Z' || c == 'z' then rest.isEmpty
      else if c == '+' || c == '-' || c == '\u2212' then
        match readExactly? 2 rest with
        | some (hours, ':' :: rest) =>
            match readExactly? 2 rest with
            | some (minutes, rest) => hours ≤ 23 && minutes ≤ 59 && rest.isEmpty
            | none => false
        | _ => false
      else false

/-- The notation of a timestamp.  Its day is the local one. -/
def readTimestamp? (cs : List Char) : Option Date := do
  let (year, cs) ← readExactly? 4 cs
  let cs ← readChar? '-' cs
  let (month, cs) ← readExactly? 2 cs
  let cs ← readChar? '-' cs
  let (day, cs) ← readExactly? 2 cs
  let d ← of? year month day
  let cs ← match cs with
    | c :: rest => if c == 't' || c == 'T' || c == ' ' then some rest else none
    | [] => none
  let (hour, cs) ← readExactly? 2 cs
  let cs ← readChar? ':' cs
  let (minute, cs) ← readExactly? 2 cs
  let cs ← readChar? ':' cs
  let (second, cs) ← readExactly? 2 cs
  let cs ← readFraction? cs
  if isTime hour minute second && isOffset cs then some d else none

/-- Reads a day in one of the three notations. -/
def read? (text : String) : Option Date :=
  let cs := text.toList
  readDay? cs <|> readTimestamp? cs <|> readLocal? cs

end CommissionRules.Date
