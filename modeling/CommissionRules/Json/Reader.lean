import CommissionRules.Json.Numeral

/-!
# Reading JSON

A JSON text is read with an explicit stack of the arrays and objects that are open, so that the
nesting of the text is bounded by nothing but its length.  Containers nested deeper than
`depthLimit` are read, but unusable.
-/

namespace CommissionRules.Json

/-- The nesting depth from which on a container is unusable. -/
def depthLimit : Nat := 128

def isSpace (c : Char) : Bool := c == ' ' || c == '\n' || c == '\t' || c == '\r'

def hexDigit? (c : Char) : Option Nat :=
  if c.isDigit then some (c.toNat - '0'.toNat)
  else if 'a' ≤ c && c ≤ 'f' then some (c.toNat - 'a'.toNat + 10)
  else if 'A' ≤ c && c ≤ 'F' then some (c.toNat - 'A'.toNat + 10)
  else none

/-- The code unit written by four hexadecimal digits. -/
def codeUnit? (a b c d : Char) : Option Nat := do
  let a ← hexDigit? a
  let b ← hexDigit? b
  let c ← hexDigit? c
  let d ← hexDigit? d
  return ((a * 16 + b) * 16 + c) * 16 + d

/-- The character after a backslash, except for code units. -/
def escaped? : Char → Option Char
  | '"' => some '"'
  | '\\' => some '\\'
  | '/' => some '/'
  | 'b' => some '\x08'
  | 'f' => some '\x0c'
  | 'n' => some '\n'
  | 'r' => some '\r'
  | 't' => some '\t'
  | _ => none

/-- Text under construction: its characters in reverse, the first half of a surrogate pair that
waits for the second, and whether halves without their partner have been seen. -/
structure PartialText where
  reversed : List Char
  pending : Option Nat
  broken : Bool

namespace PartialText

def empty : PartialText := ⟨[], none, false⟩

/-- Adds a character; a pending half has then lost its partner. -/
def push (t : PartialText) (c : Char) : PartialText :=
  ⟨c :: t.reversed, none, t.broken || t.pending.isSome⟩

def pushUnit (t : PartialText) (unit : Nat) : PartialText :=
  if 0xD800 ≤ unit && unit < 0xDC00 then
    { t with pending := some unit, broken := t.broken || t.pending.isSome }
  else if 0xDC00 ≤ unit && unit < 0xE000 then
    match t.pending with
    | some high =>
        let code := 0x10000 + (high - 0xD800) * 0x400 + (unit - 0xDC00)
        ⟨Char.ofNat code :: t.reversed, none, t.broken⟩
    | none => { t with broken := true }
  else t.push (Char.ofNat unit)

/-- The finished text, if every half has its partner. -/
def finish? (t : PartialText) : Option String :=
  if t.broken || t.pending.isSome then none else some (String.ofList t.reversed.reverse)

end PartialText

/-- Reads a string after its opening quote.  The outer failure is one of grammar, the inner one of
a surrogate without its partner. -/
def scanString? (t : PartialText) : List Char → Option (Option String × List Char)
  | '"' :: rest => some (t.finish?, rest)
  | '\\' :: 'u' :: a :: b :: c :: d :: rest =>
      match codeUnit? a b c d with
      | some unit => scanString? (t.pushUnit unit) rest
      | none => none
  | '\\' :: c :: rest =>
      match escaped? c with
      | some c => scanString? (t.push c) rest
      | none => none
  | c :: rest => if c.toNat < 0x20 || c == '\\' then none else scanString? (t.push c) rest
  | [] => none

def scanScalar? : List Char → Option (Raw × List Char)
  | 'n' :: 'u' :: 'l' :: 'l' :: rest => some (.null, rest)
  | 't' :: 'r' :: 'u' :: 'e' :: rest => some (.bool true, rest)
  | 'f' :: 'a' :: 'l' :: 's' :: 'e' :: rest => some (.bool false, rest)
  | '"' :: rest =>
      (scanString? .empty rest).map fun (text, rest) => ((text.map Raw.str).getD .unusable, rest)
  | cs => (Numeral.scan? cs).map fun (n, rest) => (n.value, rest)

/-- An open container with its finished parts in reverse; of an object also the key that waits for
its value.  A key that is not Unicode is `none`. -/
inductive Frame where
  | items (done : List Raw)
  | fields (done : List (Option String × Raw)) (key : Option String)

/-- What the text has to go on with. -/
inductive Expected where
  | value
  | firstItem
  | firstKey
  | key
  | afterValue (value : Raw)

/-- An object, unless one of its keys is not Unicode. -/
def objectOf (fields : List (Option String × Raw)) : Raw :=
  match fields.mapM fun (key, value) => key.map fun key => (key, value) with
  | some fields => .obj fields
  | none => .unusable

/-- A container, unless it is nested too deep inside the given number of others. -/
def limited (outer : Nat) (container : Raw) : Raw :=
  if outer + 1 < depthLimit then container else .unusable

/-- Reads on; every second step at least consumes a character, which bounds the fuel. -/
def readFrom : (fuel : Nat) → Expected → List Frame → List Char → Option Raw
  | 0, _, _, _ => none
  | fuel + 1, expected, stack, cs =>
      let cs := cs.dropWhile isSpace
      match expected with
      | .value =>
          match cs with
          | '[' :: rest => readFrom fuel .firstItem (.items [] :: stack) rest
          | '{' :: rest => readFrom fuel .firstKey (.fields [] none :: stack) rest
          | _ =>
              match scanScalar? cs with
              | some (value, rest) => readFrom fuel (.afterValue value) stack rest
              | none => none
      | .firstItem =>
          match cs, stack with
          | ']' :: rest, _ :: outer =>
              readFrom fuel (.afterValue (limited outer.length (.arr []))) outer rest
          | _, _ => readFrom fuel .value stack cs
      | .firstKey =>
          match cs, stack with
          | '}' :: rest, _ :: outer =>
              readFrom fuel (.afterValue (limited outer.length (.obj []))) outer rest
          | _, _ => readFrom fuel .key stack cs
      | .key =>
          match cs, stack with
          | '"' :: rest, .fields done _ :: outer =>
              match scanString? .empty rest with
              | some (key, rest) =>
                  match rest.dropWhile isSpace with
                  | ':' :: rest => readFrom fuel .value (.fields done key :: outer) rest
                  | _ => none
              | none => none
          | _, _ => none
      | .afterValue value =>
          match stack, cs with
          | [], [] => some value
          | .items done :: outer, ',' :: rest =>
              readFrom fuel .value (.items (value :: done) :: outer) rest
          | .items done :: outer, ']' :: rest =>
              let container := .arr (value :: done).reverse
              readFrom fuel (.afterValue (limited outer.length container)) outer rest
          | .fields done key :: outer, ',' :: rest =>
              readFrom fuel .key (.fields ((key, value) :: done) none :: outer) rest
          | .fields done key :: outer, '}' :: rest =>
              let container := objectOf ((key, value) :: done).reverse
              readFrom fuel (.afterValue (limited outer.length container)) outer rest
          | _, _ => none

def Raw.read? (text : String) : Option Raw :=
  let cs := text.toList
  readFrom (2 * cs.length + 2) .value [] cs

end CommissionRules.Json
