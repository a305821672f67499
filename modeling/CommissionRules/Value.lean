import CommissionRules.Binary
import CommissionRules.Dict
import CommissionRules.Number.Decimal

/-!
# Values

The dynamic values of the expression language, with their equality, their order, the bytes that
feed a hash, and their text.

A record holds its fields in key order, as a list that `Entries.insertAll` has built: `Value.Normal`
says so.  Equality compares numbers by value, so that it is not reflexive on a value with a NaN
inside; `digest` gives equal values equal bytes.
-/

namespace CommissionRules

inductive Value where
  | null
  | bool (value : Bool)
  | number (value : Number)
  | str (value : String)
  | list (items : List Value)
  | record (fields : List (String × Value))
deriving Inhabited

namespace Value

def typeName : Value → String
  | null => "Null"
  | bool _ => "Bool"
  | number _ => "Number"
  | str _ => "String"
  | list _ => "List"
  | record _ => "Record"

def asNumber? : Value → Option Number
  | number n => some n
  | _ => none

def asBool? : Value → Option Bool
  | bool b => some b
  | _ => none

def asText? : Value → Option String
  | str s => some s
  | _ => none

def field? (name : String) : Value → Option Value
  | record fields => Entries.get? name fields
  | _ => none

/-- A record of fields in any order; the last one of a name stays. -/
def ofFields (fields : List (String × Value)) : Value := record (Entries.insertAll fields [])

/-! ## Equality -/

mutual

/-- Equality of values: numbers compare by value, lists and records part by part. -/
def equal : Value → Value → Bool
  | null, null => true
  | bool a, bool b => a == b
  | number a, number b => a.equal b
  | str a, str b => a == b
  | list as, list bs => equalItems as bs
  | record as, record bs => equalFields as bs
  | _, _ => false

def equalItems : List Value → List Value → Bool
  | [], [] => true
  | a :: as, b :: bs => equal a b && equalItems as bs
  | _, _ => false

def equalFields : List (String × Value) → List (String × Value) → Bool
  | [], [] => true
  | (k, a) :: as, (l, b) :: bs => k == l && equal a b && equalFields as bs
  | _, _ => false

end

/-! ## Order -/

/-- The order of sort keys: numbers by their total order, texts and booleans naturally, and values
of other or different types by the names of the types. -/
def sortCompare : Value → Value → Ordering
  | number a, number b => a.totalCompare b
  | str a, str b => compare a b
  | bool a, bool b => compare a b
  | a, b => compare a.typeName b.typeName

/-! ## Digest -/

open Binary (littleEndian utf8)

/-- A text as hash input: its UTF-8 bytes and a byte that UTF-8 never has. -/
def digestText (s : String) : List UInt8 := utf8 s ++ [0xff]

mutual

/-- The bytes that feed a hash: a tag of eight bytes, then the contents.  Zeros of both signs give
the same bytes, and so do all NaNs. -/
def digest : Value → List UInt8
  | null => littleEndian 8 0
  | bool b => littleEndian 8 1 ++ [if b then 1 else 0]
  | number n => littleEndian 8 2 ++ littleEndian 8 n.canonicalBits.toNat
  | str s => littleEndian 8 3 ++ digestText s
  | list items => littleEndian 8 4 ++ littleEndian 8 items.length ++ digestItems items
  | record fields => littleEndian 8 5 ++ digestFields fields

def digestItems : List Value → List UInt8
  | [] => []
  | v :: rest => digest v ++ digestItems rest

def digestFields : List (String × Value) → List UInt8
  | [] => []
  | (k, v) :: rest => digestText k ++ digest v ++ digestFields rest

end

/-! ## Text -/

/-- The text of a number among values: a whole number below 10^15 is written as an integer, so
that `-0` is `0`. -/
def numberText (n : Number) : String :=
  if n.isWhole && n.floorMagnitude < 1000000000000000 then toString n.truncate else n.text

mutual

/-- The text of a value: strings in single quotes without escapes, lists in brackets, records in
braces. -/
def display : Value → String
  | null => "null"
  | bool b => if b then "true" else "false"
  | number n => numberText n
  | str s => "'" ++ s ++ "'"
  | list items => "[" ++ ", ".intercalate (displayItems items) ++ "]"
  | record fields => "\x7b" ++ ", ".intercalate (displayFields fields) ++ "\x7d"

def displayItems : List Value → List String
  | [] => []
  | v :: rest => display v :: displayItems rest

def displayFields : List (String × Value) → List String
  | [] => []
  | (k, v) :: rest => (k ++ ": " ++ display v) :: displayFields rest

end

/-! ## Normal values -/

mutual

/-- Every record inside the value has its fields in strictly increasing key order. -/
def Normal : Value → Prop
  | list items => NormalItems items
  | record fields => Entries.Sorted fields ∧ NormalFields fields
  | _ => True

def NormalItems : List Value → Prop
  | [] => True
  | v :: rest => Normal v ∧ NormalItems rest

def NormalFields : List (String × Value) → Prop
  | [] => True
  | (_, v) :: rest => Normal v ∧ NormalFields rest

end

end Value

end CommissionRules
