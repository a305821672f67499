import CommissionRules.Value

/-!
# JSON

`Json` is a JSON value: integers of at most 64 bits are kept apart from the other numbers, and an
object has its fields in key order.  `Json.Raw` is a JSON text as it was read, before anything
fails that need not fail: fields stand in the order of the text with repetitions, and a part that
has no value (a number out of range, text that is not Unicode, nesting beyond the limit) is
`unusable`, which matters only to a reader that looks at it.
-/

namespace CommissionRules

inductive Json where
  | null
  | bool (value : Bool)
  | int (value : Int)
  | real (value : Number)
  | str (value : String)
  | arr (items : List Json)
  | obj (fields : List (String × Json))
deriving Inhabited

namespace Json

inductive Raw where
  | null
  | bool (value : Bool)
  | int (value : Int)
  | real (value : Number)
  | str (value : String)
  | arr (items : List Raw)
  | obj (fields : List (String × Raw))
  | unusable
deriving Inhabited

mutual

/-- The value of a text, if all its parts have one.  Of fields with one name the last one stays. -/
def Raw.value? : Raw → Option Json
  | null => some .null
  | bool b => some (.bool b)
  | int n => some (.int n)
  | real x => some (.real x)
  | str s => some (.str s)
  | arr items => (valueItems? items).map .arr
  | obj fields => (valueFields? fields).map fun fields => .obj (Entries.insertAll fields [])
  | unusable => none

def Raw.valueItems? : List Raw → Option (List Json)
  | [] => some []
  | v :: rest => do
      let v ← v.value?
      let rest ← valueItems? rest
      return v :: rest

def Raw.valueFields? : List (String × Raw) → Option (List (String × Json))
  | [] => some []
  | (k, v) :: rest => do
      let v ← v.value?
      let rest ← valueFields? rest
      return (k, v) :: rest

end

def field? (name : String) : Json → Option Json
  | obj fields => Entries.get? name fields
  | _ => none

def asText? : Json → Option String
  | str s => some s
  | _ => none

mutual

/-- The value of the expression language that a JSON value stands for: all numbers are of one
kind. -/
def toValue : Json → Value
  | null => .null
  | bool b => .bool b
  | int n => .number (.ofInt n)
  | real x => .number x
  | str s => .str s
  | arr items => .list (toValues items)
  | obj fields => .record (toFields fields)

def toValues : List Json → List Value
  | [] => []
  | v :: rest => v.toValue :: toValues rest

def toFields : List (String × Json) → List (String × Value)
  | [] => []
  | (k, v) :: rest => (k, v.toValue) :: toFields rest

end

end Json

end CommissionRules
