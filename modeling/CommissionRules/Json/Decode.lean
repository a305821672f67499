import CommissionRules.Json.Reader

/-!
# Decoding JSON

The rules by which a JSON text becomes a structure, an enumeration, a list or a number.  A structure
is an object, whose unknown fields are ignored and whose known fields must not be repeated, or an
array of the fields in their order, the last of which may be missing.  An enumeration is the name of
a variant, or an object with that name and null.
-/

namespace CommissionRules.Json.Raw

/-- The parts of a structure with the given field names; a missing one is `none`. -/
def structure? (names : List String) : Raw → Option (List (Option Raw))
  | obj fields => names.mapM fun name =>
      match fields.filter fun field => field.1 == name with
      | [] => some none
      | [(_, value)] => some (some value)
      | _ => none
  | arr items =>
      if items.length ≤ names.length then
        some (items.map some ++ List.replicate (names.length - items.length) none)
      else none
  | _ => none

variable {α : Type}

/-- A part that may not be missing. -/
def required (decode : Raw → Option α) (part : Option Raw) : Option α := part.bind decode

/-- A part that has a value when it is missing. -/
def withDefault (default : α) (decode : Raw → Option α) (part : Option Raw) : Option α :=
  match part with
  | none => some default
  | some raw => decode raw

/-- A part that may be missing or null. -/
def nullable (decode : Raw → Option α) (part : Option Raw) : Option (Option α) :=
  match part with
  | none | some null => some none
  | some raw => (decode raw).map some

def natural? : Raw → Option Nat
  | int n => if 0 ≤ n then some n.toNat else none
  | _ => none

def number? : Raw → Option Number
  | int n => some (.ofInt n)
  | real x => some x
  | _ => none

def text? : Raw → Option String
  | str s => some s
  | _ => none

def list? (decode : Raw → Option α) : Raw → Option (List α)
  | arr items => items.mapM decode
  | _ => none

/-- The variant of an enumeration, given the variants by name. -/
def variant? (named : String → Option α) : Raw → Option α
  | str name => named name
  | obj [(name, null)] => named name
  | _ => none

end CommissionRules.Json.Raw
