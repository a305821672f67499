import CommissionRules.Dict
import CommissionRules.Json.Reader

/-!
# Contexts

A context gives the data sources of an evaluation their values.
-/

namespace CommissionRules

abbrev Context := Dict Value

namespace Context

/-- The fields of an object as data sources; any other value gives none. -/
def ofJson : Json → Context
  | .obj fields => .ofList (Json.toFields fields)
  | _ => .empty

/-- Reads a context from its JSON text, which has to be an object. -/
def read? (text : String) : Option Context := do
  match ← (← Json.Raw.read? text).value? with
  | .obj fields => some (.ofList (Json.toFields fields))
  | _ => none

def toValue (context : Context) : Value := .record context.entries

end Context

end CommissionRules
