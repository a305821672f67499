import CommissionRules.Catalog

/-!
# Static shapes

What is known of the value of an expression before it is evaluated: whether it is a scalar, a
record or a collection of records, and which properties its records have.
-/

namespace CommissionRules

/-- The properties of a record, with the name of what it belongs to. -/
structure KnownProperties where
  owner : String
  names : List String
deriving DecidableEq, Repr

inductive Shape where
  | unknown
  | scalar
  | record (properties : Option KnownProperties)
  | collection (properties : Option KnownProperties)
deriving DecidableEq, Repr, Inhabited

namespace Shape

def describe : Shape → String
  | unknown => "an unknown value"
  | scalar => "a scalar value"
  | record _ => "a record"
  | collection _ => "a collection"

def ofSource (source : DataSource) : Shape :=
  let properties := some ⟨source.id, source.properties⟩
  match source.kind with
  | .object => record properties
  | .collection => collection properties

def ofReturn : ReturnKind → Shape
  | .collection => collection none
  | .record => record none
  | .any => unknown
  | _ => scalar

/-- The properties of the groups that a grouping gives. -/
def groupProperties : KnownProperties := ⟨"group", ["Key", "Items"]⟩

/-- The shape of a method's result, given the properties of the collection's records. -/
def ofMethod (method : MethodSpec) (element : Option KnownProperties) : Shape :=
  if method.id = "groupBy" then collection (some groupProperties)
  else if method.id = "first" || method.id = "last" then record element
  else if method.returns = .collection then collection element
  else scalar

end Shape

end CommissionRules
