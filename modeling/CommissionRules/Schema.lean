import CommissionRules.Catalog

/-!
# Schemas

A schema provider is asked for the fields of a table.  It may answer differently each time, so it is
a computation on a state of its own.  A cache in front of a provider keeps the answers that are not
failures until they are invalidated.
-/

namespace CommissionRules

structure FieldInfo where
  name : String
  type : String
deriving DecidableEq, Repr

inductive SchemaError where
  | unknownTable (table : String)
  | unavailable (reason : String)
deriving DecidableEq, Repr

namespace SchemaError

def message : SchemaError → String
  | unknownTable table => "Table '" ++ table ++ "' is not known to the schema provider"
  | unavailable reason => "Schema provider unavailable: " ++ reason

end SchemaError

abbrev SchemaAnswer := Except SchemaError (List FieldInfo)

/-- Gives the fields of a table and goes to its next state. -/
abbrev SchemaProvider (σ : Type) := (table : String) → StateM σ SchemaAnswer

namespace SchemaProvider

/-- The provider of fixed tables; of several with one name the last counts. -/
def ofTables {σ : Type} (tables : Dict (List FieldInfo)) : SchemaProvider σ := fun table =>
  match tables.get? table with
  | some fields => pure (.ok fields)
  | none => pure (.error (.unknownTable table))

/-- A data source with the fields of a table as its properties. -/
def dataSource {σ : Type} (provider : SchemaProvider σ) (table : String) (kind : SourceKind) :
    StateM σ (Except SchemaError DataSource) := do
  match ← provider table with
  | .ok fields => pure (.ok ⟨table, table, fields.map FieldInfo.name, kind⟩)
  | .error e => pure (.error e)

end SchemaProvider

/-- The answers that are kept, by table. -/
abbrev SchemaCache := Dict (List FieldInfo)

namespace SchemaCache

/-- Keeps an answer, unless it is a failure. -/
def record (cache : SchemaCache) (table : String) : SchemaAnswer → SchemaCache
  | .ok fields => cache.insert table fields
  | .error _ => cache

/-- A provider that looks into the cache first, and asks the inner provider about a table only if
the cache does not have it. -/
def fields {σ : Type} (inner : SchemaProvider σ) : SchemaProvider (SchemaCache × σ) :=
  fun table (cache, state) =>
    match cache.get? table with
    | some fields => (.ok fields, cache, state)
    | none =>
        let (answer, state) := (inner table).run state
        (answer, cache.record table answer, state)

def invalidate (cache : SchemaCache) (table : String) : SchemaCache := cache.erase table

end SchemaCache

end CommissionRules
