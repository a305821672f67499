import CommissionRules.Dict
import CommissionRules.Operator

/-!
# The catalog

The vocabulary that expressions are checked against.  Operators, functions and collection methods
are fixed; the data sources belong to a `Catalog`, and more of them can be registered.
-/

namespace CommissionRules

/-- Whether a data source is one record or a list of records. -/
inductive SourceKind where
  | object
  | collection
deriving DecidableEq, Repr

/-- A named record or list of records that expressions may refer to. -/
structure DataSource where
  id : String
  label : String
  properties : List String
  kind : SourceKind
deriving DecidableEq, Repr

namespace DataSource

def hasProperty (source : DataSource) (name : String) : Bool := source.properties.contains name

end DataSource

inductive FunctionCategory where
  | math
  | date
  | text
deriving DecidableEq, Repr

inductive ReturnKind where
  | number
  | boolean
  | text
  | date
  | collection
  | record
  | any
deriving DecidableEq, Repr

structure FunctionSpec where
  id : String
  category : FunctionCategory
  arity : Nat
  returns : ReturnKind
deriving DecidableEq, Repr

/-- What a collection method takes between its parentheses. -/
inductive ArgumentKind where
  | none
  | lambda
  | value
deriving DecidableEq, Repr

structure MethodSpec where
  id : String
  argument : ArgumentKind
  returns : ReturnKind
deriving DecidableEq, Repr

namespace MethodSpec

def arity (m : MethodSpec) : Nat := if m.argument = .none then 0 else 1

end MethodSpec

structure Catalog where
  sources : Dict DataSource
deriving DecidableEq

namespace Catalog

/-! ## The fixed vocabulary -/

def operators : List OperatorSpec :=
  UnaryOp.all.map UnaryOp.spec ++ BinaryOp.all.map BinaryOp.spec
    ++ LogicalOp.all.map LogicalOp.spec ++ [conditionalSpec]

/-- The operator of a symbol that takes the given number of operands. -/
def operator? (arity : Nat) (id : String) : Option OperatorSpec :=
  operators.find? fun spec => spec.arity == arity && spec.id == id

def functions : List FunctionSpec :=
  [⟨"Math.min", .math, 2, .number⟩,
    ⟨"Math.max", .math, 2, .number⟩,
    ⟨"Math.abs", .math, 1, .number⟩,
    ⟨"Math.round", .math, 1, .number⟩,
    ⟨"Math.floor", .math, 1, .number⟩,
    ⟨"Math.ceil", .math, 1, .number⟩,
    ⟨"Math.pow", .math, 2, .number⟩,
    ⟨"Math.sqrt", .math, 1, .number⟩,
    ⟨"Date.year", .date, 1, .number⟩,
    ⟨"Date.month", .date, 1, .number⟩,
    ⟨"Date.day", .date, 1, .number⟩,
    ⟨"Date.quarter", .date, 1, .number⟩,
    ⟨"Date.daysBetween", .date, 2, .number⟩,
    ⟨"Date.addDays", .date, 2, .date⟩,
    ⟨"String.length", .text, 1, .number⟩,
    ⟨"String.upper", .text, 1, .text⟩,
    ⟨"String.lower", .text, 1, .text⟩,
    ⟨"String.contains", .text, 2, .boolean⟩,
    ⟨"String.startsWith", .text, 2, .boolean⟩,
    ⟨"String.concat", .text, 2, .text⟩]

def function? (id : String) : Option FunctionSpec := functions.find? fun f => f.id == id

/-- The namespaces that function names start with. -/
def isNamespace (name : String) : Bool := name == "Math" || name == "Date" || name == "String"

def methods : List MethodSpec :=
  [⟨"where", .lambda, .collection⟩,
    ⟨"sum", .lambda, .number⟩,
    ⟨"average", .lambda, .number⟩,
    ⟨"min", .lambda, .number⟩,
    ⟨"max", .lambda, .number⟩,
    ⟨"count", .none, .number⟩,
    ⟨"any", .lambda, .boolean⟩,
    ⟨"all", .lambda, .boolean⟩,
    ⟨"first", .none, .record⟩,
    ⟨"last", .none, .record⟩,
    ⟨"groupBy", .lambda, .collection⟩,
    ⟨"orderBy", .lambda, .collection⟩,
    ⟨"orderByDescending", .lambda, .collection⟩,
    ⟨"distinct", .none, .collection⟩,
    ⟨"take", .value, .collection⟩,
    ⟨"skip", .value, .collection⟩]

def method? (id : String) : Option MethodSpec := methods.find? fun m => m.id == id

/-! ## Data sources -/

def saleProperties : List String :=
  ["Id", "Amount", "SaleAmount", "Quantity", "ProductId", "CategoryId", "CustomerId", "CreatedBy",
    "CreatedDate", "Region", "Status", "Discount", "Margin"]

def standardSources : List DataSource :=
  [⟨"sale", "Current Sale", saleProperties, .object⟩,
    ⟨"user", "Sales Representative",
      ["Id", "Name", "Role", "Department", "ManagerId", "TeamId", "HireDate", "Level", "Target"],
      .object⟩,
    ⟨"context", "Period Context",
      ["Target", "Period", "Year", "Quarter", "Month", "CommissionRate", "BonusPool", "Today"],
      .object⟩,
    ⟨"customer", "Customer", ["Id", "Name", "Segment", "Region", "IsNew", "SignupDate"], .object⟩,
    ⟨"allSales", "All Sales", saleProperties, .collection⟩,
    ⟨"userSales", "Sales by Current User", saleProperties, .collection⟩,
    ⟨"teamMembers", "Team Members", ["Id", "Name", "Role", "Target", "Achieved"], .collection⟩,
    ⟨"products", "Products", ["Id", "Name", "Category", "Price", "Margin", "IsPromoted"],
      .collection⟩]

/-- Registers a data source in the place of one of the same id, if there is one. -/
def register (catalog : Catalog) (source : DataSource) : Catalog :=
  ⟨catalog.sources.insert source.id source⟩

def registerAll (catalog : Catalog) (sources : List DataSource) : Catalog :=
  sources.foldl register catalog

def standard : Catalog := registerAll ⟨.empty⟩ standardSources

def source? (catalog : Catalog) (id : String) : Option DataSource := catalog.sources.get? id

theorem source?_register (catalog : Catalog) (source : DataSource) (id : String) :
    (catalog.register source).source? id =
      if id = source.id then some source else catalog.source? id :=
  Dict.get?_insert _ _ _ _

end Catalog

end CommissionRules
