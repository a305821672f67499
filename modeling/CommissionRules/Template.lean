import CommissionRules.Evaluator
import CommissionRules.Json.Decode

/-!
# Templates

Ready-made rules: a condition, an expression for each of its outcomes, and what is to be known of
the rule to find it.  A library is a list of templates.
-/

namespace CommissionRules

open Json (Raw)

inductive TemplateCategory where
  | commission
  | bonus
  | quota
  | team
  | product
deriving DecidableEq, Repr

namespace TemplateCategory

def all : List TemplateCategory := [commission, bonus, quota, team, product]

def text : TemplateCategory → String
  | commission => "commission"
  | bonus => "bonus"
  | quota => "quota"
  | team => "team"
  | product => "product"

def ofRaw? (raw : Raw) : Option TemplateCategory :=
  raw.variant? fun name => all.find? fun category => category.text == name

end TemplateCategory

inductive Complexity where
  | simple
  | intermediate
  | advanced
  | expert
deriving DecidableEq, Repr

namespace Complexity

def all : List Complexity := [simple, intermediate, advanced, expert]

def text : Complexity → String
  | simple => "simple"
  | intermediate => "intermediate"
  | advanced => "advanced"
  | expert => "expert"

def ofRaw? (raw : Raw) : Option Complexity :=
  raw.variant? fun name => all.find? fun complexity => complexity.text == name

/-- The place among the complexities, the simplest first. -/
def rank (complexity : Complexity) : Nat := all.idxOf complexity

instance : Ord Complexity := ⟨fun a b => compare a.rank b.rank⟩

end Complexity

structure RuleTemplate where
  id : String
  name : String
  description : String
  category : TemplateCategory
  expression : String
  onSuccess : String
  onFailure : String
  complexity : Complexity
deriving DecidableEq, Repr

namespace RuleTemplate

/-- The three expressions with the names of their fields. -/
def expressions (t : RuleTemplate) : List (String × String) :=
  [("expression", t.expression), ("onSuccess", t.onSuccess), ("onFailure", t.onFailure)]

def toJson (t : RuleTemplate) : Json :=
  .obj [("id", .str t.id), ("name", .str t.name), ("description", .str t.description),
    ("category", .str t.category.text), ("expression", .str t.expression),
    ("onSuccess", .str t.onSuccess), ("onFailure", .str t.onFailure),
    ("complexity", .str t.complexity.text)]

def ofRaw? (raw : Raw) : Option RuleTemplate := do
  match ← raw.structure? ["id", "name", "description", "category", "expression", "onSuccess",
      "onFailure", "complexity"] with
  | [id, name, description, category, expression, onSuccess, onFailure, complexity] =>
      return { id := ← Raw.required Raw.text? id
               name := ← Raw.required Raw.text? name
               description := ← Raw.required Raw.text? description
               category := ← Raw.required TemplateCategory.ofRaw? category
               expression := ← Raw.required Raw.text? expression
               onSuccess := ← Raw.required Raw.text? onSuccess
               onFailure := ← Raw.required Raw.text? onFailure
               complexity := ← Raw.required Complexity.ofRaw? complexity }
  | _ => none

end RuleTemplate

abbrev TemplateLibrary := List RuleTemplate

namespace TemplateLibrary

def get? (library : TemplateLibrary) (id : String) : Option RuleTemplate :=
  library.find? fun t => t.id == id

def ofCategory (library : TemplateLibrary) (category : TemplateCategory) : List RuleTemplate :=
  library.filter fun t => t.category = category

def ofComplexity (library : TemplateLibrary) (complexity : Complexity) : List RuleTemplate :=
  library.filter fun t => t.complexity = complexity

def toJson (library : TemplateLibrary) : Json := .arr (library.map RuleTemplate.toJson)

def read? (text : String) : Option TemplateLibrary :=
  (Raw.read? text).bind (Raw.list? RuleTemplate.ofRaw?)

end TemplateLibrary

/-- Evaluates the condition of a template, and then the expression for its outcome. -/
def Evaluator.runTemplate (evaluator : Evaluator) (t : RuleTemplate) (context : Context) :
    Except Failure Value × Except Failure Value :=
  let condition := evaluator.evaluate t.expression context
  let branch := if isTrue condition then t.onSuccess else t.onFailure
  (condition, evaluator.evaluate branch context)

end CommissionRules
