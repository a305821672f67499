import CommissionRules.Catalog
import CommissionRules.Evaluation.Function

/-!
# The fixed vocabulary

Which functions and methods the catalog has, as facts that no name has to be spelled out for.  A
function is found by its whole name and called by the two parts of it, before and after the point.
-/

namespace CommissionRules

/-- The namespace of a function ends at the first point of its name. -/
theorem Function.splitName_append {space : String} (name : String) (h : '.' ∉ space.toList) :
    Function.splitName (space ++ "." ++ name) = (space, name) := by
  have hall : ∀ c ∈ space.toList, (c != '.') = true := by
    intro c hc
    rw [bne_iff_ne]
    rintro rfl
    exact h hc
  have hsplit : (space ++ "." ++ name).toList = space.toList ++ '.' :: name.toList := by simp
  have htake : (space ++ "." ++ name).toList.takeWhile (· != '.') = space.toList := by
    rw [hsplit, List.takeWhile_append_of_pos hall]
    simp
  have hdrop : (space ++ "." ++ name).toList.dropWhile (· != '.') = '.' :: name.toList := by
    rw [hsplit, List.dropWhile_append_of_pos hall]
    simp
  simp only [Function.splitName, htake, hdrop, String.ofList_toList]

namespace Catalog

theorem point_notMem_namespace {space : String} (h : isNamespace space = true) :
    '.' ∉ space.toList := by
  simp only [isNamespace, Bool.or_eq_true, beq_iff_eq] at h
  rcases h with (rfl | rfl) | rfl <;> decide

theorem function?_eq_some {id : String} {spec : FunctionSpec} (h : function? id = some spec) :
    spec ∈ functions ∧ spec.id = id :=
  ⟨List.mem_of_find?_eq_some h, by simpa using List.find?_some h⟩

/-- The namespace and the name of every function. -/
def functionNames : List (String × String) := functions.map fun f => Function.splitName f.id

theorem mem_functionNames {space name : String} {spec : FunctionSpec}
    (hspace : isNamespace space = true) (h : function? (space ++ "." ++ name) = some spec) :
    (space, name) ∈ functionNames := by
  obtain ⟨hmem, hid⟩ := function?_eq_some h
  refine List.mem_map.mpr ⟨spec, hmem, ?_⟩
  rw [hid]
  exact Function.splitName_append name (point_notMem_namespace hspace)

theorem functionNames_eq : functionNames =
    [("Math", "min"), ("Math", "max"), ("Math", "abs"), ("Math", "round"), ("Math", "floor"),
      ("Math", "ceil"), ("Math", "pow"), ("Math", "sqrt"), ("Date", "year"), ("Date", "month"),
      ("Date", "day"), ("Date", "quarter"), ("Date", "daysBetween"), ("Date", "addDays"),
      ("String", "length"), ("String", "upper"), ("String", "lower"), ("String", "contains"),
      ("String", "startsWith"), ("String", "concat")] := by
  decide

/-- Every function is called by its name. -/
theorem splitName_id {spec : FunctionSpec} (h : spec ∈ functions) :
    ∃ space name, Function.splitName spec.id = (space, name) ∧ isNamespace space = true ∧
      space ++ "." ++ name = spec.id := by
  have hall : ∀ spec ∈ functions, isNamespace (Function.splitName spec.id).1 = true ∧
      (Function.splitName spec.id).1 ++ "." ++ (Function.splitName spec.id).2 = spec.id := by
    decide
  exact ⟨_, _, rfl, hall spec h⟩

theorem arity_pos {spec : FunctionSpec} (h : spec ∈ functions) : 0 < spec.arity := by
  have hall : ∀ spec ∈ functions, 0 < spec.arity := by decide
  exact hall spec h

def methodNames : List String := methods.map MethodSpec.id

theorem method?_eq_none {id : String} : method? id = none ↔ id ∉ methodNames := by
  simp [method?, methodNames]

theorem methodNames_eq : methodNames =
    ["where", "sum", "average", "min", "max", "count", "any", "all", "first", "last", "groupBy",
      "orderBy", "orderByDescending", "distinct", "take", "skip"] :=
  rfl

end Catalog

end CommissionRules
