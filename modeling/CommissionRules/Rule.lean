import CommissionRules.Evaluator
import CommissionRules.Json.Decode

/-!
# Rules

A rule is a condition with actions, each of which has one expression for each outcome of the
condition.  Its definition holds the texts, and a compiled rule the compiled expressions.
-/

namespace CommissionRules

open Json (Raw)

structure ActionDefinition where
  groupId : String
  name : String
  onSuccess : String
  onFailure : String
deriving DecidableEq, Repr

structure RuleDefinition where
  groupId : String
  name : String
  condition : String
  actions : List ActionDefinition
deriving DecidableEq, Repr

structure CompiledAction where
  name : String
  onSuccess : CompiledExpression
  onFailure : CompiledExpression

structure CompiledRule where
  groupId : String
  name : String
  condition : CompiledExpression
  actions : List CompiledAction

def ActionDefinition.ofRaw? (raw : Raw) : Option ActionDefinition := do
  match ← raw.structure? ["groupId", "name", "onSuccess", "onFailure"] with
  | [groupId, name, onSuccess, onFailure] =>
      return { groupId := ← Raw.required Raw.text? groupId
               name := ← Raw.required Raw.text? name
               onSuccess := ← Raw.required Raw.text? onSuccess
               onFailure := ← Raw.required Raw.text? onFailure }
  | _ => none

def RuleDefinition.ofRaw? (raw : Raw) : Option RuleDefinition := do
  match ← raw.structure? ["groupId", "name", "condition", "actions"] with
  | [groupId, name, condition, actions] =>
      return { groupId := ← Raw.required Raw.text? groupId
               name := ← Raw.required Raw.text? name
               condition := ← Raw.required Raw.text? condition
               actions := ← Raw.required (Raw.list? ActionDefinition.ofRaw?) actions }
  | _ => none

/-! ## Compiling -/

namespace Compiler

variable (compiler : Compiler)

/-- Compiles one field of a rule; an error names the rule and the field. -/
def compileField (rule field source : String) : Except CompileError CompiledExpression :=
  match compiler.compile source with
  | .ok compiled => .ok compiled
  | .error e => .error (.inField rule field e)

def compileAction (rule : String) (action : ActionDefinition) :
    Except CompileError CompiledAction := do
  let onSuccess ← compiler.compileField rule (action.name ++ ".onSuccess") action.onSuccess
  let onFailure ← compiler.compileField rule (action.name ++ ".onFailure") action.onFailure
  .ok ⟨action.name, onSuccess, onFailure⟩

def compileActions (rule : String) :
    List ActionDefinition → Except CompileError (List CompiledAction)
  | [] => .ok []
  | action :: rest => do
      let compiled ← compiler.compileAction rule action
      let others ← compileActions rule rest
      .ok (compiled :: others)

/-- Compiles the condition of a rule, then its actions in order. -/
def compileRule (definition : RuleDefinition) : Except CompileError CompiledRule := do
  let condition ← compiler.compileField definition.name "condition" definition.condition
  let actions ← compiler.compileActions definition.name definition.actions
  .ok ⟨definition.groupId, definition.name, condition, actions⟩

end Compiler

/-! ## Running -/

inductive Branch where
  | onSuccess
  | onFailure
deriving DecidableEq, Repr

structure ActionOutcome where
  name : String
  branch : Branch
  result : Except EvalError Value

structure RuleOutcome where
  rule : String
  matched : Bool
  condition : Except EvalError Value
  actions : List ActionOutcome

def CompiledAction.expression (action : CompiledAction) : Branch → CompiledExpression
  | .onSuccess => action.onSuccess
  | .onFailure => action.onFailure

/-- Runs the condition and then one branch of every action.  A condition that fails, or is anything
but true, selects the branch of failure. -/
def Evaluator.runRule (evaluator : Evaluator) (rule : CompiledRule) (context : Context) :
    RuleOutcome :=
  let condition := evaluator.run rule.condition context
  let matched := isTrue condition
  let branch : Branch := if matched then .onSuccess else .onFailure
  { rule := rule.name
    matched
    condition
    actions := rule.actions.map fun action =>
      ⟨action.name, branch, evaluator.run (action.expression branch) context⟩ }

end CommissionRules
