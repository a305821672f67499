import CommissionRules.CommandLine.Arguments
import CommissionRules.Graph.Assembly
import CommissionRules.Graph.Snapshot
import CommissionRules.Json.Writer
import CommissionRules.Template.Standard
import CommissionRules.Text.Printable

/-!
# The command line

What the program prints for its arguments, given the texts of the files that they name.  Measured
times are lines of their own kind, whose text is made when they are printed.
-/

namespace CommissionRules.CommandLine

inductive Line where
  | text (line : String)
  | executionTime
  | totalTime
deriving DecidableEq, Repr

/-- The text of a line, given the milliseconds that have passed. -/
def Line.render (milliseconds : Nat) : Line → String
  | text line => line
  | executionTime => "Execution time: " ++ toString milliseconds ++ ".000 ms"
  | totalTime => "Total: " ++ toString milliseconds ++ "ms"

/-- What the program has printed, and the code that it ends with. -/
structure Report where
  lines : List Line
  errors : String
  code : Nat

namespace Report

def ofTexts (lines : List String) : Report := ⟨lines.map .text, "", 0⟩

/-- Ends with a message after the lines printed so far. -/
def failure (lines : List Line) (message : String) : Report :=
  ⟨lines, "\nError: " ++ message ++ "\n", 1⟩

end Report

/-- The texts of the files that can be read, by their paths. -/
abbrev Files := String → Option String

variable (files : Files)

/-- Reads a file with the given reader; the error names what could not be loaded. -/
def load {α : Type} (what path : String) (read : String → Option α) : Except String α :=
  match files path with
  | none => .error (what ++ " '" ++ path ++ "': no such file")
  | some text =>
      match read text with
      | none => .error (what ++ " '" ++ path ++ "': the text does not decode")
      | some a => .ok a

def loadConfig : Option String → Except String Config
  | none => .ok .standard
  | some path => load files "Failed to load config" path Config.read?

def loadContext : Option String → Except String Context
  | none => .ok .empty
  | some path => load files "Failed to load context from" path Context.read?

/-- The drawing of an expression, with the empty line after it. -/
def drawing (compiled : CompiledExpression) : Line := .text compiled.expr.tree

/-! ## Commands -/

def runValidate (expression : String) : Report :=
  let v := validate expression
  { Report.ofTexts
      (["Valid: " ++ (if v.isValid then "true" else "false")]
        ++ v.errors.map (fun f => "  error:   " ++ f.message)
        ++ v.warnings.map fun f => "  warning: " ++ f.message) with
    code := if v.isValid then 0 else 1 }

def runEval (evaluator : Evaluator) (expression : String) (context : Option String)
    (ast : Bool) : Report :=
  match loadContext files context with
  | .error message => .failure [] message
  | .ok context =>
      match evaluator.compiler.compile expression with
      | .error e => .failure [] ("Compilation failed: " ++ e.message)
      | .ok compiled =>
          let before := compiled.warnings.map (fun w => Line.text ("warning: " ++ w))
            ++ (if ast then [drawing compiled] else [])
          match evaluator.run compiled context with
          | .ok value => ⟨before ++ [.text ("-> " ++ value.display), .executionTime], "", 0⟩
          | .error e => ⟨before ++ [.text ("-> Error: " ++ e.message), .executionTime], "", 1⟩

def templateLine (t : RuleTemplate) : Line :=
  .text (padTo 24 t.id ++ " " ++ padTo 12 t.category.text ++ " " ++ padTo 13 t.complexity.text
    ++ " " ++ t.name)

/-- The lines of a field that is checked, and whether it fails. -/
def checkField (compiler : Compiler) (ast : Bool) (field expression : String) :
    List Line × Bool :=
  match compiler.compile expression with
  | .error e => ([.text ("  " ++ field ++ " FAILED: " ++ e.message)], true)
  | .ok compiled =>
      (if ast then [.text ("  " ++ field ++ ":"), drawing compiled] else [], false)

def runTemplates (compiler : Compiler) (check json ast : Bool) : Report :=
  let library := TemplateLibrary.standard
  if json then .ofTexts [(TemplateLibrary.toJson library).indented ""]
  else if !check then ⟨library.map templateLine, "", 0⟩
  else
    let checked := library.map fun t =>
      (t, t.expressions.map fun (field, expression) => checkField compiler ast field expression)
    let lines := checked.flatMap fun (t, fields) => templateLine t :: fields.flatMap (·.1)
    let failures := (checked.flatMap (·.2)).countP (·.2)
    { lines := lines ++ [.text "", .text (toString library.length ++ " templates checked, "
        ++ toString failures ++ " failing fields")]
      errors := ""
      code := if failures = 0 then 0 else 1 }

def outcomeLines (outcome : RuleOutcome) : List Line :=
  let shown (result : Except EvalError Value) : String := match result with
    | .ok value => value.display
    | .error e => "Error: " ++ e.message
  [.text ("  Matched:   " ++ (if outcome.matched then "true" else "false"))]
    ++ (match outcome.condition with
      | .ok _ => []
      | .error e => [.text ("  Condition error: " ++ e.message)])
    ++ outcome.actions.map fun action =>
      .text ("  Action " ++ action.name ++ " ("
        ++ (match action.branch with | .onSuccess => "OnSuccess" | .onFailure => "OnFailure")
        ++ "): " ++ shown action.result)

def groupLines (evaluator : Evaluator) (graph : RuleGraph) (context : Context) (ast : Bool)
    (id : String) : List Line :=
  [.text "", .text ("Rule group " ++ id)]
    ++ match graph.assemble id with
      | .error e => [.text ("  Assembly failed: " ++ e.message)]
      | .ok definition =>
          [.text ("  Name:      " ++ definition.name),
            .text ("  Condition: " ++ definition.condition)]
            ++ match evaluator.compiler.compileRule definition with
              | .error e => [.text ("  Compilation failed: " ++ e.message)]
              | .ok rule =>
                  (if ast then [drawing rule.condition] else [])
                    ++ outcomeLines (evaluator.runRule rule context)

/-- Reads a graph; the error says whether its text or its structure is wrong. -/
def loadGraph (path : String) : Except String RuleGraph :=
  match files path with
  | none => .error ("Failed to read export '" ++ path ++ "': no such file")
  | some text =>
      match GraphSnapshot.read? text with
      | none =>
          .error ("Failed to import graph: Failed to parse graph export: the text does not decode")
      | some snapshot =>
          match RuleGraph.ofSnapshot snapshot with
          | .error e => .error ("Failed to import graph: " ++ e.message)
          | .ok graph => .ok graph

def runGraph (evaluator : Evaluator) (path : String) (context : Option String) (ast : Bool) :
    Report :=
  match loadGraph files path with
  | .error message => .failure [] message
  | .ok graph =>
      match loadContext files context with
      | .error message => .failure [] message
      | .ok context =>
          let orphans := graph.orphans
          let orphanLines := if orphans.isEmpty then [] else
            .text (toString orphans.length ++ " orphaned node(s):")
              :: orphans.map fun node =>
                .text ("  " ++ node.id ++ " (" ++ node.type.text ++ ")")
          let groups := (graph.roots .ruleGroup).flatMap fun node =>
            groupLines evaluator graph context ast node.id
          ⟨[.text ("Imported " ++ toString graph.size ++ " nodes")] ++ orphanLines ++ groups
            ++ [.text "", .totalTime], "", 0⟩

/-! ## The program -/

/-- The evaluator that a configuration asks for.  The clock of its runs stands at one millisecond,
so that only a timeout of zero is ever exceeded. -/
def evaluatorOf (config : Config) : Evaluator :=
  { compiler := ⟨.standard, config.budget.maxDepth⟩
    budget := config.budget
    elapsed := fun _ => 1 }

def Invocation.paths (i : Invocation) : List String :=
  i.config.toList ++ match i.request with
    | .eval _ context => context.toList
    | .graph path context => path :: context.toList
    | _ => []

def runInvocation (i : Invocation) : Report :=
  match loadConfig files i.config with
  | .error message => .failure [] message
  | .ok config =>
      let evaluator := evaluatorOf config
      match i.request with
      | .validate expression => runValidate expression
      | .eval expression context => runEval files evaluator expression context i.ast
      | .templates check json => runTemplates evaluator.compiler check json i.ast
      | .graph path context => runGraph files evaluator path context i.ast

/-- What is printed instead of running refused arguments.  An error shows no control characters of
the arguments that it quotes. -/
def Refusal.report (r : Refusal) : Report :=
  if r.isFailure then ⟨[], Text.printable r.text, 2⟩
  else
    let text := r.text.toList
    ⟨[.text (String.ofList (text.take (text.length - 1)))], "", 0⟩

def run (args : List String) : Report :=
  match readArguments args with
  | .error refusal => refusal.report
  | .ok invocation => runInvocation files invocation

end CommissionRules.CommandLine
