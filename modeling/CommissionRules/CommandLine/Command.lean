/-!
# Commands and their options

The commands of the program, the options that they take, and the texts of usage and help.  An
option that is global belongs to the program and to every command.
-/

namespace CommissionRules.CommandLine

/-! ## Options -/

inductive OptionKind where
  | flag
  | value (name : String)
  | help
  | version
deriving DecidableEq, Repr

structure OptionSpec where
  long : String
  short : Option Char
  kind : OptionKind
  about : String
deriving DecidableEq, Repr

def configOption : OptionSpec :=
  ⟨"config", some 'c', .value "CONFIG",
    "Optional engine configuration JSON (evaluation budget, layout)"⟩

def astOption : OptionSpec :=
  ⟨"ast", none, .flag, "Print the parse tree of every compiled expression"⟩

def contextOption : OptionSpec :=
  ⟨"context", none, .value "CONTEXT", "Path to an execution context JSON file"⟩

def checkOption : OptionSpec :=
  ⟨"check", none, .flag, "Validate and compile every template expression"⟩

def jsonOption : OptionSpec := ⟨"json", none, .flag, "Print the library as a JSON array"⟩

def helpOption : OptionSpec := ⟨"help", some 'h', .help, "Print help"⟩

def versionOption : OptionSpec := ⟨"version", some 'V', .version, "Print version"⟩

def globalOptions : List OptionSpec := [configOption, astOption]

def angled (name : String) : String := "<" ++ name ++ ">"

namespace OptionSpec

def hyphened (o : OptionSpec) : String := "--" ++ o.long

def display (o : OptionSpec) : String :=
  match o.kind with
  | .value name => o.hyphened ++ " " ++ angled name
  | _ => o.hyphened

def row (o : OptionSpec) : String × String :=
  ((match o.short with
    | some c => "-" ++ String.singleton c ++ ", "
    | none => "    ") ++ o.display, o.about)

end OptionSpec

/-! ## Layout -/

def padTo (width : Nat) (text : String) : String :=
  text ++ String.ofList (List.replicate (width - text.length) ' ')

/-- A title with two columns below it, the first one as wide as its widest entry.  Without rows
there is no title either. -/
def table? (title : String) (rows : List (String × String)) : Option String :=
  let width := rows.foldl (fun acc (left, _) => max acc left.length) 0
  if rows.isEmpty then none
  else some (title ++ ":\n" ++ String.join (rows.map fun (left, right) =>
    "  " ++ padTo width left ++ "  " ++ right ++ "\n"))

/-- The entries of two lists in turns, then those of the longer list. -/
def inTurns : List OptionSpec → List OptionSpec → List OptionSpec
  | a :: as, b :: bs => a :: b :: inTurns as bs
  | [], bs => bs
  | as, [] => as

/-! ## Commands -/

inductive Command where
  | validate
  | eval
  | templates
  | graph
deriving DecidableEq, Repr

namespace Command

def all : List Command := [validate, eval, templates, graph]

def name : Command → String
  | validate => "validate"
  | eval => "eval"
  | templates => "templates"
  | graph => "graph"

def about : Command → String
  | validate => "Run the lexical validator on an expression"
  | eval => "Compile and evaluate an expression"
  | templates => "List the built-in templates"
  | graph => "Import a rule graph export, then assemble and run each root rule group"

def argument? : Command → Option String
  | validate | eval => some "EXPRESSION"
  | templates => none
  | graph => some "EXPORT_PATH"

def options : Command → List OptionSpec
  | validate => []
  | eval | graph => [contextOption]
  | templates => [checkOption, jsonOption]

def ofName? (name : String) : Option Command := all.find? fun c => c.name == name

end Command

/-- Where arguments are matched: before the name of a command, after it, or after the name of the
command that prints help. -/
inductive Scope where
  | program
  | command (c : Command)
  | help
deriving DecidableEq, Repr

/-- An option, or the argument of a command. -/
inductive Slot where
  | option (o : OptionSpec)
  | argument (name : String)
deriving DecidableEq, Repr

namespace Slot

def display : Slot → String
  | option o => o.display
  | argument name => angled name

def isOption : Slot → Bool
  | option _ => true
  | argument _ => false

end Slot

namespace Scope

def programName : String := "kisoku-cli"

def helpName : String := "help"

def ofName? (name : String) : Option Scope :=
  if name == helpName then some help else (Command.ofName? name).map command

def path : Scope → String
  | program => programName
  | command c => programName ++ " " ++ c.name
  | help => programName ++ " " ++ helpName

def about : Scope → String
  | program => "Validate, compile and run commission rule expressions and rule graphs"
  | command c => c.about
  | help => "Print this message or the help of the given subcommand(s)"

/-- The options of a scope, its own ones first. -/
def options : Scope → List OptionSpec
  | program => globalOptions ++ [helpOption, versionOption]
  | command c => c.options ++ globalOptions ++ [helpOption]
  | help => []

def commandNames : Scope → List String
  | program => Command.all.map Command.name ++ [helpName]
  | _ => []

def argument? : Scope → Option String
  | command c => c.argument?
  | _ => none

/-- What follows the options in the usage of a scope. -/
def arguments : Scope → List String
  | program => [angled "COMMAND"]
  | command c => (c.argument?.map angled).toList
  | help => ["[COMMAND]..."]

/-! ## Usage and help -/

/-- The usage of a scope.  It shows those options that were used, or says that there are some. -/
def usage (scope : Scope) (used : List Slot) : String :=
  let options :=
    if !used.isEmpty then (used.filter Slot.isOption).eraseDups.map Slot.display
    else if scope.options.isEmpty then []
    else ["[OPTIONS]"]
  "Usage: " ++ " ".intercalate (scope.path :: options ++ scope.arguments) ++ "\n"

/-- The options in the order of help, which mixes the global ones with the command's own. -/
def listedOptions : Scope → List OptionSpec
  | command c => inTurns globalOptions c.options ++ [helpOption]
  | scope => scope.options

def helpText (scope : Scope) : String :=
  let arguments := match scope with
    | program =>
        table? "Commands"
          (Command.all.map (fun c : Command => (c.name, c.about)) ++ [(helpName, help.about)])
    | command _ => table? "Arguments" (scope.arguments.map fun name => (name, ""))
    | help =>
        table? "Arguments" (scope.arguments.map (·, "Print help for the subcommand(s)"))
  let options := table? "Options" (scope.listedOptions.map OptionSpec.row)
  "\n".intercalate ([scope.about ++ "\n", scope.usage []] ++ arguments.toList ++ options.toList)

end Scope

def versionText : String := "kisoku 0.1.0\n"

end CommissionRules.CommandLine
