import CommissionRules.CommandLine.Command

/-!
# Refused arguments

Why arguments are not run, and what is printed instead: help, the version, or an error with a tip
where another argument was probably meant.
-/

namespace CommissionRules.CommandLine

inductive Tip where
  | asValue (arg : String)
  | similarOption (o : OptionSpec)
  | optionOf (c : Command) (o : OptionSpec)
  | similarCommands (first : String) (others : List String)
  | commandAfterHyphens (name : String)
deriving DecidableEq, Repr

def quoted (text : String) : String := "'" ++ text ++ "'"

namespace Tip

def text : Tip → String
  | asValue arg => "to pass " ++ quoted arg ++ " as a value, use " ++ quoted ("-- " ++ arg)
  | similarOption o => "a similar argument exists: " ++ quoted o.hyphened
  | optionOf c o => quoted (c.name ++ " " ++ o.hyphened) ++ " exists"
  | similarCommands name [] => "a similar subcommand exists: " ++ quoted name
  | similarCommands name others =>
      "some similar subcommands exist: " ++ ", ".intercalate ((name :: others).map quoted)
  | commandAfterHyphens name =>
      "subcommand " ++ quoted name ++ " exists; to use it, remove the '--' before it"

/-- The tip that names commands, if there are any. -/
def ofCommands? : List String → Option Tip
  | [] => none
  | name :: others => some (similarCommands name others)

end Tip

/-- Why arguments are not run.  Where the usage is shown, `used` are the options in it. -/
inductive Refusal where
  | help (scope : Scope)
  | version
  | nothing
  | unexpected (scope : Scope) (arg : String) (tip : Option Tip) (used : List Slot)
  | unknownCommand (scope : Scope) (name : String) (tip : Option Tip)
  | missingValue (slot : Slot)
  | unwantedValue (scope : Scope) (o : OptionSpec) (value : String) (used : List Slot)
  | repeated (scope : Scope) (slot : Slot)
  | missingArgument (scope : Scope) (name : String) (used : List Slot)
  | missingCommand
deriving DecidableEq, Repr

namespace Refusal

/-- Help that was asked for and the version are no failures. -/
def isFailure : Refusal → Bool
  | help _ | version => false
  | _ => true

def footer : String := "\nFor more information, try '--help'.\n"

def framed (scope : Scope) (message : String) (tip : Option Tip) (used : List Slot) : String :=
  "error: " ++ message ++ "\n\n" ++ (tip.map fun t => "  tip: " ++ t.text ++ "\n\n").getD ""
    ++ scope.usage used ++ (if scope.options.contains helpOption then footer else "")

def text : Refusal → String
  | help scope => scope.helpText
  | version => versionText
  | nothing => Scope.program.helpText
  | unexpected scope arg tip used =>
      framed scope ("unexpected argument " ++ quoted arg ++ " found") tip used
  | unknownCommand scope name tip =>
      framed scope ("unrecognized subcommand " ++ quoted name) tip []
  | missingValue slot =>
      "error: a value is required for " ++ quoted slot.display ++ " but none was supplied\n"
        ++ footer
  | unwantedValue scope o value used =>
      framed scope
        ("unexpected value " ++ quoted value ++ " for " ++ quoted o.display
          ++ " found; no more were expected") none used
  | repeated scope slot =>
      framed scope
        ("the argument " ++ quoted slot.display ++ " cannot be used multiple times") none []
  | missingArgument scope name used =>
      framed scope
        ("the following required arguments were not provided:\n  " ++ angled name) none used
  | missingCommand =>
      framed .program
        (quoted Scope.programName ++ " requires a subcommand but one was not provided\n"
          ++ "  [subcommands: " ++ ", ".intercalate Scope.program.commandNames ++ "]") none []

end Refusal

end CommissionRules.CommandLine
