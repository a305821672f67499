import CommissionRules.CommandLine.Refusal
import CommissionRules.Text.Similarity

/-!
# Command line arguments

How arguments are matched against the options and commands of the program.  The argument matched
last stays open until another one follows, because an option may still get its value; only then
is it found that a value is missing or that the option was given before.  Options that are global
may stand before the name of the command as well as after it; where both are given, the later one
counts.
-/

namespace CommissionRules.CommandLine

/-! ## Shapes -/

/-- What an argument looks like. -/
inductive Shape where
  | hyphens
  | long (name : String) (value : Option String)
  | cluster (letters : List Char)
  | plain
deriving DecidableEq, Repr

def splitValue (text : List Char) : String × Option String :=
  match text.dropWhile (· != '=') with
  | _ :: value => (String.ofList (text.takeWhile (· != '=')), some (String.ofList value))
  | [] => (String.ofList text, none)

def Shape.of (arg : String) : Shape :=
  match arg.toList with
  | ['-', '-'] => .hyphens
  | '-' :: '-' :: text =>
      let (name, value) := splitValue text
      .long name value
  | '-' :: letter :: text => .cluster (letter :: text)
  | _ => .plain

/-! ## Matches -/

/-- The options and arguments that were matched in a scope, in their order; a flag has an empty
value.  The last one is open: an option may wait for its value.  After two hyphens every argument
is plain. -/
structure Matches where
  given : List (Slot × String)
  opened : Option (Slot × Option String)
  hyphensSeen : Bool
deriving DecidableEq, Repr

namespace Matches

def empty : Matches := ⟨[], none, false⟩

def value? (m : Matches) (slot : Slot) : Option String := m.given.lookup slot

def has (m : Matches) (slot : Slot) : Bool := (m.value? slot).isSome

def option? (m : Matches) (o : OptionSpec) : Option String := m.value? (.option o)

def flag (m : Matches) (o : OptionSpec) : Bool := m.has (.option o)

def waiting? (m : Matches) : Option Slot :=
  match m.opened with
  | some (slot, none) => some slot
  | _ => none

/-- Holds also of an option or argument that is open. -/
def mentions (m : Matches) (slot : Slot) : Bool :=
  m.has slot || m.opened.any fun (other, _) => other == slot

/-- Adds an option or argument, which must not have been given before. -/
def add (scope : Scope) (m : Matches) (slot : Slot) (value : String) : Except Refusal Matches :=
  if m.has slot then .error (.repeated scope slot)
  else .ok { m with given := m.given ++ [(slot, value)] }

def close (scope : Scope) (m : Matches) : Except Refusal Matches :=
  match m.opened with
  | none => .ok m
  | some (slot, none) => .error (.missingValue slot)
  | some (slot, some value) => { m with opened := none }.add scope slot value

/-- What the usage of an error shows.  An option that was opened for the second time is not
shown at all. -/
def used (m : Matches) : List Slot :=
  let slots := m.given.map (·.1)
  match m.opened with
  | some (slot, some _) => if m.has slot then slots.filter (· != slot) else slots ++ [slot]
  | _ => slots

end Matches

/-! ## Matching -/

namespace Scope

/-- The option of a scope that is most similar to a name. -/
def similarOption? (scope : Scope) (name : String) : Option OptionSpec := do
  let long ← (Text.similarWords name (scope.options.map OptionSpec.long)).getLast?
  scope.options.find? fun o => o.long == long

/-- The first of the following arguments that names a command with a similar option. -/
def optionAmong? (scope : Scope) (name : String) (rest : List String) :
    Option (Command × OptionSpec) :=
  rest.findSome? fun arg => do
    let c ← if scope.commandNames.contains arg then Command.ofName? arg else none
    return (c, ← (Scope.command c).similarOption? name)

def valueTip? (scope : Scope) (arg : String) : Option Tip :=
  if scope.argument?.isSome then some (.asValue arg) else none

end Scope

variable (scope : Scope)

/-- Why an unknown option is refused, given the arguments after it. -/
def unknownOption (m : Matches) (name : String) (rest : List String) : Refusal :=
  let arg := "--" ++ name
  match scope.similarOption? name with
  | some o => .unexpected scope arg (some (.similarOption o)) (m.used ++ [.option o])
  | none =>
      let tip := match scope.optionAmong? name rest with
        | some (c, o) => some (.optionOf c o)
        | none => scope.valueTip? arg
      .unexpected scope arg tip m.used

/-- Why a plain argument is refused that has no place. -/
def misplaced (m : Matches) (arg : String) : Refusal :=
  if scope.commandNames.isEmpty then .unexpected scope arg none []
  else if m.hyphensSeen && scope.commandNames.contains arg then
    .unexpected scope arg (some (.commandAfterHyphens arg)) []
  else .unknownCommand scope arg (Tip.ofCommands? (Text.similarWords arg scope.commandNames))

/-- Matches an option with the value that is attached to it, if any. -/
def matchOption (m : Matches) (o : OptionSpec) (value : Option String) :
    Except Refusal Matches := do
  let m ← m.close scope
  match o.kind, value with
  | .help, _ => .error (.help scope)
  | .version, _ => .error .version
  | .flag, _ => m.add scope (.option o) ""
  | .value _, some value => m.add scope (.option o) value
  | .value _, none => .ok { m with opened := some (.option o, none) }

/-- Matches an option in its long form, given the arguments after it. -/
def matchLong (m : Matches) (name : String) (value : Option String) (rest : List String) :
    Except Refusal Matches :=
  match scope.options.find? fun o => o.long == name with
  | none => .error (unknownOption scope m name rest)
  | some o =>
      match o.kind, value with
      | .value _, _ | _, none => matchOption scope m o value
      | _, some value =>
          .error (.unwantedValue scope o value (m.given.map (·.1) ++ [.option o]))

/-- Matches options in their short form.  What follows the letter of an option with a value is
that value, perhaps after an equals sign. -/
def matchCluster (m : Matches) : List Char → Except Refusal Matches
  | [] => .ok m
  | letter :: text =>
      match scope.options.find? fun o => o.short == some letter with
      | none =>
          let arg := "-" ++ String.singleton letter
          .error (.unexpected scope arg (scope.valueTip? arg) [])
      | some o =>
          match o.kind, text with
          | .value _, [] => matchOption scope m o none
          | .value _, '=' :: value => matchOption scope m o (some (String.ofList value))
          | .value _, value => matchOption scope m o (some (String.ofList value))
          | _, text => do matchCluster (← matchOption scope m o none) text

def matchPlain (m : Matches) (arg : String) : Except Refusal Matches :=
  match scope.argument? with
  | none => .error (misplaced scope m arg)
  | some name =>
      if m.mentions (.argument name) then .error (misplaced scope m arg)
      else do return { ← m.close scope with opened := some (.argument name, some arg) }

/-- Matches an argument, given those after it. -/
def matchArgument (m : Matches) (arg : String) (rest : List String) : Except Refusal Matches :=
  if m.hyphensSeen then matchPlain scope m arg
  else match Shape.of arg with
    | .hyphens => .ok { m with hyphensSeen := true }
    | .long name value => matchLong scope m name value rest
    | .cluster letters => matchCluster scope m letters
    | .plain =>
        match m.waiting? with
        | some slot => .ok { m with opened := some (slot, some arg) }
        | none => matchPlain scope m arg

/-- Matches arguments up to the name of a command, which is left with all that follows it. -/
def matchArguments (m : Matches) : List String → Except Refusal (Matches × List String)
  | [] => .ok (m, [])
  | arg :: rest =>
      if !m.hyphensSeen && m.waiting?.isNone && scope.commandNames.contains arg then
        .ok (m, arg :: rest)
      else do matchArguments (← matchArgument scope m arg rest) rest

/-! ## Requests -/

inductive Request where
  | validate (expression : String)
  | eval (expression : String) (context : Option String)
  | templates (check json : Bool)
  | graph (path : String) (context : Option String)
deriving DecidableEq, Repr

/-- A request with the global options. -/
structure Invocation where
  config : Option String
  ast : Bool
  request : Request
deriving DecidableEq, Repr

def Command.request (c : Command) (m : Matches) (argument : String) : Request :=
  match c with
  | .validate => .validate argument
  | .eval => .eval argument (m.option? contextOption)
  | .templates => .templates (m.flag checkOption) (m.flag jsonOption)
  | .graph => .graph argument (m.option? contextOption)

def Command.read (c : Command) (args : List String) : Except Refusal (Matches × Request) := do
  let scope := Scope.command c
  let (m, _) ← matchArguments scope .empty args
  let m ← m.close scope
  match c.argument? with
  | none => return (m, c.request m "")
  | some name =>
      match m.value? (.argument name) with
      | some argument => return (m, c.request m argument)
      | none => .error (.missingArgument scope name (m.given.map (·.1) ++ [.argument name]))

/-- What the command that prints help does with the names after it. -/
def helpFor : List String → Refusal
  | [] => .help .program
  | name :: rest =>
      match Scope.ofName? name with
      | none => .unknownCommand .program name none
      | some scope =>
          match rest with
          | [] => .help scope
          | other :: _ => .unknownCommand scope other none

def readArguments (args : List String) : Except Refusal Invocation := do
  let (before, rest) ← matchArguments .program .empty args
  match rest with
  | [] =>
      let before ← before.close .program
      .error (if before.given.isEmpty then .nothing else .missingCommand)
  | name :: args =>
      match Command.ofName? name with
      | none => .error (helpFor args)
      | some c =>
          let (after, request) ← c.read args
          let before ← before.close .program
          return { config := (after.option? configOption).or (before.option? configOption)
                   ast := after.flag astOption || before.flag astOption
                   request }

end CommissionRules.CommandLine
