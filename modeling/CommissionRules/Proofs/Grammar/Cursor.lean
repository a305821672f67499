import CommissionRules.Grammar
import CommissionRules.Proofs.Except

/-!
# Parsing in place

The descent as it runs.  A cursor moves over the tokens, a counter holds how deep the nesting is,
and a stack holds the parameters in scope; each function changes them where they are, and has to
undo by hand what it did.  Neither the tokens that are left nor the levels bound the functions from
outside: a call has fuel for so many calls inside each other, rounds of a loop included, and where
the fuel is used up it has no outcome.

A function that goes down one level takes a descending step, which is active until the function is
done with the level.  Each call is told how many steps are active around it.  It uses the number for
nothing but to note in the cursor how many were active at the most.
-/

namespace CommissionRules

/-- What changes while tokens are parsed. -/
structure Cursor where
  /-- How many tokens have been taken. -/
  index : Nat
  depth : Nat
  /-- The parameters, the innermost last. -/
  scope : List (String × Shape)
  /-- The largest number of descending steps that were active at once. -/
  peak : Nat

/-- What tokens are parsed with. -/
structure Parser where
  catalog : Catalog
  limit : Nat
  tokens : List Token

namespace Parser

/-- A computation on a cursor.  If it has an outcome, that is a result or an error, and a cursor in
both cases. -/
abbrev Reading := ExceptT CompileError (StateT Cursor Option)

variable (p : Parser)

def setting : Grammar.Setting :=
  ⟨p.catalog, p.limit, (p.tokens.getLast?.map Token.position).getD 0⟩

/-! ## Single tokens -/

def token? : Reading (Option Token) := return p.tokens[(← get).index]?

def kind? : Reading (Option TokenKind) := return (← p.token?).map Token.kind

/-- The position of the next token, or of the last one at the end. -/
def position : Reading Nat :=
  return (((← p.token?).or p.tokens.getLast?).map Token.position).getD 0

def advance : Reading Unit := modify fun c => { c with index := c.index + 1 }

def eat (kind : TokenKind) : Reading Bool := do
  if (← p.kind?) = some kind then
    advance
    return true
  else return false

def unexpected {α : Type} (expected : String) : Reading α := do
  match ← p.token? with
  | some t => throw (.unexpectedToken t.kind.text expected t.position)
  | none => throw (.unexpectedEnd expected)

def expect (kind : TokenKind) (expected : String) : Reading Unit := do
  if ← p.eat kind then return () else p.unexpected expected

def expectIdent (expected : String) : Reading (String × Nat) := do
  match ← p.token? with
  | some ⟨.ident name, position⟩ =>
      advance
      return (name, position)
  | _ => p.unexpected expected

def atLambda : Reading Bool := do
  let index := (← get).index
  match p.tokens[index]?.map Token.kind, p.tokens[index + 1]?.map Token.kind with
  | some (.ident _), some .arrow => return true
  | _, _ => return false

/-! ## Levels -/

/-- Goes down one level, if there is one left. -/
def descend (active : Nat) : Reading Unit := do
  modify fun c => { c with depth := c.depth + 1, peak := max c.peak (active + 1) }
  if p.limit < (← get).depth then throw (.tooDeep p.limit (← p.position))

def ascend : Reading Unit := modify fun c => { c with depth := c.depth - 1 }

def pushScope (param : String × Shape) : StateT Cursor Option Unit :=
  modify fun c => { c with scope := c.scope ++ [param] }

def popScope : StateT Cursor Option Unit := modify fun c => { c with scope := c.scope.dropLast }

/-! ## The descent -/

def node (expr : Expr) (shape : Shape) (height position : Nat) : Reading Parsed :=
  liftExcept (Grammar.node p.setting expr shape height position)

def outOfFuel {α : Type} : Reading α := ExceptT.mk fun _ => none

mutual

/-- A whole expression, which may be a conditional. -/
def whole : (fuel active : Nat) → Reading Parsed
  | 0, _ => outOfFuel
  | fuel + 1, active => do
      p.descend active
      let condition ← operand fuel (active + 1) (conditionalSpec.precedence - 1)
      let result ←
        if (← p.kind?) = some .question then do
          let position ← p.position
          advance
          let thenBranch ← whole fuel (active + 1)
          p.expect .colon "':' in conditional expression"
          let elseBranch ←
            match conditionalSpec.associativity with
            | .right => whole fuel (active + 1)
            | .left => operand fuel (active + 1) (conditionalSpec.precedence - 1)
          let height := max (max condition.height thenBranch.height) elseBranch.height
          p.node (.conditional condition.expr thenBranch.expr elseBranch.expr) .unknown (height + 1)
            position
        else pure condition
      ascend
      return result
termination_by structural fuel => fuel

/-- An operand with operators up to a precedence. -/
def operand : (fuel active bound : Nat) → Reading Parsed
  | 0, _, _ => outOfFuel
  | fuel + 1, active, bound => do
      let left ← unary fuel active
      chain fuel active bound left
termination_by structural fuel => fuel

/-- The loop over operators. -/
def chain : (fuel active bound : Nat) → Parsed → Reading Parsed
  | 0, _, _, _ => outOfFuel
  | fuel + 1, active, bound, left => do
      match ← p.kind? with
      | some (.operator (.connective c)) =>
          if c.precedence ≤ bound then do
            let position ← p.position
            advance
            p.descend active
            let right ← operand fuel (active + 1) c.rightBound
            ascend
            let left ← p.node (c.apply left.expr right.expr) .scalar
              (max left.height right.height + 1) position
            chain fuel active bound left
          else return left
      | _ => return left
termination_by structural fuel => fuel

def unary : (fuel active : Nat) → Reading Parsed
  | 0, _ => outOfFuel
  | fuel + 1, active => do
      match ← p.kind? with
      | some (.operator symbol) =>
          match symbol.unary? with
          | some op => do
              let position ← p.position
              p.descend active
              advance
              let operand ← operand fuel (active + 1) UnaryOp.precedence
              ascend
              p.node (.unary op operand.expr) .scalar (operand.height + 1) position
          | none => trailed fuel active
      | _ => trailed fuel active
termination_by structural fuel => fuel

/-- A value with properties and method calls. -/
def trailed : (fuel active : Nat) → Reading Parsed
  | 0, _ => outOfFuel
  | fuel + 1, active => do
      let receiver ← primary fuel active
      trailing fuel active receiver
termination_by structural fuel => fuel

/-- The loop over properties and method calls. -/
def trailing : (fuel active : Nat) → Parsed → Reading Parsed
  | 0, _, _ => outOfFuel
  | fuel + 1, active, receiver => do
      if ← p.eat .dot then do
        let (name, position) ← p.expectIdent "property or method name"
        if (← p.kind?) = some .openParen then do
          let receiver ← methodCall fuel active receiver name position
          trailing fuel active receiver
        else do
          let receiver ← liftExcept (Grammar.property p.setting receiver name position)
          trailing fuel active receiver
      else return receiver
termination_by structural fuel => fuel

def primary : (fuel active : Nat) → Reading Parsed
  | 0, _ => outOfFuel
  | fuel + 1, active => do
      match ← p.token? with
      | none => throw (.unexpectedEnd "a value")
      | some t =>
          advance
          match t.kind with
          | .number n => return Grammar.leaf (.literal (.number n)) .scalar
          | .str text => return Grammar.leaf (.literal (.str text)) .scalar
          | .bool b => return Grammar.leaf (.literal (.bool b)) .scalar
          | .null => return Grammar.leaf (.literal .null) .unknown
          | .openParen => do
              let inner ← whole fuel active
              p.expect .closeParen "')'"
              return inner
          | .ident name => identifier fuel active name t.position
          | kind => throw (.unexpectedToken kind.text "a value" t.position)
termination_by structural fuel => fuel

/-- What a name stands for that has been taken. -/
def identifier : (fuel active : Nat) → (name : String) → (position : Nat) → Reading Parsed
  | 0, _, _, _ => outOfFuel
  | fuel + 1, active, name, position => do
      match (← get).scope.reverse.lookup name with
      | some shape => return Grammar.leaf (.ref name []) shape
      | none =>
          match p.catalog.source? name with
          | some source => return Grammar.leaf (.ref name []) (.ofSource source)
          | none =>
              if Catalog.isNamespace name then functionCall fuel active name position
              else throw (.unknownIdentifier name position)
termination_by structural fuel => fuel

def functionCall : (fuel active : Nat) → (space : String) → (position : Nat) → Reading Parsed
  | 0, _, _, _ => outOfFuel
  | fuel + 1, active, space, position => do
      p.expect .dot "'.' after function namespace"
      let (name, _) ← p.expectIdent "function name"
      let id := space ++ "." ++ name
      match Catalog.function? id with
      | none => throw (.unknownFunction id position)
      | some spec =>
          p.expect .openParen "'(' after function name"
          let (args, height) ← arguments fuel active
          if args.length = spec.arity then
            p.node (.call id args) (.ofReturn spec.returns) (height + 1) position
          else throw (.arityMismatch id spec.arity args.length position)
termination_by structural fuel => fuel

/-- Arguments behind an opening parenthesis, and the height of the tallest one. -/
def arguments : (fuel active : Nat) → Reading (List Expr × Nat)
  | 0, _ => outOfFuel
  | fuel + 1, active => do
      if ← p.eat .closeParen then return ([], 0) else argumentsFrom fuel active [] 0
termination_by structural fuel => fuel

/-- The loop over arguments. -/
def argumentsFrom : (fuel active : Nat) → List Expr → (height : Nat) → Reading (List Expr × Nat)
  | 0, _, _, _ => outOfFuel
  | fuel + 1, active, args, height => do
      let arg ← whole fuel active
      let height := max height arg.height
      let args := args ++ [arg.expr]
      if ← p.eat .comma then argumentsFrom fuel active args height
      else do
        p.expect .closeParen "',' or ')'"
        return (args, height)
termination_by structural fuel => fuel

def methodCall : (fuel active : Nat) → (receiver : Parsed) → (name : String) →
    (position : Nat) → Reading Parsed
  | 0, _, _, _, _ => outOfFuel
  | fuel + 1, active, receiver, name, position => do
      match Catalog.method? name with
      | none => throw (.unknownMethod name position)
      | some method =>
          let element ←
            match receiver.shape with
            | .collection element => pure element
            | .unknown => pure none
            | shape => throw (.invalidReceiver name shape.describe position)
          p.expect .openParen "'('"
          let (argument, height) ←
            if method.argument = .lambda && (← p.atLambda) then lambdaArgument fuel active element
            else plainArgument fuel active method position
          p.node (.method receiver.expr name argument) (.ofMethod method element)
            (max receiver.height height + 1) position
termination_by structural fuel => fuel

/-- The body of a lambda.  The parameter leaves the scope also where the body has an error. -/
def bodyIn : (fuel active : Nat) → (param : String × Shape) → Reading Parsed
  | 0, _, _ => outOfFuel
  | fuel + 1, active, param => ExceptT.mk do
      pushScope param
      let body ← (whole fuel active).run
      popScope
      return body
termination_by structural fuel => fuel

def lambdaArgument : (fuel active : Nat) → (element : Option KnownProperties) →
    Reading (Argument Expr × Nat)
  | 0, _, _ => outOfFuel
  | fuel + 1, active, element => do
      let (param, _) ← p.expectIdent "lambda parameter"
      p.expect .arrow "'=>'"
      let body ← bodyIn fuel active (param, .record element)
      p.expect .closeParen "')' after lambda"
      return (.lambda param body.expr, body.height)
termination_by structural fuel => fuel

def plainArgument : (fuel active : Nat) → (method : MethodSpec) → (position : Nat) →
    Reading (Argument Expr × Nat)
  | 0, _, _, _ => outOfFuel
  | fuel + 1, active, method, position => do
      if ← p.atLambda then do
        let position ← p.position
        throw (.unexpectedToken "lambda" ("no lambda for '" ++ method.id ++ "'") position)
      else do
        let (args, height) ← arguments fuel active
        if args.length = method.arity then
          match method.argument, args.getLast? with
          | .value, some arg => return (.value arg, height)
          | .lambda, some _ =>
              throw (.unexpectedToken "expression"
                ("a lambda (x => ...) for '" ++ method.id ++ "'") position)
          | _, _ => return (.none, height)
        else throw (.arityMismatch method.id method.arity args.length position)
termination_by structural fuel => fuel

end

def parse (fuel : Nat) : Reading Parsed := do
  let parsed ← p.whole fuel 0
  match ← p.token? with
  | none => return parsed
  | some t => throw (.unexpectedToken t.kind.text "end of expression" t.position)

end Parser

end CommissionRules
