import CommissionRules.Expr
import CommissionRules.Shape
import CommissionRules.Token

/-!
# The grammar

Tokens are read into an expression by recursive descent, with one bound on the precedence of the
operators that an operand may contain.  Names, properties, arities and the receivers of methods are
checked on the way against the catalog and the static shapes.

Every function here reads a part of the tokens and gives the rest.  The functions that read a part
inside another one are not recursive: they take the reader of nested parts as an argument, and
`parseAt` ties the knot by recursion on the nesting that is left.  The loops over operators,
properties and arguments run on fuel; every round of a loop takes at least one token, so the number
of tokens is enough.
-/

namespace CommissionRules

/-- An expression that has been read, with its static shape and its height. -/
structure Parsed where
  expr : Expr
  shape : Shape
  height : Nat
deriving Inhabited

/-- The lambda parameters in scope, the innermost first. -/
abbrev Scope := List (String × Shape)

namespace Grammar

/-- What the reading of an expression depends on besides its tokens: the catalog, the limit on
nesting and height, and the position of the last token, where an error at the end is reported. -/
structure Setting where
  catalog : Catalog
  limit : Nat
  lastPosition : Nat

/-- A part that has been read, and the tokens after it. -/
abbrev Rest (α : Type) := α × List Token

/-- What to read: a whole expression, or an operand with operators up to a precedence. -/
inductive Goal where
  | whole
  | operand (bound : Nat)
deriving DecidableEq

/-- A reader of nested parts.  It is told where to report that the nesting is too deep. -/
abbrev Nested :=
  (position : Nat) → Goal → Scope → List Token → Except CompileError (Rest Parsed)

variable (s : Setting)

/-- The position of the next token, or of the last one at the end. -/
def positionOf (ts : List Token) : Nat :=
  match ts with
  | [] => s.lastPosition
  | t :: _ => t.position

/-! ## Single tokens -/

/-- The error of finding something else than what was expected. -/
def unexpected (expected : String) (ts : List Token) : CompileError :=
  match ts with
  | [] => .unexpectedEnd expected
  | t :: _ => .unexpectedToken t.kind.text expected t.position

def expect (kind : TokenKind) (expected : String) (ts : List Token) :
    Except CompileError (List Token) :=
  match ts with
  | t :: rest => if t.kind = kind then .ok rest else .error (unexpected expected ts)
  | [] => .error (unexpected expected ts)

/-- Takes an identifier, with its position. -/
def expectIdent (expected : String) (ts : List Token) :
    Except CompileError (Rest (String × Nat)) :=
  match ts with
  | ⟨.ident name, position⟩ :: rest => .ok ((name, position), rest)
  | _ => .error (unexpected expected ts)

/-- An identifier and an arrow start a lambda. -/
def atLambda : List Token → Bool
  | ⟨.ident _, _⟩ :: ⟨.arrow, _⟩ :: _ => true
  | _ => false

/-! ## Nodes -/

def leaf (expr : Expr) (shape : Shape) : Parsed := ⟨expr, shape, 1⟩

/-- A node with parts below it, unless it is too high. -/
def node (expr : Expr) (shape : Shape) (height position : Nat) : Except CompileError Parsed :=
  if s.limit < height then .error (.tooDeep s.limit position) else .ok ⟨expr, shape, height⟩

/-! ## Calls -/

variable (nested : Nested)

/-- Reads arguments separated by commas up to the closing parenthesis, and the height of the
tallest one. -/
def argumentsFrom (scope : Scope) :
    (fuel : Nat) → List Token → Except CompileError (Rest (List Expr × Nat))
  | 0, ts => .error (unexpected "',' or ')'" ts)
  | fuel + 1, ts => do
      let (arg, ts) ← nested (positionOf s ts) .whole scope ts
      match ts with
      | ⟨.comma, _⟩ :: rest =>
          let ((args, height), rest) ← argumentsFrom scope fuel rest
          .ok ((arg.expr :: args, max arg.height height), rest)
      | _ =>
          let rest ← expect .closeParen "',' or ')'" ts
          .ok (([arg.expr], arg.height), rest)

def arguments (scope : Scope) (ts : List Token) : Except CompileError (Rest (List Expr × Nat)) :=
  match ts with
  | ⟨.closeParen, _⟩ :: rest => .ok (([], 0), rest)
  | _ => argumentsFrom s nested scope (ts.length + 1) ts

def functionCall (scope : Scope) (space : String) (position : Nat) (ts : List Token) :
    Except CompileError (Rest Parsed) := do
  let ts ← expect .dot "'.' after function namespace" ts
  let ((name, _), ts) ← expectIdent "function name" ts
  let id := space ++ "." ++ name
  match Catalog.function? id with
  | none => .error (.unknownFunction id position)
  | some spec =>
      let ts ← expect .openParen "'(' after function name" ts
      let ((args, height), ts) ← arguments s nested scope ts
      if args.length = spec.arity then
        let parsed ← node s (.call id args) (.ofReturn spec.returns) (height + 1) position
        .ok (parsed, ts)
      else .error (.arityMismatch id spec.arity args.length position)

/-- Reads what an identifier starts.  A parameter in scope hides a data source, which hides a
function namespace. -/
def identifier (scope : Scope) (name : String) (position : Nat) (ts : List Token) :
    Except CompileError (Rest Parsed) :=
  match scope.lookup name with
  | some shape => .ok (leaf (.ref name []) shape, ts)
  | none =>
      match s.catalog.source? name with
      | some source => .ok (leaf (.ref name []) (.ofSource source), ts)
      | none =>
          if Catalog.isNamespace name then functionCall s nested scope name position ts
          else .error (.unknownIdentifier name position)

/-- Reads a literal, a name, a call or an expression in parentheses. -/
def primary (scope : Scope) (ts : List Token) : Except CompileError (Rest Parsed) :=
  match ts with
  | [] => .error (.unexpectedEnd "a value")
  | t :: rest =>
      match t.kind with
      | .number n => .ok (leaf (.literal (.number n)) .scalar, rest)
      | .str text => .ok (leaf (.literal (.str text)) .scalar, rest)
      | .bool b => .ok (leaf (.literal (.bool b)) .scalar, rest)
      | .null => .ok (leaf (.literal .null) .unknown, rest)
      | .openParen => do
          let (inner, rest) ← nested (positionOf s rest) .whole scope rest
          let rest ← expect .closeParen "')'" rest
          .ok (inner, rest)
      | .ident name => identifier s nested scope name t.position rest
      | kind => .error (.unexpectedToken kind.text "a value" t.position)

/-! ## Properties and methods -/

/-- A property of an expression that has been read.  The properties of a data source make one node
with it. -/
def property (receiver : Parsed) (name : String) (position : Nat) :
    Except CompileError Parsed :=
  let extended : Except CompileError Parsed :=
    match receiver.expr with
    | .ref source path => node s (.ref source (path ++ [name])) .unknown receiver.height position
    | target => node s (.member target name) .unknown (receiver.height + 1) position
  match receiver.shape with
  | .record (some known) =>
      if known.names.contains name then extended
      else .error (.unknownProperty known.owner name position)
  | .collection _ | .scalar =>
      .error (.invalidReceiver ("." ++ name) receiver.shape.describe position)
  | _ => extended

def lambdaArgument (scope : Scope) (element : Option KnownProperties) (ts : List Token) :
    Except CompileError (Rest (Argument Expr × Nat)) := do
  let ((param, _), ts) ← expectIdent "lambda parameter" ts
  let ts ← expect .arrow "'=>'" ts
  let (body, ts) ← nested (positionOf s ts) .whole ((param, .record element) :: scope) ts
  let ts ← expect .closeParen "')' after lambda" ts
  .ok ((.lambda param body.expr, body.height), ts)

/-- Reads the arguments of a method that are not a lambda. -/
def plainArgument (scope : Scope) (method : MethodSpec) (position : Nat) (ts : List Token) :
    Except CompileError (Rest (Argument Expr × Nat)) := do
  if atLambda ts then
    .error (.unexpectedToken "lambda" ("no lambda for '" ++ method.id ++ "'") (positionOf s ts))
  else
    let ((args, height), ts) ← arguments s nested scope ts
    if args.length = method.arity then
      match method.argument, args with
      | .value, [arg] => .ok ((.value arg, height), ts)
      | .lambda, _ :: _ =>
          .error (.unexpectedToken "expression"
            ("a lambda (x => ...) for '" ++ method.id ++ "'") position)
      | _, _ => .ok ((.none, height), ts)
    else .error (.arityMismatch method.id method.arity args.length position)

def methodCall (scope : Scope) (receiver : Parsed) (name : String) (position : Nat)
    (ts : List Token) : Except CompileError (Rest Parsed) :=
  match Catalog.method? name with
  | none => .error (.unknownMethod name position)
  | some method =>
      let onElements (element : Option KnownProperties) : Except CompileError (Rest Parsed) := do
        let ts ← expect .openParen "'('" ts
        let ((argument, height), ts) ←
          if method.argument = .lambda && atLambda ts then
            lambdaArgument s nested scope element ts
          else plainArgument s nested scope method position ts
        let parsed ← node s (.method receiver.expr name argument) (.ofMethod method element)
          (max receiver.height height + 1) position
        .ok (parsed, ts)
      match receiver.shape with
      | .collection element => onElements element
      | .unknown => onElements none
      | shape => .error (.invalidReceiver name shape.describe position)

/-- Reads properties and method calls as long as a point follows. -/
def trailing (scope : Scope) :
    (fuel : Nat) → Parsed → List Token → Except CompileError (Rest Parsed)
  | 0, receiver, ts => .ok (receiver, ts)
  | fuel + 1, receiver, ts =>
      match ts with
      | ⟨.dot, _⟩ :: rest => do
          let ((name, position), rest) ← expectIdent "property or method name" rest
          match rest with
          | ⟨.openParen, _⟩ :: _ =>
              let (receiver, rest) ← methodCall s nested scope receiver name position rest
              trailing scope fuel receiver rest
          | _ =>
              let receiver ← property s receiver name position
              trailing scope fuel receiver rest
      | _ => .ok (receiver, ts)

/-! ## Operators -/

def trailed (scope : Scope) (ts : List Token) : Except CompileError (Rest Parsed) := do
  let (receiver, ts) ← primary s nested scope ts
  trailing s nested scope ts.length receiver ts

/-- Reads an operand with the operator before it, if there is one. -/
def unary (scope : Scope) (ts : List Token) : Except CompileError (Rest Parsed) :=
  match ts with
  | ⟨.operator symbol, position⟩ :: rest =>
      match symbol.unary? with
      | some op => do
          let (operand, rest) ← nested position (.operand UnaryOp.precedence) scope rest
          let parsed ← node s (.unary op operand.expr) .scalar (operand.height + 1) position
          .ok (parsed, rest)
      | none => trailed s nested scope ts
  | _ => trailed s nested scope ts

/-- Reads operators up to the bound and their right operands, and joins them to the left. -/
def chain (bound : Nat) (scope : Scope) :
    (fuel : Nat) → Parsed → List Token → Except CompileError (Rest Parsed)
  | 0, left, ts => .ok (left, ts)
  | fuel + 1, left, ts =>
      match ts with
      | ⟨.operator (.connective c), position⟩ :: rest =>
          if c.precedence ≤ bound then do
            let (right, rest) ←
              nested (positionOf s rest) (.operand c.rightBound) scope rest
            let left ← node s (c.apply left.expr right.expr) .scalar
              (max left.height right.height + 1) position
            chain bound scope fuel left rest
          else .ok (left, ts)
      | _ => .ok (left, ts)

def operand (bound : Nat) (scope : Scope) (ts : List Token) :
    Except CompileError (Rest Parsed) := do
  let (left, ts) ← unary s nested scope ts
  chain s nested bound scope ts.length left ts

/-- Reads an expression that may be a conditional, which nests to the right. -/
def whole (scope : Scope) (ts : List Token) : Except CompileError (Rest Parsed) := do
  let (condition, ts) ← operand s nested (conditionalSpec.precedence - 1) scope ts
  match ts with
  | ⟨.question, position⟩ :: rest =>
      let (thenBranch, rest) ← nested (positionOf s rest) .whole scope rest
      let rest ← expect .colon "':' in conditional expression" rest
      let (elseBranch, rest) ← nested (positionOf s rest) .whole scope rest
      let height := max (max condition.height thenBranch.height) elseBranch.height
      let parsed ← node s (.conditional condition.expr thenBranch.expr elseBranch.expr) .unknown
        (height + 1) position
      .ok (parsed, rest)
  | _ => .ok (condition, ts)

omit nested in
/-- The reader of parts that may nest to the given depth. -/
def parseAt : (room : Nat) → Nested
  | 0, position, _, _, _ => .error (.tooDeep s.limit position)
  | room + 1, _, .whole, scope, ts => whole s (parseAt room) scope ts
  | room + 1, _, .operand bound, scope, ts => operand s (parseAt room) bound scope ts

omit nested in
def parseTokens (ts : List Token) : Except CompileError Parsed := do
  let (parsed, rest) ← parseAt s s.limit (positionOf s ts) .whole [] ts
  match rest with
  | [] => .ok parsed
  | t :: _ => .error (.unexpectedToken t.kind.text "end of expression" t.position)

end Grammar

/-- Reads tokens as an expression whose nesting and height are within a limit. -/
def parseTokens (catalog : Catalog) (limit : Nat) (ts : List Token) :
    Except CompileError Parsed :=
  Grammar.parseTokens ⟨catalog, limit, (ts.getLast?.map Token.position).getD 0⟩ ts

def parse (catalog : Catalog) (limit : Nat) (source : String) : Except CompileError Expr := do
  let ts ← Token.scan source
  let parsed ← parseTokens catalog limit ts
  .ok parsed.expr

end CommissionRules
