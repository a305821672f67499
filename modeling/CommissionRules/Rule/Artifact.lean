import CommissionRules.Binary
import CommissionRules.Rule

/-!
# Artifacts

The binary form of compiled rules.  Every structure is its fields in order, and every variant its
number followed by its fields.  Nested values and expressions are read with fuel; each of them has
at least one byte, so the number of bytes is enough.
-/

namespace CommissionRules.Artifact

open Binary (Reader)

/-! ## Writing -/

mutual

def value : Value → List UInt8
  | .null => [0]
  | .bool b => 1 :: Binary.bool b
  | .number n => 2 :: Binary.littleEndian 8 n.bits.toNat
  | .str s => 3 :: Binary.text s
  | .list items => 4 :: Binary.count items.length ++ values items
  | .record fields => 5 :: Binary.count fields.length ++ entries fields

def values : List Value → List UInt8
  | [] => []
  | v :: rest => value v ++ values rest

def entries : List (String × Value) → List UInt8
  | [] => []
  | (k, v) :: rest => Binary.text k ++ value v ++ entries rest

end

/-- The number of an operator among those of its kind. -/
def operator {α : Type} [BEq α] (all : List α) (op : α) : List UInt8 :=
  Binary.count (all.idxOf op)

mutual

def expr : Expr → List UInt8
  | .literal v => 0 :: value v
  | .ref source path => 1 :: Binary.text source ++ Binary.list Binary.text path
  | .member target name => 2 :: expr target ++ Binary.text name
  | .unary op operand => 3 :: operator UnaryOp.all op ++ expr operand
  | .binary op left right => 4 :: operator BinaryOp.all op ++ expr left ++ expr right
  | .logical op left right => 5 :: operator LogicalOp.all op ++ expr left ++ expr right
  | .conditional c t e => 6 :: expr c ++ expr t ++ expr e
  | .call function args => 7 :: Binary.text function ++ Binary.count args.length ++ exprs args
  | .method receiver name arg => 8 :: expr receiver ++ Binary.text name ++ argument arg

def exprs : List Expr → List UInt8
  | [] => []
  | e :: rest => expr e ++ exprs rest

def argument : Argument Expr → List UInt8
  | .none => [0]
  | .value e => 1 :: expr e
  | .lambda param body => 2 :: Binary.text param ++ expr body

end

def compiled (c : CompiledExpression) : List UInt8 :=
  Binary.text c.source ++ expr c.expr ++ Binary.list Binary.text c.warnings

def action (a : CompiledAction) : List UInt8 :=
  Binary.text a.name ++ compiled a.onSuccess ++ compiled a.onFailure

def encode (rule : CompiledRule) : List UInt8 :=
  Binary.text rule.groupId ++ Binary.text rule.name ++ compiled rule.condition
    ++ Binary.list action rule.actions

/-! ## Reading -/

def readNumber : Reader Number := do
  let bits ← Reader.littleEndian 8
  pure ⟨bits.toUInt64⟩

/-- Reads a value, given the reader of the values inside it. -/
def readValueWith (nested : Reader Value) : Reader Value := do
  match ← Reader.variant with
  | 0 => pure .null
  | 1 => pure (.bool (← Reader.bool))
  | 2 => pure (.number (← readNumber))
  | 3 => pure (.str (← Reader.text))
  | 4 => pure (.list (← Reader.list nested))
  | 5 =>
      let field : Reader (String × Value) := do
        let name ← Reader.text
        let value ← nested
        pure (name, value)
      pure (.ofFields (← Reader.list field))
  | _ => Reader.fail

def readValueAt : (fuel : Nat) → Reader Value
  | 0 => Reader.fail
  | fuel + 1 => readValueWith (readValueAt fuel)

def readValue : Reader Value := fun bytes => readValueAt (bytes.length + 1) bytes

/-- Reads the argument of a method, given the reader of the expression inside it. -/
def readArgument (nested : Reader Expr) : Reader (Argument Expr) := do
  match ← Reader.variant with
  | 0 => pure .none
  | 1 => pure (.value (← nested))
  | 2 =>
      let param ← Reader.text
      let body ← nested
      pure (.lambda param body)
  | _ => Reader.fail

/-- Reads an expression, given the reader of the expressions inside it. -/
def readExprWith (nested : Reader Expr) : Reader Expr := do
  match ← Reader.variant with
  | 0 => pure (.literal (← readValue))
  | 1 =>
      let source ← Reader.text
      let path ← Reader.list Reader.text
      pure (.ref source path)
  | 2 =>
      let target ← nested
      let name ← Reader.text
      pure (.member target name)
  | 3 =>
      let op ← Reader.oneOf UnaryOp.all
      let operand ← nested
      pure (.unary op operand)
  | 4 =>
      let op ← Reader.oneOf BinaryOp.all
      let left ← nested
      let right ← nested
      pure (.binary op left right)
  | 5 =>
      let op ← Reader.oneOf LogicalOp.all
      let left ← nested
      let right ← nested
      pure (.logical op left right)
  | 6 =>
      let condition ← nested
      let thenBranch ← nested
      let elseBranch ← nested
      pure (.conditional condition thenBranch elseBranch)
  | 7 =>
      let function ← Reader.text
      let args ← Reader.list nested
      pure (.call function args)
  | 8 =>
      let receiver ← nested
      let name ← Reader.text
      let arg ← readArgument nested
      pure (.method receiver name arg)
  | _ => Reader.fail

def readExprAt : (fuel : Nat) → Reader Expr
  | 0 => Reader.fail
  | fuel + 1 => readExprWith (readExprAt fuel)

def readExpr : Reader Expr := fun bytes => readExprAt (bytes.length + 1) bytes

def readCompiled : Reader CompiledExpression := do
  let source ← Reader.text
  let expr ← readExpr
  let warnings ← Reader.list Reader.text
  pure ⟨source, expr, warnings⟩

def readAction : Reader CompiledAction := do
  let name ← Reader.text
  let onSuccess ← readCompiled
  let onFailure ← readCompiled
  pure ⟨name, onSuccess, onFailure⟩

def readRule : Reader CompiledRule := do
  let groupId ← Reader.text
  let name ← Reader.text
  let condition ← readCompiled
  let actions ← Reader.list readAction
  pure ⟨groupId, name, condition, actions⟩

/-- The rule that some bytes start with. -/
def decode? (bytes : List UInt8) : Option CompiledRule := (readRule.run bytes).map (·.1)

end CommissionRules.Artifact
