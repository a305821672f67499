import CommissionRules.Grammar
import CommissionRules.Proofs.Except

/-!
# Spelling

`Grammar.Spelled` is the grammar as a relation between expressions and the kinds of their tokens:
one rule for each form, with the precedence that the operator table gives the operands.  It does not
say how tokens are read.  The main statement is `Grammar.parseAt_spelled`: whatever is read is
spelled by exactly the tokens that were taken, and the operators that could go on with it have been
taken with it.

Two rules leave the expression as it is: parentheses around it, and a bound looser than it needs.
-/

namespace CommissionRules

/-! ## Bounds -/

namespace OperatorSpec

/-- The loosest precedence of an operand on the left: an operand of the same precedence belongs to
an operator that groups to the left. -/
def leftBound (spec : OperatorSpec) : Nat :=
  match spec.associativity with
  | .left => spec.precedence
  | .right => spec.precedence - 1

/-- The loosest precedence of an operand on the right. -/
def rightBound (spec : OperatorSpec) : Nat :=
  match spec.associativity with
  | .left => spec.precedence - 1
  | .right => spec.precedence

end OperatorSpec

/-- The bound of an expression that stands between delimiters of its own. -/
abbrev loosest : Nat := conditionalSpec.precedence

namespace Connective

theorem one_lt_precedence (c : Connective) : 1 < c.spec.precedence := by
  cases c with
  | binary op => cases op <;> decide
  | logical op => cases op <;> decide

theorem precedence_lt_loosest (c : Connective) : c.spec.precedence < loosest := by
  cases c with
  | binary op => cases op <;> decide
  | logical op => cases op <;> decide

/-- Only the operators that bind tightest group to the right, so that operators of one precedence
group to the same side. -/
theorem leftBound_eq (c : Connective) :
    c.spec.leftBound = if c.spec.precedence = 2 then 1 else c.spec.precedence := by
  cases c with
  | binary op => cases op <;> rfl
  | logical op => cases op <;> rfl

theorem rightBound_eq (c : Connective) :
    c.spec.rightBound = if c.spec.precedence = 2 then 2 else c.spec.precedence - 1 := by
  cases c with
  | binary op => cases op <;> rfl
  | logical op => cases op <;> rfl

theorem leftBound_le_precedence (c : Connective) : c.spec.leftBound ≤ c.spec.precedence := by
  have h := c.leftBound_eq
  split at h <;> omega

theorem rightBound_le_precedence (c : Connective) : c.spec.rightBound ≤ c.spec.precedence := by
  have h := c.rightBound_eq
  split at h <;> omega

theorem one_le_leftBound (c : Connective) : 1 ≤ c.spec.leftBound := by
  have h := c.leftBound_eq
  have hprecedence := c.one_lt_precedence
  split at h <;> omega

theorem one_lt_rightBound (c : Connective) : 1 < c.spec.rightBound := by
  have h := c.rightBound_eq
  have hprecedence := c.one_lt_precedence
  split at h <;> omega

/-- Of two operators in a row, the right operand of the first one leaves the second one alone
exactly if the second one takes the first one with its operands on its left. -/
theorem rightBound_lt_precedence_iff (c next : Connective) :
    c.spec.rightBound < next.spec.precedence ↔ c.spec.precedence ≤ next.spec.leftBound := by
  have hright := c.rightBound_eq
  have hleft := next.leftBound_eq
  have hc := c.one_lt_precedence
  have hnext := next.one_lt_precedence
  split at hright <;> split at hleft <;> omega

end Connective

namespace UnaryOp

/-- The symbol of an operator before its operand. -/
def written : UnaryOp → Symbol
  | not => .not
  | negate => .connective (.binary .subtract)

theorem unary?_eq_some {symbol : Symbol} {op : UnaryOp} :
    symbol.unary? = some op ↔ symbol = op.written := by
  constructor
  · intro h
    unfold Symbol.unary? at h
    split at h <;> cases h <;> rfl
  · rintro rfl
    cases op <;> rfl

end UnaryOp

namespace Shape

/-- Holds when a property of the name may be asked of a value of the shape. -/
def Admits (name : String) : Shape → Prop
  | unknown | record none => True
  | record (some known) => name ∈ known.names
  | scalar | collection _ => False

/-- What is known of the items of a receiver; only collections and values of unknown shape
receive methods. -/
def items? : Shape → Option (Option KnownProperties)
  | collection element => some element
  | unknown => some none
  | scalar | record _ => none

end Shape

/-- The height of the tallest of several parts. -/
def Parsed.tallest (parts : List Parsed) : Nat :=
  parts.foldr (fun part height => max part.height height) 0

/-- The kinds of tokens, without their positions. -/
abbrev Token.kinds (ts : List Token) : List TokenKind := ts.map Token.kind

namespace Grammar

/-! ## The rules -/

/-- Sequences of tokens with commas between them. -/
def listed : List (List TokenKind) → List TokenKind
  | [] => []
  | [ts] => ts
  | ts :: rest => ts ++ .comma :: listed rest

theorem listed_cons (ts : List TokenKind) {rest : List (List TokenKind)} (h : rest ≠ []) :
    listed (ts :: rest) = ts ++ .comma :: listed rest := by
  cases rest with
  | nil => exact absurd rfl h
  | cons next rest => rfl

/-- The expressions of a scope with the tokens that spell them.  No operator outside parentheses is
looser than the bound; the bound zero is that of a receiver.  The limit bounds every node with parts
below it, and every path. -/
inductive Spelled (s : Setting) : (bound : Nat) → Scope → Parsed → List TokenKind → Prop
  | number {scope} (n : Number) :
      Spelled s 0 scope (leaf (.literal (.number n)) .scalar) [.number n]
  | text {scope} (t : String) : Spelled s 0 scope (leaf (.literal (.str t)) .scalar) [.str t]
  | bool {scope} (b : Bool) : Spelled s 0 scope (leaf (.literal (.bool b)) .scalar) [.bool b]
  | null {scope} : Spelled s 0 scope (leaf (.literal .null) .unknown) [.null]
  | parameter {scope name shape} (bound : scope.lookup name = some shape) :
      Spelled s 0 scope (leaf (.ref name []) shape) [.ident name]
  | source {scope name source} (free : scope.lookup name = none)
      (known : s.catalog.source? name = some source) :
      Spelled s 0 scope (leaf (.ref name []) (.ofSource source)) [.ident name]
  | group {scope parsed ts} (inner : Spelled s loosest scope parsed ts) :
      Spelled s 0 scope parsed (.openParen :: (ts ++ [.closeParen]))
  | call {scope space name spec} {parts : List (Parsed × List TokenKind)}
      (free : scope.lookup space = none) (unknown : s.catalog.source? space = none)
      (isSpace : Catalog.isNamespace space = true)
      (known : Catalog.function? (space ++ "." ++ name) = some spec)
      (args : ∀ part ∈ parts, Spelled s loosest scope part.1 part.2)
      (arity : parts.length = spec.arity)
      (height : Parsed.tallest (parts.map (·.1)) + 1 ≤ s.limit) :
      Spelled s 0 scope ⟨.call (space ++ "." ++ name) (parts.map (·.1.expr)),
          .ofReturn spec.returns, Parsed.tallest (parts.map (·.1)) + 1⟩
        (.ident space :: .dot :: .ident name :: .openParen
          :: (listed (parts.map (·.2)) ++ [.closeParen]))
  | path {scope source names shape height name ts}
      (receiver : Spelled s 0 scope ⟨.ref source names, shape, height⟩ ts)
      (admits : shape.Admits name) (limit : height ≤ s.limit) :
      Spelled s 0 scope ⟨.ref source (names ++ [name]), .unknown, height⟩
        (ts ++ [.dot, .ident name])
  | member {scope receiver name ts} (target : Spelled s 0 scope receiver ts)
      (computed : ∀ source names, receiver.expr ≠ .ref source names)
      (admits : receiver.shape.Admits name) (height : receiver.height + 1 ≤ s.limit) :
      Spelled s 0 scope ⟨.member receiver.expr name, .unknown, receiver.height + 1⟩
        (ts ++ [.dot, .ident name])
  | plainMethod {scope receiver name method element ts} (target : Spelled s 0 scope receiver ts)
      (known : Catalog.method? name = some method) (kind : method.argument = .none)
      (items : receiver.shape.items? = some element)
      (height : max receiver.height 0 + 1 ≤ s.limit) :
      Spelled s 0 scope ⟨.method receiver.expr name .none, .ofMethod method element,
          max receiver.height 0 + 1⟩
        (ts ++ [.dot, .ident name, .openParen, .closeParen])
  | valueMethod {scope receiver arg name method element ts ts'}
      (target : Spelled s 0 scope receiver ts) (argument : Spelled s loosest scope arg ts')
      (known : Catalog.method? name = some method) (kind : method.argument = .value)
      (items : receiver.shape.items? = some element)
      (height : max receiver.height arg.height + 1 ≤ s.limit) :
      Spelled s 0 scope ⟨.method receiver.expr name (.value arg.expr), .ofMethod method element,
          max receiver.height arg.height + 1⟩
        (ts ++ .dot :: .ident name :: .openParen :: (ts' ++ [.closeParen]))
  | lambdaMethod {scope receiver param body name method element ts ts'}
      (target : Spelled s 0 scope receiver ts)
      (function : Spelled s loosest ((param, .record element) :: scope) body ts')
      (known : Catalog.method? name = some method) (kind : method.argument = .lambda)
      (items : receiver.shape.items? = some element)
      (height : max receiver.height body.height + 1 ≤ s.limit) :
      Spelled s 0 scope ⟨.method receiver.expr name (.lambda param body.expr),
          .ofMethod method element, max receiver.height body.height + 1⟩
        (ts ++ .dot :: .ident name :: .openParen :: .ident param :: .arrow
          :: (ts' ++ [.closeParen]))
  | unary {scope operand ts} (op : UnaryOp) (right : Spelled s op.spec.rightBound scope operand ts)
      (height : operand.height + 1 ≤ s.limit) :
      Spelled s op.spec.precedence scope ⟨.unary op operand.expr, .scalar, operand.height + 1⟩
        (.operator op.written :: ts)
  | connective {scope l r ts ts'} (c : Connective) (left : Spelled s c.spec.leftBound scope l ts)
      (right : Spelled s c.spec.rightBound scope r ts')
      (height : max l.height r.height + 1 ≤ s.limit) :
      Spelled s c.spec.precedence scope
        ⟨c.apply l.expr r.expr, .scalar, max l.height r.height + 1⟩
        (ts ++ .operator (.connective c) :: ts')
  | conditional {scope condition thenBranch elseBranch ts ts' ts''}
      (left : Spelled s conditionalSpec.leftBound scope condition ts)
      (middle : Spelled s loosest scope thenBranch ts')
      (right : Spelled s conditionalSpec.rightBound scope elseBranch ts'')
      (height : max (max condition.height thenBranch.height) elseBranch.height + 1 ≤ s.limit) :
      Spelled s conditionalSpec.precedence scope
        ⟨.conditional condition.expr thenBranch.expr elseBranch.expr, .unknown,
          max (max condition.height thenBranch.height) elseBranch.height + 1⟩
        (ts ++ .question :: (ts' ++ .colon :: ts''))
  | loosen {bound bound' scope parsed ts} (tighter : Spelled s bound scope parsed ts)
      (le : bound ≤ bound') : Spelled s bound' scope parsed ts

/-- The arguments of a method of some kind, with their height and the tokens between the
parentheses. -/
inductive SpelledArgument (s : Setting) (scope : Scope) (element : Option KnownProperties) :
    ArgumentKind → Argument Expr → Nat → List TokenKind → Prop
  | none : SpelledArgument s scope element .none .none 0 []
  | value {arg ts} (argument : Spelled s loosest scope arg ts) :
      SpelledArgument s scope element .value (.value arg.expr) arg.height ts
  | lambda {param body ts}
      (function : Spelled s loosest ((param, .record element) :: scope) body ts) :
      SpelledArgument s scope element .lambda (.lambda param body.expr) body.height
        (.ident param :: .arrow :: ts)

/-! ## What reading takes -/

/-- The bound of what is read for a goal.  An operator before an operand is read in any case. -/
def Goal.bound : Goal → Nat
  | whole => loosest
  | operand bound => max UnaryOp.precedence bound

/-- No operator up to the bound stands next. -/
def Stops (bound : Nat) (ts : List Token) : Prop :=
  ∀ c, (ts.head?.map Token.kind) = some (.operator (.connective c)) → bound < c.spec.precedence

/-- An operator that stands next takes an operand of the precedence on its left. -/
def Follows (precedence : Nat) (ts : List Token) : Prop :=
  ∀ c, (ts.head?.map Token.kind) = some (.operator (.connective c)) →
    precedence ≤ c.spec.leftBound

/-- A reader that takes the tokens that spell what it gives. -/
def Nested.Spells (s : Setting) (nested : Nested) : Prop :=
  ∀ {position goal scope ts parsed rest}, nested position goal scope ts = .ok (parsed, rest) →
    ∃ used, ts = used ++ rest ∧ Spelled s goal.bound scope parsed (Token.kinds used) ∧
      Stops goal.bound rest

theorem node_eq_ok {s : Setting} {expr : Expr} {shape : Shape} {height position : Nat}
    {parsed : Parsed} :
    node s expr shape height position = .ok parsed ↔
      height ≤ s.limit ∧ parsed = ⟨expr, shape, height⟩ := by
  rw [node]
  split
  · simp; omega
  · simp only [Except.ok.injEq]
    constructor
    · intro heq
      subst heq
      exact ⟨by omega, rfl⟩
    · intro h
      obtain ⟨-, rfl⟩ := h
      rfl

theorem node_of_le {s : Setting} {expr : Expr} {shape : Shape} {height position : Nat}
    (h : height ≤ s.limit) : node s expr shape height position = .ok ⟨expr, shape, height⟩ :=
  node_eq_ok.mpr ⟨h, rfl⟩

theorem expect_eq_ok {kind : TokenKind} {expected : String} {ts rest : List Token} :
    expect kind expected ts = .ok rest ↔ ∃ position, ts = ⟨kind, position⟩ :: rest := by
  cases ts with
  | nil => simp [expect]
  | cons t ts =>
    obtain ⟨found, position⟩ := t
    rw [expect]
    split <;> simp_all

theorem expectIdent_eq_ok {expected name : String} {position : Nat} {ts rest : List Token} :
    expectIdent expected ts = .ok ((name, position), rest) ↔
      ts = ⟨.ident name, position⟩ :: rest := by
  unfold expectIdent
  split
  · simp
  · next hident =>
    simp only [reduceCtorEq, false_iff]
    exact fun h => hident _ _ _ h

section Readers

variable {s : Setting} {nested : Nested} {scope : Scope} {ts rest : List Token}
  {parsed receiver : Parsed}

theorem Nested.Spells.whole (spells : nested.Spells s) {position : Nat}
    (h : nested position .whole scope ts = .ok (parsed, rest)) :
    ∃ used, ts = used ++ rest ∧ Spelled s loosest scope parsed (Token.kinds used) := by
  obtain ⟨used, rfl, spelled, -⟩ := spells h
  exact ⟨used, rfl, spelled⟩

theorem argumentsFrom_spelled (spells : nested.Spells s) {fuel : Nat} {args : List Expr}
    {height : Nat}
    (h : argumentsFrom s nested scope fuel ts = .ok ((args, height), rest)) :
    ∃ (used : List Token) (parts : List (Parsed × List TokenKind)), ts = used ++ rest ∧
      parts ≠ [] ∧ Token.kinds used = listed (parts.map (·.2)) ++ [.closeParen] ∧
      args = parts.map (·.1.expr) ∧ height = Parsed.tallest (parts.map (·.1)) ∧
      ∀ part ∈ parts, Spelled s loosest scope part.1 part.2 := by
  induction fuel generalizing ts rest args height with
  | zero => simp [argumentsFrom] at h
  | succ fuel ih =>
    obtain ⟨⟨arg, ts'⟩, harg, h⟩ := bind_eq_ok.mp h
    obtain ⟨used, hused, spelled⟩ := spells.whole harg
    dsimp only at h
    split at h
    · next position ts' =>
      obtain ⟨⟨⟨others, height'⟩, rest'⟩, hothers, h⟩ := bind_eq_ok.mp h
      obtain ⟨used', parts, hused', hne, hkinds, rfl, rfl, hparts⟩ := ih hothers
      simp only [Except.ok.injEq, Prod.mk.injEq] at h
      obtain ⟨⟨rfl, rfl⟩, rfl⟩ := h
      refine ⟨used ++ ⟨.comma, position⟩ :: used', (arg, Token.kinds used) :: parts,
        by simp [hused, hused'], by simp, ?_, rfl, rfl, ?_⟩
      · rw [List.map_cons, listed_cons _ (by simpa using hne)]
        simp [hkinds]
      · intro part hpart
        rcases List.mem_cons.1 hpart with rfl | hpart
        · exact spelled
        · exact hparts part hpart
    · obtain ⟨rest', hclose, h⟩ := bind_eq_ok.mp h
      obtain ⟨position, hts⟩ := expect_eq_ok.mp hclose
      simp only [Except.ok.injEq, Prod.mk.injEq] at h
      obtain ⟨⟨rfl, rfl⟩, rfl⟩ := h
      refine ⟨used ++ [⟨.closeParen, position⟩], [(arg, Token.kinds used)], by simp [hused, hts],
        by simp, by simp [listed], rfl, by simp [Parsed.tallest], ?_⟩
      intro part hpart
      rw [List.mem_singleton.1 hpart]
      exact spelled

theorem arguments_spelled (spells : nested.Spells s) {args : List Expr} {height : Nat}
    (h : arguments s nested scope ts = .ok ((args, height), rest)) :
    ∃ (used : List Token) (parts : List (Parsed × List TokenKind)), ts = used ++ rest ∧
      Token.kinds used = listed (parts.map (·.2)) ++ [.closeParen] ∧
      args = parts.map (·.1.expr) ∧ height = Parsed.tallest (parts.map (·.1)) ∧
      ∀ part ∈ parts, Spelled s loosest scope part.1 part.2 := by
  unfold arguments at h
  split at h
  · next position _ =>
    simp only [Except.ok.injEq, Prod.mk.injEq] at h
    obtain ⟨⟨rfl, rfl⟩, rfl⟩ := h
    exact ⟨[⟨.closeParen, position⟩], [], rfl, rfl, rfl, rfl, by simp⟩
  · obtain ⟨used, parts, rfl, -, h⟩ := argumentsFrom_spelled spells h
    exact ⟨used, parts, rfl, h⟩

theorem functionCall_spelled (spells : nested.Spells s) {space : String} {position : Nat}
    (free : scope.lookup space = none) (unknown : s.catalog.source? space = none)
    (isSpace : Catalog.isNamespace space = true)
    (h : functionCall s nested scope space position ts = .ok (parsed, rest)) :
    ∃ used, ts = used ++ rest ∧
      Spelled s 0 scope parsed (.ident space :: Token.kinds used) := by
  obtain ⟨ts₁, hdot, h⟩ := bind_eq_ok.mp h
  obtain ⟨dot, hts⟩ := expect_eq_ok.mp hdot
  obtain ⟨⟨⟨name, ident⟩, ts₂⟩, hname, h⟩ := bind_eq_ok.mp h
  have hts₁ := expectIdent_eq_ok.mp hname
  dsimp only at h
  split at h
  · cases h
  · next spec known =>
    obtain ⟨ts₃, hparen, h⟩ := bind_eq_ok.mp h
    obtain ⟨paren, hts₂⟩ := expect_eq_ok.mp hparen
    obtain ⟨⟨⟨args, height⟩, ts₄⟩, hargs, h⟩ := bind_eq_ok.mp h
    obtain ⟨used, parts, hused, hkinds, rfl, rfl, spelled⟩ := arguments_spelled spells hargs
    dsimp only at h
    split at h
    · next arity =>
      obtain ⟨made, hmade, h⟩ := bind_eq_ok.mp h
      obtain ⟨limit, rfl⟩ := node_eq_ok.mp hmade
      cases h
      refine ⟨⟨.dot, dot⟩ :: ⟨.ident name, ident⟩ :: ⟨.openParen, paren⟩ :: used,
        by simp [hts, hts₁, hts₂, hused], ?_⟩
      simp only [List.map_cons, hkinds]
      exact .call free unknown isSpace known spelled (by simpa using arity) limit
    · cases h

theorem identifier_spelled (spells : nested.Spells s) {name : String} {position : Nat}
    (h : identifier s nested scope name position ts = .ok (parsed, rest)) :
    ∃ used, ts = used ++ rest ∧ Spelled s 0 scope parsed (.ident name :: Token.kinds used) := by
  rw [identifier] at h
  split at h
  · next shape bound =>
    cases h
    exact ⟨[], rfl, .parameter bound⟩
  · next free =>
    split at h
    · next source known =>
      cases h
      exact ⟨[], rfl, .source free known⟩
    · next unknown =>
      split at h
      · next isSpace => exact functionCall_spelled spells free unknown isSpace h
      · cases h

theorem primary_spelled (spells : nested.Spells s)
    (h : primary s nested scope ts = .ok (parsed, rest)) :
    ∃ used, ts = used ++ rest ∧ Spelled s 0 scope parsed (Token.kinds used) := by
  unfold primary at h
  split at h
  · cases h
  · next t ts' =>
    obtain ⟨kind, position⟩ := t
    dsimp only at h
    split at h
    · next n =>
      cases h
      exact ⟨[⟨.number n, position⟩], rfl, .number n⟩
    · next text =>
      cases h
      exact ⟨[⟨.str text, position⟩], rfl, .text text⟩
    · next b =>
      cases h
      exact ⟨[⟨.bool b, position⟩], rfl, .bool b⟩
    · cases h
      exact ⟨[⟨.null, position⟩], rfl, .null⟩
    · obtain ⟨⟨inner, ts₁⟩, hinner, h⟩ := bind_eq_ok.mp h
      obtain ⟨used, hused, spelled⟩ := spells.whole hinner
      obtain ⟨ts₂, hclose, h⟩ := bind_eq_ok.mp h
      obtain ⟨close, hts₁⟩ := expect_eq_ok.mp hclose
      cases h
      refine ⟨⟨.openParen, position⟩ :: (used ++ [⟨.closeParen, close⟩]),
        by simp_all, ?_⟩
      simpa using spelled.group
    · next name =>
      obtain ⟨used, hused, spelled⟩ := identifier_spelled spells h
      exact ⟨⟨.ident name, position⟩ :: used, by simp [hused], spelled⟩
    · cases h

/-- A property extends the path of a reference, and makes a node of its own above anything else. -/
theorem extension_spelled {kinds : List TokenKind} (spelled : Spelled s 0 scope receiver kinds)
    {name : String} {position : Nat} (admits : receiver.shape.Admits name)
    (h : (match receiver.expr with
      | .ref source path => node s (.ref source (path ++ [name])) .unknown receiver.height position
      | target => node s (.member target name) .unknown (receiver.height + 1) position)
        = .ok parsed) :
    Spelled s 0 scope parsed (kinds ++ [.dot, .ident name]) := by
  split at h
  · next source path hexpr =>
    obtain ⟨limit, rfl⟩ := node_eq_ok.mp h
    obtain ⟨expr, shape, height⟩ := receiver
    cases hexpr
    exact .path spelled admits limit
  · next computed =>
    obtain ⟨limit, rfl⟩ := node_eq_ok.mp h
    exact .member spelled computed admits limit

theorem property_spelled {kinds : List TokenKind} (spelled : Spelled s 0 scope receiver kinds)
    {name : String} {position : Nat}
    (h : property s receiver name position = .ok parsed) :
    Spelled s 0 scope parsed (kinds ++ [.dot, .ident name]) := by
  unfold property at h
  dsimp only at h
  split at h
  · next known hshape =>
    split at h
    · next hname =>
      have admits : receiver.shape.Admits name := by
        rw [hshape]
        exact List.contains_iff_mem.mp hname
      exact extension_spelled spelled admits h
    · cases h
  · cases h
  · cases h
  · next hknown hcollection hscalar =>
    have admits : receiver.shape.Admits name := by
      cases hshape : receiver.shape with
      | unknown => trivial
      | scalar => exact absurd hshape hscalar
      | collection element => exact absurd hshape (hcollection element)
      | record properties =>
        cases properties with
        | none => trivial
        | some known => exact absurd hshape (hknown known)
    exact extension_spelled spelled admits h

theorem lambdaArgument_spelled (spells : nested.Spells s) {element : Option KnownProperties}
    {argument : Argument Expr} {height : Nat}
    (h : lambdaArgument s nested scope element ts = .ok ((argument, height), rest)) :
    ∃ used kinds, ts = used ++ rest ∧ Token.kinds used = kinds ++ [.closeParen] ∧
      SpelledArgument s scope element .lambda argument height kinds := by
  obtain ⟨⟨⟨param, ident⟩, ts₁⟩, hparam, h⟩ := bind_eq_ok.mp h
  have hts := expectIdent_eq_ok.mp hparam
  obtain ⟨ts₂, harrow, h⟩ := bind_eq_ok.mp h
  obtain ⟨arrow, hts₁⟩ := expect_eq_ok.mp harrow
  obtain ⟨⟨body, ts₃⟩, hbody, h⟩ := bind_eq_ok.mp h
  obtain ⟨used, hused, spelled⟩ := spells.whole hbody
  obtain ⟨ts₄, hclose, h⟩ := bind_eq_ok.mp h
  obtain ⟨close, hts₃⟩ := expect_eq_ok.mp hclose
  cases h
  exact ⟨⟨.ident param, ident⟩ :: ⟨.arrow, arrow⟩ :: (used ++ [⟨.closeParen, close⟩]),
    .ident param :: .arrow :: Token.kinds used, by simp [hts, hts₁, hused, hts₃], by simp,
    .lambda spelled⟩

/-- The arity leaves one argument where the kind is a value, and none where it is none; an argument
in the place of a lambda is refused. -/
theorem plainArgument_spelled (spells : nested.Spells s) {method : MethodSpec} {position : Nat}
    {element : Option KnownProperties} {argument : Argument Expr} {height : Nat}
    (h : plainArgument s nested scope method position ts = .ok ((argument, height), rest)) :
    ∃ used kinds, ts = used ++ rest ∧ Token.kinds used = kinds ++ [.closeParen] ∧
      SpelledArgument s scope element method.argument argument height kinds := by
  rw [plainArgument] at h
  split at h
  · cases h
  · obtain ⟨⟨⟨args, height'⟩, ts₁⟩, hargs, h⟩ := bind_eq_ok.mp h
    obtain ⟨used, parts, hused, hkinds, rfl, rfl, spelled⟩ := arguments_spelled spells hargs
    refine ⟨used, listed (parts.map (·.2)), ?_⟩
    dsimp only at h
    split at h
    · next arity =>
      rw [List.length_map] at arity
      cases hkind : method.argument with
      | none =>
        have hnil : parts = [] := by
          simpa [MethodSpec.arity, hkind] using arity
        subst hnil
        simp only [hkind, List.map_nil] at h
        cases h
        exact ⟨hused, hkinds, .none⟩
      | value =>
        have hone : parts.length = 1 := by
          simpa [MethodSpec.arity, hkind] using arity
        obtain ⟨⟨arg, kinds⟩, rfl⟩ := List.length_eq_one_iff.mp hone
        simp only [hkind, List.map_cons, List.map_nil, Except.ok.injEq, Prod.mk.injEq] at h
        obtain ⟨⟨rfl, rfl⟩, rfl⟩ := h
        have htallest : Parsed.tallest [arg] = arg.height := by simp [Parsed.tallest]
        simp only [List.map_cons, List.map_nil, htallest]
        exact ⟨hused, hkinds, .value (spelled _ List.mem_cons_self)⟩
      | lambda =>
        have hone : parts.length = 1 := by
          simpa [MethodSpec.arity, hkind] using arity
        obtain ⟨arg, rfl⟩ := List.length_eq_one_iff.mp hone
        simp only [hkind, List.map_cons, List.map_nil] at h
        cases h
    · cases h

theorem method_spelled {name : String} {method : MethodSpec} {element : Option KnownProperties}
    {argument : Argument Expr} {height position : Nat} {kinds kinds' : List TokenKind}
    (spelled : Spelled s 0 scope receiver kinds)
    (known : Catalog.method? name = some method) (items : receiver.shape.items? = some element)
    (spelledArgument : SpelledArgument s scope element method.argument argument height kinds')
    (h : node s (.method receiver.expr name argument) (.ofMethod method element)
      (max receiver.height height + 1) position = .ok parsed) :
    Spelled s 0 scope parsed
      (kinds ++ .dot :: .ident name :: .openParen :: (kinds' ++ [.closeParen])) := by
  obtain ⟨limit, rfl⟩ := node_eq_ok.mp h
  generalize hkind : method.argument = kind at spelledArgument
  cases spelledArgument with
  | none => exact .plainMethod spelled known hkind items limit
  | value argument => exact .valueMethod spelled argument known hkind items limit
  | lambda function => exact .lambdaMethod spelled function known hkind items limit

/-- Only a collection and a value of unknown shape receive a method, and it is the argument that
takes the tokens. -/
theorem methodCall_eq_ok {name : String} {position : Nat}
    (h : methodCall s nested scope receiver name position ts = .ok (parsed, rest)) :
    ∃ method element argument height paren ts₁, Catalog.method? name = some method ∧
      receiver.shape.items? = some element ∧ ts = ⟨.openParen, paren⟩ :: ts₁ ∧
      (if method.argument = .lambda && atLambda ts₁ then lambdaArgument s nested scope element ts₁
        else plainArgument s nested scope method position ts₁) = .ok ((argument, height), rest) ∧
      node s (.method receiver.expr name argument) (.ofMethod method element)
        (max receiver.height height + 1) position = .ok parsed := by
  rw [methodCall] at h
  split at h
  · cases h
  · next method known =>
    extract_lets onElements at h
    obtain ⟨element, items, h⟩ : ∃ element, receiver.shape.items? = some element ∧
        onElements element = .ok (parsed, rest) := by
      split at h
      · next element hshape => exact ⟨element, by rw [hshape]; rfl, h⟩
      · next hshape => exact ⟨none, by rw [hshape]; rfl, h⟩
      · cases h
    obtain ⟨ts₁, hparen, h⟩ := bind_eq_ok.mp h
    obtain ⟨paren, hts⟩ := expect_eq_ok.mp hparen
    dsimp only at h
    split at h
    · next hlambda =>
      obtain ⟨⟨⟨argument, height⟩, ts₂⟩, hargument, h⟩ := bind_eq_ok.mp h
      obtain ⟨made, hmade, h⟩ := bind_eq_ok.mp h
      cases h
      refine ⟨method, element, argument, height, paren, ts₁, known, items, hts, ?_, hmade⟩
      rw [if_pos hlambda, hargument]
    · next hlambda =>
      obtain ⟨⟨⟨argument, height⟩, ts₂⟩, hargument, h⟩ := bind_eq_ok.mp h
      obtain ⟨made, hmade, h⟩ := bind_eq_ok.mp h
      cases h
      refine ⟨method, element, argument, height, paren, ts₁, known, items, hts, ?_, hmade⟩
      rw [if_neg hlambda, hargument]

theorem methodCall_spelled (spells : nested.Spells s) {kinds : List TokenKind}
    (spelled : Spelled s 0 scope receiver kinds) {name : String} {position : Nat}
    (h : methodCall s nested scope receiver name position ts = .ok (parsed, rest)) :
    ∃ used, ts = used ++ rest ∧
      Spelled s 0 scope parsed (kinds ++ .dot :: .ident name :: Token.kinds used) := by
  obtain ⟨method, element, argument, height, paren, ts₁, known, items, hts, hargument, hmade⟩ :=
    methodCall_eq_ok h
  obtain ⟨used, kinds', hused, hkinds, spelledArgument⟩ : ∃ used kinds', ts₁ = used ++ rest ∧
      Token.kinds used = kinds' ++ [.closeParen] ∧
      SpelledArgument s scope element method.argument argument height kinds' := by
    split at hargument
    · next hlambda =>
      have hkind : method.argument = .lambda := by simp_all
      rw [hkind]
      exact lambdaArgument_spelled spells hargument
    · exact plainArgument_spelled spells hargument
  refine ⟨⟨.openParen, paren⟩ :: used, by simp [hts, hused], ?_⟩
  simpa [hkinds] using method_spelled spelled known items spelledArgument hmade

theorem trailing_spelled (spells : nested.Spells s) {fuel : Nat} {kinds : List TokenKind}
    (spelled : Spelled s 0 scope receiver kinds)
    (h : trailing s nested scope fuel receiver ts = .ok (parsed, rest)) :
    ∃ used, ts = used ++ rest ∧ Spelled s 0 scope parsed (kinds ++ Token.kinds used) := by
  induction fuel generalizing receiver ts kinds with
  | zero =>
    cases h
    exact ⟨[], rfl, by simpa using spelled⟩
  | succ fuel ih =>
    unfold trailing at h
    split at h
    · next dot ts =>
      obtain ⟨⟨⟨name, ident⟩, ts₁⟩, hname, h⟩ := bind_eq_ok.mp h
      have hts := expectIdent_eq_ok.mp hname
      dsimp only at h
      split at h
      · obtain ⟨⟨receiver', ts₂⟩, hmethod, h⟩ := bind_eq_ok.mp h
        dsimp only at h
        obtain ⟨used, hused, spelled'⟩ := methodCall_spelled spells spelled hmethod
        obtain ⟨used', hused', spelled''⟩ := ih spelled' h
        refine ⟨⟨.dot, dot⟩ :: ⟨.ident name, ident⟩ :: (used ++ used'),
          by simp [hts, hused, hused'], ?_⟩
        simpa using spelled''
      · obtain ⟨receiver', hproperty, h⟩ := bind_eq_ok.mp h
        obtain ⟨used, hused, spelled'⟩ := ih (property_spelled spelled hproperty) h
        refine ⟨⟨.dot, dot⟩ :: ⟨.ident name, ident⟩ :: used, by simp [hts, hused], ?_⟩
        simpa using spelled'
    · cases h
      exact ⟨[], rfl, by simpa using spelled⟩

theorem trailed_spelled (spells : nested.Spells s)
    (h : trailed s nested scope ts = .ok (parsed, rest)) :
    ∃ used, ts = used ++ rest ∧ Spelled s 0 scope parsed (Token.kinds used) := by
  obtain ⟨⟨receiver, ts₁⟩, hprimary, h⟩ := bind_eq_ok.mp h
  obtain ⟨used, hused, spelled⟩ := primary_spelled spells hprimary
  obtain ⟨used', hused', spelled'⟩ := trailing_spelled spells spelled h
  exact ⟨used ++ used', by simp [hused, hused'], by simpa using spelled'⟩

theorem unary_spelled (spells : nested.Spells s)
    (h : unary s nested scope ts = .ok (parsed, rest)) :
    ∃ used, ts = used ++ rest ∧
      Spelled s UnaryOp.precedence scope parsed (Token.kinds used) := by
  have trailed (h : trailed s nested scope ts = .ok (parsed, rest)) : ∃ used, ts = used ++ rest ∧
      Spelled s UnaryOp.precedence scope parsed (Token.kinds used) := by
    obtain ⟨used, hused, spelled⟩ := trailed_spelled spells h
    exact ⟨used, hused, spelled.loosen (by decide)⟩
  unfold unary at h
  split at h
  · next symbol position ts =>
    split at h
    · next op hop =>
      obtain rfl := UnaryOp.unary?_eq_some.mp hop
      obtain ⟨⟨operand, ts₁⟩, hoperand, h⟩ := bind_eq_ok.mp h
      obtain ⟨used, hused, spelled, -⟩ := spells hoperand
      obtain ⟨made, hmade, h⟩ := bind_eq_ok.mp h
      obtain ⟨limit, rfl⟩ := node_eq_ok.mp hmade
      cases h
      exact ⟨⟨.operator op.written, position⟩ :: used, by simp [hused], .unary op spelled limit⟩
    · exact trailed h
  · exact trailed h

/-- What has been read so far stands on the left of every operator that is taken: the operand
before it has stopped at this operator.  With a round for every token the loop comes to an end. -/
theorem chain_spelled (spells : nested.Spells s) {bound precedence fuel : Nat} {left : Parsed}
    {kinds : List TokenKind} (hprecedence : precedence ≤ (Goal.operand bound).bound)
    (spelled : Spelled s precedence scope left kinds) (follows : Follows precedence ts)
    (h : chain s nested bound scope fuel left ts = .ok (parsed, rest)) :
    ∃ used, ts = used ++ rest ∧
      Spelled s (Goal.operand bound).bound scope parsed (kinds ++ Token.kinds used) ∧
      (ts.length ≤ fuel → Stops (Goal.operand bound).bound rest) := by
  induction fuel generalizing left ts kinds precedence with
  | zero =>
    cases h
    refine ⟨[], rfl, by simpa using spelled.loosen hprecedence, fun hfuel => ?_⟩
    rw [List.eq_nil_of_length_eq_zero (Nat.le_zero.mp hfuel)]
    exact nofun
  | succ fuel ih =>
    unfold chain at h
    split at h
    · next c position ts =>
      split at h
      · next hbound =>
        obtain ⟨⟨right, ts₁⟩, hright, h⟩ := bind_eq_ok.mp h
        obtain ⟨used, hused, spelledRight, stops⟩ := spells hright
        obtain ⟨made, hmade, h⟩ := bind_eq_ok.mp h
        obtain ⟨limit, rfl⟩ := node_eq_ok.mp hmade
        have hrightBound : (Goal.operand c.rightBound).bound = c.spec.rightBound :=
          Nat.max_eq_right (Nat.le_of_lt c.one_lt_rightBound)
        rw [hrightBound] at spelledRight stops
        have spelledNode := Spelled.connective c (spelled.loosen (follows c rfl)) spelledRight limit
        have hnode : c.spec.precedence ≤ (Goal.operand bound).bound :=
          Nat.le_trans hbound (Nat.le_max_right _ _)
        have followsNode : Follows c.spec.precedence ts₁ := fun next hnext =>
          (c.rightBound_lt_precedence_iff next).mp (stops next hnext)
        obtain ⟨used', hused', spelled', stops'⟩ := ih hnode spelledNode followsNode h
        refine ⟨⟨.operator (.connective c), position⟩ :: (used ++ used'), by simp [hused, hused'],
          by simpa using spelled', fun hfuel => stops' ?_⟩
        simp only [hused, List.length_cons, List.length_append] at hfuel
        omega
      · next hbound =>
        cases h
        refine ⟨[], rfl, by simpa using spelled.loosen hprecedence, fun _ next hnext => ?_⟩
        cases hnext
        exact Nat.max_lt.mpr ⟨c.one_lt_precedence, Nat.lt_of_not_le hbound⟩
    · next hconnective =>
      cases h
      refine ⟨[], rfl, by simpa using spelled.loosen hprecedence, fun _ next hnext => ?_⟩
      obtain ⟨⟨kind, position⟩, hhead, hkind⟩ := Option.map_eq_some_iff.mp hnext
      obtain ⟨ts', hts⟩ := List.head?_eq_some_iff.mp hhead
      cases hkind
      exact absurd hts (hconnective next position ts')

theorem operand_spelled (spells : nested.Spells s) {bound : Nat}
    (h : operand s nested bound scope ts = .ok (parsed, rest)) :
    ∃ used, ts = used ++ rest ∧
      Spelled s (Goal.operand bound).bound scope parsed (Token.kinds used) ∧
      Stops (Goal.operand bound).bound rest := by
  obtain ⟨⟨left, ts₁⟩, hleft, h⟩ := bind_eq_ok.mp h
  obtain ⟨used, hused, spelled⟩ := unary_spelled spells hleft
  obtain ⟨used', hused', spelled', stops⟩ := chain_spelled spells
    (Nat.le_max_left _ _) spelled (fun c _ => c.one_le_leftBound) h
  exact ⟨used ++ used', by simp [hused, hused'], by simpa using spelled',
    stops (Nat.le_refl _)⟩

theorem whole_spelled (spells : nested.Spells s)
    (h : whole s nested scope ts = .ok (parsed, rest)) :
    ∃ used, ts = used ++ rest ∧ Spelled s loosest scope parsed (Token.kinds used) ∧
      Stops loosest rest := by
  obtain ⟨⟨condition, ts₁⟩, hcondition, h⟩ := bind_eq_ok.mp h
  obtain ⟨used, hused, spelled, stops⟩ := operand_spelled spells hcondition
  dsimp only at h
  split at h
  · next question ts₁ =>
    obtain ⟨⟨thenBranch, ts₂⟩, hthen, h⟩ := bind_eq_ok.mp h
    obtain ⟨usedThen, husedThen, spelledThen⟩ := spells.whole hthen
    dsimp only at h
    obtain ⟨ts₃, hcolon, h⟩ := bind_eq_ok.mp h
    obtain ⟨colon, hts₂⟩ := expect_eq_ok.mp hcolon
    obtain ⟨⟨elseBranch, ts₄⟩, helse, h⟩ := bind_eq_ok.mp h
    obtain ⟨usedElse, husedElse, spelledElse, stopsElse⟩ := spells helse
    dsimp only at h
    obtain ⟨made, hmade, h⟩ := bind_eq_ok.mp h
    obtain ⟨limit, rfl⟩ := node_eq_ok.mp hmade
    cases h
    refine ⟨used ++ ⟨.question, question⟩ :: (usedThen ++ ⟨.colon, colon⟩ :: usedElse),
      by simp [hused, husedThen, hts₂, husedElse], ?_, stopsElse⟩
    simpa using Spelled.conditional spelled spelledThen spelledElse limit
  · cases h
    refine ⟨used, hused, spelled.loosen (by decide), fun c hc => ?_⟩
    have hloose : loosest - 1 < c.spec.precedence :=
      Nat.lt_of_le_of_lt (Nat.le_max_right _ _) (stops c hc)
    have := c.precedence_lt_loosest
    omega

end Readers

/-- The induction is on the nesting that is left, as in the definition: each level reads its parts
with the reader of the level below. -/
theorem parseAt_spells (s : Setting) (room : Nat) : (parseAt s room).Spells s := by
  induction room with
  | zero =>
    intro position goal scope ts parsed rest h
    simp [parseAt] at h
  | succ room ih =>
    intro position goal scope ts parsed rest h
    cases goal with
    | whole => exact whole_spelled ih h
    | operand bound => exact operand_spelled ih h

theorem parseAt_spelled {s : Setting} {room position : Nat} {goal : Goal} {scope : Scope}
    {ts rest : List Token} {parsed : Parsed}
    (h : parseAt s room position goal scope ts = .ok (parsed, rest)) :
    ∃ used, ts = used ++ rest ∧ Spelled s goal.bound scope parsed (Token.kinds used) ∧
      Stops goal.bound rest :=
  parseAt_spells s room h

theorem parseTokens_spelled {s : Setting} {ts : List Token} {parsed : Parsed}
    (h : parseTokens s ts = .ok parsed) : Spelled s loosest [] parsed (Token.kinds ts) := by
  obtain ⟨⟨parsed', rest⟩, hparse, h⟩ := bind_eq_ok.mp h
  obtain ⟨used, hused, spelled, -⟩ := parseAt_spelled hparse
  dsimp only at h
  split at h
  · cases h
    rw [List.append_nil] at hused
    exact hused ▸ spelled
  · cases h

end Grammar

theorem parse_eq_ok {catalog : Catalog} {limit : Nat} {source : String} {e : Expr} :
    parse catalog limit source = .ok e ↔ ∃ ts parsed, Token.scan source = .ok ts ∧
      parseTokens catalog limit ts = .ok parsed ∧ parsed.expr = e := by
  simp only [parse, bind_eq_ok, Except.ok.injEq]
  constructor
  · rintro ⟨ts, hscan, parsed, hparsed, rfl⟩
    exact ⟨ts, parsed, hscan, hparsed, rfl⟩
  · rintro ⟨ts, parsed, hscan, hparsed, rfl⟩
    exact ⟨ts, hscan, parsed, hparsed, rfl⟩

end CommissionRules
