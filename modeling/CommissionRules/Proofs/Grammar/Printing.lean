import CommissionRules.Proofs.Catalog
import CommissionRules.Proofs.Grammar.Reading

/-!
# Printing

`Expr.print` writes an expression as tokens, with parentheses only where the operator table asks for
them.  Reading inverts it (`parseTokens_print`).
-/

namespace CommissionRules

/-- The tokens of a literal.  Lists and records have none. -/
def Value.written : Value → List TokenKind
  | .null => [.null]
  | .bool b => [.bool b]
  | .number n => [.number n]
  | .str text => [.str text]
  | .list _ | .record _ => []

namespace Expr

/-- The precedence of the operator that makes the outermost node.  An expression that ends where its
tokens end has none. -/
def level : Expr → Nat
  | unary op _ => op.spec.precedence
  | binary op _ _ => op.spec.precedence
  | logical op _ _ => op.spec.precedence
  | conditional _ _ _ => conditionalSpec.precedence
  | _ => 0

/-- Puts parentheses around what is looser than the bound. -/
def enclose (bound level : Nat) (kinds : List TokenKind) : List TokenKind :=
  if level ≤ bound then kinds else .openParen :: (kinds ++ [.closeParen])

mutual

/-- The tokens of an expression without parentheses around it. -/
def bare : Expr → List TokenKind
  | literal value => value.written
  | ref source path => .ident source :: path.flatMap fun name => [.dot, .ident name]
  | member target property => enclose 0 target.level target.bare ++ [.dot, .ident property]
  | unary op operand =>
      .operator op.written :: enclose op.spec.rightBound operand.level operand.bare
  | binary op left right =>
      enclose op.spec.leftBound left.level left.bare
        ++ .operator (.connective (.binary op))
          :: enclose op.spec.rightBound right.level right.bare
  | logical op left right =>
      enclose op.spec.leftBound left.level left.bare
        ++ .operator (.connective (.logical op))
          :: enclose op.spec.rightBound right.level right.bare
  | conditional condition thenBranch elseBranch =>
      enclose conditionalSpec.leftBound condition.level condition.bare
        ++ .question :: (enclose loosest thenBranch.level thenBranch.bare
          ++ .colon :: enclose conditionalSpec.rightBound elseBranch.level elseBranch.bare)
  | call function args =>
      .ident (Function.splitName function).1 :: .dot :: .ident (Function.splitName function).2
        :: .openParen :: (Grammar.listed (bareArgs args) ++ [.closeParen])
  | method receiver name argument =>
      enclose 0 receiver.level receiver.bare
        ++ .dot :: .ident name :: .openParen :: (bareArgument argument ++ [.closeParen])

def bareArgs : List Expr → List (List TokenKind)
  | [] => []
  | e :: rest => enclose loosest e.level e.bare :: bareArgs rest

def bareArgument : Argument Expr → List TokenKind
  | .none => []
  | .value arg => enclose loosest arg.level arg.bare
  | .lambda param body => .ident param :: .arrow :: enclose loosest body.level body.bare

end

/-- The tokens of an expression in a place that takes operators up to the bound. -/
def print (bound : Nat) (e : Expr) : List TokenKind := enclose bound e.level e.bare

theorem bareArgs_eq (args : List Expr) : bareArgs args = args.map (print loosest) := by
  induction args with
  | nil => rw [bareArgs, List.map_nil]
  | cons e rest ih => rw [bareArgs, ih, List.map_cons, print]

theorem level_apply (c : Connective) (left right : Expr) :
    (c.apply left right).level = c.spec.precedence := by
  cases c <;> rfl

theorem bare_apply (c : Connective) (left right : Expr) :
    (c.apply left right).bare = left.print c.spec.leftBound
      ++ .operator (.connective c) :: right.print c.spec.rightBound := by
  cases c <;> rw [Connective.apply, bare] <;> rfl

theorem bare_ref_append (source : String) (names : List String) (name : String) :
    (ref source (names ++ [name])).bare = (ref source names).bare ++ [.dot, .ident name] := by
  simp [bare]

theorem level_le_loosest (e : Expr) : e.level ≤ loosest := by
  cases e with
  | unary => exact (by decide : UnaryOp.precedence ≤ loosest)
  | binary op _ _ => exact Nat.le_of_lt (Connective.binary op).precedence_lt_loosest
  | logical op _ _ => exact Nat.le_of_lt (Connective.logical op).precedence_lt_loosest
  | conditional => exact Nat.le_refl _
  | _ => exact Nat.zero_le _

theorem print_of_le {bound : Nat} {e : Expr} (h : e.level ≤ bound) : e.print bound = e.bare :=
  if_pos h

theorem print_loosest (e : Expr) : e.print loosest = e.bare := print_of_le e.level_le_loosest

end Expr

/-- A part with the tokens that it is printed as. -/
def Parsed.printed (part : Parsed) : Parsed × List TokenKind := (part, part.expr.print loosest)

namespace Grammar

/-! ## Reading what is printed -/

section Reading

variable {s s' : Setting} {scope : Scope} {parsed : Parsed} {kinds : List TokenKind}

theorem Spelled.print {e : Expr} {shape : Shape} {height : Nat}
    (h : Spelled s e.level scope ⟨e, shape, height⟩ e.bare) (bound : Nat) :
    Spelled s bound scope ⟨e, shape, height⟩ (e.print bound) := by
  unfold Expr.print Expr.enclose
  split
  · next le => exact h.loosen le
  · exact (Spelled.group (h.loosen e.level_le_loosest)).loosen (Nat.zero_le bound)

theorem Spelled.call_print {space name : String} {spec : FunctionSpec} {parts : List Parsed}
    (free : scope.lookup space = none) (unknown : s.catalog.source? space = none)
    (isSpace : Catalog.isNamespace space = true)
    (known : Catalog.function? (space ++ "." ++ name) = some spec)
    (args : ∀ part ∈ parts, Spelled s loosest scope part (part.expr.print loosest))
    (arity : parts.length = spec.arity) (height : Parsed.tallest parts + 1 ≤ s.limit) :
    Spelled s 0 scope ⟨.call (space ++ "." ++ name) (parts.map Parsed.expr),
        .ofReturn spec.returns, Parsed.tallest parts + 1⟩
      (Expr.call (space ++ "." ++ name) (parts.map Parsed.expr)).bare := by
  have hsplit := Function.splitName_append name (Catalog.point_notMem_namespace isSpace)
  have hparts : (parts.map Parsed.printed).map (·.1) = parts := by
    simp [Parsed.printed, Function.comp_def]
  have hexprs : (parts.map Parsed.printed).map (·.1.expr) = parts.map Parsed.expr := by
    simp [Parsed.printed]
  have hkinds : (parts.map Parsed.printed).map (·.2) = Expr.bareArgs (parts.map Parsed.expr) := by
    simp [Parsed.printed, Expr.bareArgs_eq]
  have hprinted : ∀ entry ∈ parts.map Parsed.printed, Spelled s loosest scope entry.1 entry.2 :=
    List.forall_mem_map.mpr args
  have spelled := Spelled.call free unknown isSpace known hprinted (by simpa using arity)
    (by rwa [hparts])
  rw [hparts, hexprs, hkinds] at spelled
  rwa [Expr.bare, hsplit]

/-- What is spelled at all is spelled by its printing.  The limit may grow. -/
theorem Spelled.bare {bound : Nat} (h : Spelled s bound scope parsed kinds)
    (catalog : s'.catalog = s.catalog) (limit : s.limit ≤ s'.limit) :
    Spelled s' parsed.expr.level scope parsed parsed.expr.bare := by
  induction h with
  | number n => exact .number n
  | text t => exact .text t
  | bool b => exact .bool b
  | null => exact .null
  | parameter bound => exact .parameter bound
  | source free known => exact .source free (catalog ▸ known)
  | group inner ih => exact ih
  | @call scope space name spec parts free unknown isSpace known args arity height ih =>
    have hargs : ∀ part ∈ parts.map (·.1),
        Spelled s' loosest scope part (part.expr.print loosest) := by
      intro part hpart
      obtain ⟨entry, hentry, rfl⟩ := List.mem_map.mp hpart
      exact (ih entry hentry).print loosest
    have hexprs : parts.map (·.1.expr) = (parts.map (·.1)).map Parsed.expr := by simp
    rw [hexprs]
    exact .call_print free (catalog ▸ unknown) isSpace known hargs (by simpa using arity)
      (by omega)
  | path receiver admits hlimit ih =>
    rw [Expr.bare_ref_append]
    exact .path ih admits (Nat.le_trans hlimit limit)
  | member target computed admits height ih =>
    exact .member (ih.print 0) computed admits (by omega)
  | plainMethod target known kind items height ih =>
    exact .plainMethod (ih.print 0) known kind items (by omega)
  | valueMethod target argument known kind items height ih ihArgument =>
    exact .valueMethod (ih.print 0) (ihArgument.print loosest) known kind items (by omega)
  | lambdaMethod target function known kind items height ih ihFunction =>
    exact .lambdaMethod (ih.print 0) (ihFunction.print loosest) known kind items (by omega)
  | unary op right height ih =>
    exact .unary op (ih.print _) (by omega)
  | connective c left right height ihLeft ihRight =>
    rw [Expr.level_apply, Expr.bare_apply]
    exact .connective c (ihLeft.print _) (ihRight.print _) (by omega)
  | conditional left middle right height ihLeft ihMiddle ihRight =>
    exact .conditional (ihLeft.print _) (ihMiddle.print _) (ihRight.print _) (by omega)
  | loosen tighter le ih => exact ih

end Reading

end Grammar

/-- Reading inverts printing: the printing of whatever was read from some tokens is read as the same
expression, with the same shape and height, if the limit is not smaller than it was and the nesting
may be as deep as there are tokens. -/
theorem parseTokens_print {catalog : Catalog} {limit limit' : Nat} {ts ts' : List Token}
    {parsed : Parsed} (h : parseTokens catalog limit ts = .ok parsed)
    (printed : Token.kinds ts' = parsed.expr.print loosest) (hlimit : limit ≤ limit')
    (hlength : ts'.length < limit') :
    parseTokens catalog limit' ts' = .ok parsed := by
  have spelled := Grammar.parseTokens_spelled h
  refine (Grammar.parseTokens_eq_ok_iff hlength).mpr ?_
  rw [printed]
  refine Grammar.Spelled.print ?_ loosest
  exact spelled.bare rfl hlimit

/-- A power of powers, with a pair of parentheses twice and one that is not needed:
`((2 ** 3)) ** (4 ** 5)`. -/
def powerTokens : List Token :=
  [.openParen, .openParen, .number (.ofNat 2), .operator (.connective (.binary .power)),
      .number (.ofNat 3), .closeParen, .closeParen, .operator (.connective (.binary .power)),
      .openParen, .number (.ofNat 4), .operator (.connective (.binary .power)),
      .number (.ofNat 5), .closeParen].map (Token.mk · 0)

/-- The same power with the parentheses that are needed: `(2 ** 3) ** 4 ** 5`. -/
def powerPrinted : List Token :=
  [.openParen, .number (.ofNat 2), .operator (.connective (.binary .power)), .number (.ofNat 3),
      .closeParen, .operator (.connective (.binary .power)), .number (.ofNat 4),
      .operator (.connective (.binary .power)), .number (.ofNat 5)].map (Token.mk · 0)

def powerTree : Parsed :=
  ⟨.binary .power
      (.binary .power (.literal (.number (.ofNat 2))) (.literal (.number (.ofNat 3))))
      (.binary .power (.literal (.number (.ofNat 4))) (.literal (.number (.ofNat 5)))),
    .scalar, 3⟩

theorem parseTokens_power : parseTokens .standard 5 powerTokens = .ok powerTree := rfl

theorem parseTokens_print_power :
    parseTokens .standard 5 powerTokens = .ok powerTree ∧
      Token.kinds powerPrinted = powerTree.expr.print loosest ∧ 5 ≤ 10 ∧
      powerPrinted.length < 10 ∧ parseTokens .standard 10 powerPrinted = .ok powerTree := by
  have printed : Token.kinds powerPrinted = powerTree.expr.print loosest := rfl
  have hlength : powerPrinted.length < 10 := by decide
  exact ⟨parseTokens_power, printed, by decide, hlength,
    parseTokens_print parseTokens_power printed (by decide) hlength⟩

end CommissionRules
