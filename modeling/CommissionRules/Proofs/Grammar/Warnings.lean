import CommissionRules.Proofs.Token.Searching

/-!
# Warnings

The validation looks for its warnings in the characters of a text.  Where the text is parsed, these
are about the program: the operators of the tree are those among the tokens
(`Grammar.Spelled.mem_operators_iff`), and the tokens fit beside each other, so that the search
finds what they say.  Only strings may deceive it: `Compiler.warnings_match`.
-/

namespace CommissionRules

open Grammar (Spelled listed leaf)

/-! ## Operators of a tree -/

namespace Expr

mutual

/-- The operators between two operands that need both, from left to right. -/
def operators : Expr → List BinaryOp
  | literal _ | ref _ _ => []
  | member target _ => target.operators
  | unary _ operand => operand.operators
  | binary op left right => left.operators ++ op :: right.operators
  | logical _ left right => left.operators ++ right.operators
  | conditional condition thenBranch elseBranch =>
      condition.operators ++ thenBranch.operators ++ elseBranch.operators
  | call _ args => operatorsArgs args
  | method receiver _ argument => receiver.operators ++ operatorsArgument argument

def operatorsArgs : List Expr → List BinaryOp
  | [] => []
  | arg :: rest => arg.operators ++ operatorsArgs rest

def operatorsArgument : Argument Expr → List BinaryOp
  | .none => []
  | .value arg => arg.operators
  | .lambda _ body => body.operators

end

end Expr

theorem Grammar.mem_listed_iff {kind : TokenKind} (hkind : kind ≠ .comma)
    {parts : List (List TokenKind)} : kind ∈ listed parts ↔ ∃ part ∈ parts, kind ∈ part := by
  induction parts with
  | nil => simp [listed]
  | cons part parts ih =>
    cases parts with
    | nil => simp [listed]
    | cons next parts => simp [listed_cons, ih, hkind]

theorem Expr.mem_operatorsArgs_iff {op : BinaryOp} {args : List Expr} :
    op ∈ operatorsArgs args ↔ ∃ arg ∈ args, op ∈ arg.operators := by
  induction args with
  | nil => simp [operatorsArgs]
  | cons arg args ih => simp [operatorsArgs, ih]

theorem BinaryOp.strict?_eq_true {op : BinaryOp} :
    op.strict? = some true ↔ op = .strictEqual ∨ op = .strictNotEqual := by
  cases op <;> decide

theorem BinaryOp.strict?_eq_false {op : BinaryOp} :
    op.strict? = some false ↔ op = .looseEqual ∨ op = .looseNotEqual := by
  cases op <;> decide

/-- The operators of an expression are those among its tokens.  A minus sign may also stand before
an operand. -/
theorem Grammar.Spelled.mem_operators_iff {s : Setting} {bound : Nat} {scope : Scope}
    {parsed : Parsed} {kinds : List TokenKind} (h : Spelled s bound scope parsed kinds)
    {op : BinaryOp} (hop : op ≠ .subtract) :
    op ∈ parsed.expr.operators ↔ op.token ∈ kinds := by
  induction h with
  | number | text | bool | null | parameter | source =>
    simp [leaf, Expr.operators, BinaryOp.token]
  | group _ ih => simp [ih, BinaryOp.token]
  | @call scope space name spec parts _ _ _ _ _ _ _ ih =>
    have hparts : op ∈ Expr.operatorsArgs (parts.map (·.1.expr)) ↔
        op.token ∈ listed (parts.map (·.2)) := by
      have hcomma : op.token ≠ .comma := nofun
      rw [Expr.mem_operatorsArgs_iff, mem_listed_iff hcomma]
      simp only [List.mem_map, exists_exists_and_eq_and]
      exact exists_congr fun part => and_congr_right fun hpart => ih part hpart
    simp [Expr.operators, hparts, BinaryOp.token]
  | path _ _ _ ih | member _ _ _ _ ih => simpa [Expr.operators, BinaryOp.token] using ih
  | plainMethod _ _ _ _ _ ih =>
    simp [Expr.operators, Expr.operatorsArgument, ih, BinaryOp.token]
  | valueMethod _ _ _ _ _ _ ih ihArgument =>
    simp [Expr.operators, Expr.operatorsArgument, ih, ihArgument, BinaryOp.token]
  | lambdaMethod _ _ _ _ _ _ ih ihFunction =>
    simp [Expr.operators, Expr.operatorsArgument, ih, ihFunction, BinaryOp.token]
  | unary sign _ _ ih =>
    have hsign : op.token ≠ .operator sign.written := by
      cases sign
      · nofun
      · exact fun heq => hop (by cases heq; rfl)
    simp [Expr.operators, ih, hsign]
  | connective c _ _ _ ihLeft ihRight =>
    cases c with
    | binary op' =>
      simp [Connective.apply, Expr.operators, ihLeft, ihRight, BinaryOp.token]
    | logical op' =>
      simp [Connective.apply, Expr.operators, ihLeft, ihRight, BinaryOp.token]
  | conditional _ _ _ _ ih ihMiddle ihRight =>
    simp [Expr.operators, ih, ihMiddle, ihRight, BinaryOp.token]
  | loosen _ _ ih => exact ih

theorem Grammar.Spelled.equality_iff {s : Setting} {bound : Nat} {scope : Scope}
    {parsed : Parsed} {kinds : List TokenKind} (h : Spelled s bound scope parsed kinds)
    (strict : Bool) : (kinds.filterMap TokenKind.equality?).contains strict ↔
      ∃ op ∈ parsed.expr.operators, op.strict? = some strict := by
  rw [List.contains_iff_mem, List.mem_filterMap]
  constructor
  · rintro ⟨kind, hkind, hstrict⟩
    unfold TokenKind.equality? at hstrict
    split at hstrict
    · next op =>
      have hop : op ≠ .subtract := by
        rintro rfl
        cases hstrict
      exact ⟨op, (h.mem_operators_iff hop).mpr hkind, hstrict⟩
    · cases hstrict
  · rintro ⟨op, hmem, hstrict⟩
    have hop : op ≠ .subtract := by
      rintro rfl
      cases hstrict
    exact ⟨op.token, (h.mem_operators_iff hop).mp hmem, hstrict⟩

/-! ## Warnings of a text -/

/-- No string of a text has a character in it. -/
def Token.StringsLack (c : Char) (source : String) : Prop :=
  ∀ ts, scan source = .ok ts → ∀ t ∈ ts, t.kind.lacks c = true

instance (c : Char) (source : String) : Decidable (Token.StringsLack c source) :=
  match h : Token.scan source with
  | .error _ => .isTrue fun _ hts => nomatch h.symm.trans hts
  | .ok ts => decidable_of_iff (∀ t ∈ ts, t.kind.lacks c = true) (by simp [Token.StringsLack, h])

/-- Tokens start with what is not white space. -/
theorem Token.Scanned.eq_nil_of_blank {cs : List Char} {kinds : List TokenKind}
    (h : Scanned cs kinds) (hblank : ∀ c ∈ cs, Text.isBlank c = true) : kinds = [] := by
  induction h with
  | nil => rfl
  | gap _ _ ih => exact ih (List.forall_mem_cons.mp hblank).2
  | @token position cs text rest kind kinds hlexeme _ _ =>
    cases cs with
    | nil => cases hlexeme
    | cons c cs =>
      have hfirst := (form_of_lexeme hlexeme).first.2
      exact absurd (hfirst.symm.trans (hblank c List.mem_cons_self)) Bool.false_ne_true

theorem mem_warnings_iff {text : String} (hblank : Text.isBlankText text = false) :
    (.mixedEquality ∈ (validate text).warnings ↔
      (Validation.equalities text.toList).contains true ∧
        (Validation.equalities text.toList).contains false) ∧
    (.divisionByZero ∈ (validate text).warnings ↔
      Validation.dividesByZero text.toList = true) := by
  rw [validate, hblank, if_neg Bool.false_ne_true, Validation.ofText]
  dsimp only
  split <;> split <;> simp_all

namespace Compiler

/-- Of a text that is parsed, and in whose strings stands neither an equals sign nor a slash, a
mixture of equalities is reported exactly if the tree has a strict and a loose one, and a division
by zero exactly if a number whose digits are all zero stands next behind a division sign. -/
theorem warnings_match {compiler : Compiler} {source : String} {e : Expr}
    (hparse : compiler.parse source = .ok e) (hequal : Token.StringsLack '=' source)
    (hslash : Token.StringsLack '/' source) :
    (.mixedEquality ∈ (validate source).warnings ↔
      (.strictEqual ∈ e.operators ∨ .strictNotEqual ∈ e.operators) ∧
        (.looseEqual ∈ e.operators ∨ .looseNotEqual ∈ e.operators)) ∧
    ∃ ts, Token.scan source = .ok ts ∧
      (.divisionByZero ∈ (validate source).warnings ↔ ∃ sign number, [sign, number] <:+: ts ∧
        sign.kind = .operator (.connective (.binary .divide)) ∧
        number.isZeroIn source = true) := by
  obtain ⟨ts, parsed, hscan, hread, rfl⟩ := parse_eq_ok.mp hparse
  have hequal : ∀ kind ∈ Token.kinds ts, kind.lacks '=' = true :=
    List.forall_mem_map.mpr (hequal ts hscan)
  have hspelled := Grammar.parseTokens_spelled hread
  have hphrase := hspelled.phrase
  have hscans : Token.Scans 0 source.toList (.ok ts) := hscan ▸ Token.scans_scan source
  have hblank : Text.isBlankText source = false := by
    refine Bool.eq_false_iff.mpr fun hblank => hphrase.ne_nil ?_
    exact hscans.scanned.eq_nil_of_blank (List.all_eq_true.mp hblank)
  obtain ⟨hmixed, hdivision⟩ := mem_warnings_iff hblank
  constructor
  · rw [hmixed, hscans.scanned.equalities hphrase.chain hequal, hspelled.equality_iff,
      hspelled.equality_iff]
    simp only [BinaryOp.strict?_eq_true, BinaryOp.strict?_eq_false, and_or_left, exists_or,
      exists_eq_right]
  · exact ⟨ts, hscan, hdivision.trans
      (hscans.dividesByZero_iff (List.nil_append _).symm rfl hphrase.chain (hslash ts hscan))⟩

/-- Both are reported of the first text.  In the second one the equals signs and the zeros belong to
other operators and to other numbers. -/
theorem warnings_match_near_misses :
    let reported := "(1 === 2 ? 6 / 00.0 : 7 / 0.5) != 'a'"
    let quiet := "10 / 0.5 >= 2 == (3 / 10 <= 4)"
    ((standard.parse reported).map Expr.operators =
        .ok [.strictEqual, .divide, .divide, .looseNotEqual] ∧
      Token.StringsLack '=' reported ∧ Token.StringsLack '/' reported ∧
      .mixedEquality ∈ (validate reported).warnings ∧ ∃ ts, Token.scan reported = .ok ts ∧
        .divisionByZero ∈ (validate reported).warnings ∧ ∃ sign number, [sign, number] <:+: ts ∧
          sign.kind = .operator (.connective (.binary .divide)) ∧
          number.isZeroIn reported = true) ∧
    (standard.parse quiet).map Expr.operators =
        .ok [.divide, .greaterOrEqual, .looseEqual, .divide, .lessOrEqual] ∧
      Token.StringsLack '=' quiet ∧ Token.StringsLack '/' quiet ∧
      .mixedEquality ∉ (validate quiet).warnings ∧ ∃ ts, Token.scan quiet = .ok ts ∧
        .divisionByZero ∉ (validate quiet).warnings ∧ ¬ ∃ sign number, [sign, number] <:+: ts ∧
          sign.kind = .operator (.connective (.binary .divide)) ∧
          number.isZeroIn quiet = true := by
  intro reported quiet
  have hreported : (standard.parse reported).map Expr.operators =
      .ok [.strictEqual, .divide, .divide, .looseNotEqual] := by
    decide +kernel
  have hquiet : (standard.parse quiet).map Expr.operators =
      .ok [.divide, .greaterOrEqual, .looseEqual, .divide, .lessOrEqual] := by
    decide +kernel
  have hmixed : .mixedEquality ∈ (validate reported).warnings := by decide +kernel
  have hdivides : .divisionByZero ∈ (validate reported).warnings := by decide +kernel
  have hunmixed : .mixedEquality ∉ (validate quiet).warnings := by decide +kernel
  have hundivided : .divisionByZero ∉ (validate quiet).warnings := by decide +kernel
  have hstrings : (Token.StringsLack '=' reported ∧ Token.StringsLack '/' reported) ∧
      Token.StringsLack '=' quiet ∧ Token.StringsLack '/' quiet := by
    decide +kernel
  obtain ⟨⟨hequal, hslash⟩, hequal', hslash'⟩ := hstrings
  obtain ⟨e, hparse, -⟩ := map_eq_ok.mp hreported
  obtain ⟨e', hparse', -⟩ := map_eq_ok.mp hquiet
  obtain ⟨-, ts, hscan, hdivision⟩ := warnings_match hparse hequal hslash
  obtain ⟨-, ts', hscan', hdivision'⟩ := warnings_match hparse' hequal' hslash'
  exact ⟨⟨hreported, hequal, hslash, hmixed, ts, hscan, hdivides, hdivision.mp hdivides⟩, hquiet,
    hequal', hslash', hunmixed, ts', hscan', hundivided, fun h => hundivided (hdivision'.mpr h)⟩

end Compiler

end CommissionRules
