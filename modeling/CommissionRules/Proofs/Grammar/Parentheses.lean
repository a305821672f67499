import Mathlib.Algebra.GroupWithZero.Nat
import CommissionRules.Proofs.Grammar.Grouping
import CommissionRules.Proofs.Token.Scanning
import CommissionRules.Proofs.Validation

/-!
# Parentheses in texts and in tokens

The validation counts the parentheses of a text, and the parser matches those among its tokens.  A
text holds the parentheses of its tokens and those in its strings, and no others
(`Token.Scanned.count_eq`).  So both agree on every text without parentheses in its strings:
`Compiler.parentheses_agree`.
-/

namespace CommissionRules

/-- How often a parenthesis stands in the text of a token. -/
def TokenKind.parenthesisCount (paren : Char) : TokenKind → Nat
  | openParen => if paren = '(' then 1 else 0
  | closeParen => if paren = ')' then 1 else 0
  | str content => content.toList.count paren
  | _ => 0

/-- Holds of all but strings with a parenthesis in them. -/
def TokenKind.isPlain : TokenKind → Bool
  | str content => content.toList.all fun c => c != '(' && c != ')'
  | _ => true

namespace Token

/-- No string of a text has a parenthesis in it. -/
def PlainStrings (source : String) : Prop :=
  ∀ ts, scan source = .ok ts → ∀ t ∈ ts, t.kind.isPlain

instance (source : String) : Decidable (PlainStrings source) :=
  match h : scan source with
  | .error _ => .isTrue fun _ hts => nomatch h.symm.trans hts
  | .ok ts => decidable_of_iff (∀ t ∈ ts, t.kind.isPlain) (by simp [PlainStrings, h])

section Count

variable {paren : Char} (hparen : paren = '(' ∨ paren = ')')
include hparen

theorem count_numeral (cs : List Char) : (numeral cs).count paren = 0 := by
  have hother : ¬ (paren.isDigit ∨ paren = '.') := by rcases hparen with rfl | rfl <;> decide
  exact List.count_eq_zero.mpr fun hmem => hother (mem_numeral paren hmem)

theorem Form.count_eq {cs text : List Char} {kind : TokenKind} (h : Form cs kind text) :
    text.count paren = kind.parenthesisCount paren := by
  cases h with
  | @single c cs kind hsingle =>
    unfold TokenKind.ofChar? at hsingle
    split at hsingle <;> cases hsingle <;> rcases hparen with rfl | rfl <;> rfl
  | number => exact count_numeral hparen _
  | @str c cs content text rest hquote hread =>
    have hne : c ≠ paren := by
      rcases hquote with rfl | rfl <;> rcases hparen with rfl | rfl <;> decide
    have hkept : paren ∉ escapes := by rcases hparen with rfl | rfl <;> decide
    rw [List.count_cons_of_ne hne, count_readString? hkept hne hread,
      TokenKind.parenthesisCount, String.toList_ofList]
  | @word c cs =>
    have hword : continuesWord paren = false := by rcases hparen with rfl | rfl <;> rfl
    have hnone : paren ∉ (c :: cs).takeWhile continuesWord := fun hmem =>
      Bool.false_ne_true (hword.symm.trans (List.mem_takeWhile_imp hmem))
    rw [List.count_eq_zero.mpr hnone, TokenKind.ofWord]
    split
    · rfl
    split
    · rfl
    split <;> rfl
  | symbol hsymbol =>
    have hall : ∀ symbol ∈ Symbol.all, '(' ∉ symbol.text.toList ∧ ')' ∉ symbol.text.toList := by
      decide
    rw [leadingSymbol?] at hsymbol
    split at hsymbol
    · cases hsymbol
      rcases hparen with rfl | rfl <;> rfl
    · obtain ⟨symbol, -, heq⟩ := Option.map_eq_some_iff.mp hsymbol
      cases heq
      obtain ⟨hopen, hclose⟩ := hall symbol symbol.mem_all
      refine List.count_eq_zero.mpr ?_
      rcases hparen with rfl | rfl
      · exact hopen
      · exact hclose

theorem Scanned.count_eq {cs : List Char} {kinds : List TokenKind} (h : Scanned cs kinds) :
    cs.count paren = (kinds.map (TokenKind.parenthesisCount paren)).sum := by
  induction h with
  | nil => rfl
  | @gap c cs kinds hgap _ ih =>
    have hne : c ≠ paren := by
      rintro rfl
      rcases hparen with rfl | rfl <;> cases hgap
    rw [List.count_cons_of_ne hne, ih]
  | token hlexeme _ ih =>
    obtain ⟨⟨rfl, -⟩, -⟩ := lexeme_eq_ok hlexeme
    rw [List.count_append, (form_of_lexeme hlexeme).count_eq hparen, ih, List.map_cons,
      List.sum_cons]

end Count

/-! ## Texts without parentheses in their strings -/

theorem sum_parenthesisCount {paren : Char} {kind : TokenKind} {kinds : List TokenKind}
    (h : ∀ k ∈ kinds, k.parenthesisCount paren = if k = kind then 1 else 0) :
    (kinds.map (TokenKind.parenthesisCount paren)).sum = kinds.count kind := by
  induction kinds with
  | nil => rfl
  | cons k kinds ih =>
    obtain ⟨hk, hkinds⟩ := List.forall_mem_cons.mp h
    rw [List.map_cons, List.sum_cons, hk, ih hkinds, List.count_cons, Nat.add_comm]
    simp only [beq_iff_eq]

theorem parenthesisCount_of_isPlain {k : TokenKind} (h : k.isPlain) :
    k.parenthesisCount '(' = (if k = .openParen then 1 else 0) ∧
      k.parenthesisCount ')' = if k = .closeParen then 1 else 0 := by
  cases k with
  | str content =>
    have hne : ∀ c ∈ content.toList, c ≠ '(' ∧ c ≠ ')' := by
      simpa [TokenKind.isPlain] using h
    exact ⟨List.count_eq_zero.mpr fun hmem => (hne _ hmem).1 rfl,
      List.count_eq_zero.mpr fun hmem => (hne _ hmem).2 rfl⟩
  | _ => exact ⟨rfl, rfl⟩

/-- The parentheses of a text are those among its tokens, if its strings have none. -/
theorem count_of_plainStrings {source : String} {ts : List Token} (hscan : scan source = .ok ts)
    (hplain : PlainStrings source) :
    source.toList.count '(' = (kinds ts).count .openParen ∧
      source.toList.count ')' = (kinds ts).count .closeParen := by
  have hscanned := scan_kinds_iff.mp ⟨ts, hscan, rfl⟩
  have hkinds : ∀ k ∈ kinds ts, k.isPlain := List.forall_mem_map.mpr (hplain ts hscan)
  rw [hscanned.count_eq (.inl rfl), hscanned.count_eq (.inr rfl)]
  exact ⟨sum_parenthesisCount fun k hk => (parenthesisCount_of_isPlain (hkinds k hk)).1,
    sum_parenthesisCount fun k hk => (parenthesisCount_of_isPlain (hkinds k hk)).2⟩

end Token

theorem unbalanced_mem_errors_iff {text : String} :
    .unbalancedParentheses ∈ (validate text).errors ↔
      Text.isBlankText text = false ∧ text.toList.count '(' ≠ text.toList.count ')' := by
  rw [validate]
  split
  · next hblank => simp [hblank]
  · next hblank =>
    rw [Validation.ofText]
    dsimp only
    split <;> split <;> simp_all

namespace Compiler

variable {compiler : Compiler} {source : String}

/-- The parentheses among the tokens of a text that is parsed match. -/
theorem balanced_of_parse {e : Expr} (h : compiler.parse source = .ok e) :
    ∃ ts, Token.scan source = .ok ts ∧ Grammar.Balanced (Token.kinds ts) := by
  obtain ⟨ts, parsed, hscan, hparse, -⟩ := parse_eq_ok.mp h
  exact ⟨ts, hscan, (Grammar.parseTokens_spelled hparse).balanced⟩

/-- Where a text is parsed, its tokens close as many parentheses as they open, and never one that is
not open; and the validation does not report the parentheses, unless there are some in strings.  So
a text without parentheses in its strings that is reported is not parsed either. -/
theorem parentheses_agree (compiler : Compiler) (source : String) :
    (∀ e, compiler.parse source = .ok e →
      (∃ ts, Token.scan source = .ok ts ∧
        (Token.kinds ts).count .openParen = (Token.kinds ts).count .closeParen ∧
        ∀ before, before <+: Token.kinds ts →
          before.count .closeParen ≤ before.count .openParen) ∧
      (Token.PlainStrings source → .unbalancedParentheses ∉ (validate source).errors)) ∧
    (Token.PlainStrings source → .unbalancedParentheses ∈ (validate source).errors →
      ∃ error, compiler.parse source = .error error) := by
  have unreported (e : Expr) (h : compiler.parse source = .ok e)
      (hplain : Token.PlainStrings source) :
      .unbalancedParentheses ∉ (validate source).errors := by
    intro hreported
    obtain ⟨ts, hscan, hbalanced⟩ := balanced_of_parse h
    obtain ⟨hopen, hclose⟩ := Token.count_of_plainStrings hscan hplain
    refine (unbalanced_mem_errors_iff.mp hreported).2 ?_
    rw [hopen, hclose, hbalanced.count_eq]
  constructor
  · intro e h
    obtain ⟨ts, hscan, hbalanced⟩ := balanced_of_parse h
    refine ⟨⟨ts, hscan, hbalanced.count_eq.symm, fun before hbefore => ?_⟩, unreported e h⟩
    rw [List.prefix_iff_eq_take.mp hbefore]
    exact hbalanced.count_take_le before.length
  · intro hplain hreported
    cases hparse : compiler.parse source with
    | error error => exact ⟨error, rfl⟩
    | ok e => exact absurd hreported (unreported e hparse hplain)

/-- Parentheses that group and those of a function, of a method with a lambda and of one without an
argument, inside each other, beside a string; and a call that is not closed. -/
theorem parentheses_agree_nested :
    let accepted := "(Math.max(1, (allSales).where(s => (s.SaleAmount) > 1).count())) == 'a'"
    let rejected := "Math.min(1, (2)"
    (Token.PlainStrings accepted ∧ ∃ e ts, standard.parse accepted = .ok e ∧
      Token.scan accepted = .ok ts ∧
      (Token.kinds ts).count .openParen = (Token.kinds ts).count .closeParen ∧
      (∀ before, before <+: Token.kinds ts →
        before.count .closeParen ≤ before.count .openParen) ∧
      .unbalancedParentheses ∉ (validate accepted).errors) ∧
    Token.PlainStrings rejected ∧ .unbalancedParentheses ∈ (validate rejected).errors ∧
      ∃ error, standard.parse rejected = .error error := by
  intro accepted rejected
  have hparse : (standard.parse accepted).isOk = true := by decide +kernel
  have haccepted : Token.PlainStrings accepted := by decide +kernel
  have hrejected : Token.PlainStrings rejected := by decide +kernel
  have hreported : .unbalancedParentheses ∈ (validate rejected).errors := by decide +kernel
  obtain ⟨e, hparse⟩ := isOk_eq_true.mp hparse
  obtain ⟨⟨ts, hscan, hcount, hbefore⟩, hvalid⟩ :=
    (parentheses_agree standard accepted).1 e hparse
  exact ⟨⟨haccepted, e, ts, hparse, hscan, hcount, hbefore, hvalid haccepted⟩, hrejected, hreported,
    (parentheses_agree standard rejected).2 hrejected hreported⟩

/-- A parenthesis in a string is reported, though the text is parsed. -/
example : (standard.parse "')'").isOk ∧ .unbalancedParentheses ∈ (validate "')'").errors := by
  decide +kernel

end Compiler

end CommissionRules
