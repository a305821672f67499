import CommissionRules.Proofs.Grammar.Reading
import CommissionRules.Proofs.Token.Scanning

/-!
# Written expressions

A text writes an expression if its tokens spell it, under every limit that is large enough:
`Written`.  That is so exactly if the text is parsed as the expression under some limit, and then
under every larger one (`Written.parse`, `written_of_parse`).  Texts that write expressions are put
into parentheses and joined by logical operators as the grammar says, whatever is in them.
-/

namespace CommissionRules

namespace Grammar

theorem Spelled.mono {s s' : Setting} {bound : Nat} {scope : Scope} {parsed : Parsed}
    {kinds : List TokenKind} (h : Spelled s bound scope parsed kinds)
    (catalog : s'.catalog = s.catalog) (limit : s.limit ≤ s'.limit) :
    Spelled s' bound scope parsed kinds := by
  induction h with
  | number n => exact .number n
  | text t => exact .text t
  | bool b => exact .bool b
  | null => exact .null
  | parameter bound => exact .parameter bound
  | source free known => exact .source free (catalog ▸ known)
  | group inner ih => exact .group ih
  | call free unknown isSpace known args arity height ih =>
    exact .call free (catalog ▸ unknown) isSpace known ih arity (by omega)
  | path receiver admits hlimit ih => exact .path ih admits (Nat.le_trans hlimit limit)
  | member target computed admits height ih => exact .member ih computed admits (by omega)
  | plainMethod target known kind items height ih =>
    exact .plainMethod ih known kind items (by omega)
  | valueMethod target argument known kind items height ih ihArgument =>
    exact .valueMethod ih ihArgument known kind items (by omega)
  | lambdaMethod target function known kind items height ih ihFunction =>
    exact .lambdaMethod ih ihFunction known kind items (by omega)
  | unary op right height ih => exact .unary op ih (by omega)
  | connective c left right height ihLeft ihRight => exact .connective c ihLeft ihRight (by omega)
  | conditional left middle right height ih ihMiddle ihRight =>
    exact .conditional ih ihMiddle ihRight (by omega)
  | loosen tighter le ih => exact ih.loosen le

end Grammar

open Grammar

variable {catalog : Catalog} {bound : Nat} {text : String} {e : Expr}

/-- A text writes an expression in a place that takes operators up to the bound. -/
def Written (catalog : Catalog) (bound : Nat) (text : String) (e : Expr) : Prop :=
  ∃ kinds shape height least, Token.Scanned text.toList kinds ∧
    ∀ s : Setting, s.catalog = catalog → least ≤ s.limit →
      Spelled s bound [] ⟨e, shape, height⟩ kinds

/-- A text that is parsed under some limit is written. -/
theorem written_of_parse {limit : Nat} (h : parse catalog limit text = .ok e) :
    Written catalog loosest text e := by
  obtain ⟨ts, parsed, hscan, hparse, rfl⟩ := parse_eq_ok.mp h
  have spelled := parseTokens_spelled hparse
  refine ⟨Token.kinds ts, parsed.shape, parsed.height, limit, ?_, fun s hcatalog hlimit => ?_⟩
  · exact Token.scan_kinds_iff.mp ⟨ts, hscan, rfl⟩
  · exact spelled.mono hcatalog hlimit

namespace Written

/-- A text that is written is parsed, if the limit is not below the number of its tokens and the
heights of its parts. -/
theorem parse (h : Written catalog bound text e) (hbound : bound ≤ loosest) :
    ∃ least, ∀ limit, least ≤ limit → CommissionRules.parse catalog limit text = .ok e := by
  obtain ⟨kinds, shape, height, least, hscan, spelled⟩ := h
  obtain ⟨ts, hts, rfl⟩ := Token.scan_kinds_iff.mpr hscan
  refine ⟨max least (ts.length + 1), fun limit hlimit => ?_⟩
  let s : Setting := ⟨catalog, limit, (ts.getLast?.map Token.position).getD 0⟩
  have hlength : ts.length < s.limit := by
    show ts.length < limit
    omega
  have hread := (parseTokens_eq_ok_iff hlength).mpr
    ((spelled s rfl (by show least ≤ limit; omega)).loosen hbound)
  exact parse_eq_ok.mpr ⟨ts, _, hts, hread, rfl⟩

theorem loosen {bound' : Nat} (h : Written catalog bound text e) (le : bound ≤ bound') :
    Written catalog bound' text e := by
  obtain ⟨kinds, shape, height, least, hscan, spelled⟩ := h
  exact ⟨kinds, shape, height, least, hscan, fun s hcatalog hlimit =>
    (spelled s hcatalog hlimit).loosen le⟩

theorem parenthesized (h : Written catalog bound text e) (hbound : bound ≤ loosest) :
    Written catalog 0 ("(" ++ text ++ ")") e := by
  obtain ⟨kinds, shape, height, least, hscan, spelled⟩ := h
  refine ⟨_, shape, height, least, ?_, fun s hcatalog hlimit =>
    .group ((spelled s hcatalog hlimit).loosen hbound)⟩
  have htext : ("(" ++ text ++ ")").toList = '(' :: (text.toList ++ [')']) := by
    simp
  rw [htext]
  exact hscan.parenthesized

/-- On the left of a logical operator may stand a text with the same operator in it. -/
theorem logical {bound' : Nat} {text' : String} {e' : Expr} (op : LogicalOp)
    (h : Written catalog bound text e) (h' : Written catalog bound' text' e')
    (hleft : bound ≤ op.precedence) (hright : bound' < op.precedence) :
    Written catalog op.precedence (text ++ " " ++ op.symbol ++ " " ++ text')
      (.logical op e e') := by
  obtain ⟨kinds, shape, height, least, hscan, spelled⟩ := h
  obtain ⟨kinds', shape', height', least', hscan', spelled'⟩ := h'
  refine ⟨kinds ++ .operator (.connective (.logical op)) :: kinds', .scalar,
    max height height' + 1, max (max least least') (max height height' + 1), ?_,
    fun s hcatalog hlimit => ?_⟩
  · have htext : (text ++ " " ++ op.symbol ++ " " ++ text').toList =
        text.toList ++ ' ' :: (op.symbol.toList ++ ' ' :: text'.toList) := by
      simp
    rw [htext]
    exact hscan.logical op hscan'
  · have hspec : (Connective.logical op).spec.leftBound = op.precedence ∧
        (Connective.logical op).spec.rightBound = op.precedence - 1 ∧
        (Connective.logical op).spec.precedence = op.precedence := by
      cases op <;> exact ⟨rfl, rfl, rfl⟩
    have left : Spelled s (Connective.logical op).spec.leftBound [] ⟨e, shape, height⟩ kinds :=
      (spelled s hcatalog (by omega)).loosen (by omega)
    have right : Spelled s (Connective.logical op).spec.rightBound [] ⟨e', shape', height'⟩
        kinds' :=
      (spelled' s hcatalog (by omega)).loosen (by omega)
    have joined := Spelled.connective _ left right (by dsimp only; omega)
    rw [hspec.2.2] at joined
    exact joined

/-- The condition without terms. -/
theorem true_literal (catalog : Catalog) : Written catalog 0 "true" (.literal (.bool true)) := by
  refine ⟨[.bool true], .scalar, 1, 0, ?_, fun s _ _ => .bool true⟩
  exact @Token.Scanned.token 0 _ ['t', 'r', 'u', 'e'] [] (.bool true) [] rfl .nil

end Written

end CommissionRules
