import CommissionRules.Proofs.Grammar.Spelling
import CommissionRules.Proofs.Token.Lexeme

/-!
# Scanned texts

`Token.Scanned` relates a text to the kinds of its tokens, without positions and fuel.  A text is
split into tokens of these kinds exactly if they are related: `Token.scan_kinds_iff`.  A text and
another one that starts apart from it have the tokens of both: `Token.Scanned.append`.
-/

namespace CommissionRules

namespace Token

/-- The kinds of the tokens of a text. -/
inductive Scanned : List Char → List TokenKind → Prop
  | nil : Scanned [] []
  | gap {c : Char} {cs : List Char} {kinds : List TokenKind} (hgap : Text.isGap c = true)
      (later : Scanned cs kinds) : Scanned (c :: cs) kinds
  | token {position : Nat} {cs text rest : List Char} {kind : TokenKind} {kinds : List TokenKind}
      (hlexeme : lexeme position cs = .ok (kind, text, rest)) (later : Scanned rest kinds) :
      Scanned cs (kind :: kinds)

/-! ## Scanning -/

theorem byteLength_cons (c : Char) (cs : List Char) :
    byteLength (c :: cs) = c.utf8Size + byteLength cs := by
  have hfold (cs : List Char) (size : Nat) :
      cs.foldl (fun size c => size + c.utf8Size) size = size + byteLength cs := by
    induction cs generalizing size with
    | nil => rfl
    | cons c cs ih =>
      rw [byteLength, List.foldl_cons, List.foldl_cons, ih, ih, Nat.zero_add, Nat.add_assoc]
  rw [byteLength, List.foldl_cons, hfold, Nat.zero_add]

theorem lexeme_gap {c : Char} (h : Text.isGap c = true) (position : Nat) (cs : List Char) :
    lexeme position (c :: cs) = .error (.unexpectedCharacter c position) := by
  have hapart : separates c = true := by
    rw [separates, h, Bool.true_or]
  have hother : TokenKind.ofChar? c = none := by
    rcases separates_eq_true hapart with rfl | rfl | rfl | rfl | rfl | rfl <;> first | rfl | cases h
  have hquote : ¬ (c = '\'' ∨ c = '"') := by
    rcases separates_eq_true hapart with rfl | rfl | rfl | rfl | rfl | rfl <;> decide
  have hdigit : ¬ c.isDigit := Bool.eq_false_iff.mp (isDigit_of_separates hapart)
  have hword : ¬ startsWord c := fun hstarts =>
    Bool.eq_false_iff.mp (continuesWord_of_separates hapart) (continuesWord_of_startsWord hstarts)
  have hsymbol : leadingSymbol? (c :: cs) = none := by
    have happend := @leadingSymbol?_append [] (c :: cs) (apart_cons hapart)
    exact happend
  rw [lexeme_symbol hother hdigit hquote hword, hsymbol]

theorem isGap_of_lexeme {position : Nat} {c : Char} {cs text rest : List Char} {kind : TokenKind}
    (h : lexeme position (c :: cs) = .ok (kind, text, rest)) : Text.isGap c = false := by
  refine Bool.eq_false_iff.mpr fun hgap => ?_
  rw [lexeme_gap hgap] at h
  cases h

theorem scanFrom_nil (fuel position : Nat) : scanFrom fuel position [] = .ok [] := by
  cases fuel <;> rfl

theorem scanFrom_gap {c : Char} (h : Text.isGap c = true) (fuel position : Nat) (cs : List Char) :
    scanFrom (fuel + 1) position (c :: cs) =
      scanFrom (fuel + 1) (position + c.utf8Size) cs := by
  rw [scanFrom, scanFrom, List.dropWhile_cons_of_pos h, List.takeWhile_cons_of_pos h,
    byteLength_cons, ← Nat.add_assoc]

theorem scanFrom_token {c : Char} {cs : List Char} (h : Text.isGap c = false)
    (fuel position : Nat) :
    scanFrom (fuel + 1) position (c :: cs) =
      lexeme position (c :: cs) >>= fun (kind, text, rest) =>
        scanFrom fuel (position + byteLength text) rest >>= fun tokens =>
          .ok (⟨kind, position⟩ :: tokens) := by
  have hgap : ¬ Text.isGap c := Bool.eq_false_iff.mp h
  have hstart : position + byteLength [] = position := rfl
  rw [scanFrom, List.dropWhile_cons_of_neg hgap, List.takeWhile_cons_of_neg hgap, hstart]
  dsimp only
  cases lexeme position (c :: cs) with
  | error e => rfl
  | ok found =>
    rw [ok_bind]
    dsimp only
    cases scanFrom fuel (position + byteLength found.2.1) found.2.2 <;> rfl

/-- What the splitting of a text at a position comes to: each character of white space is skipped,
and each token is put in front, up to the end of the text or to what is no token. -/
inductive Scans : (position : Nat) → List Char → Except CompileError (List Token) → Prop
  | nil {position : Nat} : Scans position [] (.ok [])
  | gap {position : Nat} {c : Char} {cs : List Char} {result : Except CompileError (List Token)}
      (hgap : Text.isGap c = true) (later : Scans (position + c.utf8Size) cs result) :
      Scans position (c :: cs) result
  | token {position : Nat} {cs text rest : List Char} {kind : TokenKind}
      {result : Except CompileError (List Token)}
      (hlexeme : lexeme position cs = .ok (kind, text, rest))
      (later : Scans (position + byteLength text) rest result) :
      Scans position cs (result.map (⟨kind, position⟩ :: ·))
  | failed {position : Nat} {c : Char} {cs : List Char} {error : CompileError}
      (hlexeme : lexeme position (c :: cs) = .error error) :
      Scans position (c :: cs) (.error error)

/-- The induction is on the text: a gap takes no fuel, and a token takes one and some text. -/
theorem scans_scanFrom {fuel : Nat} {cs : List Char} (hfuel : cs.length ≤ fuel) (position : Nat) :
    Scans position cs (scanFrom fuel position cs) := by
  induction hlength : cs.length using Nat.strongRecOn generalizing fuel position cs with
  | ind length ih =>
    subst hlength
    cases cs with
    | nil =>
      rw [scanFrom_nil]
      exact .nil
    | cons c cs =>
      obtain ⟨fuel, rfl⟩ := Nat.exists_eq_add_one_of_ne_zero (Nat.ne_zero_of_lt hfuel)
      rw [List.length_cons] at hfuel
      cases hgap : Text.isGap c with
      | true =>
        rw [scanFrom_gap hgap]
        exact .gap hgap (ih _ (by simp) (by omega) _ rfl)
      | false =>
        rw [scanFrom_token hgap]
        cases hlexeme : lexeme position (c :: cs) with
        | error error => exact .failed hlexeme
        | ok found =>
          obtain ⟨kind, text, rest⟩ := found
          obtain ⟨⟨hsplit, hne⟩, -⟩ := lexeme_eq_ok hlexeme
          have hlength := congrArg List.length hsplit
          have hpos := List.length_pos_iff.mpr hne
          rw [List.length_append, List.length_cons] at hlength
          exact .token hlexeme (ih rest.length (by simp; omega) (by omega) _ rfl)

theorem Scans.scanned {position : Nat} {cs : List Char} {ts : List Token}
    (h : Scans position cs (.ok ts)) : Scanned cs (kinds ts) := by
  generalize hresult : Except.ok ts = result at h
  induction h generalizing ts with
  | nil =>
    cases hresult
    exact .nil
  | gap hgap _ ih => exact .gap hgap (ih hresult)
  | @token position cs text rest kind result hlexeme _ ih =>
    cases result with
    | error error => cases hresult
    | ok tokens =>
      cases hresult
      exact .token hlexeme (ih rfl)
  | failed => cases hresult

theorem Scanned.scanFrom {cs : List Char} {kinds : List TokenKind} (h : Scanned cs kinds)
    {fuel : Nat} (hfuel : cs.length ≤ fuel) (position : Nat) :
    ∃ ts, Token.scanFrom fuel position cs = .ok ts ∧ Token.kinds ts = kinds := by
  induction h generalizing fuel position with
  | nil => exact ⟨[], scanFrom_nil fuel position, rfl⟩
  | @gap c cs kinds hgap later ih =>
    rw [List.length_cons] at hfuel
    obtain ⟨fuel, rfl⟩ := Nat.exists_eq_add_one_of_ne_zero (Nat.ne_zero_of_lt hfuel)
    rw [scanFrom_gap hgap]
    exact ih (by omega) _
  | @token position' cs text rest kind kinds hlexeme later ih =>
    obtain ⟨⟨hsplit, hne⟩, hmore⟩ := lexeme_eq_ok hlexeme
    have hlexeme' : lexeme position cs = .ok (kind, text, rest) := by
      have hnil := hmore position [] apart_nil
      rwa [List.append_nil, List.append_nil] at hnil
    have hlength := congrArg List.length hsplit
    have hpos := List.length_pos_iff.mpr hne
    rw [List.length_append] at hlength
    obtain ⟨fuel, rfl⟩ : ∃ fuel', fuel = fuel' + 1 :=
      Nat.exists_eq_add_one_of_ne_zero (by omega)
    have hfuel' : rest.length ≤ fuel := by omega
    obtain ⟨ts, hts, hkinds⟩ := ih hfuel' (position + byteLength text)
    cases cs with
    | nil => cases hlexeme
    | cons c cs =>
      refine ⟨⟨kind, position⟩ :: ts, ?_, congrArg (kind :: ·) hkinds⟩
      rw [scanFrom_token (isGap_of_lexeme hlexeme), hlexeme', ok_bind]
      dsimp only
      rw [hts, ok_bind]

theorem scans_scan (source : String) : Scans 0 source.toList (scan source) :=
  scans_scanFrom (Nat.le_refl _) 0

/-- A text is split into tokens of some kinds exactly if it is scanned as these. -/
theorem scan_kinds_iff {source : String} {kinds : List TokenKind} :
    (∃ ts, scan source = .ok ts ∧ Token.kinds ts = kinds) ↔ Scanned source.toList kinds := by
  constructor
  · intro h
    obtain ⟨ts, hts, rfl⟩ := h
    exact (hts ▸ scans_scan source).scanned
  · exact fun h => h.scanFrom (Nat.le_refl _) 0

namespace Scanned

variable {cs cs' : List Char} {ks ks' : List TokenKind}

theorem unique (h : Scanned cs ks) (h' : Scanned cs ks') : ks = ks' := by
  obtain ⟨ts, hts, rfl⟩ := h.scanFrom (Nat.le_refl _) 0
  obtain ⟨ts', hts', rfl⟩ := h'.scanFrom (Nat.le_refl _) 0
  rw [hts] at hts'
  cases hts'
  rfl

/-! ## Joined texts -/

/-- Texts that stand apart are scanned one after the other. -/
theorem append (h : Scanned cs ks) (h' : Scanned cs' ks') (hapart : Apart cs') :
    Scanned (cs ++ cs') (ks ++ ks') := by
  induction h with
  | nil => exact h'
  | gap hgap _ ih => exact .gap hgap ih
  | token hlexeme _ ih => exact .token ((lexeme_eq_ok hlexeme).2 0 _ hapart) ih

theorem single {c : Char} {kind : TokenKind} (hkind : TokenKind.ofChar? c = some kind)
    (h : Scanned cs ks) : Scanned (c :: cs) (kind :: ks) :=
  @token 0 _ [c] cs kind ks (lexeme_single hkind) h

theorem parenthesized (h : Scanned cs ks) :
    Scanned ('(' :: (cs ++ [')'])) (.openParen :: (ks ++ [.closeParen])) := by
  have hclose : Scanned [')'] [.closeParen] :=
    single rfl .nil
  exact single rfl (h.append hclose (apart_cons rfl))

theorem logical (op : LogicalOp) (h : Scanned cs ks) (h' : Scanned cs' ks') :
    Scanned (cs ++ ' ' :: (op.symbol.toList ++ ' ' :: cs'))
      (ks ++ .operator (.connective (.logical op)) :: ks') := by
  have hsymbol : Scanned op.symbol.toList [.operator (.connective (.logical op))] := by
    cases op
    · exact @token 0 _ ['&', '&'] [] _ _ rfl .nil
    · exact @token 0 _ ['|', '|'] [] _ _ rfl .nil
  have hright : Scanned (' ' :: cs') ks' := .gap rfl h'
  refine h.append (.gap rfl ?_) (apart_cons rfl)
  exact hsymbol.append hright (apart_cons rfl)

end Scanned

end Token

end CommissionRules
