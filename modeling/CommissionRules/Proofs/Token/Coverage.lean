import CommissionRules.Proofs.Token.Scanning

/-!
# Texts covered by tokens

A text that is split into tokens is the texts of the tokens, with white space around them.  The text
of a token is the token also without what follows it (`Token.lexeme_alone`).

`Token.Covers` says this of a text and its tokens.  From it come what the positions of tokens are:
they ascend, and each is a boundary of a character.
-/

namespace CommissionRules

namespace Token

/-! ## Coverage -/

theorem scan_alone {position : Nat} {cs text rest : List Char} {kind : TokenKind}
    (h : lexeme position cs = .ok (kind, text, rest)) :
    scan (String.ofList text) = .ok [⟨kind, 0⟩] := by
  have halone := lexeme_alone h 0
  cases text with
  | nil => cases halone
  | cons c text =>
    rw [scan, String.toList_ofList, List.length_cons, scanFrom_token (isGap_of_lexeme halone),
      halone, ok_bind]
    dsimp only
    rw [scanFrom_nil, ok_bind]

/-- A text that starts at a byte offset is the texts of tokens, each at the position of its token,
with gaps of white space before them and one at the end.  The text of a token on its own is split
into this token. -/
inductive Covers : (start : Nat) → List Char → List Token → Prop
  | last {start : Nat} {gap : List Char} (hgap : ∀ c ∈ gap, Text.isGap c = true) :
      Covers start gap []
  | token {start : Nat} {gap text rest : List Char} {kind : TokenKind} {tokens : List Token}
      (hgap : ∀ c ∈ gap, Text.isGap c = true)
      (halone : scan (String.ofList text) = .ok [⟨kind, 0⟩])
      (later : Covers (start + byteLength gap + byteLength text) rest tokens) :
      Covers start (gap ++ text ++ rest) (⟨kind, start + byteLength gap⟩ :: tokens)

theorem Covers.gap {start : Nat} {c : Char} {cs : List Char} {tokens : List Token}
    (hc : Text.isGap c = true) (h : Covers (start + c.utf8Size) cs tokens) :
    Covers start (c :: cs) tokens := by
  cases h with
  | last hgap => exact .last (List.forall_mem_cons.mpr ⟨hc, hgap⟩)
  | @token _ gap text rest kind tokens hgap halone later =>
    have hstart : start + c.utf8Size + byteLength gap = start + byteLength (c :: gap) := by
      rw [byteLength_cons, Nat.add_assoc]
    rw [hstart] at later ⊢
    have hcovers := Covers.token (List.forall_mem_cons.mpr ⟨hc, hgap⟩) halone later
    exact hcovers

theorem Scans.covers {start : Nat} {cs : List Char} {tokens : List Token}
    (h : Scans start cs (.ok tokens)) : Covers start cs tokens := by
  generalize hresult : Except.ok tokens = result at h
  induction h generalizing tokens with
  | nil =>
    cases hresult
    exact .last nofun
  | gap hgap _ ih => exact .gap hgap (ih hresult)
  | @token start cs text rest kind result hlexeme _ ih =>
    cases result with
    | error error => cases hresult
    | ok later =>
      cases hresult
      obtain ⟨⟨rfl, -⟩, -⟩ := lexeme_eq_ok hlexeme
      exact @Covers.token start [] text rest kind later nofun (scan_alone hlexeme) (ih rfl)
  | failed => cases hresult

theorem covers_of_scan {source : String} {tokens : List Token} (h : scan source = .ok tokens) :
    Covers 0 source.toList tokens :=
  (h ▸ scans_scan source).covers

/-! ## Positions -/

theorem byteLength_append (cs cs' : List Char) :
    byteLength (cs ++ cs') = byteLength cs + byteLength cs' := by
  induction cs with
  | nil => exact (Nat.zero_add _).symm
  | cons c cs ih => rw [List.cons_append, byteLength_cons, byteLength_cons, ih, Nat.add_assoc]

theorem byteLength_eq_utf8ByteSize (cs : List Char) :
    byteLength cs = (String.ofList cs).utf8ByteSize := by
  induction cs with
  | nil => rfl
  | cons c cs ih => simp [byteLength_cons, ih]

theorem byteLength_pos {cs : List Char} (h : cs ≠ []) : 0 < byteLength cs := by
  obtain ⟨c, cs, rfl⟩ := List.exists_cons_of_ne_nil h
  rw [byteLength_cons]
  exact Nat.add_pos_left c.utf8Size_pos _

theorem isValid_byteLength (before rest : List Char) :
    (⟨byteLength before⟩ : String.Pos.Raw).IsValid (String.ofList (before ++ rest)) := by
  refine String.Pos.Raw.isValid_iff_exists_append.mpr
    ⟨String.ofList before, String.ofList rest, String.ofList_append, ?_⟩
  rw [String.Pos.Raw.ext_iff, String.byteIdx_rawEndPos, byteLength_eq_utf8ByteSize]

namespace Covers

variable {start : Nat} {cs : List Char} {tokens : List Token}

theorem start_le (h : Covers start cs tokens) : ∀ token ∈ tokens, start ≤ token.position := by
  induction h with
  | last => nofun
  | token _ _ _ ih =>
    refine List.forall_mem_cons.mpr ⟨Nat.le_add_right _ _, fun token htoken => ?_⟩
    exact Nat.le_trans (by omega) (ih token htoken)

theorem ascending (h : Covers start cs tokens) :
    tokens.Pairwise fun token token' => token.position < token'.position := by
  induction h with
  | last => exact .nil
  | @token start gap text rest kind tokens _ halone later ih =>
    have hpos : 0 < byteLength text := by
      refine byteLength_pos fun hnil => ?_
      subst hnil
      cases halone
    refine .cons (fun token htoken => ?_) ih
    exact Nat.lt_of_lt_of_le (Nat.lt_add_of_pos_right hpos) (later.start_le token htoken)

/-- Positions are boundaries of characters in a text that starts with something of the length of the
offset. -/
theorem isValid (h : Covers start cs tokens) {before : List Char}
    (hstart : byteLength before = start) : ∀ token ∈ tokens,
      (⟨token.position⟩ : String.Pos.Raw).IsValid (String.ofList (before ++ cs)) := by
  induction h generalizing before with
  | last => nofun
  | @token start gap text rest kind tokens _ _ later ih =>
    refine List.forall_mem_cons.mpr ⟨?_, fun token htoken => ?_⟩
    · have hvalid := isValid_byteLength (before ++ gap) (text ++ rest)
      rw [byteLength_append, hstart] at hvalid
      simpa only [List.append_assoc] using hvalid
    · have hbefore : byteLength (before ++ gap ++ text) =
          start + byteLength gap + byteLength text := by
        rw [byteLength_append, byteLength_append, hstart]
      have hvalid := ih hbefore token htoken
      simpa only [List.append_assoc] using hvalid

end Covers

end Token

end CommissionRules
