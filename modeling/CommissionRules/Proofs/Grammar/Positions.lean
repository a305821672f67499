import CommissionRules.Proofs.Grammar.Parallel
import CommissionRules.Proofs.Token.Coverage

/-!
# Positions of errors

An error that has a position points at the text: at a token that was split off, or at what is no
token, be it a character or a string without an end.  In the second case the text up to there is
split into tokens on its own, since a token does not depend on how much stands behind it
(`Token.Scans.failure`).  Validation refuses texts without tokens, so the parser reports no position
where there is none: `Compiler.error_points_at_text`.
-/

namespace CommissionRules

namespace Token

namespace Scans

variable {position : Nat} {cs : List Char}

/-- The text has each token at its position. -/
theorem token_at {ts : List Token} (h : Scans position cs (.ok ts)) : ∀ t ∈ ts,
    ∃ before c rest text later, cs = before ++ c :: rest ∧
      t.position = position + byteLength before ∧
      lexeme t.position (c :: rest) = .ok (t.kind, text, later) := by
  generalize hresult : Except.ok ts = result at h
  induction h generalizing ts with
  | nil =>
    cases hresult
    nofun
  | @gap position c cs result _ _ ih =>
    intro t ht
    obtain ⟨before, d, rest, text, later, rfl, hposition, hlexeme⟩ := ih hresult t ht
    refine ⟨c :: before, d, rest, text, later, rfl, ?_, hlexeme⟩
    rw [hposition, byteLength_cons, Nat.add_assoc]
  | @token position cs text rest kind result hlexeme _ ih =>
    cases result with
    | error error => cases hresult
    | ok tokens =>
      cases hresult
      refine List.forall_mem_cons.mpr ⟨?_, fun t ht => ?_⟩
      · obtain ⟨c, cs, rfl⟩ := List.exists_cons_of_ne_nil (l := cs) fun hnil => by
          subst hnil
          cases hlexeme
        exact ⟨[], c, cs, text, rest, rfl, rfl, hlexeme⟩
      · obtain ⟨⟨hsplit, -⟩, -⟩ := lexeme_eq_ok hlexeme
        obtain ⟨before, c, later, text', later', rfl, hposition, hlater⟩ := ih rfl t ht
        refine ⟨text ++ before, c, later, text', later', ?_, ?_, hlater⟩
        · rw [hsplit, List.append_assoc]
        · rw [hposition, byteLength_append, Nat.add_assoc]
  | failed => cases hresult

/-- What stands before the place of a failure is split into tokens. -/
theorem failure {error : CompileError} (h : Scans position cs (.error error)) :
    ∃ before c rest, cs = before ++ c :: rest ∧ (∃ ks, Scanned before ks) ∧
      lexeme (position + byteLength before) (c :: rest) = .error error := by
  generalize hresult : Except.error error = result at h
  induction h with
  | nil => cases hresult
  | @gap position c cs result hgap _ ih =>
    obtain ⟨before, d, rest, rfl, ⟨ks, hbefore⟩, hlexeme⟩ := ih hresult
    refine ⟨c :: before, d, rest, rfl, ⟨ks, .gap hgap hbefore⟩, ?_⟩
    rwa [byteLength_cons, ← Nat.add_assoc]
  | @token position cs text rest kind result hlexeme _ ih =>
    cases result with
    | ok tokens => cases hresult
    | error error' =>
      cases hresult
      obtain ⟨⟨hsplit, -⟩, -⟩ := lexeme_eq_ok hlexeme
      obtain ⟨before, c, later, rfl, ⟨ks, hbefore⟩, hlater⟩ := ih rfl
      have hcut := lexeme_cut hlexeme (List.prefix_append before (c :: later)) 0
      refine ⟨text ++ before, c, later, ?_, ⟨kind :: ks, .token hcut hbefore⟩, ?_⟩
      · rw [hsplit, List.append_assoc]
      · rwa [byteLength_append, ← Nat.add_assoc]
  | @failed position c cs error' hlexeme =>
    cases hresult
    exact ⟨[], c, cs, rfl, ⟨[], .nil⟩, hlexeme⟩

/-- A text without tokens is white space. -/
theorem isGap_of_nil (h : Scans position cs (.ok [])) : ∀ c ∈ cs, Text.isGap c := by
  cases h.covers with
  | last hgap => exact hgap

end Scans

/-- A place before some character of a text is a boundary of characters within the text. -/
theorem boundary_of_split {source : String} {before rest : List Char} {c : Char}
    (h : source.toList = before ++ c :: rest) : byteLength before < source.utf8ByteSize ∧
      (⟨byteLength before⟩ : String.Pos.Raw).IsValid source := by
  obtain rfl : source = String.ofList (before ++ c :: rest) := by
    rw [← h, String.ofList_toList]
  refine ⟨?_, isValid_byteLength before (c :: rest)⟩
  rw [← byteLength_eq_utf8ByteSize, byteLength_append]
  exact Nat.lt_add_of_pos_right (byteLength_pos (List.cons_ne_nil c rest))

end Token

namespace Compiler

variable {compiler : Compiler} {source : String} {error : CompileError} {position : Nat}

/-- The findings of the validation have no position, and it refuses texts without tokens. -/
theorem parse_of_compile_error (h : compiler.compile source = .error error)
    (hposition : error.position? = some position) :
    Text.isBlankText source = false ∧ compiler.parse source = .error error := by
  rw [compile] at h
  split at h
  · next hvalid =>
    refine ⟨Bool.eq_false_iff.mpr fun hblank => ?_, ?_⟩
    · rw [validate, if_pos hblank] at hvalid
      cases hvalid
    · rcases bind_eq_error.mp h with hparse | ⟨e, -, hok⟩
      · exact hparse
      · cases hok
  · cases h
    cases hposition

/-- The position of an error is that of a character of the text.  Either a token starts with this
character; or the text is not split into tokens, up to there it is, and no token starts with the
character or it is the quote before a string without an end. -/
theorem error_points_at_text (h : compiler.compile source = .error error)
    (hposition : error.position? = some position) :
    position < source.utf8ByteSize ∧ (⟨position⟩ : String.Pos.Raw).IsValid source ∧
      ∃ before c rest, source.toList = before ++ c :: rest ∧ Token.byteLength before = position ∧
        ((∃ ts, Token.scan source = .ok ts ∧ ∃ t ∈ ts, t.position = position ∧
            ∃ text later, Token.lexeme position (c :: rest) = .ok (t.kind, text, later)) ∨
          Token.scan source = .error error ∧ Token.lexeme position (c :: rest) = .error error ∧
            (∃ ts, Token.scan (String.ofList before) = .ok ts) ∧
            (error = .unexpectedCharacter c position ∨
              error = .unterminatedString position ∧ (c = '\'' ∨ c = '"') ∧
                Token.readString? c rest = none)) := by
  obtain ⟨hblank, hparse⟩ := parse_of_compile_error h hposition
  have hscans := Token.scans_scan source
  rcases bind_eq_error.mp hparse with hscan | ⟨ts, hscan, hread⟩
  · obtain ⟨before, c, rest, hsplit, ⟨ks, hbefore⟩, hlexeme⟩ := (hscan ▸ hscans).failure
    obtain ⟨hlt, hvalid⟩ := Token.boundary_of_split hsplit
    rw [Nat.zero_add] at hlexeme
    have hkind := Token.lexeme_eq_error hlexeme
    obtain rfl : Token.byteLength before = position := by
      rcases hkind with rfl | ⟨rfl, -⟩ <;> exact Option.some.inj hposition
    rw [← @String.toList_ofList before] at hbefore
    obtain ⟨ts, hts, -⟩ := Token.scan_kinds_iff.mpr hbefore
    exact ⟨hlt, hvalid, before, c, rest, hsplit, rfl, .inr ⟨hscan, hlexeme, ⟨ts, hts⟩, hkind⟩⟩
  · rw [hscan] at hscans
    have hne : ts ≠ [] := by
      rintro rfl
      refine Bool.eq_false_iff.mp hblank (List.all_eq_true.mpr fun c hc => ?_)
      exact Text.isBlank_of_isGap (hscans.isGap_of_nil c hc)
    have hread : parseTokens compiler.catalog compiler.limit ts = .error error := by
      rcases bind_eq_error.mp hread with hread | ⟨parsed, -, hok⟩
      · exact hread
      · cases hok
    obtain ⟨t, ht, rfl⟩ := exists_of_parseTokens_error hne hread hposition
    obtain ⟨before, c, rest, text, later, hsplit, hbefore, hlexeme⟩ := hscans.token_at t ht
    obtain ⟨hlt, hvalid⟩ := Token.boundary_of_split hsplit
    rw [Nat.zero_add] at hbefore
    rw [hbefore] at hlexeme ⊢
    exact ⟨hlt, hvalid, before, c, rest, hsplit, rfl,
      .inl ⟨ts, hscan, t, ht, hbefore, text, later, hlexeme⟩⟩

/-- A character that no token starts with, and a nesting that is too deep behind the last token:
each is reported behind a character of two bytes. -/
theorem error_points_at_text_wide :
    compile ⟨.standard, 1⟩ "'é' #" = .error (.unexpectedCharacter '#' 5) ∧
      (∃ before rest, "'é' #".toList = before ++ '#' :: rest ∧ Token.byteLength before = 5 ∧
        ∃ ts, Token.scan (String.ofList before) = .ok ts) ∧
      compile ⟨.standard, 1⟩ "'é' &&" = .error (.tooDeep 1 5) ∧
      (⟨5⟩ : String.Pos.Raw).IsValid "'é' &&" ∧
      ∃ ts, Token.scan "'é' &&" = .ok ts ∧ ∃ t ∈ ts, t.position = 5 := by
  have hcharacter : compile ⟨.standard, 1⟩ "'é' #" = .error (.unexpectedCharacter '#' 5) := by rfl
  have hdeep : compile ⟨.standard, 1⟩ "'é' &&" = .error (.tooDeep 1 5) := by rfl
  refine ⟨hcharacter, ?_, hdeep, ?_⟩
  · obtain ⟨-, -, before, c, rest, hsplit, hbefore, hplace⟩ := error_points_at_text hcharacter rfl
    have hscan : Token.scan "'é' #" = .error (.unexpectedCharacter '#' 5) := by rfl
    rcases hplace with ⟨ts, hts, -⟩ | ⟨-, -, hscanned, hkind⟩
    · cases hscan.symm.trans hts
    · rcases hkind with hkind | ⟨hkind, -⟩
      · cases hkind
        exact ⟨before, rest, hsplit, hbefore, hscanned⟩
      · cases hkind
  · obtain ⟨-, hvalid, _, _, _, -, -, hplace⟩ := error_points_at_text hdeep rfl
    rcases hplace with ⟨ts, hts, t, ht, hposition, -⟩ | ⟨-, -, -, hkind | ⟨hkind, -⟩⟩
    · exact ⟨hvalid, ts, hts, t, ht, hposition⟩
    · cases hkind
    · cases hkind

end Compiler

end CommissionRules
