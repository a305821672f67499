import CommissionRules.Proofs.Grammar.Parallel
import CommissionRules.Proofs.Token.Coverage

/-!
# White space between tokens

`Token.Respaced` relates two texts with the same tokens, where some white space stands around every
token of the second text.  A token that is apart from what follows is split off in the same way, so
both texts have tokens of the same kinds, and these are one another's with their positions moved.
Since the reader decides nothing by positions, both texts are read alike: `Compiler.parse_respaced`.
-/

namespace CommissionRules

namespace Token

/-- The second text has the tokens of the first one.  For each piece of white space of the first
text, and also where no white space stands between, before or behind its tokens, the second one has
some of its own. -/
inductive Respaced : List Char → List Char → Prop
  | last {gap gap' : List Char} (hgap : ∀ c ∈ gap, Text.isGap c) (hne : gap' ≠ [])
      (hgap' : ∀ c ∈ gap', Text.isGap c) : Respaced gap gap'
  | token {position : Nat} {gap gap' text rest rest' : List Char} {kind : TokenKind}
      (hgap : ∀ c ∈ gap, Text.isGap c) (hne : gap' ≠ []) (hgap' : ∀ c ∈ gap', Text.isGap c)
      (hlexeme : lexeme position (text ++ rest) = .ok (kind, text, rest))
      (later : Respaced rest rest') : Respaced (gap ++ text ++ rest) (gap' ++ text ++ rest')

theorem Scanned.gaps {gap cs : List Char} {ks : List TokenKind} (hgap : ∀ c ∈ gap, Text.isGap c)
    (h : Scanned cs ks) : Scanned (gap ++ cs) ks := by
  induction gap with
  | nil => exact h
  | cons c gap ih =>
    obtain ⟨hc, hgap⟩ := List.forall_mem_cons.mp hgap
    exact .gap hc (ih hgap)

theorem apart_of_isGap {gap cs : List Char} (hne : gap ≠ []) (hgap : ∀ c ∈ gap, Text.isGap c) :
    Apart (gap ++ cs) := by
  obtain ⟨c, gap, rfl⟩ := List.exists_cons_of_ne_nil hne
  have hc : separates c = true := by
    rw [separates, hgap c List.mem_cons_self, Bool.true_or]
  exact apart_cons hc

namespace Respaced

variable {cs cs' : List Char}

theorem apart (h : Respaced cs cs') : Apart cs' := by
  cases h with
  | last _ hne hgap' => exact List.append_nil cs' ▸ apart_of_isGap hne hgap'
  | token _ hne hgap' => exact List.append_assoc _ _ _ ▸ apart_of_isGap hne hgap'

theorem scanned (h : Respaced cs cs') : ∃ ks, Scanned cs ks ∧ Scanned cs' ks := by
  induction h with
  | @last gap gap' hgap _ hgap' =>
    refine ⟨[], ?_, ?_⟩
    · exact List.append_nil gap ▸ Scanned.nil.gaps hgap
    · exact List.append_nil gap' ▸ Scanned.nil.gaps hgap'
  | @token position gap gap' text rest rest' kind hgap _ hgap' hlexeme later ih =>
    obtain ⟨ks, hrest, hrest'⟩ := ih
    have hlexeme' : lexeme 0 (text ++ rest') = .ok (kind, text, rest') :=
      (lexeme_eq_ok (lexeme_alone hlexeme 0)).2 0 rest' later.apart
    refine ⟨kind :: ks, ?_, ?_⟩
    · exact List.append_assoc _ _ _ ▸ (Scanned.token hlexeme hrest).gaps hgap
    · exact List.append_assoc _ _ _ ▸ (Scanned.token hlexeme' hrest').gaps hgap'

end Respaced

/-- Tokens in ascending order can be moved to the positions of any other tokens of these kinds. -/
theorem exists_movement {ts ts' : List Token} (hkinds : kinds ts' = kinds ts)
    (hascending : ts.Pairwise fun t t' => t.position < t'.position) :
    ∃ f, ts' = ts.map (Token.moved f) := by
  induction ts generalizing ts' with
  | nil => exact ⟨id, List.map_eq_nil_iff.mp hkinds⟩
  | cons t ts ih =>
    obtain ⟨t', ts', rfl, hkind, hkinds⟩ := List.map_eq_cons_iff.mp hkinds
    obtain ⟨hfirst, hascending⟩ := List.pairwise_cons.mp hascending
    obtain ⟨f, rfl⟩ := ih hkinds hascending
    refine ⟨Function.update f t.position t'.position, List.cons_eq_cons.mpr ⟨?_, ?_⟩⟩
    · rw [Token.moved, Function.update_self, ← hkind]
    · refine List.map_congr_left fun later hlater => ?_
      rw [Token.moved, Token.moved, Function.update_of_ne (Nat.ne_of_gt (hfirst later hlater))]

end Token

namespace Compiler

/-- White space between tokens, and before and behind them, does not matter: the tokens are of the
same kinds, and the same tree is read or the same error is found, at the token that stands where the
error stood before. -/
theorem parse_respaced (compiler : Compiler) {source source' : String} {ts : List Token}
    (hscan : Token.scan source = .ok ts) (hne : ts ≠ [])
    (h : Token.Respaced source.toList source'.toList) :
    ∃ ts', Token.scan source' = .ok ts' ∧ Token.kinds ts' = Token.kinds ts ∧
      ((∃ e, compiler.parse source = .ok e ∧ compiler.parse source' = .ok e) ∨
        (∃ error, compiler.parse source = .error error ∧ error.position? = none ∧
          compiler.parse source' = .error error) ∨
        ∃ (error : CompileError) (i : Nat) (t t' : Token), compiler.parse source = .error error ∧
          ts[i]? = some t ∧ error.position? = some t.position ∧ ts'[i]? = some t' ∧
          compiler.parse source' = .error (error.moved fun _ => t'.position)) := by
  obtain ⟨ks, hscanned, hscanned'⟩ := h.scanned
  obtain rfl := hscanned.unique (Token.scan_kinds_iff.mp ⟨ts, hscan, rfl⟩)
  obtain ⟨ts', hscan', hkinds⟩ := Token.scan_kinds_iff.mpr hscanned'
  refine ⟨ts', hscan', hkinds, ?_⟩
  obtain ⟨f, rfl⟩ := Token.exists_movement hkinds (Token.covers_of_scan hscan).ascending
  have hmoved := parseTokens_moved f compiler.catalog compiler.limit hne
  rw [parse, parse, CommissionRules.parse, CommissionRules.parse, hscan, hscan', ok_bind, ok_bind,
    hmoved]
  cases hread : parseTokens compiler.catalog compiler.limit ts with
  | ok parsed => exact .inl ⟨parsed.expr, rfl, rfl⟩
  | error error =>
    refine .inr ?_
    cases hposition : error.position? with
    | none =>
      have hsame : error.moved f = error := CompileError.moved_of_position?_eq_none hposition
      exact .inl ⟨error, rfl, hposition, congrArg Except.error hsame⟩
    | some position =>
      obtain ⟨t, ht, rfl⟩ := exists_of_parseTokens_error hne hread hposition
      obtain ⟨i, hi⟩ := List.getElem?_of_mem ht
      have hmove : error.moved f = error.moved fun _ => f t.position :=
        CompileError.moved_congr (by simp [hposition])
      refine .inr ⟨error, i, t, t.moved f, rfl, hi, hposition, ?_, congrArg Except.error hmove⟩
      rw [List.getElem?_map, hi, Option.map_some]

/-- A name that is not known, in a text without any white space and in one with some around each
token. -/
theorem parse_respaced_unspaced :
    (∃ ts, Token.scan "(true&&x)" = .ok ts ∧ ts ≠ []) ∧
      Token.Respaced "(true&&x)".toList "\n(\ttrue  && x ) ".toList ∧
      standard.parse "(true&&x)" = .error (.unknownIdentifier "x" 7) ∧
      standard.parse "\n(\ttrue  && x ) " = .error (.unknownIdentifier "x" 12) := by
  have hparse : standard.parse "(true&&x)" = .error (.unknownIdentifier "x" 7) := by rfl
  have hscan : Token.scan "(true&&x)" = .ok [⟨.openParen, 0⟩, ⟨.bool true, 1⟩,
      ⟨.operator (.connective (.logical .and)), 5⟩, ⟨.ident "x", 7⟩, ⟨.closeParen, 8⟩] := by rfl
  have hscan' : Token.scan "\n(\ttrue  && x ) " = .ok [⟨.openParen, 1⟩, ⟨.bool true, 3⟩,
      ⟨.operator (.connective (.logical .and)), 9⟩, ⟨.ident "x", 12⟩, ⟨.closeParen, 14⟩] := by rfl
  have hrespaced : Token.Respaced "(true&&x)".toList "\n(\ttrue  && x ) ".toList := by
    have gaps {gap : List Char} (h : gap.all Text.isGap) : ∀ c ∈ gap, Text.isGap c :=
      List.all_eq_true.mp h
    have hclose : Token.Respaced [')'] [' ', ')', ' '] :=
      @Token.Respaced.token 0 [] [' '] [')'] [] _ _ nofun (by decide) (gaps rfl) rfl
        (.last nofun (by decide) (gaps rfl))
    have hname : Token.Respaced "x)".toList " x ) ".toList :=
      @Token.Respaced.token 0 [] [' '] ['x'] _ _ _ nofun (by decide) (gaps rfl) rfl hclose
    have hand : Token.Respaced "&&x)".toList "  && x ) ".toList :=
      @Token.Respaced.token 0 [] [' ', ' '] ['&', '&'] _ _ _ nofun (by decide) (gaps rfl) rfl hname
    have htrue : Token.Respaced "true&&x)".toList "\ttrue  && x ) ".toList :=
      @Token.Respaced.token 0 [] ['\t'] "true".toList _ _ _ nofun (by decide) (gaps rfl) rfl hand
    exact @Token.Respaced.token 0 [] ['\n'] ['('] _ _ _ nofun (by decide) (gaps rfl) rfl htrue
  refine ⟨⟨_, hscan, List.cons_ne_nil _ _⟩, hrespaced, hparse, ?_⟩
  obtain ⟨ts', hts', -, hresult⟩ :=
    parse_respaced standard hscan (List.cons_ne_nil _ _) hrespaced
  cases hscan'.symm.trans hts'
  rcases hresult with ⟨e, he, -⟩ | ⟨error, herror, hnone, -⟩ |
    ⟨error, i, t, t', herror, hi, hposition, hi', h⟩
  · cases hparse.symm.trans he
  · cases hparse.symm.trans herror
    cases hnone
  · cases hparse.symm.trans herror
    -- Only the fourth token stands at the position of the error.
    rcases i with _ | _ | _ | _ | _ | i <;> cases hi <;> cases hposition
    cases hi'
    exact h

end Compiler

end CommissionRules
