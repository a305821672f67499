import CommissionRules.Proofs.Grammar.Adjacency
import CommissionRules.Proofs.Token.Slicing
import CommissionRules.Proofs.Validation

/-!
# Searched texts

The validation searches the characters of a text for equality operators and for divisions by zero
without splitting it into tokens.  Where only such tokens stand beside each other as the grammar
lets (`Grammar.Adjoins`), both cut the characters at the same places.  So the search finds the
equality operators one by one (`Token.Scanned.equalities`), and a division by zero where a numeral
of zeros stands behind a division sign (`Token.Scans.dividesByZero_iff`).
-/

namespace CommissionRules

open Grammar (Adjoins)
open Token (numeral Stopped stopped_dropWhile numeral_split)

/-- Holds of all but strings with a character in them. -/
def TokenKind.lacks (c : Char) : TokenKind → Bool
  | str content => !content.toList.contains c
  | _ => true

/-! ## Characters of tokens -/

namespace Token

/-- The arrow and the operators, with their texts. -/
def symbols : List (TokenKind × List Char) :=
  (.arrow, ['=', '>']) :: Symbol.all.map fun symbol => (.operator symbol, symbol.text.toList)

theorem mem_symbols {cs text : List Char} {kind : TokenKind}
    (h : leadingSymbol? cs = some (kind, text)) : (kind, text) ∈ symbols := by
  rw [leadingSymbol?] at h
  split at h
  · cases h
    exact List.mem_cons_self
  · obtain ⟨symbol, -, heq⟩ := Option.map_eq_some_iff.mp h
    cases heq
    exact List.mem_cons_of_mem _ (List.mem_map_of_mem symbol.mem_all)

/-- What the characters of a token are that is neither an arrow nor an operator. -/
structure Plain (kind : TokenKind) (text : List Char) : Prop where
  operand : ∀ symbol, kind ≠ .operator symbol
  last : text.getLast? ≠ some '!'
  inside : ∀ c ∈ ['=', '/'], c ∈ text → kind.lacks c = false

theorem plain_of_forall {kind : TokenKind} {text : List Char}
    (hkind : ∀ symbol, kind ≠ .operator symbol) (h : ∀ c ∈ text, c ∉ ['=', '/', '!']) :
    Plain kind text where
  operand := hkind
  last hlast := h '!' (List.mem_of_getLast? hlast) (by decide)
  inside c hc hmem := absurd (List.mem_append_left ['!'] hc) (h c hmem)

theorem plain_str {quote : Char} (hquote : quote = '\'' ∨ quote = '"')
    {cs content text rest : List Char} (h : readString? quote cs = some (content, text, rest)) :
    Plain (.str (String.ofList content)) (quote :: text) where
  operand := nofun
  last := by
    have hlast : text.getLast? = some quote := by
      fun_induction readString? quote cs generalizing content text rest with
      | case1 => cases h
      | case2 => cases h
      | case3 d rest' ih | case5 d rest' _ _ ih =>
        obtain ⟨⟨content', text', rest⟩, hread, heq⟩ := Option.map_eq_some_iff.mp h
        cases heq
        simp [List.getLast?_cons, ih hread]
      | case4 =>
        cases h
        rfl
    rcases hquote with rfl | rfl <;> simp [List.getLast?_cons, hlast]
  inside c hc hmem := by
    have hkept : c ∉ escapes ∧ quote ≠ c := by
      simp only [List.mem_cons, List.not_mem_nil, or_false] at hc
      rcases hquote with rfl | rfl <;> rcases hc with rfl | rfl <;> decide
    have hcount := count_readString? hkept.1 hkept.2 h
    have htext : c ∈ text := (List.mem_cons.mp hmem).resolve_left hkept.2.symm
    have hcontent : c ∈ content := List.count_pos_iff.mp (hcount ▸ List.count_pos_iff.mpr htext)
    simpa [TokenKind.lacks] using hcontent

theorem Form.symbol_or_plain {cs text : List Char} {kind : TokenKind} (h : Form cs kind text) :
    (kind, text) ∈ symbols ∨ Plain kind text := by
  cases h with
  | single hsingle =>
    unfold TokenKind.ofChar? at hsingle
    split at hsingle <;> cases hsingle <;> exact .inr (plain_of_forall nofun (by simp))
  | @number c cs =>
    refine .inr (plain_of_forall nofun fun d hd hmem => ?_)
    have hdigit : ¬ d.isDigit ∧ d ≠ '.' := by
      simp only [List.mem_cons, List.not_mem_nil, or_false] at hmem
      rcases hmem with rfl | rfl | rfl <;> decide
    exact (mem_numeral d hd).elim hdigit.1 hdigit.2
  | str hquote hread => exact .inr (plain_str hquote hread)
  | @word c cs =>
    have hkind (symbol : Symbol) : TokenKind.ofWord
        (String.ofList ((c :: cs).takeWhile continuesWord)) ≠ .operator symbol := by
      unfold TokenKind.ofWord
      split
      · nofun
      split
      · nofun
      split <;> nofun
    refine .inr (plain_of_forall hkind fun d hd hmem => ?_)
    have hword : continuesWord d = false := by
      simp only [List.mem_cons, List.not_mem_nil, or_false] at hmem
      rcases hmem with rfl | rfl | rfl <;> decide
    exact Bool.false_ne_true (hword.symm.trans (List.mem_takeWhile_imp hd))
  | symbol hsymbol => exact .inl (mem_symbols hsymbol)

/-- A token is a number exactly if it starts with a digit. -/
theorem Form.isDigit {c : Char} {cs text : List Char} {kind : TokenKind}
    (h : Form (c :: cs) kind text) :
    c.isDigit ∧ (∃ n, kind = .number n) ∧ text = numeral (c :: cs) ∨
      ¬ c.isDigit ∧ ∀ n, kind ≠ .number n := by
  cases h with
  | single hsingle =>
    refine .inr ⟨fun hdigit => ?_, fun n hn => ?_⟩
    · cases (ofChar?_of_isDigit hdigit).symm.trans hsingle
    · subst hn
      unfold TokenKind.ofChar? at hsingle
      split at hsingle <;> cases hsingle
  | number hdigit => exact .inl ⟨hdigit, ⟨_, rfl⟩, rfl⟩
  | str hquote => exact .inr ⟨by rcases hquote with rfl | rfl <;> decide, nofun⟩
  | word hstarts =>
    refine .inr ⟨not_isDigit_of_startsWord hstarts, fun n hn => ?_⟩
    unfold TokenKind.ofWord at hn
    split at hn
    · cases hn
    split at hn
    · cases hn
    split at hn <;> cases hn
  | symbol hsymbol =>
    refine .inr ⟨(leadingSymbol?_first hsymbol).2.1, fun n hn => ?_⟩
    have hmem := mem_symbols hsymbol
    simp [symbols, hn] at hmem

theorem Scanned.startsEqual {cs : List Char} {kinds : List TokenKind} (h : Scanned cs kinds)
    (hcs : cs.head? = some '=') : ∃ kind ∈ kinds.head?, kind.startsEqual = true := by
  have hall : ∀ symbol ∈ symbols, symbol.2.head? = some '=' → symbol.1.startsEqual = true := by
    decide
  cases h with
  | nil => cases hcs
  | gap hgap =>
    cases hcs
    cases hgap
  | @token position cs text rest kind kinds hlexeme later =>
    refine ⟨kind, rfl, ?_⟩
    obtain ⟨cs, rfl⟩ : ∃ later, cs = '=' :: later := List.head?_eq_some_iff.mp hcs
    cases form_of_lexeme hlexeme with
    | single hsingle => cases hsingle
    | number hdigit => cases hdigit
    | str hquote => rcases hquote with heq | heq <;> cases heq
    | word hstarts => cases hstarts
    | symbol hsymbol =>
      obtain ⟨⟨more, hmore⟩, hne⟩ := leadingSymbol?_starts hsymbol
      refine hall _ (mem_symbols hsymbol) ?_
      have hhead : (text ++ more).head? = text.head? := List.head?_append_of_ne_nil text hne
      rw [← hhead, hmore]
      rfl

theorem Scanned.startsDot {cs : List Char} {kinds : List TokenKind} (h : Scanned cs kinds)
    (hcs : cs.head? = some '.') : .dot ∈ kinds.head? := by
  cases h with
  | nil => cases hcs
  | gap hgap =>
    cases hcs
    cases hgap
  | @token position cs text rest kind kinds hlexeme later =>
    obtain ⟨cs, rfl⟩ : ∃ later, cs = '.' :: later := List.head?_eq_some_iff.mp hcs
    cases (lexeme_single rfl).symm.trans hlexeme
    rfl

end Token

/-! ## Equality operators of a text -/

/-- The token of an operator between two operands. -/
def BinaryOp.token (op : BinaryOp) : TokenKind := .operator (.connective (.binary op))

/-- Whether an operator is a strict equality or a loose one, if it is one. -/
def BinaryOp.strict? : BinaryOp → Option Bool
  | strictEqual | strictNotEqual => some true
  | looseEqual | looseNotEqual => some false
  | _ => none

def TokenKind.equality? : TokenKind → Option Bool
  | operator (.connective (.binary op)) => op.strict?
  | _ => none

namespace Validation

theorem equalities_cons {c : Char} {cs : List Char} (hc : c ≠ '=')
    (hcs : c = '!' → cs.head? ≠ some '=') : equalities (c :: cs) = equalities cs := by
  have hbang {later : List Char} (hc : c = '!') (heq : cs = '=' :: later) : False :=
    hcs hc (by rw [heq]; rfl)
  rw [equalities]
  · exact fun _ heq => absurd heq hc
  · exact fun _ => hbang
  · exact fun _ heq => absurd heq hc
  · exact fun _ => hbang

/-- Characters without an equals sign are no part of an equality operator, if the last of them is no
exclamation mark. -/
theorem equalities_skip {text rest : List Char} (htext : '=' ∉ text)
    (hlast : text.getLast? ≠ some '!') : equalities (text ++ rest) = equalities rest := by
  induction text with
  | nil => rfl
  | cons c text ih =>
    obtain ⟨hc, htext⟩ := not_or.mp (List.mem_cons.not.mp htext)
    cases text with
    | nil => exact equalities_cons (Ne.symm hc) fun heq => absurd (congrArg some heq) hlast
    | cons d text =>
      have hnext : (d :: (text ++ rest)).head? ≠ some '=' := fun heq =>
        htext (Option.some.inj heq ▸ List.mem_cons_self)
      rw [List.cons_append, List.cons_append, equalities_cons (Ne.symm hc) fun _ => hnext]
      exact ih htext (by rwa [List.getLast?_cons_cons] at hlast)

/-- Where no equals sign follows, an operator or an arrow is cut off as the scanner does. -/
theorem equalities_symbol {rest : List Char} (hrest : rest.head? ≠ some '=') :
    ∀ symbol ∈ Token.symbols,
      equalities (symbol.2 ++ rest) = symbol.1.equality?.toList ++ equalities rest := by
  cases rest with
  | nil => decide
  | cons c rest =>
    have hc : c ≠ '=' := fun heq => hrest (congrArg some heq)
    simp [Token.symbols, Symbol.all, Symbol.text, Connective.symbol, BinaryOp.symbol,
      LogicalOp.symbol, equalities, hc, TokenKind.equality?, BinaryOp.strict?]

end Validation

/-- What starts with an equals sign stands behind an operand, and so behind none of the operators
that it could be taken together with. -/
theorem Token.Scanned.equalities {cs : List Char} {kinds : List TokenKind} (h : Scanned cs kinds)
    (hchain : kinds.IsChain Adjoins) (hstrings : ∀ kind ∈ kinds, kind.lacks '=' = true) :
    Validation.equalities cs = kinds.filterMap TokenKind.equality? := by
  induction h with
  | nil => rfl
  | @gap c cs kinds hgap _ ih =>
    have hother : c ≠ '=' ∧ c ≠ '!' := by
      constructor <;> rintro rfl <;> cases hgap
    rw [Validation.equalities_cons hother.1 fun heq => absurd heq hother.2, ih hchain hstrings]
  | @token position cs text rest kind kinds hlexeme later ih =>
    obtain ⟨⟨rfl, -⟩, -⟩ := lexeme_eq_ok hlexeme
    obtain ⟨hnext, hchain⟩ := List.isChain_cons.mp hchain
    obtain ⟨hlacks, hstrings⟩ := List.forall_mem_cons.mp hstrings
    have hrest := ih hchain hstrings
    rw [List.filterMap_cons]
    rcases (form_of_lexeme hlexeme).symbol_or_plain with hsymbol | hplain
    · have hall : ∀ symbol ∈ symbols, symbol.1.endsOperand = false := by decide
      have hequal : rest.head? ≠ some '=' := fun heq => by
        obtain ⟨next, hmem, hstarts⟩ := later.startsEqual heq
        exact Bool.false_ne_true ((hall _ hsymbol).symm.trans ((hnext next hmem).operand hstarts))
      rw [Validation.equalities_symbol hequal _ hsymbol, hrest]
      cases kind.equality? <;> rfl
    · have hnone : kind.equality? = none := by
        unfold TokenKind.equality?
        split
        · exact absurd rfl (hplain.operand _)
        · rfl
      have hequal : '=' ∉ text := fun hmem =>
        Bool.false_ne_true ((hplain.inside '=' (by decide) hmem).symm.trans hlacks)
      rw [Validation.equalities_skip hequal hplain.last, hnone, hrest]

/-! ## Numerals of zeros -/

theorem Text.isBlank_ascii {c : Char} (h : isBlank c = true) (hc : c.toNat < 128) :
    c = '\t' ∨ c = '\n' ∨ c = '\x0b' ∨ c = '\x0c' ∨ c = '\r' ∨ c = ' ' := by
  have hnat : c.toNat = 9 ∨ c.toNat = 10 ∨ c.toNat = 11 ∨ c.toNat = 12 ∨ c.toNat = 13 ∨
      c.toNat = 32 := by
    simp [isBlank] at h
    omega
  have hchar {n : Nat} (hn : c.toNat = n) : c = Char.ofNat n := by rw [← hn, Char.ofNat_toNat]
  rcases hnat with hn | hn | hn | hn | hn | hn <;> simp [hchar hn]

namespace Token

/-- Tokens start with ASCII characters other than white space. -/
theorem Form.first {c : Char} {cs text : List Char} {kind : TokenKind}
    (h : Form (c :: cs) kind text) : c.toNat < 128 ∧ Text.isBlank c = false := by
  have hall : ∀ symbol ∈ symbols, symbol.2.all fun d => d.toNat < 128 && !Text.isBlank d := by
    decide
  have hblank {p : Char → Bool}
      (hp : ['\t', '\n', '\x0b', '\x0c', '\r', ' '].all fun d => !p d)
      (hascii : Token.Slicing.AsciiOnly p) (hpc : p c = true) :
      c.toNat < 128 ∧ Text.isBlank c = false := by
    refine ⟨hascii c hpc, Bool.eq_false_iff.mpr fun hblank => ?_⟩
    have hmem := Text.isBlank_ascii hblank (hascii c hpc)
    have hnot := List.all_eq_true.mp hp c (by simpa using hmem)
    rw [hpc] at hnot
    cases hnot
  cases h with
  | single hsingle =>
    exact hblank (by decide) Token.Slicing.AsciiOnly.ofChar? (Option.isSome_of_eq_some hsingle)
  | number hdigit => exact hblank (by decide) Token.Slicing.AsciiOnly.isDigit hdigit
  | str hquote => exact hblank (by decide) Token.Slicing.AsciiOnly.isQuote (by simpa using hquote)
  | word hstarts => exact hblank (by decide) Token.Slicing.AsciiOnly.startsWord hstarts
  | symbol hsymbol =>
    obtain ⟨hstarts, hne⟩ := leadingSymbol?_starts hsymbol
    obtain ⟨d, later, rfl⟩ := List.exists_cons_of_ne_nil hne
    obtain ⟨rfl, -⟩ := List.cons_prefix_cons.mp hstarts
    simpa using List.all_eq_true.mp (hall _ (mem_symbols hsymbol)) d List.mem_cons_self

theorem Scanned.first {cs : List Char} {kinds : List TokenKind} (h : Scanned cs kinds) :
    ∀ c ∈ cs.head?, c.toNat < 128 := by
  intro c hc
  cases h with
  | nil => cases hc
  | gap hgap =>
    cases hc
    exact Token.Slicing.AsciiOnly.isGap c hgap
  | @token _ cs _ _ _ _ hlexeme =>
    obtain ⟨cs, rfl⟩ : ∃ later, cs = c :: later := List.head?_eq_some_iff.mp hc
    exact (form_of_lexeme hlexeme).first.1

end Token

namespace Validation

/-- The digits of a text up to one that is not zero. -/
theorem dropWhile_zero (cs : List Char) :
    (∀ c ∈ cs.takeWhile Char.isDigit, c = '0') ∧
        cs.dropWhile (· == '0') = cs.dropWhile Char.isDigit ∨
      ∃ c later, cs.dropWhile (· == '0') = c :: later ∧ c ∈ cs.takeWhile Char.isDigit ∧
        c ≠ '0' := by
  induction cs with
  | nil => exact .inl ⟨nofun, rfl⟩
  | cons c cs ih =>
    by_cases hc : c = '0'
    · subst hc
      rcases ih with ⟨hall, hdrop⟩ | ⟨d, later, hdrop, hd, hne⟩
      · exact .inl ⟨List.forall_mem_cons.mpr ⟨rfl, hall⟩, hdrop⟩
      · exact .inr ⟨d, later, hdrop, List.mem_cons_of_mem _ hd, hne⟩
    · have hstop : (c :: cs).dropWhile (· == '0') = c :: cs :=
        List.dropWhile_cons_of_neg (by simpa using hc)
      rw [hstop]
      by_cases hdigit : c.isDigit
      · rw [List.takeWhile_cons_of_pos hdigit]
        exact .inr ⟨c, cs, rfl, List.mem_cons_self, hc⟩
      · rw [List.takeWhile_cons_of_neg hdigit, List.dropWhile_cons_of_neg hdigit]
        exact .inl ⟨nofun, rfl⟩

/-- Holds where a numeral of zeros ends. -/
def endsNumeral : List Char → Bool
  | [] => true
  | c :: _ => c != '.' && !Text.isDigit c

theorem endsNumeral_digit {c : Char} (h : c.isDigit) (cs : List Char) :
    endsNumeral (c :: cs) = false := by
  have hdigit : Text.isDigit c = true := by
    rw [Text.isDigit, if_pos (Token.Slicing.AsciiOnly.isDigit c h), h]
  rw [endsNumeral, hdigit, Bool.not_true, Bool.and_false]

theorem endsNumeral_of_stopped {cs : List Char} (hdigit : Stopped Char.isDigit cs)
    (hascii : ∀ c ∈ cs.head?, c.toNat < 128) (hpoint : cs.head? ≠ some '.') :
    endsNumeral cs = true := by
  cases cs with
  | nil => rfl
  | cons c cs =>
    have hother : c ≠ '.' := fun heq => hpoint (congrArg some heq)
    have hdigit : Text.isDigit c = false := by
      rw [Text.isDigit, if_pos (hascii c rfl), hdigit c rfl]
    simp [endsNumeral, hother, hdigit]

/-- Behind its zeros a numeral ends exactly if they are all of its digits. -/
theorem endsNumeral_zeros {cs : List Char}
    (hascii : ∀ c ∈ (cs.dropWhile Char.isDigit).head?, c.toNat < 128)
    (hpoint : (cs.dropWhile Char.isDigit).head? ≠ some '.') :
    endsNumeral (cs.dropWhile (· == '0')) = true ↔ ∀ c ∈ cs.takeWhile Char.isDigit, c = '0' := by
  rcases dropWhile_zero cs with ⟨hall, hdrop⟩ | ⟨c, later, hdrop, hc, hne⟩
  · rw [hdrop]
    exact iff_of_true (endsNumeral_of_stopped (stopped_dropWhile _ _) hascii hpoint) hall
  · rw [hdrop, endsNumeral_digit (List.mem_takeWhile_imp hc)]
    exact iff_of_false Bool.false_ne_true fun hall => hne (hall c hc)

theorem startsWithZero_blank {c : Char} (h : Text.isBlank c = true) (cs : List Char) :
    startsWithZero (c :: cs) = startsWithZero cs := by
  rw [startsWithZero, startsWithZero, List.dropWhile_cons_of_pos h]

theorem startsWithZero_other {c : Char} (hblank : Text.isBlank c = false) (hc : c ≠ '0')
    (cs : List Char) : startsWithZero (c :: cs) = false := by
  have hhead : (c :: cs).head? ≠ some '0' := fun heq => hc (Option.some.inj heq)
  rw [startsWithZero, List.dropWhile_cons_of_neg (Bool.eq_false_iff.mp hblank)]
  exact if_neg hhead

theorem startsWithZero_zero (cs : List Char) : startsWithZero ('0' :: cs) =
    endsNumeral (match ('0' :: cs).dropWhile (· == '0') with
      | '.' :: rest => rest.dropWhile (· == '0')
      | rest => rest) := by
  rfl

/-- Behind a numeral stands no point and no digit, so that it is as long for both. -/
theorem startsWithZero_numeral {c : Char} {cs rest : List Char} (hc : c.isDigit)
    (hsplit : c :: cs = numeral (c :: cs) ++ rest) (hascii : ∀ d ∈ rest.head?, d.toNat < 128)
    (hpoint : rest.head? ≠ some '.') :
    startsWithZero (c :: cs) = true ↔ ∀ d ∈ numeral (c :: cs), d.isDigit → d = '0' := by
  have hfalse {d : Char} {answer : Bool} (hanswer : answer = false)
      (hd : d ∈ numeral (c :: cs)) (hdigit : d.isDigit) (hne : d ≠ '0') :
      answer = true ↔ ∀ d ∈ numeral (c :: cs), d.isDigit → d = '0' :=
    iff_of_false (Bool.eq_false_iff.mp hanswer) fun hall => hne (hall d hd hdigit)
  have hwhole : ∀ d ∈ (c :: cs).takeWhile Char.isDigit, d ∈ numeral (c :: cs) := by
    rw [Token.Slicing.numeral_eq]
    exact fun d => List.mem_append_left _
  by_cases hzero : c = '0'
  · subst hzero
    rw [startsWithZero_zero]
    rcases dropWhile_zero ('0' :: cs) with ⟨hall, hdrop⟩ | ⟨d, later, hdrop, hd, hne⟩
    · rw [hdrop]
      rcases numeral_split hsplit with ⟨hnumeral, rfl, -⟩ | ⟨digits, hlater, hnumeral, rfl⟩
      · refine iff_of_true ?_ fun d hd _ => hall d (hnumeral ▸ hd)
        split
        · next heq => exact absurd (congrArg List.head? heq) hpoint
        · exact endsNumeral_of_stopped (stopped_dropWhile _ _) hascii hpoint
      · rw [hlater]
        show endsNumeral (digits.dropWhile (· == '0')) = true ↔ _
        rw [endsNumeral_zeros hascii hpoint, hnumeral, List.forall_mem_append,
          List.forall_mem_cons]
        constructor
        · exact fun hfraction => ⟨fun d hd _ => hall d hd, nofun, fun d hd _ => hfraction d hd⟩
        · exact fun hparts d hd => hparts.2.2 d hd (List.mem_takeWhile_imp hd)
    · have hdigit : d.isDigit := List.mem_takeWhile_imp hd
      rw [hdrop]
      refine hfalse ?_ (hwhole d hd) hdigit hne
      split
      · next heq =>
        cases heq
        cases hdigit
      · exact endsNumeral_digit hdigit later
  · have hmem : c ∈ (c :: cs).takeWhile Char.isDigit := by
      rw [List.takeWhile_cons_of_pos hc]
      exact List.mem_cons_self
    have hblank := (@Token.Form.number c cs hc).first.2
    exact hfalse (startsWithZero_other hblank hzero cs) (hwhole c hmem) hc hzero

/-- A division sign is all of its text, so that no text without one has anything of a division. -/
theorem dividesByZero_skip {text rest : List Char} (htext : '/' ∉ text) :
    dividesByZero (text ++ rest) = dividesByZero rest := by
  induction text with
  | nil => rfl
  | cons c text ih =>
    obtain ⟨hc, htext⟩ := not_or.mp (List.mem_cons.not.mp htext)
    have hother : (c == '/') = false := beq_eq_false_iff_ne.mpr (Ne.symm hc)
    rw [List.cons_append, dividesByZero, hother, Bool.false_and, Bool.false_or, ih htext]

end Validation

/-! ## Divisions by zero -/

namespace Token

/-- What stands in a text from a byte offset on. -/
def textFrom : (offset : Nat) → List Char → List Char
  | 0, cs => cs
  | _ + 1, [] => []
  | offset + 1, c :: cs => textFrom (offset + 1 - c.utf8Size) cs

theorem textFrom_byteLength (before cs : List Char) :
    textFrom (byteLength before) (before ++ cs) = cs := by
  induction before with
  | nil => cases cs <;> rfl
  | cons c before ih =>
    obtain ⟨offset, hoffset⟩ := Nat.exists_eq_add_one_of_ne_zero
      (Nat.ne_zero_of_lt (byteLength_pos (List.cons_ne_nil c before)))
    rw [hoffset, List.cons_append, textFrom, ← hoffset, byteLength_cons, Nat.add_sub_cancel_left,
      ih]

/-- The text of a token in the text that it is a part of. -/
def textIn (source : String) (t : Token) : List Char :=
  match lexeme t.position (textFrom t.position source.toList) with
  | .ok (_, text, _) => text
  | .error _ => []

/-- Holds of a number whose digits are all zero. -/
def isZeroIn (source : String) (t : Token) : Bool :=
  match t.kind with
  | .number _ => (t.textIn source).all fun c => !c.isDigit || c == '0'
  | _ => false

/-- A division sign is a token of its own, and only strings have one in their texts. -/
theorem Form.division {cs text : List Char} {kind : TokenKind} (h : Form cs kind text)
    (hlacks : kind.lacks '/' = true) : kind = BinaryOp.divide.token ∧ text = ['/'] ∨
      kind ≠ BinaryOp.divide.token ∧ '/' ∉ text := by
  have hall : ∀ symbol ∈ symbols, symbol.1 = BinaryOp.divide.token ∧ symbol.2 = ['/'] ∨
      symbol.1 ≠ BinaryOp.divide.token ∧ '/' ∉ symbol.2 := by decide
  rcases h.symbol_or_plain with hsymbol | hplain
  · exact hall _ hsymbol
  · refine .inr ⟨hplain.operand _, fun hmem => ?_⟩
    exact Bool.false_ne_true ((hplain.inside '/' (by decide) hmem).symm.trans hlacks)

theorem exists_pair_cons {α : Type} {p q : α → Prop} {a : α} {as : List α} :
    (∃ b c, [b, c] <:+: a :: as ∧ p b ∧ q c) ↔
      p a ∧ (∃ c ∈ as.head?, q c) ∨ ∃ b c, [b, c] <:+: as ∧ p b ∧ q c := by
  constructor
  · rintro ⟨b, c, hpair, hb, hc⟩
    rcases List.infix_cons_iff.mp hpair with hpair | hpair
    · obtain ⟨rfl, later, rfl⟩ := List.cons_prefix_cons.mp hpair
      exact .inl ⟨hb, c, rfl, hc⟩
    · exact .inr ⟨b, c, hpair, hb, hc⟩
  · rintro (⟨ha, c, hhead, hc⟩ | ⟨b, c, hpair, hb, hc⟩)
    · obtain ⟨later, rfl⟩ := List.head?_eq_some_iff.mp hhead
      exact ⟨a, c, List.prefix_append [a, c] later |>.isInfix, ha, hc⟩
    · exact ⟨b, c, hpair.trans (List.suffix_cons a as).isInfix, hb, hc⟩

section Sources

variable {source : String} {before cs : List Char} {position : Nat}
  (hsource : source.toList = before ++ cs) (hposition : byteLength before = position)

include hsource hposition

theorem isZeroIn_iff {kind : TokenKind} {text rest : List Char}
    (hlexeme : lexeme position cs = .ok (kind, text, rest)) :
    isZeroIn source ⟨kind, position⟩ = true ↔
      (∃ n, kind = .number n) ∧ ∀ c ∈ text, c.isDigit → c = '0' := by
  have htext : textIn source ⟨kind, position⟩ = text := by
    rw [textIn, hsource, ← hposition, textFrom_byteLength, hposition, hlexeme]
  rw [isZeroIn, htext]
  cases kind <;> simp [imp_iff_not_or]

/-- What a text starts with behind white space is its first token. -/
theorem Scans.startsWithZero_iff {ts : List Token} (h : Scans position cs (.ok ts))
    (hchain : (kinds ts).IsChain Adjoins) :
    Validation.startsWithZero cs = true ↔ ∃ t ∈ ts.head?, t.isZeroIn source = true := by
  generalize hresult : Except.ok ts = result at h
  induction h generalizing before with
  | nil =>
    cases hresult
    exact iff_of_false Bool.false_ne_true (by simp)
  | @gap position c cs result hgap _ ih =>
    rw [Validation.startsWithZero_blank (Text.isBlank_of_isGap hgap)]
    refine @ih (before ++ [c]) (by simpa using hsource) ?_ hresult
    rw [byteLength_append, hposition, byteLength_cons, byteLength, List.foldl_nil, Nat.add_zero]
  | @token position cs text rest kind result hlexeme later _ =>
    cases result with
    | error error => cases hresult
    | ok tokens =>
      cases hresult
      obtain ⟨⟨hsplit, -⟩, -⟩ := lexeme_eq_ok hlexeme
      obtain ⟨hnext, -⟩ := List.isChain_cons.mp hchain
      have hhead : (∃ t ∈ (⟨kind, position⟩ :: tokens : List Token).head?,
          t.isZeroIn source = true) ↔ isZeroIn source ⟨kind, position⟩ = true := by simp
      rw [hhead, isZeroIn_iff hsource hposition hlexeme]
      cases cs with
      | nil => cases hlexeme
      | cons c cs =>
        have hform := form_of_lexeme hlexeme
        rcases hform.isDigit with ⟨hdigit, hnumber, rfl⟩ | ⟨hdigit, hother⟩
        · have hpoint : rest.head? ≠ some '.' := fun hpoint => by
            obtain ⟨n, hn⟩ := hnumber
            exact (hnext .dot (later.scanned.startsDot hpoint)).point rfl n hn
          rw [Validation.startsWithZero_numeral hdigit hsplit later.scanned.first hpoint]
          exact (and_iff_right hnumber).symm
        · have hc : c ≠ '0' := by
            rintro rfl
            exact hdigit rfl
          rw [Validation.startsWithZero_other hform.first.2 hc]
          exact iff_of_false Bool.false_ne_true fun h => h.1.elim hother
  | failed => cases hresult

/-- A division sign stands alone, and its right operand is the token behind it. -/
theorem Scans.dividesByZero_iff {ts : List Token} (h : Scans position cs (.ok ts))
    (hchain : (kinds ts).IsChain Adjoins)
    (hstrings : ∀ t ∈ ts, t.kind.lacks '/' = true) :
    Validation.dividesByZero cs = true ↔ ∃ sign number, [sign, number] <:+: ts ∧
      sign.kind = BinaryOp.divide.token ∧ number.isZeroIn source = true := by
  generalize hresult : Except.ok ts = result at h
  induction h generalizing before ts with
  | nil =>
    cases hresult
    simp [Validation.dividesByZero]
  | @gap position c cs result hgap _ ih =>
    have hother : '/' ∉ [c] := by
      rw [List.mem_singleton]
      rintro rfl
      cases hgap
    rw [← List.singleton_append, Validation.dividesByZero_skip hother]
    refine @ih (before ++ [c]) (by simpa using hsource) ?_ ts hchain hstrings hresult
    rw [byteLength_append, hposition, byteLength_cons, byteLength, List.foldl_nil, Nat.add_zero]
  | @token position cs text rest kind result hlexeme later ih =>
    cases result with
    | error error => cases hresult
    | ok tokens =>
      cases hresult
      obtain ⟨⟨rfl, -⟩, -⟩ := lexeme_eq_ok hlexeme
      have hsource' : source.toList = before ++ text ++ rest := by
        rw [hsource, List.append_assoc]
      have hposition' : byteLength (before ++ text) = position + byteLength text := by
        rw [byteLength_append, hposition]
      have hchain' : (kinds tokens).IsChain Adjoins := (List.isChain_cons.mp hchain).2
      obtain ⟨hlacks, hstrings⟩ := List.forall_mem_cons.mp hstrings
      have hrest := ih hsource' hposition' hchain' hstrings rfl
      have hfirst := later.startsWithZero_iff hsource' hposition' hchain'
      rw [exists_pair_cons]
      rcases (form_of_lexeme hlexeme).division hlacks with ⟨hkind, rfl⟩ | ⟨hkind, htext⟩
      · rw [List.singleton_append, Validation.dividesByZero, beq_self_eq_true, Bool.true_and,
          Bool.or_eq_true, hfirst, hrest]
        exact or_congr_left (and_iff_right hkind).symm
      · rw [Validation.dividesByZero_skip htext, hrest]
        exact (or_iff_right fun h => hkind h.1).symm
  | failed => cases hresult

end Sources

end Token

end CommissionRules
