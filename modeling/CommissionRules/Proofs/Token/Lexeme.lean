import Mathlib.Data.List.TakeWhile
import CommissionRules.Token

/-!
# Tokens in their texts

A token is split off the start of a text.  `Token.Form` says what it may be, one rule for each form.
The text of the token and what follows it are the text again (`Token.lexeme_eq_ok`), the position
has no part in it, and what stands behind white space or behind a closing parenthesis has none
either (`Token.Form.append`).  Where less stands behind the token, it is the same token:
`Token.Form.cut`.
-/

namespace CommissionRules

namespace Token

/-! ## Prefixes up to a separator -/

/-- Holds of the characters that end any token but a string. -/
def separates (c : Char) : Bool := Text.isGap c || c == ')'

/-- Nothing, or a character that ends any token, stands next. -/
def Apart (cs : List Char) : Prop := ∀ c ∈ cs.head?, separates c = true

theorem apart_nil : Apart [] := nofun

theorem apart_cons {c : Char} {cs : List Char} (h : separates c = true) : Apart (c :: cs) := by
  intro d hd
  cases hd
  exact h

section Prefixes

variable {p : Char → Bool} {cs more : List Char}

theorem takeWhile_append_of_apart (hp : ∀ c, separates c = true → p c = false)
    (hmore : Apart more) : (cs ++ more).takeWhile p = cs.takeWhile p := by
  induction cs with
  | nil =>
    cases more with
    | nil => rfl
    | cons c more => exact List.takeWhile_cons_of_neg (by rw [hp c (hmore c rfl)]; decide)
  | cons c cs ih =>
    by_cases hc : p c
    · rw [List.cons_append, List.takeWhile_cons_of_pos hc, List.takeWhile_cons_of_pos hc, ih]
    · rw [List.cons_append, List.takeWhile_cons_of_neg hc, List.takeWhile_cons_of_neg hc]

theorem dropWhile_append_of_apart (hp : ∀ c, separates c = true → p c = false)
    (hmore : Apart more) : (cs ++ more).dropWhile p = cs.dropWhile p ++ more := by
  induction cs with
  | nil =>
    cases more with
    | nil => rfl
    | cons c more => exact List.dropWhile_cons_of_neg (by rw [hp c (hmore c rfl)]; decide)
  | cons c cs ih =>
    by_cases hc : p c
    · rw [List.cons_append, List.dropWhile_cons_of_pos hc, List.dropWhile_cons_of_pos hc, ih]
    · rw [List.cons_append, List.dropWhile_cons_of_neg hc, List.dropWhile_cons_of_neg hc,
        List.cons_append]

theorem isPrefixOf_append_of_apart {word : List Char} (hword : ∀ c ∈ word, separates c = false)
    (hmore : Apart more) : word.isPrefixOf (cs ++ more) = word.isPrefixOf cs := by
  induction word generalizing cs with
  | nil => simp
  | cons d word ih =>
    cases cs with
    | nil =>
      cases more with
      | nil => rfl
      | cons c more =>
        have hne : (d == c) = false := by
          rw [beq_eq_false_iff_ne]
          intro heq
          have hd := hword d List.mem_cons_self
          rw [heq, hmore c rfl] at hd
          cases hd
        show ((d == c) && _) = false
        rw [hne]
        rfl
    | cons c cs =>
      show ((d == c) && word.isPrefixOf (cs ++ more)) = ((d == c) && word.isPrefixOf cs)
      rw [ih fun c hc => hword c (List.mem_cons_of_mem d hc)]

end Prefixes

/-! ## The parts of a lexeme -/

theorem separates_eq_true {c : Char} (h : separates c = true) :
    c = ' ' ∨ c = '\t' ∨ c = '\n' ∨ c = '\x0c' ∨ c = '\r' ∨ c = ')' := by
  simpa [separates, Text.isGap, or_assoc] using h

theorem isDigit_of_separates {c : Char} (h : separates c = true) : c.isDigit = false := by
  rcases separates_eq_true h with rfl | rfl | rfl | rfl | rfl | rfl <;> decide

theorem continuesWord_of_separates {c : Char} (h : separates c = true) :
    continuesWord c = false := by
  rcases separates_eq_true h with rfl | rfl | rfl | rfl | rfl | rfl <;> decide

theorem continuesWord_of_startsWord {c : Char} (h : startsWord c) : continuesWord c := by
  rw [startsWord, Bool.or_eq_true, Bool.or_eq_true] at h
  rw [continuesWord, Char.isAlphanum, Bool.or_eq_true, Bool.or_eq_true, Bool.or_eq_true]
  exact h.imp (·.imp .inl id) id

theorem separates_symbol (symbol : Symbol) : ∀ c ∈ symbol.text.toList, separates c = false := by
  have hall : Symbol.all.all fun symbol => symbol.text.toList.all fun c => !separates c := by
    decide
  intro c hc
  have hsymbol := List.all_eq_true.mp (List.all_eq_true.mp hall symbol symbol.mem_all) c hc
  rwa [Bool.not_eq_true'] at hsymbol

theorem symbol_ne_nil (symbol : Symbol) : symbol.text.toList ≠ [] := by
  have hall : ∀ symbol ∈ Symbol.all, symbol.text.toList ≠ [] := by
    decide
  exact hall symbol symbol.mem_all

theorem fractionDigits_append {cs more : List Char} (hmore : Apart more) :
    fractionDigits (cs ++ more) = fractionDigits cs := by
  cases cs with
  | nil =>
    cases more with
    | nil => rfl
    | cons c more =>
      rcases separates_eq_true (hmore c rfl) with rfl | rfl | rfl | rfl | rfl | rfl <;> rfl
  | cons c cs =>
    by_cases hc : c = '.'
    · subst hc
      exact takeWhile_append_of_apart (fun _ => isDigit_of_separates) hmore
    · rw [List.cons_append, fractionDigits, fractionDigits] <;>
        exact fun _ heq => hc (List.cons.inj heq).1

theorem fractionDigits_digits {cs : List Char} : ∀ c ∈ fractionDigits cs, c.isDigit := by
  unfold fractionDigits
  split
  · exact fun _ => List.mem_takeWhile_imp
  · nofun

/-- The text of the number that a text starts with. -/
def numeral (cs : List Char) : List Char :=
  let whole := cs.takeWhile Char.isDigit
  let fraction := fractionDigits (cs.dropWhile Char.isDigit)
  if fraction.isEmpty then whole else whole ++ '.' :: fraction

theorem mem_numeral {cs : List Char} : ∀ c ∈ numeral cs, c.isDigit ∨ c = '.' := by
  have hwhole : ∀ c ∈ cs.takeWhile Char.isDigit, c.isDigit ∨ c = '.' := fun _ hc =>
    .inl (List.mem_takeWhile_imp hc)
  rw [numeral]
  split
  · exact hwhole
  · exact List.forall_mem_append.mpr ⟨hwhole, List.forall_mem_cons.mpr
      ⟨.inr rfl, fun _ hc => .inl (fractionDigits_digits _ hc)⟩⟩

theorem numeral_append {cs more : List Char} (hmore : Apart more) :
    numeral (cs ++ more) = numeral cs := by
  have hdigit : ∀ c, separates c = true → c.isDigit = false := fun _ => isDigit_of_separates
  rw [numeral, numeral, takeWhile_append_of_apart hdigit hmore,
    dropWhile_append_of_apart hdigit hmore, fractionDigits_append hmore]

theorem numeral_starts (cs : List Char) : numeral cs <+: cs := by
  have hsplit : cs.takeWhile Char.isDigit ++ cs.dropWhile Char.isDigit = cs :=
    List.takeWhile_append_dropWhile
  rw [numeral]
  generalize cs.takeWhile Char.isDigit = whole at hsplit ⊢
  generalize cs.dropWhile Char.isDigit = rest at hsplit ⊢
  subst hsplit
  split
  · exact List.prefix_append _ _
  · next hfraction =>
    refine (List.prefix_append_right_inj whole).mpr ?_
    unfold fractionDigits at hfraction ⊢
    split at hfraction
    · next digits =>
      exact List.cons_prefix_cons.mpr ⟨rfl, List.takeWhile_prefix _⟩
    · exact absurd rfl hfraction

/-- What stands behind the closing quote has no part in a string. -/
theorem readString?_eq_some {quote : Char} {cs content text rest : List Char}
    (h : readString? quote cs = some (content, text, rest)) :
    cs = text ++ rest ∧
      ∀ more, readString? quote (text ++ more) = some (content, text, more) := by
  fun_induction readString? quote cs generalizing content text rest with
  | case1 => cases h
  | case2 => cases h
  | case3 d rest' ih =>
    obtain ⟨⟨content', text', rest⟩, hread, heq⟩ := Option.map_eq_some_iff.mp h
    cases heq
    obtain ⟨rfl, hmore⟩ := ih hread
    refine ⟨rfl, fun more => ?_⟩
    show Option.map _ (readString? quote (text' ++ more)) = _
    rw [hmore]
    rfl
  | case4 rest' hslash =>
    cases h
    refine ⟨rfl, fun more => ?_⟩
    rw [List.cons_append, readString?.eq_def]
    dsimp only
    rw [if_neg hslash, if_pos rfl]
    rfl
  | case5 c rest' hslash hquote ih =>
    obtain ⟨⟨content', text', rest⟩, hread, heq⟩ := Option.map_eq_some_iff.mp h
    cases heq
    obtain ⟨rfl, hmore⟩ := ih hread
    refine ⟨rfl, fun more => ?_⟩
    show readString? quote (c :: (text' ++ more)) = _
    rw [readString?.eq_def]
    dsimp only
    rw [if_neg hslash, if_neg hquote, hmore]
    rfl

/-- The characters that a backslash is about: itself, those that stand for others behind it, and
these others. -/
def escapes : List Char := ['\\', 'n', 't', '\n', '\t']

theorem unescape_eq_iff {c d : Char} (hc : c ∉ escapes) : unescape d = c ↔ d = c := by
  unfold unescape
  split
  · next hn =>
    subst hn
    refine ⟨fun h => ?_, fun h => ?_⟩ <;> exact absurd (h ▸ by decide) hc
  split
  · next ht =>
    subst ht
    refine ⟨fun h => ?_, fun h => ?_⟩ <;> exact absurd (h ▸ by decide) hc
  · rfl

/-- All other characters are as often in a string as in its text, its quote apart. -/
theorem count_readString? {quote c : Char} (hc : c ∉ escapes) (hquote : quote ≠ c)
    {cs content text rest : List Char} (h : readString? quote cs = some (content, text, rest)) :
    text.count c = content.count c := by
  have hslash : '\\' ≠ c := fun heq => hc (heq ▸ List.mem_cons_self)
  fun_induction readString? quote cs generalizing content text rest with
  | case1 => cases h
  | case2 => cases h
  | case3 d rest' ih =>
    obtain ⟨⟨content', text', rest⟩, hread, heq⟩ := Option.map_eq_some_iff.mp h
    cases heq
    rw [List.count_cons_of_ne hslash, List.count_cons, List.count_cons, ih hread]
    simp only [beq_iff_eq, unescape_eq_iff hc]
  | case4 rest' hslash =>
    cases h
    exact List.count_cons_of_ne hquote
  | case5 d rest' hslash hquote ih =>
    obtain ⟨⟨content', text', rest⟩, hread, heq⟩ := Option.map_eq_some_iff.mp h
    cases heq
    rw [List.count_cons, List.count_cons, ih hread]

/-! ## Lexemes -/

/-- The number that a text starts with. -/
def leadingNumber (cs : List Char) : Number :=
  Number.ofDigits false (cs.takeWhile Char.isDigit) (fractionDigits (cs.dropWhile Char.isDigit)) 0

/-- The token of an operator or an arrow that a text starts with, and its text. -/
def leadingSymbol? (cs : List Char) : Option (TokenKind × List Char) :=
  if ['=', '>'].isPrefixOf cs then some (.arrow, ['=', '>'])
  else (Symbol.all.find? fun s => s.text.toList.isPrefixOf cs).map fun symbol =>
    (.operator symbol, symbol.text.toList)

section Forms

variable {position : Nat} {c : Char} {cs : List Char}

theorem lexeme_single {kind : TokenKind} (h : TokenKind.ofChar? c = some kind) :
    lexeme position (c :: cs) = .ok (kind, [c], cs) := by
  rw [lexeme, h]

theorem lexeme_digit (hother : TokenKind.ofChar? c = none) (h : c.isDigit) :
    lexeme position (c :: cs) = .ok (.number (leadingNumber (c :: cs)), numeral (c :: cs),
      (c :: cs).drop (numeral (c :: cs)).length) := by
  rw [lexeme, hother]
  exact if_pos h

theorem lexeme_quote (hother : TokenKind.ofChar? c = none) (hdigit : ¬ c.isDigit)
    (h : c = '\'' ∨ c = '"') :
    lexeme position (c :: cs) = match readString? c cs with
      | some (content, text, rest) => .ok (.str (String.ofList content), c :: text, rest)
      | none => .error (.unterminatedString position) := by
  have hquote : (decide (c = '\'') || decide (c = '"')) = true := by simpa using h
  rw [lexeme, hother]
  exact (if_neg hdigit).trans (if_pos hquote)

theorem lexeme_word (hother : TokenKind.ofChar? c = none) (hdigit : ¬ c.isDigit)
    (hquote : ¬ (c = '\'' ∨ c = '"')) (h : startsWord c) :
    lexeme position (c :: cs) =
      .ok (.ofWord (String.ofList ((c :: cs).takeWhile continuesWord)),
        (c :: cs).takeWhile continuesWord, (c :: cs).dropWhile continuesWord) := by
  have hquote : ¬ (decide (c = '\'') || decide (c = '"')) = true := by simpa using hquote
  rw [lexeme, hother]
  dsimp only
  rw [if_neg hdigit, if_neg hquote, if_pos h]

theorem lexeme_symbol (hother : TokenKind.ofChar? c = none) (hdigit : ¬ c.isDigit)
    (hquote : ¬ (c = '\'' ∨ c = '"')) (hword : ¬ startsWord c) :
    lexeme position (c :: cs) = match leadingSymbol? (c :: cs) with
      | some (kind, text) => .ok (kind, text, (c :: cs).drop text.length)
      | none => .error (.unexpectedCharacter c position) := by
  have hquote : ¬ (decide (c = '\'') || decide (c = '"')) = true := by simpa using hquote
  rw [lexeme, hother]
  dsimp only
  rw [if_neg hdigit, if_neg hquote, if_neg hword, leadingSymbol?]
  split
  · rfl
  · cases Symbol.all.find? fun s => s.text.toList.isPrefixOf (c :: cs) <;> rfl

end Forms

theorem leadingSymbol?_append {cs more : List Char} (hmore : Apart more) :
    leadingSymbol? (cs ++ more) = leadingSymbol? cs := by
  have harrow : ∀ c ∈ ['=', '>'], separates c = false := by simp [separates, Text.isGap]
  rw [leadingSymbol?, leadingSymbol?, isPrefixOf_append_of_apart harrow hmore]
  simp only [isPrefixOf_append_of_apart (separates_symbol _) hmore]

theorem leadingSymbol?_starts {cs text : List Char} {kind : TokenKind}
    (h : leadingSymbol? cs = some (kind, text)) : text <+: cs ∧ text ≠ [] := by
  rw [leadingSymbol?] at h
  split at h
  · next harrow =>
    cases h
    exact ⟨List.isPrefixOf_iff_prefix.mp harrow, List.cons_ne_nil _ _⟩
  · obtain ⟨symbol, hfind, heq⟩ := Option.map_eq_some_iff.mp h
    cases heq
    have hfound : symbol.text.toList.isPrefixOf cs := by
      have hholds := List.find?_some hfind
      exact hholds
    exact ⟨List.isPrefixOf_iff_prefix.mp hfound, symbol_ne_nil symbol⟩

theorem numeral_ne_nil {c : Char} {cs : List Char} (h : c.isDigit) : numeral (c :: cs) ≠ [] := by
  rw [numeral, List.takeWhile_cons_of_pos h]
  split <;> exact List.cons_ne_nil _ _

theorem drop_of_starts {text cs : List Char} (h : text <+: cs) (more : List Char) :
    cs = text ++ cs.drop text.length ∧
      (cs ++ more).drop text.length = cs.drop text.length ++ more :=
  ⟨(List.prefix_iff_eq_append.mp h).symm, List.drop_append_of_le_length h.length_le⟩

/-! ## The first character of a token -/

theorem ofChar?_of_startsWord {c : Char} (h : startsWord c) : TokenKind.ofChar? c = none := by
  unfold TokenKind.ofChar?
  split <;> first | rfl | cases h

theorem ofChar?_of_isDigit {c : Char} (h : c.isDigit) : TokenKind.ofChar? c = none := by
  unfold TokenKind.ofChar?
  split <;> first | rfl | cases h

theorem not_isDigit_of_startsWord {c : Char} (h : startsWord c) : ¬ c.isDigit := by
  intro hdigit
  have hhigh : c.toNat ≤ 57 :=
    UInt32.le_iff_toNat_le.mp (of_decide_eq_true (Bool.and_eq_true_iff.mp hdigit).2)
  rw [startsWord, Bool.or_eq_true, Bool.or_eq_true] at h
  rcases h with (halpha | hunderscore) | hdollar
  · rcases Bool.or_eq_true_iff.mp halpha with hupper | hlower
    · have hlow : 65 ≤ c.toNat := UInt32.le_iff_toNat_le.mp (of_decide_eq_true hupper).1
      omega
    · have hlow : 97 ≤ c.toNat :=
        UInt32.le_iff_toNat_le.mp (of_decide_eq_true (Bool.and_eq_true_iff.mp hlower).1)
      omega
  · cases beq_iff_eq.mp hunderscore
    cases hdigit
  · cases beq_iff_eq.mp hdollar
    cases hdigit

theorem not_isQuote_of_startsWord {c : Char} (h : startsWord c) : ¬ (c = '\'' ∨ c = '"') := by
  rintro (rfl | rfl) <;> cases h

/-- No other token starts with the first character of an operator or an arrow. -/
theorem leadingSymbol?_first {c : Char} {cs text : List Char} {kind : TokenKind}
    (h : leadingSymbol? (c :: cs) = some (kind, text)) : TokenKind.ofChar? c = none ∧
      ¬ c.isDigit ∧ ¬ (c = '\'' ∨ c = '"') ∧ ¬ startsWord c := by
  have hall : Symbol.all.all fun symbol => symbol.text.toList.all fun c =>
      TokenKind.ofChar? c = none ∧ ¬ c.isDigit ∧ ¬ (c = '\'' ∨ c = '"') ∧ ¬ startsWord c := by
    decide
  obtain ⟨hstarts, hne⟩ := leadingSymbol?_starts h
  obtain ⟨d, text, rfl⟩ := List.exists_cons_of_ne_nil hne
  obtain ⟨rfl, -⟩ := List.cons_prefix_cons.mp hstarts
  rw [leadingSymbol?] at h
  split at h
  · cases h
    decide
  · obtain ⟨symbol, -, heq⟩ := Option.map_eq_some_iff.mp h
    obtain ⟨-, htext⟩ := Prod.mk.inj heq
    have hd := List.all_eq_true.mp (List.all_eq_true.mp hall symbol symbol.mem_all) d
      (htext ▸ List.mem_cons_self)
    exact of_decide_eq_true hd

/-! ## Prefixes of what follows -/

/-- What stands next, if anything does, is without a property. -/
def Stopped (p : Char → Bool) (cs : List Char) : Prop := ∀ c ∈ cs.head?, p c = false

section Cut

variable {p : Char → Bool} {cs rest rest' : List Char}

theorem Stopped.shortened (h : Stopped p rest) (hcut : rest' <+: rest) : Stopped p rest' := by
  obtain ⟨more, rfl⟩ := hcut
  cases rest' with
  | nil => nofun
  | cons c rest' => exact h

theorem stopped_dropWhile (p : Char → Bool) (cs : List Char) : Stopped p (cs.dropWhile p) := by
  intro c hc
  have hnot := List.head?_dropWhile_not p cs
  rwa [hc] at hnot

theorem Stopped.span (h : Stopped p rest) (hcs : ∀ c ∈ cs, p c) :
    (cs ++ rest).takeWhile p = cs ∧ (cs ++ rest).dropWhile p = rest := by
  rw [List.takeWhile_append_of_pos hcs, List.dropWhile_append_of_pos hcs]
  cases rest with
  | nil => exact ⟨List.append_nil cs, rfl⟩
  | cons c rest =>
    have hc : ¬ p c := Bool.eq_false_iff.mp (h c rfl)
    rw [List.takeWhile_cons_of_neg hc, List.dropWhile_cons_of_neg hc, List.append_nil]
    exact ⟨rfl, rfl⟩

theorem fractionDigits_prefix (hcut : rest' <+: rest) :
    fractionDigits rest' <+: fractionDigits rest := by
  obtain ⟨more, rfl⟩ := hcut
  cases rest' with
  | nil => exact List.nil_prefix
  | cons c rest' =>
    by_cases hc : c = '.'
    · subst hc
      show rest'.takeWhile Char.isDigit <+: (rest' ++ more).takeWhile Char.isDigit
      rw [List.takeWhile_append]
      split
      · exact (List.takeWhile_prefix _).trans (List.prefix_append _ _)
      · exact List.prefix_rfl
    · have hnone : fractionDigits (c :: rest') = [] := by
        rw [fractionDigits]
        exact fun _ heq => hc (List.cons.inj heq).1
      rw [hnone]
      exact List.nil_prefix

theorem exists_of_fractionDigits (h : fractionDigits cs ≠ []) :
    ∃ digits, cs = '.' :: digits ∧ fractionDigits cs = digits.takeWhile Char.isDigit := by
  unfold fractionDigits at h ⊢
  split at h
  · next digits => exact ⟨digits, rfl, rfl⟩
  · exact absurd rfl h

/-- A numeral is digits, or digits with a point and a fraction behind them. -/
theorem numeral_split (h : cs = numeral cs ++ rest) :
    numeral cs = cs.takeWhile Char.isDigit ∧ rest = cs.dropWhile Char.isDigit ∧
        fractionDigits (cs.dropWhile Char.isDigit) = [] ∨
      ∃ digits, cs.dropWhile Char.isDigit = '.' :: digits ∧
        numeral cs = cs.takeWhile Char.isDigit ++ '.' :: digits.takeWhile Char.isDigit ∧
        rest = digits.dropWhile Char.isDigit := by
  have hwhole : cs = cs.takeWhile Char.isDigit ++ cs.dropWhile Char.isDigit :=
    List.takeWhile_append_dropWhile.symm
  have hnumeral := numeral.eq_def cs
  dsimp only at hnumeral
  by_cases hnone : fractionDigits (cs.dropWhile Char.isDigit) = []
  · rw [hnone, List.isEmpty_nil, if_pos rfl] at hnumeral
    rw [hnumeral] at h
    exact .inl ⟨hnumeral, List.append_cancel_left (h.symm.trans hwhole), hnone⟩
  · obtain ⟨digits, hlater, hdigits⟩ := exists_of_fractionDigits hnone
    rw [List.isEmpty_eq_false_iff.mpr hnone, if_neg Bool.false_ne_true, hdigits] at hnumeral
    rw [hnumeral, List.append_assoc] at h
    rw [hlater] at hwhole
    have hrest := (List.cons.inj (List.append_cancel_left (h.symm.trans hwhole))).2
    exact .inr ⟨digits, hlater, hnumeral,
      List.append_cancel_left (hrest.trans List.takeWhile_append_dropWhile.symm)⟩

/-- A number is its text also where less stands behind it. -/
theorem number_cut (hsplit : cs = numeral cs ++ rest) (hcut : rest' <+: rest) :
    numeral (numeral cs ++ rest') = numeral cs ∧
      leadingNumber (numeral cs ++ rest') = leadingNumber cs := by
  have hwhole : ∀ c ∈ cs.takeWhile Char.isDigit, c.isDigit := fun _ => List.mem_takeWhile_imp
  -- What stands behind the whole part now has the same fraction.
  obtain ⟨later, happend, hstopped, hfraction⟩ : ∃ later,
      numeral cs ++ rest' = cs.takeWhile Char.isDigit ++ later ∧ Stopped Char.isDigit later ∧
        fractionDigits later = fractionDigits (cs.dropWhile Char.isDigit) := by
    rcases numeral_split hsplit with ⟨hnumeral, rfl, hnone⟩ | ⟨digits, hlater, hnumeral, rfl⟩
    · have hfraction := fractionDigits_prefix hcut
      rw [hnone] at hfraction ⊢
      rw [hnumeral]
      exact ⟨rest', rfl, (stopped_dropWhile _ _).shortened hcut, List.prefix_nil.mp hfraction⟩
    · have hall : ∀ c ∈ digits.takeWhile Char.isDigit, c.isDigit := fun _ => List.mem_takeWhile_imp
      have hspan := ((stopped_dropWhile Char.isDigit digits).shortened hcut).span hall
      rw [hnumeral, hlater, List.append_assoc]
      refine ⟨'.' :: (digits.takeWhile Char.isDigit ++ rest'), rfl, ?_, hspan.1⟩
      intro c hc
      cases hc
      rfl
  obtain ⟨htake, hdrop⟩ := hstopped.span hwhole
  rw [happend, numeral, leadingNumber, htake, hdrop, hfraction]
  exact ⟨rfl, rfl⟩

theorem leadingSymbol?_cut {kind : TokenKind}
    (h : leadingSymbol? (cs ++ rest) = some (kind, cs)) (hcut : rest' <+: rest) :
    leadingSymbol? (cs ++ rest') = some (kind, cs) := by
  have hshorter : cs ++ rest' <+: cs ++ rest := (List.prefix_append_right_inj cs).mpr hcut
  have hnot {word : List Char} (h : ¬ word.isPrefixOf (cs ++ rest)) :
      ¬ word.isPrefixOf (cs ++ rest') := by
    rw [List.isPrefixOf_iff_prefix] at h ⊢
    exact fun hword => h (hword.trans hshorter)
  rw [leadingSymbol?] at h ⊢
  split at h
  · obtain ⟨rfl, rfl⟩ := Prod.mk.inj (Option.some.inj h)
    rfl
  · next harrow =>
    obtain ⟨symbol, hfind, heq⟩ := Option.map_eq_some_iff.mp h
    obtain ⟨rfl, rfl⟩ := Prod.mk.inj heq
    obtain ⟨-, before, after, hall, hbefore⟩ := List.find?_eq_some_iff_append.mp hfind
    have hfind' : Symbol.all.find? (fun s => s.text.toList.isPrefixOf
        (symbol.text.toList ++ rest')) = some symbol := by
      refine List.find?_eq_some_iff_append.mpr ⟨?_, before, after, hall, fun s hs => ?_⟩
      · exact List.isPrefixOf_iff_prefix.mpr (List.prefix_append _ _)
      · have hother := hbefore s hs
        rw [Bool.not_eq_true'] at hother ⊢
        exact Bool.eq_false_iff.mpr (hnot (Bool.eq_false_iff.mp hother))
    rw [if_neg (hnot harrow), hfind']
    rfl

end Cut

/-! ## Forms of tokens -/

/-- The tokens that a text starts with, with their texts: one rule for each form. -/
inductive Form : List Char → TokenKind → List Char → Prop
  | single {c : Char} {cs : List Char} {kind : TokenKind}
      (hsingle : TokenKind.ofChar? c = some kind) : Form (c :: cs) kind [c]
  | number {c : Char} {cs : List Char} (hdigit : c.isDigit) :
      Form (c :: cs) (.number (leadingNumber (c :: cs))) (numeral (c :: cs))
  | str {c : Char} {cs content text rest : List Char} (hquote : c = '\'' ∨ c = '"')
      (hread : readString? c cs = some (content, text, rest)) :
      Form (c :: cs) (.str (String.ofList content)) (c :: text)
  | word {c : Char} {cs : List Char} (hstarts : startsWord c) :
      Form (c :: cs) (.ofWord (String.ofList ((c :: cs).takeWhile continuesWord)))
        ((c :: cs).takeWhile continuesWord)
  | symbol {c : Char} {cs text : List Char} {kind : TokenKind}
      (hsymbol : leadingSymbol? (c :: cs) = some (kind, text)) : Form (c :: cs) kind text

namespace Form

variable {cs text : List Char} {kind : TokenKind}

theorem starts (h : Form cs kind text) : text <+: cs ∧ text ≠ [] := by
  cases h with
  | single => exact ⟨List.cons_prefix_cons.mpr ⟨rfl, List.nil_prefix⟩, List.cons_ne_nil _ _⟩
  | number hdigit => exact ⟨numeral_starts _, numeral_ne_nil hdigit⟩
  | @str c cs content text rest hquote hread =>
    obtain ⟨rfl, -⟩ := readString?_eq_some hread
    exact ⟨List.cons_prefix_cons.mpr ⟨rfl, List.prefix_append _ _⟩, List.cons_ne_nil _ _⟩
  | word hstarts =>
    refine ⟨List.takeWhile_prefix _, ?_⟩
    rw [List.takeWhile_cons_of_pos (continuesWord_of_startsWord hstarts)]
    exact List.cons_ne_nil _ _
  | symbol hsymbol => exact leadingSymbol?_starts hsymbol

/-- What stands behind white space or a closing parenthesis has no part in a token. -/
theorem append {more : List Char} (h : Form cs kind text) (hmore : Apart more) :
    Form (cs ++ more) kind text := by
  cases h with
  | single hsingle => exact .single hsingle
  | @number c cs hdigit =>
    have hstop : ∀ d, separates d = true → d.isDigit = false := fun _ => isDigit_of_separates
    have hnumber : leadingNumber (c :: cs ++ more) = leadingNumber (c :: cs) := by
      rw [leadingNumber, leadingNumber, takeWhile_append_of_apart hstop hmore,
        dropWhile_append_of_apart hstop hmore, fractionDigits_append hmore]
    rw [← hnumber, ← numeral_append hmore]
    exact .number hdigit
  | @str c cs content text rest hquote hread =>
    obtain ⟨rfl, hmore⟩ := readString?_eq_some hread
    rw [List.cons_append, List.append_assoc]
    exact .str hquote (hmore (rest ++ more))
  | word hstarts =>
    have hstop : ∀ d, separates d = true → continuesWord d = false := fun _ =>
      continuesWord_of_separates
    rw [← takeWhile_append_of_apart hstop hmore]
    exact .word hstarts
  | symbol hsymbol =>
    rw [← leadingSymbol?_append hmore] at hsymbol
    exact .symbol hsymbol

/-- A token is its text also where less stands behind it. -/
theorem cut {rest rest' : List Char} (h : Form cs kind text) (hsplit : cs = text ++ rest)
    (hcut : rest' <+: rest) : Form (text ++ rest') kind text := by
  obtain ⟨hstarts, hne⟩ := h.starts
  obtain ⟨first, others, htext⟩ := List.exists_cons_of_ne_nil hne
  cases h with
  | single hsingle => exact .single hsingle
  | @number c cs hdigit =>
    obtain ⟨hnumeral, hnumber⟩ := number_cut hsplit hcut
    rw [htext, List.cons_prefix_cons] at hstarts
    obtain ⟨rfl, -⟩ := hstarts
    have hform := @number first (others ++ rest') hdigit
    rwa [← List.cons_append, ← htext, hnumeral, hnumber] at hform
  | str hquote hread => exact .str hquote ((readString?_eq_some hread).2 rest')
  | @word c cs hstart =>
    have hrest := List.append_cancel_left (hsplit.symm.trans List.takeWhile_append_dropWhile.symm)
    subst hrest
    have hall : ∀ d ∈ (c :: cs).takeWhile continuesWord, continuesWord d :=
      fun _ => List.mem_takeWhile_imp
    have hspan := ((stopped_dropWhile continuesWord (c :: cs)).shortened hcut).span hall
    rw [htext, List.cons_prefix_cons] at hstarts
    obtain ⟨rfl, -⟩ := hstarts
    have hform := @word first (others ++ rest') hstart
    rwa [← List.cons_append, ← htext, hspan.1] at hform
  | symbol hsymbol =>
    rw [hsplit] at hsymbol
    have hcut' := leadingSymbol?_cut hsymbol hcut
    rw [htext, List.cons_append] at hcut' ⊢
    exact .symbol hcut'

theorem lexeme (h : Form cs kind text) (position : Nat) :
    lexeme position cs = .ok (kind, text, cs.drop text.length) := by
  cases h with
  | single hsingle => exact lexeme_single hsingle
  | number hdigit => exact lexeme_digit (ofChar?_of_isDigit hdigit) hdigit
  | @str c cs content text rest hquote hread =>
    have hother : TokenKind.ofChar? c = none := by rcases hquote with rfl | rfl <;> rfl
    have hdigit : ¬ c.isDigit := by rcases hquote with rfl | rfl <;> decide
    obtain ⟨rfl, -⟩ := readString?_eq_some hread
    rw [lexeme_quote hother hdigit hquote, hread, List.length_cons, List.drop_succ_cons,
      List.drop_left]
  | @word c cs hstarts =>
    have hsplit : (c :: cs).takeWhile continuesWord ++ (c :: cs).dropWhile continuesWord =
        c :: cs := List.takeWhile_append_dropWhile
    have hdrop : (c :: cs).drop ((c :: cs).takeWhile continuesWord).length =
        (c :: cs).dropWhile continuesWord := by
      have hdrop := (drop_of_starts (List.takeWhile_prefix (l := c :: cs) continuesWord) []).1
      exact List.append_cancel_left (hdrop.symm.trans hsplit.symm)
    rw [lexeme_word (ofChar?_of_startsWord hstarts) (not_isDigit_of_startsWord hstarts)
      (not_isQuote_of_startsWord hstarts) hstarts, hdrop]
  | symbol hsymbol =>
    obtain ⟨hother, hdigit, hquote, hword⟩ := leadingSymbol?_first hsymbol
    rw [lexeme_symbol hother hdigit hquote hword, hsymbol]

end Form

/-- A text starts with a token of some form, with a string without an end or with a character of no
token. -/
theorem lexeme_cases (position : Nat) (c : Char) (cs : List Char) :
    (∃ kind text, Form (c :: cs) kind text) ∨
      lexeme position (c :: cs) = .error (.unexpectedCharacter c position) ∨
      lexeme position (c :: cs) = .error (.unterminatedString position) ∧ (c = '\'' ∨ c = '"') ∧
        readString? c cs = none := by
  cases hother : TokenKind.ofChar? c with
  | some kind => exact .inl ⟨kind, _, .single hother⟩
  | none =>
    by_cases hdigit : c.isDigit
    · exact .inl ⟨_, _, .number hdigit⟩
    by_cases hquote : c = '\'' ∨ c = '"'
    · cases hread : readString? c cs with
      | none =>
        refine .inr (.inr ⟨?_, hquote, rfl⟩)
        rw [lexeme_quote hother hdigit hquote, hread]
      | some parts => exact .inl ⟨_, _, .str hquote hread⟩
    by_cases hword : startsWord c
    · exact .inl ⟨_, _, .word hword⟩
    · cases hsymbol : leadingSymbol? (c :: cs) with
      | none =>
        refine .inr (.inl ?_)
        rw [lexeme_symbol hother hdigit hquote hword, hsymbol]
      | some found => exact .inl ⟨_, _, .symbol hsymbol⟩

theorem form_of_lexeme {position : Nat} {cs text rest : List Char} {kind : TokenKind}
    (h : lexeme position cs = .ok (kind, text, rest)) : Form cs kind text := by
  cases cs with
  | nil => cases h
  | cons c cs =>
    rcases lexeme_cases position c cs with ⟨kind', text', hform⟩ | herror | ⟨herror, -⟩
    · cases (hform.lexeme position).symm.trans h
      exact hform
    · cases herror.symm.trans h
    · cases herror.symm.trans h

theorem lexeme_eq_error {position : Nat} {c : Char} {cs : List Char} {error : CompileError}
    (h : lexeme position (c :: cs) = .error error) :
    error = .unexpectedCharacter c position ∨
      error = .unterminatedString position ∧ (c = '\'' ∨ c = '"') ∧ readString? c cs = none := by
  rcases lexeme_cases position c cs with ⟨kind, text, hform⟩ | herror | ⟨herror, hopen⟩
  · cases (hform.lexeme position).symm.trans h
  · cases herror.symm.trans h
    exact .inl rfl
  · cases herror.symm.trans h
    exact .inr ⟨rfl, hopen⟩

/-- The text of a token and what follows it are the text again.  Wherever the text starts, and
whatever follows apart from it, the same token is split off. -/
theorem lexeme_eq_ok {position : Nat} {cs text rest : List Char} {kind : TokenKind}
    (h : lexeme position cs = .ok (kind, text, rest)) :
    (cs = text ++ rest ∧ text ≠ []) ∧
      ∀ position' more, Apart more →
        lexeme position' (cs ++ more) = .ok (kind, text, rest ++ more) := by
  have hform := form_of_lexeme h
  obtain ⟨hstarts, hne⟩ := hform.starts
  obtain ⟨hsplit, -⟩ := drop_of_starts hstarts []
  have hrest : cs.drop text.length = rest := by
    rw [hform.lexeme position] at h
    cases h
    rfl
  rw [hrest] at hsplit
  refine ⟨⟨hsplit, hne⟩, fun position' more hmore => ?_⟩
  rw [(hform.append hmore).lexeme position', (drop_of_starts hstarts more).2, hrest]

/-- Where less stands behind a token, the same token is split off. -/
theorem lexeme_cut {position : Nat} {cs text rest rest' : List Char} {kind : TokenKind}
    (h : lexeme position cs = .ok (kind, text, rest)) (hcut : rest' <+: rest) (position' : Nat) :
    lexeme position' (text ++ rest') = .ok (kind, text, rest') := by
  obtain ⟨⟨hsplit, -⟩, -⟩ := lexeme_eq_ok h
  rw [((form_of_lexeme h).cut hsplit hcut).lexeme position', List.drop_left]

/-- The text of a token is this token, and nothing follows it. -/
theorem lexeme_alone {position : Nat} {cs text rest : List Char} {kind : TokenKind}
    (h : lexeme position cs = .ok (kind, text, rest)) (position' : Nat) :
    lexeme position' text = .ok (kind, text, []) := by
  have hcut := lexeme_cut h List.nil_prefix position'
  rwa [List.append_nil] at hcut

end Token

end CommissionRules
