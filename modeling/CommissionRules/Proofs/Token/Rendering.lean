import CommissionRules.Proofs.Token.Coverage

/-!
# Written tokens

A `Token.Rendering` is a token together with one way to write it: strings between quotes of either
kind, numbers as decimal digits, and all else as it stands.  The texts of any tokens, joined by
single spaces, are split into the same tokens again, and whatever tokens a text is split into, there
are texts for them: `Token.scan_rendered`.
-/

namespace CommissionRules

/-- Holds of keywords, operators and punctuation, which are written in one way only. -/
def TokenKind.isFixed : TokenKind → Bool
  | number _ | str _ | ident _ => false
  | _ => true

namespace Token

/-! ## Texts of tokens -/

inductive Quote where
  | single
  | double

namespace Quote

def char : Quote → Char
  | single => '\''
  | double => '"'

/-- The content of a string as it stands between quotes: every backslash and every quote of the same
kind has a backslash before it. -/
def escape (quote : Quote) (content : List Char) : List Char :=
  content.flatMap fun c => if c = '\\' ∨ c = quote.char then ['\\', c] else [c]

end Quote

def keywords : List String := ["true", "false", "null"]

/-- An identifier that is no keyword. -/
structure Name where
  chars : List Char
  starts : chars.head?.any startsWord
  continues : ∀ c ∈ chars, continuesWord c
  free : String.ofList chars ∉ keywords

structure Digits where
  chars : List Char
  nonempty : chars ≠ []
  digits : ∀ c ∈ chars, c.isDigit

inductive Rendering where
  | fixed (kind : TokenKind) (isFixed : kind.isFixed)
  | ident (name : Name)
  | number (whole : Digits) (fraction : Option Digits)
  | str (quote : Quote) (content : String)

namespace Rendering

def kind : Rendering → TokenKind
  | fixed kind _ => kind
  | ident name => .ident (String.ofList name.chars)
  | number whole fraction =>
      .number (.ofDigits false whole.chars (fraction.elim [] Digits.chars) 0)
  | str _ content => .str content

/-- A point and the digits behind it, where there are any. -/
def point (fraction : Option Digits) : List Char :=
  fraction.elim [] fun digits => '.' :: digits.chars

def chars : Rendering → List Char
  | fixed kind _ => kind.text.toList
  | ident name => name.chars
  | number whole fraction => whole.chars ++ point fraction
  | str quote content => quote.char :: (quote.escape content.toList ++ [quote.char])

def text (rendering : Rendering) : String := String.ofList rendering.chars

end Rendering

/-! ## Reading the text of a token -/

theorem ofWord_of_notMem {word : String} (h : word ∉ keywords) :
    TokenKind.ofWord word = .ident word := by
  simp only [keywords, List.mem_cons, List.not_mem_nil, or_false, not_or] at h
  obtain ⟨htrue, hfalse, hnull⟩ := h
  rw [TokenKind.ofWord, if_neg htrue, if_neg hfalse, if_neg hnull]

theorem form_name (name : Name) :
    Form name.chars (.ident (String.ofList name.chars)) name.chars := by
  obtain ⟨c, hhead, hstarts⟩ := (Option.any_eq_true _ _).mp name.starts
  obtain ⟨others, hchars⟩ := List.head?_eq_some_iff.mp hhead
  have hform := @Form.word c others hstarts
  rwa [← hchars, List.takeWhile_eq_self_iff.mpr name.continues, ofWord_of_notMem name.free] at hform

theorem fractionDigits_point (fraction : Option Digits) :
    fractionDigits (Rendering.point fraction) = fraction.elim [] Digits.chars := by
  cases fraction with
  | none => rfl
  | some fraction => exact List.takeWhile_eq_self_iff.mpr fraction.digits

theorem form_number (whole : Digits) (fraction : Option Digits) :
    Form (whole.chars ++ Rendering.point fraction)
      (.number (.ofDigits false whole.chars (fraction.elim [] Digits.chars) 0))
      (whole.chars ++ Rendering.point fraction) := by
  have hstopped : Stopped Char.isDigit (Rendering.point fraction) := by
    cases fraction with
    | none => nofun
    | some fraction =>
      intro c hc
      cases hc
      rfl
  obtain ⟨hwhole, hpoint⟩ := hstopped.span whole.digits
  have hnumber : leadingNumber (whole.chars ++ Rendering.point fraction) =
      .ofDigits false whole.chars (fraction.elim [] Digits.chars) 0 := by
    rw [leadingNumber, hwhole, hpoint, fractionDigits_point]
  have hnumeral : numeral (whole.chars ++ Rendering.point fraction) =
      whole.chars ++ Rendering.point fraction := by
    rw [numeral, hwhole, hpoint, fractionDigits_point]
    cases fraction with
    | none => exact (List.append_nil _).symm
    | some fraction =>
      have hne : fraction.chars.isEmpty = false := List.isEmpty_eq_false_iff.mpr fraction.nonempty
      show (if fraction.chars.isEmpty then _ else _) = _
      rw [hne]
      rfl
  obtain ⟨c, others, hchars⟩ := List.exists_cons_of_ne_nil whole.nonempty
  have hdigit : c.isDigit := whole.digits c (hchars ▸ List.mem_cons_self)
  have hform := @Form.number c (others ++ Rendering.point fraction) hdigit
  rwa [← List.cons_append, ← hchars, hnumber, hnumeral] at hform

theorem unescape_escaped (quote : Quote) {c : Char} (h : c = '\\' ∨ c = quote.char) :
    unescape c = c := by
  rcases h with rfl | rfl
  · rfl
  · cases quote <;> rfl

/-- The induction is on the content: of each character two are read, or one that is neither a
backslash nor the quote. -/
theorem readString?_escape (quote : Quote) (content : List Char) :
    readString? quote.char (quote.escape content ++ [quote.char]) =
      some (content, quote.escape content ++ [quote.char], []) := by
  have hslash : quote.char ≠ '\\' := by cases quote <;> decide
  induction content with
  | nil =>
    show readString? quote.char [quote.char] = _
    rw [readString?.eq_def]
    dsimp only
    rw [if_neg hslash, if_pos rfl]
    rfl
  | cons c content ih =>
    by_cases hescaped : c = '\\' ∨ c = quote.char
    · have hescape : quote.escape (c :: content) = '\\' :: c :: quote.escape content := by
        rw [Quote.escape, List.flatMap_cons, if_pos hescaped]
        rfl
      rw [hescape, List.cons_append, List.cons_append, readString?.eq_def]
      dsimp only
      rw [if_pos rfl, ih, Option.map_some, unescape_escaped quote hescaped]
    · have hescape : quote.escape (c :: content) = c :: quote.escape content := by
        rw [Quote.escape, List.flatMap_cons, if_neg hescaped]
        rfl
      obtain ⟨hother, hopen⟩ := not_or.mp hescaped
      rw [hescape, List.cons_append, readString?.eq_def]
      dsimp only
      rw [if_neg hother, if_neg hopen, ih, Option.map_some]

theorem lexeme_fixed {kind : TokenKind} (h : kind.isFixed) :
    lexeme 0 kind.text.toList = .ok (kind, kind.text.toList, []) := by
  cases kind with
  | number | str | ident => cases h
  | bool b => cases b <;> rfl
  | operator symbol =>
    have hall : ∀ symbol ∈ Symbol.all, lexeme 0 symbol.text.toList =
        .ok (.operator symbol, symbol.text.toList, []) := by
      decide
    exact hall symbol symbol.mem_all
  | _ => rfl

theorem form_rendering (rendering : Rendering) :
    Form rendering.chars rendering.kind rendering.chars := by
  cases rendering with
  | fixed kind isFixed => exact form_of_lexeme (lexeme_fixed isFixed)
  | ident name => exact form_name name
  | number whole fraction => exact form_number whole fraction
  | str quote content =>
    have hquote : quote.char = '\'' ∨ quote.char = '"' := by cases quote <;> decide
    have hform := Form.str hquote (readString?_escape quote content.toList)
    rwa [String.ofList_toList] at hform

/-! ## Joined texts -/

theorem scanned_rendering (rendering : Rendering) :
    Scanned rendering.chars [rendering.kind] := by
  have hlexeme := (form_rendering rendering).lexeme 0
  rw [List.drop_length] at hlexeme
  exact .token hlexeme .nil

/-- The induction is on the tokens: a space ends a token, whatever stands behind it. -/
theorem scanned_renderings (renderings : List Rendering) :
    Scanned ([' '].intercalate (renderings.map Rendering.chars))
      (renderings.map Rendering.kind) := by
  induction renderings with
  | nil => exact .nil
  | cons rendering renderings ih =>
    have hfirst := scanned_rendering rendering
    cases renderings with
    | nil =>
      simpa using hfirst
    | cons next renderings =>
      rw [List.map_cons, List.map_cons, List.intercalate_cons_cons, List.append_assoc]
      exact hfirst.append (.gap rfl ih) (apart_cons rfl)

/-! ## Tokens that have a text -/

theorem exists_ofWord {word : List Char} (starts : word.head?.any startsWord)
    (continues : ∀ c ∈ word, continuesWord c) :
    ∃ rendering : Rendering, rendering.kind = .ofWord (String.ofList word) := by
  by_cases hkeyword : String.ofList word ∈ keywords
  · have hfixed : (TokenKind.ofWord (String.ofList word)).isFixed := by
      simp only [keywords, List.mem_cons, List.not_mem_nil, or_false] at hkeyword
      rcases hkeyword with h | h | h <;> rw [h] <;> rfl
    exact ⟨.fixed _ hfixed, rfl⟩
  · exact ⟨.ident ⟨word, starts, continues, hkeyword⟩, (ofWord_of_notMem hkeyword).symm⟩

theorem exists_number {c : Char} {cs : List Char} (h : c.isDigit) :
    ∃ rendering : Rendering, rendering.kind = .number (leadingNumber (c :: cs)) := by
  have hne : (c :: cs).takeWhile Char.isDigit ≠ [] := by
    rw [List.takeWhile_cons_of_pos h]
    exact List.cons_ne_nil _ _
  let whole : Digits := ⟨_, hne, fun _ => List.mem_takeWhile_imp⟩
  rw [leadingNumber]
  have hdigits := @fractionDigits_digits ((c :: cs).dropWhile Char.isDigit)
  generalize fractionDigits ((c :: cs).dropWhile Char.isDigit) = fraction at hdigits ⊢
  cases fraction with
  | nil => exact ⟨.number whole none, rfl⟩
  | cons d fraction => exact ⟨.number whole (some ⟨_, List.cons_ne_nil d fraction, hdigits⟩), rfl⟩

theorem isFixed_ofChar? {c : Char} {kind : TokenKind} (h : TokenKind.ofChar? c = some kind) :
    kind.isFixed := by
  unfold TokenKind.ofChar? at h
  split at h <;> cases h <;> rfl

theorem isFixed_leadingSymbol? {cs text : List Char} {kind : TokenKind}
    (h : leadingSymbol? cs = some (kind, text)) : kind.isFixed := by
  rw [leadingSymbol?] at h
  split at h
  · cases h
    rfl
  · obtain ⟨symbol, -, heq⟩ := Option.map_eq_some_iff.mp h
    cases heq
    rfl

theorem Form.exists_rendering {cs text : List Char} {kind : TokenKind} (h : Form cs kind text) :
    ∃ rendering : Rendering, rendering.kind = kind := by
  cases h with
  | single hsingle => exact ⟨.fixed kind (isFixed_ofChar? hsingle), rfl⟩
  | number hdigit => exact exists_number hdigit
  | @str c cs content text rest => exact ⟨.str .single (String.ofList content), rfl⟩
  | @word c cs hstarts =>
    refine exists_ofWord ?_ fun _ => List.mem_takeWhile_imp
    rw [List.takeWhile_cons_of_pos (continuesWord_of_startsWord hstarts)]
    exact hstarts
  | symbol hsymbol => exact ⟨.fixed kind (isFixed_leadingSymbol? hsymbol), rfl⟩

theorem Scanned.exists_renderings {cs : List Char} {kinds : List TokenKind}
    (h : Scanned cs kinds) :
    ∃ renderings : List Rendering, renderings.map Rendering.kind = kinds := by
  induction h with
  | nil => exact ⟨[], rfl⟩
  | gap _ _ ih => exact ih
  | token hlexeme _ ih =>
    obtain ⟨rendering, rfl⟩ := (form_of_lexeme hlexeme).exists_rendering
    obtain ⟨renderings, rfl⟩ := ih
    exact ⟨rendering :: renderings, rfl⟩

/-- The texts of any tokens with single spaces between them are split into these tokens.  There are
such texts for whatever tokens some text is split into. -/
theorem scan_rendered :
    (∀ renderings : List Rendering,
      ∃ ts, scan (" ".intercalate (renderings.map Rendering.text)) = .ok ts ∧
        kinds ts = renderings.map Rendering.kind) ∧
    ∀ source ts, scan source = .ok ts →
      ∃ renderings : List Rendering, renderings.map Rendering.kind = kinds ts := by
  constructor
  · intro renderings
    refine scan_kinds_iff.mpr ?_
    have htexts : (renderings.map Rendering.text).map String.toList =
        renderings.map Rendering.chars := by
      simp [Rendering.text, Function.comp_def]
    rw [String.toList_intercalate, htexts]
    exact scanned_renderings renderings
  · intro source ts hscan
    exact (scan_kinds_iff.mp ⟨ts, hscan, rfl⟩).exists_renderings

/-- A string that ends with a backslash, a point beside a number with a fraction, a name that starts
like a keyword, and an arrow beside an operator of which it could be a part. -/
theorem scan_rendered_neighbours :
    let renderings : List Rendering :=
      [.str .double "'\"\\", .fixed .dot rfl,
        .number ⟨['0', '1'], by decide, List.all_eq_true.mp rfl⟩
          (some ⟨['5'], by decide, List.all_eq_true.mp rfl⟩),
        .ident ⟨"nullable".toList, by decide, List.all_eq_true.mp rfl, by decide⟩,
        .fixed (.operator (.connective (.binary .looseEqual))) rfl, .fixed .arrow rfl,
        .fixed .null rfl]
    let source := "\"'\\\"\\\\\" . 01.5 nullable == => null"
    " ".intercalate (renderings.map Rendering.text) = source ∧
      ∃ ts, scan source = .ok ts ∧ kinds ts = renderings.map Rendering.kind ∧
        ∃ renderings' : List Rendering, renderings'.map Rendering.kind = kinds ts := by
  intro renderings source
  have htext : " ".intercalate (renderings.map Rendering.text) = source := by decide +kernel
  obtain ⟨ts, hscan, hkinds⟩ := scan_rendered.1 renderings
  rw [htext] at hscan
  exact ⟨htext, ts, hscan, hkinds, scan_rendered.2 source ts hscan⟩

end Token

end CommissionRules
