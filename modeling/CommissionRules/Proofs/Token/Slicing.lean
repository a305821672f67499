import CommissionRules.Binary
import CommissionRules.Proofs.Token.Coverage

/-!
# Scanning by byte offsets

A text can be scanned where it stands: the scanner looks at single bytes, and cuts numbers, words
and the rest of the text out at byte offsets.  `Token.Slicing.scan` does this.  It may fail where a
byte is not there, where an offset is not the boundary of a character, or where a part would end
before it starts.  It never does, and splits a text as `Token.scan` does: `Token.Slicing.scan_eq`.

An offset at which it stands is the length of what it has read, `before`, where the text is
`before ++ cs`.  The bytes from there on are those of `cs`, and of the first byte of a character
that is not ASCII only this much matters: it is no ASCII character either.
-/

namespace CommissionRules

namespace Token

namespace Slicing

/-! ## The scanner -/

/-- Ends with an error in the source, or with nothing where a byte or a part is taken that is not
there. -/
abbrev Reading := ExceptT CompileError Option

/-- The bytes of a text, each as the character of this code. -/
def octets (source : String) : List Char :=
  (Binary.utf8 source).map fun byte => Char.ofNat byte.toNat

def octet (source : String) (position : Nat) : Reading Char :=
  ExceptT.lift (octets source)[position]?

/-- The part of a text between two byte offsets, which have to be boundaries of characters. -/
def part? (source : String) (start stop : Nat) : Option String := do
  let first ← source.pos? ⟨start⟩
  let last ← source.pos? ⟨stop⟩
  let slice ← source.slice? first last
  return slice.copy

def part (source : String) (start stop : Nat) : Reading String :=
  ExceptT.lift (part? source start stop)

/-- The first offset, from the given one on, of a byte that is not such, or the end. -/
def skip (p : Char → Bool) (bytes : List Char) (position : Nat) : Nat :=
  if h : position < bytes.length then
    if p bytes[position] then skip p bytes (position + 1) else position
  else position
termination_by bytes.length - position

/-- Where a number ends.  Its point must have a digit after it. -/
def numberEnd (bytes : List Char) (start : Nat) : Nat :=
  let stop := skip Char.isDigit bytes start
  if bytes[stop]?.any (· == '.') && bytes[stop + 1]?.any Char.isDigit then
    skip Char.isDigit bytes (stop + 1)
  else stop

def number (source : String) (start : Nat) (c : Char) : Reading (TokenKind × Nat) := do
  let stop := numberEnd (octets source) start
  let text ← part source start stop
  match Number.read? text with
  | some n => return (.number n, stop)
  | none => throw (.unexpectedCharacter c start)

/-- The content of a string up to its closing quote, and the offset of this quote.  The offset given
is that of the next character. -/
def content? (quote : Char) : (offset : Nat) → List Char → Option (List Char × Nat)
  | _, [] => none
  | offset, c :: rest =>
      if c = '\\' then
        match rest with
        | [] => none
        | d :: rest =>
            (content? quote (offset + c.utf8Size + d.utf8Size) rest).map fun (content, close) =>
              (unescape d :: content, close)
      else if c = quote then some ([], offset)
      else
        (content? quote (offset + c.utf8Size) rest).map fun (content, close) =>
          (c :: content, close)

def quoted (source : String) (start : Nat) (quote : Char) : Reading (TokenKind × Nat) := do
  let rest ← part source (start + 1) (octets source).length
  match content? quote 0 rest.toList with
  | some (content, close) => return (.str (String.ofList content), start + 1 + close + 1)
  | none => throw (.unterminatedString start)

def word (source : String) (start : Nat) : Reading (TokenKind × Nat) := do
  let stop := skip continuesWord (octets source) start
  let text ← part source start stop
  return (.ofWord text, stop)

def symbol (source : String) (start : Nat) (c : Char) : Reading (TokenKind × Nat) := do
  let rest ← part source start (octets source).length
  match leadingSymbol? rest.toList with
  | some (kind, text) => return (kind, start + byteLength text)
  | none => throw (.unexpectedCharacter (rest.toList.head?.getD c) start)

/-- The token at an offset, and where its text ends. -/
def token (source : String) (start : Nat) : Reading (TokenKind × Nat) := do
  let c ← octet source start
  match TokenKind.ofChar? c with
  | some kind => return (kind, start + 1)
  | none =>
      if c.isDigit then number source start c
      else if c = '\'' ∨ c = '"' then quoted source start c
      else if startsWord c then word source start
      else symbol source start c

/-- The tokens from an offset on.  Every round takes a byte at least, so the fuel is not used up. -/
def scanFrom (source : String) : (fuel position : Nat) → Reading (List Token)
  | 0, _ => ExceptT.lift none
  | fuel + 1, position =>
      if position < (octets source).length then do
        let c ← octet source position
        if Text.isGap c then scanFrom source fuel (position + 1)
        else
          let (kind, next) ← token source position
          let tokens ← scanFrom source fuel next
          return ⟨kind, position⟩ :: tokens
      else return []

def scan (source : String) : Option (Except CompileError (List Token)) :=
  (scanFrom source ((octets source).length + 1) 0).run

/-! ## Bytes and characters -/

theorem toNat_ofNat_byte (byte : UInt8) : (Char.ofNat byte.toNat).toNat = byte.toNat := by
  have hlt := byte.toNat_lt
  rw [Char.ofNat, dif_pos (Or.inl (by omega))]
  rfl

/-- The bytes of a character. -/
def encoded (c : Char) : List Char :=
  (String.utf8EncodeChar c).map fun byte => Char.ofNat byte.toNat

theorem octets_eq (source : String) : octets source = source.toList.flatMap encoded := by
  obtain ⟨cs, rfl⟩ := source.exists_eq_ofList
  rw [octets, Binary.utf8, String.toByteArray_ofList, List.utf8Encode, List.toList_data_toByteArray,
    List.map_flatMap, String.toList_ofList]
  rfl

theorem length_encoded (cs : List Char) : (cs.flatMap encoded).length = byteLength cs := by
  induction cs with
  | nil => rfl
  | cons c cs ih =>
    rw [List.flatMap_cons, List.length_append, ih, byteLength_cons, encoded, List.length_map,
      String.length_utf8EncodeChar]

theorem encoded_ascii {c : Char} (h : c.toNat < 128) : encoded c = [c] := by
  have hle : c.val.toNat ≤ 127 := Nat.le_of_lt_succ h
  have hbyte : (UInt8.ofNat c.val.toNat).toNat = c.toNat := by
    rw [UInt8.toNat_ofNat']
    exact Nat.mod_eq_of_lt (Nat.lt_trans h (by decide))
  rw [encoded, String.utf8EncodeChar, if_pos hle, List.map_singleton, hbyte, Char.ofNat_toNat]

theorem utf8Size_ascii {c : Char} (h : c.toNat < 128) : c.utf8Size = 1 :=
  Char.utf8Size_eq_one_iff.mpr (Nat.le_of_lt_succ h)

/-- The first byte of a character that is not ASCII is none that an ASCII character has. -/
theorem encoded_foreign {c : Char} (h : 128 ≤ c.toNat) :
    ∃ d more, encoded c = d :: more ∧ 128 ≤ d.toNat := by
  have hlarge : ¬ c.val.toNat ≤ 127 := Nat.not_le_of_lt h
  have hbyte {byte : UInt8} (hbyte : 128 ≤ byte.toNat) : 128 ≤ (Char.ofNat byte.toNat).toNat := by
    rwa [toNat_ofNat_byte]
  rw [encoded, String.utf8EncodeChar, if_neg hlarge]
  split
  · exact ⟨_, _, rfl, hbyte (by rw [UInt8.toNat_ofNat']; omega)⟩
  split
  · exact ⟨_, _, rfl, hbyte (by rw [UInt8.toNat_ofNat']; omega)⟩
  · exact ⟨_, _, rfl, hbyte (by rw [UInt8.toNat_ofNat']; omega)⟩

/-! ## Properties of ASCII characters -/

/-- Holds of ASCII characters only. -/
def AsciiOnly (p : Char → Bool) : Prop := ∀ c, p c = true → c.toNat < 128

namespace AsciiOnly

theorem beq {c : Char} (hc : c.toNat < 128) : AsciiOnly (· == c) := by
  intro d h
  rwa [beq_iff_eq.mp h]

theorem or {p q : Char → Bool} (hp : AsciiOnly p) (hq : AsciiOnly q) :
    AsciiOnly fun c => p c || q c := fun c h =>
  (Bool.or_eq_true_iff.mp h).elim (hp c) (hq c)

theorem of_le {p : Char → Bool} (last : Char) (hlast : last.toNat < 128)
    (h : ∀ c, p c = true → c.val ≤ last.val) : AsciiOnly p := fun c hc =>
  Nat.lt_of_le_of_lt (UInt32.le_iff_toNat_le.mp (h c hc)) hlast

theorem isDigit : AsciiOnly Char.isDigit :=
  of_le '9' (by decide) fun _ h => of_decide_eq_true (Bool.and_eq_true_iff.mp h).2

theorem isAlpha : AsciiOnly Char.isAlpha :=
  have isUpper : AsciiOnly Char.isUpper :=
    of_le 'Z' (by decide) fun _ h => (of_decide_eq_true h).2
  have isLower : AsciiOnly Char.isLower :=
    of_le 'z' (by decide) fun _ h => of_decide_eq_true (Bool.and_eq_true_iff.mp h).2
  isUpper.or isLower

theorem startsWord : AsciiOnly startsWord := (isAlpha.or (beq (by decide))).or (beq (by decide))

theorem continuesWord : AsciiOnly continuesWord :=
  ((isAlpha.or isDigit).or (beq (by decide))).or (beq (by decide))

theorem isGap : AsciiOnly Text.isGap :=
  ((((beq (by decide)).or (beq (by decide))).or (beq (by decide))).or (beq (by decide))).or
    (beq (by decide))

theorem isQuote : AsciiOnly fun c => c == '\'' || c == '"' :=
  (beq (by decide)).or (beq (by decide))

theorem ofChar? : AsciiOnly fun c => (TokenKind.ofChar? c).isSome := by
  intro c h
  dsimp only at h
  unfold TokenKind.ofChar? at h
  split at h <;> first | decide | cases h

variable {p : Char → Bool} (hp : AsciiOnly p)
include hp

theorem eq_false {c : Char} (hc : 128 ≤ c.toNat) : p c = false :=
  Bool.eq_false_iff.mpr fun h => Nat.not_le_of_lt (hp c h) hc

theorem agree {c d : Char} (h : d = c ∨ 128 ≤ c.toNat ∧ 128 ≤ d.toNat) : p d = p c := by
  rcases h with rfl | ⟨hc, hd⟩
  · rfl
  · rw [hp.eq_false hc, hp.eq_false hd]

theorem any_head (cs : List Char) : (cs.flatMap encoded).head?.any p = cs.head?.any p := by
  cases cs with
  | nil => rfl
  | cons c cs =>
    rw [List.flatMap_cons]
    rcases Nat.lt_or_ge c.toNat 128 with hc | hc
    · rw [encoded_ascii hc]
      rfl
    · obtain ⟨d, more, hencoded, hd⟩ := encoded_foreign hc
      rw [hencoded]
      exact hp.agree (.inr ⟨hc, hd⟩)

theorem length_takeWhile (cs : List Char) :
    ((cs.flatMap encoded).takeWhile p).length = byteLength (cs.takeWhile p) := by
  induction cs with
  | nil => rfl
  | cons c cs ih =>
    rw [List.flatMap_cons]
    rcases Nat.lt_or_ge c.toNat 128 with hc | hc
    · rw [encoded_ascii hc, List.singleton_append, List.takeWhile_cons, List.takeWhile_cons]
      split
      · rw [byteLength_cons, List.length_cons, ih, utf8Size_ascii hc, Nat.add_comm]
      · rfl
    · obtain ⟨d, more, hencoded, hd⟩ := encoded_foreign hc
      have hstop : ¬ p c := Bool.eq_false_iff.mp (hp.eq_false hc)
      have hstop' : ¬ p d := Bool.eq_false_iff.mp (hp.eq_false hd)
      rw [hencoded, List.cons_append, List.takeWhile_cons_of_neg hstop,
        List.takeWhile_cons_of_neg hstop']
      rfl

end AsciiOnly

/-- A character that is not ASCII starts no token, as far as a single character tells. -/
theorem foreign {c : Char} (h : 128 ≤ c.toNat) : TokenKind.ofChar? c = none ∧ ¬ c.isDigit ∧
    ¬ (c = '\'' ∨ c = '"') ∧ ¬ Token.startsWord c := by
  have hother := AsciiOnly.ofChar?.eq_false h
  have hquote := AsciiOnly.isQuote.eq_false h
  refine ⟨Option.isNone_iff_eq_none.mp (Option.isSome_eq_false_iff.mp hother),
    Bool.eq_false_iff.mp (AsciiOnly.isDigit.eq_false h), ?_,
    Bool.eq_false_iff.mp (AsciiOnly.startsWord.eq_false h)⟩
  simpa using hquote

/-! ## Parts of a text -/

theorem pos?_eq (source : String) (position : String.Pos.Raw) : source.pos? position =
    if h : position.IsValid source then some (source.pos position h) else none := by
  rw [String.pos?, String.Slice.pos?]
  split
  · next h =>
    rw [dif_pos (String.Pos.Raw.isValidForSlice_eq_true_iff.mp h).ofSlice]
    rfl
  · next h =>
    rw [dif_neg fun hvalid => h (String.Pos.Raw.isValidForSlice_eq_true_iff.mpr hvalid.toSlice)]
    rfl

/-- A part is there if its ends are boundaries of characters in their order. -/
theorem part?_isSome_iff (source : String) (start stop : Nat) :
    (part? source start stop).isSome ↔ start ≤ stop ∧
      (⟨start⟩ : String.Pos.Raw).IsValid source ∧ (⟨stop⟩ : String.Pos.Raw).IsValid source := by
  by_cases hstart : (⟨start⟩ : String.Pos.Raw).IsValid source
  · by_cases hstop : (⟨stop⟩ : String.Pos.Raw).IsValid source
    · have hle : source.pos _ hstart ≤ source.pos _ hstop ↔ start ≤ stop := Iff.rfl
      rw [part?, pos?_eq, pos?_eq, dif_pos hstart, dif_pos hstop]
      by_cases h : start ≤ stop
      · simp [String.slice?, hle, hstart, hstop, h]
      · simp [String.slice?, hle, h]
    · simp [part?, pos?_eq, hstop]
  · simp [part?, pos?_eq, hstart]

theorem exists_pos {source before after : String} (h : source = before ++ after) :
    ∃ pos, source.pos? ⟨before.utf8ByteSize⟩ = some pos ∧ pos.Splits before after := by
  have hvalid : (⟨before.utf8ByteSize⟩ : String.Pos.Raw).IsValid source :=
    String.Pos.Raw.isValid_iff_exists_append.mpr ⟨before, after, h, rfl⟩
  refine ⟨source.pos _ hvalid, ?_, h, rfl⟩
  rw [pos?_eq, dif_pos hvalid]

theorem part?_append {source before text after : String} (h : source = before ++ text ++ after) :
    part? source before.utf8ByteSize (before.utf8ByteSize + text.utf8ByteSize) = some text := by
  have hassoc : source = before ++ (text ++ after) := by rw [h, String.append_assoc]
  obtain ⟨first, hfirst, hsplit⟩ := exists_pos hassoc
  obtain ⟨last, hlast, hsplit'⟩ := exists_pos h
  rw [String.utf8ByteSize_append] at hlast
  obtain ⟨hle, hcopy⟩ := String.copy_slice_eq_iff_splits.mpr ⟨before, after, hsplit, hsplit'⟩
  rw [part?, hfirst, hlast]
  show Option.bind (source.slice? first last) _ = _
  rw [String.slice?, dif_pos hle]
  exact congrArg some hcopy

theorem skip_eq (p : Char → Bool) (bytes : List Char) (position : Nat) :
    skip p bytes position = position + ((bytes.drop position).takeWhile p).length := by
  fun_induction skip p bytes position with
  | case1 position h hp ih =>
    rw [ih, List.drop_eq_getElem_cons h, List.takeWhile_cons_of_pos hp, List.length_cons]
    omega
  | case2 position h hp =>
    rw [List.drop_eq_getElem_cons h, List.takeWhile_cons_of_neg hp]
    rfl
  | case3 position h =>
    rw [List.drop_eq_nil_of_le (Nat.le_of_not_lt h)]
    rfl

section At

variable {source : String} {before cs : List Char} (hsource : source.toList = before ++ cs)
include hsource

theorem drop_octets : (octets source).drop (byteLength before) = cs.flatMap encoded := by
  rw [octets_eq, hsource, List.flatMap_append, ← length_encoded before, List.drop_left]

theorem octet?_eq : (octets source)[byteLength before]? = (cs.flatMap encoded).head? := by
  rw [← drop_octets hsource, List.head?_drop]

theorem length_octets : (octets source).length = byteLength before + byteLength cs := by
  rw [octets_eq, length_encoded, hsource, byteLength_append]

theorem part_eq {text after : List Char} (h : cs = text ++ after) :
    part source (byteLength before) (byteLength before + byteLength text) =
      pure (String.ofList text) := by
  subst h
  have happend : source =
      String.ofList before ++ String.ofList text ++ String.ofList after := by
    rw [← String.ofList_append, ← String.ofList_append, List.append_assoc, ← hsource,
      String.ofList_toList]
  rw [part, byteLength_eq_utf8ByteSize, byteLength_eq_utf8ByteSize, part?_append happend]
  rfl

theorem part_rest : part source (byteLength before) (octets source).length =
    pure (String.ofList cs) := by
  rw [length_octets hsource]
  exact part_eq hsource (List.append_nil cs).symm

theorem skip_at {p : Char → Bool} (hp : AsciiOnly p) :
    skip p (octets source) (byteLength before) =
      byteLength before + byteLength (cs.takeWhile p) := by
  rw [skip_eq, drop_octets hsource, hp.length_takeWhile]

theorem any_octet {p : Char → Bool} (hp : AsciiOnly p) :
    (octets source)[byteLength before]?.any p = cs.head?.any p := by
  rw [octet?_eq hsource, hp.any_head]

end At

/-! ## Tokens -/

/-- The part of a numeral that is not whole: a point and digits, or nothing. -/
theorem numeral_eq (cs : List Char) : numeral cs = cs.takeWhile Char.isDigit ++
    if (fractionDigits (cs.dropWhile Char.isDigit)).isEmpty then []
    else '.' :: fractionDigits (cs.dropWhile Char.isDigit) := by
  rw [numeral]
  split
  · exact (List.append_nil _).symm
  · rfl

theorem readDecimal?_numeral {c : Char} {cs : List Char} (h : c.isDigit) :
    Number.readDecimal? false (numeral (c :: cs)) = some (leadingNumber (c :: cs)) := by
  have hwhole : ∀ d ∈ (c :: cs).takeWhile Char.isDigit, d.isDigit := fun _ => List.mem_takeWhile_imp
  have hne : ((c :: cs).takeWhile Char.isDigit).isEmpty = false := by
    rw [List.takeWhile_cons_of_pos h]
    rfl
  have hfraction := @fractionDigits_digits ((c :: cs).dropWhile Char.isDigit)
  rw [Number.readDecimal?, leadingNumber, numeral_eq, List.takeWhile_append_of_pos hwhole,
    List.dropWhile_append_of_pos hwhole]
  generalize (c :: cs).takeWhile Char.isDigit = whole at hne ⊢
  generalize fractionDigits ((c :: cs).dropWhile Char.isDigit) = fraction at hfraction ⊢
  cases fraction with
  | nil =>
    simp [hne]
  | cons d fraction =>
    have htake := List.takeWhile_eq_self_iff.mpr hfraction
    have hdrop := List.dropWhile_eq_nil_iff.mpr hfraction
    have hpoint : Char.isDigit '.' = false := rfl
    simp [hne, htake, hdrop, hpoint]

theorem read?_numeral {c : Char} {cs : List Char} (h : c.isDigit) :
    Number.read? (String.ofList (numeral (c :: cs))) = some (leadingNumber (c :: cs)) := by
  have hdecimal := @readDecimal?_numeral c cs h
  obtain ⟨digits, hdigits⟩ : ∃ digits, numeral (c :: cs) = c :: digits := by
    rw [numeral_eq, List.takeWhile_cons_of_pos h]
    exact ⟨_, rfl⟩
  rw [hdigits] at hdecimal ⊢
  have hminus : c ≠ '-' := by
    rintro rfl
    cases h
  have hplus : c ≠ '+' := by
    rintro rfl
    cases h
  rw [Number.read?, String.toList_ofList]
  simp [hminus, hplus, hdecimal]

/-- A string is read up to the same quote, which is one byte. -/
theorem content?_eq {quote : Char} (hquote : quote.utf8Size = 1) (offset : Nat) (cs : List Char) :
    (content? quote offset cs).map (fun (content, close) => (content, close + 1)) =
      (readString? quote cs).map fun (content, text, _) => (content, offset + byteLength text) := by
  fun_induction content? quote offset cs with
  | case1 => rfl
  | case2 => rfl
  | case3 offset d rest ih =>
    have hread : readString? quote ('\\' :: d :: rest) =
        (readString? quote rest).map fun (content, text, rest) =>
          (unescape d :: content, '\\' :: d :: text, rest) := by
      rw [readString?.eq_def]
      rfl
    have hlength (text : List Char) : offset + byteLength ('\\' :: d :: text) =
        offset + '\\'.utf8Size + d.utf8Size + byteLength text := by
      simp only [byteLength_cons, Nat.add_assoc]
    have hmore := congrArg (Option.map fun (content, next) => (unescape d :: content, next)) ih
    rw [Option.map_map, Option.map_map] at hmore
    rw [hread, Option.map_map, Option.map_map]
    simpa only [Function.comp_def, hlength] using hmore
  | case4 offset rest hslash =>
    rw [readString?.eq_def]
    dsimp only
    rw [if_neg hslash, if_pos rfl, Option.map_some, Option.map_some, byteLength_cons, hquote]
    rfl
  | case5 offset c rest hslash hother ih =>
    rw [readString?.eq_def]
    dsimp only
    have hlength (text : List Char) :
        offset + byteLength (c :: text) = offset + c.utf8Size + byteLength text := by
      rw [byteLength_cons, Nat.add_assoc]
    have hmore := congrArg (Option.map fun (content, next) => (c :: content, next)) ih
    rw [Option.map_map, Option.map_map] at hmore
    rw [if_neg hslash, if_neg hother, Option.map_map, Option.map_map]
    simpa only [Function.comp_def, hlength] using hmore

/-- The token that a text starts with, where the text stands at an offset. -/
def located (start : Nat) (cs : List Char) : Reading (TokenKind × Nat) :=
  ExceptT.mk (some ((lexeme start cs).map fun (kind, text, _) => (kind, start + byteLength text)))

section At

variable {source : String} {before cs : List Char} (hsource : source.toList = before ++ cs)
include hsource

theorem numberEnd_eq :
    numberEnd (octets source) (byteLength before) = byteLength before + byteLength (numeral cs) := by
  have hsplit : cs.takeWhile Char.isDigit ++ cs.dropWhile Char.isDigit = cs :=
    List.takeWhile_append_dropWhile
  have hwhole := skip_at hsource AsciiOnly.isDigit
  rw [numberEnd, hwhole, numeral_eq]
  generalize cs.takeWhile Char.isDigit = whole at hsplit ⊢
  generalize cs.dropWhile Char.isDigit = later at hsplit ⊢
  subst hsplit
  rw [← List.append_assoc] at hsource
  rw [← byteLength_append, any_octet hsource (AsciiOnly.beq (by decide))]
  cases later with
  | nil => simp [fractionDigits, byteLength_append]
  | cons c later =>
    by_cases hpoint : c = '.'
    · subst hpoint
      rw [List.append_cons] at hsource
      have hstop : byteLength (before ++ whole) + 1 = byteLength (before ++ whole ++ ['.']) := by
        rw [byteLength_append _ ['.']]
        rfl
      have hfraction : fractionDigits ('.' :: later) = later.takeWhile Char.isDigit := rfl
      rw [hstop, any_octet hsource AsciiOnly.isDigit, skip_at hsource AsciiOnly.isDigit, hfraction,
        ← hstop]
      cases later with
      | nil => simp [byteLength_append]
      | cons d later =>
        by_cases hdigit : d.isDigit
        · have hpoint : '.'.utf8Size = 1 := rfl
          simp [hdigit, byteLength_append, byteLength_cons, hpoint, Nat.add_assoc]
        · simp [hdigit, byteLength_append]
    · have hfraction : fractionDigits (c :: later) = [] := by
        rw [fractionDigits]
        exact fun _ heq => hpoint (List.cons.inj heq).1
      simp [hpoint, hfraction, byteLength_append]

theorem number_eq {c : Char} {rest : List Char} (hcs : cs = c :: rest)
    (hother : TokenKind.ofChar? c = none) (h : c.isDigit) :
    number source (byteLength before) c = located (byteLength before) cs := by
  have hpart := part_eq hsource (drop_of_starts (numeral_starts cs) []).1
  rw [number, numberEnd_eq hsource, hpart, pure_bind, located, hcs, read?_numeral h,
    lexeme_digit hother h]
  rfl

theorem quoted_eq {c : Char} {rest : List Char} (hcs : cs = c :: rest)
    (hother : TokenKind.ofChar? c = none) (hdigit : ¬ c.isDigit) (h : c = '\'' ∨ c = '"') :
    quoted source (byteLength before) c = located (byteLength before) cs := by
  have hsize : c.utf8Size = 1 := by rcases h with rfl | rfl <;> rfl
  have hone : byteLength [c] = 1 := by
    rw [byteLength_cons, hsize]
    rfl
  subst hcs
  have hafter : source.toList = (before ++ [c]) ++ rest := by rw [hsource, List.append_cons]
  have hpart := part_rest hafter
  have hcontent := content?_eq hsize 0 rest
  rw [byteLength_append, hone] at hpart
  rw [quoted, hpart, pure_bind, String.toList_ofList, located, lexeme_quote hother hdigit h]
  cases hread : readString? c rest with
  | none =>
    rw [hread] at hcontent
    rw [Option.map_eq_none_iff.mp hcontent]
    rfl
  | some parts =>
    obtain ⟨content, text, after⟩ := parts
    rw [hread] at hcontent
    obtain ⟨⟨content', close⟩, hfound, heq⟩ := Option.map_eq_some_iff.mp hcontent
    obtain ⟨rfl, hclose⟩ := Prod.mk.inj heq
    have hnext : byteLength before + 1 + close + 1 = byteLength before + byteLength (c :: text) := by
      rw [byteLength_cons, hsize]
      omega
    rw [hfound]
    dsimp only
    rw [hnext]
    rfl

theorem word_eq {c : Char} {rest : List Char} (hcs : cs = c :: rest)
    (hother : TokenKind.ofChar? c = none) (hdigit : ¬ c.isDigit)
    (hquote : ¬ (c = '\'' ∨ c = '"')) (h : startsWord c) :
    word source (byteLength before) = located (byteLength before) cs := by
  have hpart := part_eq hsource
    (List.takeWhile_append_dropWhile (p := continuesWord) (l := cs)).symm
  rw [word, skip_at hsource AsciiOnly.continuesWord, hpart, pure_bind, located, hcs,
    lexeme_word hother hdigit hquote h]
  rfl

theorem symbol_eq {c : Char} {rest : List Char} (hcs : cs = c :: rest)
    (hother : TokenKind.ofChar? c = none) (hdigit : ¬ c.isDigit)
    (hquote : ¬ (c = '\'' ∨ c = '"')) (hword : ¬ startsWord c) (d : Char) :
    symbol source (byteLength before) d = located (byteLength before) cs := by
  rw [symbol, part_rest hsource, pure_bind, String.toList_ofList, located, hcs,
    lexeme_symbol hother hdigit hquote hword]
  cases leadingSymbol? (c :: rest) <;> rfl

/-- The byte at which a character starts is this character, or none of both is ASCII. -/
theorem octet_eq {c : Char} {rest : List Char} (hcs : cs = c :: rest) :
    ∃ d, octet source (byteLength before) = pure d ∧ (d = c ∨ 128 ≤ c.toNat ∧ 128 ≤ d.toNat) := by
  rw [octet, octet?_eq hsource, hcs, List.flatMap_cons]
  rcases Nat.lt_or_ge c.toNat 128 with hc | hc
  · rw [encoded_ascii hc]
    exact ⟨c, rfl, .inl rfl⟩
  · obtain ⟨d, more, hencoded, hd⟩ := encoded_foreign hc
    rw [hencoded]
    exact ⟨d, rfl, .inr ⟨hc, hd⟩⟩

/-- The token at an offset is decided by a byte there, and is the one that the text from there on
starts with. -/
theorem token_eq (hne : cs ≠ []) :
    token source (byteLength before) = located (byteLength before) cs := by
  obtain ⟨c, rest, hcs⟩ := List.exists_cons_of_ne_nil hne
  obtain ⟨d, hoctet, hd⟩ := octet_eq hsource hcs
  rw [token, hoctet, pure_bind]
  rcases hd with rfl | ⟨hc, hd⟩
  · cases hother : TokenKind.ofChar? d with
    | some kind =>
      have hascii := AsciiOnly.ofChar? d (Option.isSome_of_eq_some hother)
      have hsize : byteLength [d] = 1 := by
        rw [byteLength_cons, utf8Size_ascii hascii]
        rfl
      rw [located, hcs, lexeme_single hother, ← hsize]
      rfl
    | none =>
      dsimp only
      split
      · next hdigit => exact number_eq hsource hcs hother hdigit
      split
      · next hdigit hquote => exact quoted_eq hsource hcs hother hdigit hquote
      split
      · next hdigit hquote hword => exact word_eq hsource hcs hother hdigit hquote hword
      · next hdigit hquote hword => exact symbol_eq hsource hcs hother hdigit hquote hword d
  · obtain ⟨hother, hdigit, hquote, hword⟩ := foreign hd
    rw [hother]
    dsimp only
    rw [if_neg hdigit, if_neg hquote, if_neg hword]
    obtain ⟨hother, hdigit, hquote, hword⟩ := foreign hc
    exact symbol_eq hsource hcs hother hdigit hquote hword d

end At

/-! ## Scanning -/

/-- Both scanners take the same text in a round: this one a byte of a gap or the text of a token. -/
theorem scanFrom_eq {source : String} {before cs : List Char}
    (hsource : source.toList = before ++ cs) {fuel fuel' : Nat} (hfuel : byteLength cs < fuel)
    (hfuel' : cs.length ≤ fuel') :
    scanFrom source fuel (byteLength before) =
      ExceptT.mk (some (Token.scanFrom fuel' (byteLength before) cs)) := by
  induction fuel generalizing before cs fuel' with
  | zero => cases hfuel
  | succ fuel ih =>
    rw [scanFrom, length_octets hsource]
    cases cs with
    | nil =>
      have hend : ¬ byteLength before < byteLength before + byteLength [] := Nat.lt_irrefl _
      rw [if_neg hend, scanFrom_nil]
      rfl
    | cons c rest =>
      obtain ⟨fuel', rfl⟩ := Nat.exists_eq_add_one_of_ne_zero (Nat.ne_zero_of_lt hfuel')
      obtain ⟨d, hoctet, hd⟩ := octet_eq hsource rfl
      have hpos := byteLength_pos (List.cons_ne_nil c rest)
      rw [if_pos (Nat.lt_add_of_pos_right hpos), hoctet, pure_bind]
      have hisGap : Text.isGap d = Text.isGap c := AsciiOnly.isGap.agree hd
      cases hgap : Text.isGap c with
      | true =>
        have hsize := utf8Size_ascii (AsciiOnly.isGap c hgap)
        have hnext : byteLength before + 1 = byteLength (before ++ [c]) := by
          rw [byteLength_append, byteLength_cons, hsize]
          rfl
        rw [byteLength_cons, hsize] at hfuel
        rw [List.length_cons] at hfuel'
        rw [List.append_cons] at hsource
        rw [hisGap, if_pos hgap, scanFrom_gap hgap, hsize, hnext]
        exact ih hsource (by omega) (by omega)
      | false =>
        rw [hisGap, if_neg (Bool.eq_false_iff.mp hgap), token_eq hsource (List.cons_ne_nil c rest),
          located, scanFrom_token hgap]
        cases hlexeme : lexeme (byteLength before) (c :: rest) with
        | error error => rfl
        | ok found =>
          obtain ⟨kind, text, later⟩ := found
          obtain ⟨⟨hsplit, hne⟩, -⟩ := lexeme_eq_ok hlexeme
          rw [hsplit, byteLength_append] at hfuel
          rw [hsplit, List.length_append] at hfuel'
          rw [hsplit, ← List.append_assoc] at hsource
          have hbytes := byteLength_pos hne
          have hlength := List.length_pos_iff.mpr hne
          have hlater : scanFrom source fuel (byteLength before + byteLength text) = ExceptT.mk
              (some (Token.scanFrom fuel' (byteLength before + byteLength text) later)) := by
            rw [← byteLength_append]
            exact ih hsource (by omega) (by omega)
          show (pure (kind, byteLength before + byteLength text) >>= _ : Reading (List Token)) = _
          rw [pure_bind, ok_bind]
          dsimp only
          rw [hlater]
          cases Token.scanFrom fuel' (byteLength before + byteLength text) later <;> rfl

theorem scan_eq (source : String) : scan source = some (Token.scan source) := by
  have hsource : source.toList = [] ++ source.toList := rfl
  have hfuel : byteLength source.toList < (octets source).length + 1 := by
    rw [length_octets hsource]
    exact Nat.lt_succ_of_le (Nat.le_add_left _ _)
  exact scanFrom_eq hsource hfuel (Nat.le_refl _)

end Slicing

/-- The tokens of a source ascend on boundaries of its characters, and it is their texts with white
space around them.  Whether it has tokens or not, where it is scanned by byte offsets, no part of it
is taken that is not there. -/
theorem tokens_cover (source : String) :
    Slicing.scan source = some (scan source) ∧
      ∀ tokens, scan source = .ok tokens →
        (tokens.Pairwise fun token token' => token.position < token'.position) ∧
        (∀ token ∈ tokens, (⟨token.position⟩ : String.Pos.Raw).IsValid source) ∧
        Covers 0 source.toList tokens := by
  refine ⟨Slicing.scan_eq source, fun tokens h => ?_⟩
  have hcovers := covers_of_scan h
  refine ⟨hcovers.ascending, ?_, hcovers⟩
  have hstart : byteLength [] = 0 := rfl
  have hvalid := hcovers.isValid hstart
  rwa [List.nil_append, String.ofList_toList] at hvalid

/-- A string with a character of two bytes, also behind a backslash, and a number with a point
behind it that is not its own. -/
theorem tokens_cover_escaped :
    let source := " 'é\\é'=== 1.5.x"
    let tokens : List Token := [⟨.str "éé", 1⟩, ⟨.operator (.connective (.binary .strictEqual)), 8⟩,
      ⟨.number (.ofDigits false ['1'] ['5'] 0), 12⟩, ⟨.dot, 15⟩, ⟨.ident "x", 16⟩]
    scan source = .ok tokens ∧ Covers 0 source.toList tokens := by
  intro source tokens
  have hscan : scan source = .ok tokens := by decide +kernel
  obtain ⟨-, -, hcovers⟩ := (tokens_cover source).2 tokens hscan
  exact ⟨hscan, hcovers⟩

end Token

end CommissionRules
