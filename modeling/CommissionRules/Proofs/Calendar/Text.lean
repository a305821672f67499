import Mathlib.Algebra.Group.Nat.Defs
import CommissionRules.Calendar.Text

/-!
# Days read back

The text of a day is read as that day, whatever its year is: `Date.read?_trim_text`.  The year, the
month and the day are each written with at least one digit, and what stands behind them is no digit,
so that the reader of each takes exactly the digits that were written.
-/

namespace CommissionRules

namespace Number

theorem digitsValue_eq_ofDigitChars (digits : List Char) :
    digitsValue digits = Nat.ofDigitChars 10 digits 0 := by
  rw [digitsValue, Nat.ofDigitChars_eq_foldl]
  simp only [Nat.mul_comm]

end Number

namespace Text

theorem isBlank_of_isDigit {c : Char} (h : c.isDigit) : isBlank c = false := by
  rw [Char.isDigit, Bool.and_eq_true, decide_eq_true_iff, decide_eq_true_iff] at h
  have hlow : 48 ≤ c.toNat := UInt32.le_iff_toNat_le.mp h.1
  have hhigh : c.toNat ≤ 57 := UInt32.le_iff_toNat_le.mp h.2
  simp only [isBlank, Bool.or_eq_false_iff, Bool.and_eq_false_iff, decide_eq_false_iff_not,
    beq_eq_false_iff_ne]
  omega

theorem trimStart_of_head {c : Char} {cs : List Char} (h : isBlank c = false) :
    trimStart (c :: cs) = c :: cs :=
  List.dropWhile_cons_of_neg (Bool.eq_false_iff.mp h)

/-- A text that has no white space at either end is left as it is. -/
theorem trim_eq_self {text : String} {first last : Char} (hfirst : text.toList.head? = some first)
    (hlast : text.toList.getLast? = some last) (hfirst' : isBlank first = false)
    (hlast' : isBlank last = false) : trim text = text := by
  obtain ⟨cs, hcs⟩ := List.head?_eq_some_iff.mp hfirst
  obtain ⟨cs', hcs'⟩ := List.getLast?_eq_some_iff.mp hlast
  have hend : trimEnd text.toList = text.toList := by
    rw [hcs', trimEnd, List.reverse_append, List.reverse_singleton, List.singleton_append,
      List.dropWhile_cons_of_neg (Bool.eq_false_iff.mp hlast'), List.reverse_cons,
      List.reverse_reverse]
  have hstart : trimStart text.toList = text.toList := by
    rw [hcs]
    exact trimStart_of_head hfirst'
  rw [trim, hstart, hend, String.ofList_toList]

end Text

namespace Date

/-! ## Padded numbers -/

variable {width n : Nat}

theorem toList_padded (width n : Nat) : (padded width n).toList =
    List.replicate (width - (Nat.toDigits 10 n).length) '0' ++ Nat.toDigits 10 n :=
  String.toList_ofList

theorem isDigit_of_mem_padded {c : Char} (h : c ∈ (padded width n).toList) : c.isDigit := by
  rw [toList_padded, List.mem_append] at h
  rcases h with h | h
  · rw [List.eq_of_mem_replicate h]
    decide
  · exact Nat.isDigit_of_mem_toDigits (by decide) (by decide) h

theorem padded_ne_nil (width n : Nat) : (padded width n).toList ≠ [] := by
  rw [toList_padded]
  exact List.append_ne_nil_of_right_ne_nil _ Nat.toDigits_ne_nil

theorem length_padded_le (hwidth : 0 < width) (h : n < 10 ^ width) :
    (padded width n).toList.length ≤ width := by
  have hdigits := (Nat.length_toDigits_le_iff (by decide) hwidth).mpr h
  rw [toList_padded, List.length_append, List.length_replicate]
  omega

/-- Zeros in front of a number leave its value as it is. -/
theorem digitsValue_padded (width n : Nat) : Number.digitsValue (padded width n).toList = n := by
  rw [toList_padded, Number.digitsValue_eq_ofDigitChars, Nat.ofDigitChars_append,
    Nat.ofDigitChars_replicate_zero, Nat.mul_zero, Nat.ofDigitChars_ten_toDigits]

/-- No digit stands next. -/
def NoDigit (cs : List Char) : Prop := ∀ c ∈ cs.head?, c.isDigit = false

theorem noDigit_nil : NoDigit [] := fun _ hc => nomatch hc

theorem noDigit_hyphen (cs : List Char) : NoDigit ('-' :: cs) := by
  intro c hc
  cases hc
  decide

theorem readDigits?_padded {most : Nat} {rest : List Char}
    (hmost : (padded width n).toList.length ≤ most) (hrest : NoDigit rest) :
    readDigits? most ((padded width n).toList ++ rest) = some (n, rest) := by
  have hall : ∀ c ∈ (padded width n).toList, c.isDigit := fun c => isDigit_of_mem_padded
  have hdigits : (((padded width n).toList ++ rest).take most).takeWhile Char.isDigit =
      (padded width n).toList := by
    rw [List.take_append, List.take_of_length_le hmost, List.takeWhile_append_of_pos hall]
    cases hmore : rest.take (most - (padded width n).toList.length) with
    | nil => simp
    | cons c more =>
      have hc : c.isDigit = false := by
        refine hrest c ?_
        have hhead := congrArg List.head? hmore
        rw [List.head?_take] at hhead
        split at hhead
        · cases hhead
        · exact hhead
      rw [List.takeWhile_cons_of_neg (Bool.eq_false_iff.mp hc), List.append_nil]
  rw [readDigits?, hdigits, digitsValue_padded, List.drop_left]
  exact if_neg (by simpa using padded_ne_nil width n)

/-! ## Parts of a day -/

theorem exists_cons_padded (width n : Nat) (rest : List Char) : ∃ c cs,
    (padded width n).toList ++ rest = c :: cs ∧ c.isDigit := by
  obtain ⟨c, cs, hcs⟩ := List.exists_cons_of_ne_nil (padded_ne_nil width n)
  refine ⟨c, cs ++ rest, by rw [hcs, List.cons_append], ?_⟩
  exact isDigit_of_mem_padded (hcs ▸ List.mem_cons_self)

theorem trimStart_padded (width n : Nat) (rest : List Char) :
    Text.trimStart ((padded width n).toList ++ rest) = (padded width n).toList ++ rest := by
  obtain ⟨c, cs, hcs, hdigit⟩ := exists_cons_padded width n rest
  rw [hcs, Text.trimStart_of_head (Text.isBlank_of_isDigit hdigit)]

theorem readLoose?_padded {rest : List Char} (h : n < 100) (hrest : NoDigit rest) :
    readLoose? ((padded 2 n).toList ++ rest) = some (n, rest) := by
  rw [readLoose?, trimStart_padded]
  exact readDigits?_padded (length_padded_le (by decide) h) hrest

theorem readDigits?_signed (n : Nat) {rest : List Char} (hrest : NoDigit rest) :
    readDigits? ((padded 4 n).toList ++ rest).length ((padded 4 n).toList ++ rest) =
      some (n, rest) := by
  refine readDigits?_padded ?_ hrest
  rw [List.length_append]
  exact Nat.le_add_right _ _

theorem readYear?_minus (cs : List Char) : readYear? ('-' :: cs) =
    (readDigits? cs.length cs).map fun (n, rest) => (-(n : Int), rest) := rfl

theorem readYear?_plus (cs : List Char) : readYear? ('+' :: cs) =
    (readDigits? cs.length cs).map fun (n, rest) => ((n : Int), rest) := rfl

/-- A year without a sign is one of at most four digits. -/
theorem readYear?_padded {rest : List Char} (h : n < 10 ^ 4) (hrest : NoDigit rest) :
    readYear? ((padded 4 n).toList ++ rest) = some ((n : Int), rest) := by
  obtain ⟨c, cs, hcs, hdigit⟩ := exists_cons_padded 4 n rest
  have hsign {sign : Char} {later : List Char} (hnot : sign.isDigit = false)
      (heq : (padded 4 n).toList ++ rest = sign :: later) : False := by
    rw [hcs, List.cons.injEq] at heq
    rw [heq.1, hnot] at hdigit
    cases hdigit
  rw [readYear?, trimStart_padded]
  split
  · next heq => exact (hsign (by decide) heq).elim
  · next heq => exact (hsign (by decide) heq).elim
  · rw [readDigits?_padded (length_padded_le (by decide) h) hrest]
    rfl

theorem readYear?_yearText (year : Int) {rest : List Char} (hrest : NoDigit rest) :
    readYear? ((yearText year).toList ++ rest) = some (year, rest) := by
  rw [yearText]
  split
  · next hyear =>
    rw [Bool.and_eq_true, decide_eq_true_iff, decide_eq_true_iff] at hyear
    rw [readYear?_padded (by omega) hrest, Int.toNat_of_nonneg hyear.1]
  · rw [String.toList_append]
    split
    · have hvalue : -(year.natAbs : Int) = year := by omega
      have hread := readYear?_minus ((padded 4 year.natAbs).toList ++ rest)
      rw [readDigits?_signed year.natAbs hrest, Option.map_some] at hread
      dsimp only at hread
      rw [hvalue] at hread
      exact hread
    · have hvalue : (year.natAbs : Int) = year := by omega
      have hread := readYear?_plus ((padded 4 year.natAbs).toList ++ rest)
      rw [readDigits?_signed year.natAbs hrest, Option.map_some] at hread
      dsimp only at hread
      rw [hvalue] at hread
      exact hread

/-! ## Days -/

theorem toList_text (d : Date) : d.text.toList = (yearText d.year).toList ++ '-' ::
    ((padded 2 d.month).toList ++ '-' :: ((padded 2 d.day).toList ++ [])) := by
  simp [text]

theorem monthLength_le (year : Int) (month : Nat) : Calendar.monthLength year month ≤ 31 := by
  unfold Calendar.monthLength
  split
  · split <;> decide
  · split <;> decide

theorem readDay?_text (d : Date) : readDay? d.text.toList = some d := by
  obtain ⟨-, -, -, hmonth, -, hday⟩ := d.valid
  have hlength := monthLength_le d.year d.month
  rw [toList_text, readDay?, readLooseDay?, readYear?_yearText d.year (noDigit_hyphen _)]
  simp only [Option.bind_eq_bind, Option.bind_some, readChar?, if_pos]
  rw [readLoose?_padded (by omega) (noDigit_hyphen _)]
  simp only [Option.bind_some, if_pos]
  rw [readLoose?_padded (by omega) noDigit_nil]
  simp only [Option.bind_some, of?, dif_pos d.valid]
  rfl

theorem trim_text (d : Date) : Text.trim d.text = d.text := by
  have hfirst : ∃ c, d.text.toList.head? = some c ∧ Text.isBlank c = false := by
    rw [toList_text, yearText]
    split
    · obtain ⟨c, cs, hcs, hdigit⟩ := exists_cons_padded 4 d.year.toNat _
      exact ⟨c, by rw [hcs]; rfl, Text.isBlank_of_isDigit hdigit⟩
    · rw [String.toList_append]
      split
      · exact ⟨'-', rfl, by decide⟩
      · exact ⟨'+', rfl, by decide⟩
  have hlast : ∃ c, d.text.toList.getLast? = some c ∧ Text.isBlank c = false := by
    have hne := padded_ne_nil 2 d.day
    have hdigit := isDigit_of_mem_padded (List.getLast_mem hne)
    refine ⟨(padded 2 d.day).toList.getLast hne, ?_, Text.isBlank_of_isDigit hdigit⟩
    rw [text, String.toList_append, List.getLast?_append, List.getLast?_eq_some_getLast hne]
    rfl
  obtain ⟨first, hfirst, hfirst'⟩ := hfirst
  obtain ⟨last, hlast, hlast'⟩ := hlast
  exact Text.trim_eq_self hfirst hlast hfirst' hlast'

/-- The text of a day is read as this day. -/
theorem read?_trim_text (d : Date) : read? (Text.trim d.text) = some d := by
  rw [trim_text, read?, readDay?_text]
  rfl

end Date

end CommissionRules
