import CommissionRules.Evaluation.Function
import CommissionRules.Proofs.Calendar
import CommissionRules.Proofs.Calendar.Text
import CommissionRules.Proofs.Except
import CommissionRules.Proofs.Integers

/-!
# Days later and days between

`Date.addDays` and `Date.daysBetween` undo each other.  Both work on the numbers of days, and there
it is addition and subtraction (`Date.addDays?_eq_some`).  What is between the numbers and the
arguments of the functions loses nothing: a day that is written is read again, and as few days as
the calendar has are exact as a number.
-/

namespace CommissionRules

namespace Date

theorem natAbs_number_le (d : Date) : d.number.natAbs ≤ 2 ^ 27 := by
  obtain ⟨hlow, hhigh, hfirst, hlast, hday, hlength⟩ := d.valid
  have hmonth := monthLength_le d.year d.month
  rw [Calendar.firstYear] at hlow
  rw [Calendar.lastYear] at hhigh
  rw [number, Calendar.dayNumber]
  split <;> omega

theorem natAbs_daysUntil_le (d other : Date) : (d.daysUntil other).natAbs ≤ 2 ^ 53 := by
  have hfirst := d.natAbs_number_le
  have hlast := other.natAbs_number_le
  rw [daysUntil]
  omega

end Date

namespace Function

variable {text text' : String} {d other : Date}

theorem dateArgument_eq_ok {function : String} {args : List Value} {index : Nat}
    (h : args[index]? = some (.str text)) (hread : Date.read? (Text.trim text) = some d) :
    dateArgument function args index = .ok d := by
  have hargument : textArgument function args index = .ok text := by
    rw [textArgument, argument, h]
    rfl
  rw [dateArgument, hargument, ok_bind]
  dsimp only
  rw [hread]

theorem call_addDays (h : Date.read? (Text.trim text) = some d) (n : Number) :
    call "Date.addDays" [.str text, .number n] = match d.addDays? n.toInt64 with
      | some shifted => .ok (.str shifted.text)
      | none => .error (.invalidArgument "Date.addDays" (.dateOutOfRange n)) := by
  have hcall : call "Date.addDays" [.str text, .number n] =
      date "Date.addDays" "addDays" [.str text, .number n] := rfl
  rw [hcall, date, dateArgument_eq_ok rfl h]
  rfl

theorem call_daysBetween (h : Date.read? (Text.trim text) = some d)
    (h' : Date.read? (Text.trim text') = some other) :
    call "Date.daysBetween" [.str text, .str text'] =
      .ok (.number (.ofInt (d.daysUntil other))) := by
  have hcall : call "Date.daysBetween" [.str text, .str text'] =
      date "Date.daysBetween" "daysBetween" [.str text, .str text'] := rfl
  rw [hcall, date, dateArgument_eq_ok rfl h, ok_bind]
  show (dateArgument _ _ 1 >>= _) = _
  rw [dateArgument_eq_ok rfl h', ok_bind]

/-- Two texts are read as days, in any of the notations.  If a whole number of days after the first
one is a day of the calendar, then its text is read again, it is that number of days later, and as
many days before it is the first day.  The second day is as many days after the first one as lie
between them. -/
theorem addDays_daysBetween (h : Date.read? (Text.trim text) = some d)
    (h' : Date.read? (Text.trim text') = some other) :
    (∀ (n : Number) (value : Value), n.isWhole →
      call "Date.addDays" [.str text, .number n] = .ok value →
      ∃ shifted day between, value = .str shifted ∧ Date.read? (Text.trim shifted) = some day ∧
        call "Date.daysBetween" [.str text, .str shifted] = .ok (.number between) ∧
        between.equal n ∧
        call "Date.addDays" [.str shifted, .number n.neg] = .ok (.str d.text)) ∧
    ∃ between, call "Date.daysBetween" [.str text, .str text'] = .ok (.number between) ∧
      call "Date.addDays" [.str text, .number between] = .ok (.str other.text) := by
  constructor
  · intro n value hwhole hadd
    rw [call_addDays h] at hadd
    cases hshifted : d.addDays? n.toInt64 with
    | none =>
      rw [hshifted] at hadd
      cases hadd
    | some shifted =>
      rw [hshifted] at hadd
      cases hadd
      have hread := shifted.read?_trim_text
      have hdays := Date.addDays?_eq_some.mp hshifted
      have hsmall : n.toInt64.natAbs ≤ 2 ^ 53 := hdays ▸ d.natAbs_daysUntil_le shifted
      have hfinite := (Bool.and_eq_true_iff.mp hwhole).1
      refine ⟨shifted.text, shifted, _, rfl, hread, call_daysBetween h hread, ?_, ?_⟩
      · rw [hdays]
        exact Number.ofInt_toInt64_equal hwhole hsmall
      · have hback : shifted.addDays? n.neg.toInt64 = some d := by
          rw [Date.addDays?_eq_some, Date.daysUntil_symm, hdays, Number.toInt64_neg hfinite hsmall]
        rw [call_addDays hread, hback]
  · refine ⟨_, call_daysBetween h h', ?_⟩
    have hother : d.addDays? (Number.ofInt (d.daysUntil other)).toInt64 = some other := by
      rw [Number.toInt64_ofInt (d.natAbs_daysUntil_le other), Date.addDays?_eq_some]
    rw [call_addDays h, hother]

/-- A timestamp with an offset, which is read as its own day, and a day of the year 10000 with fewer
digits.  Thirty days later it is March in a leap year. -/
theorem addDays_daysBetween_leap :
    call "Date.addDays" [.str "2024-01-31T23:30:00-05:00", .number (.ofInt 30)] =
      .ok (.str "2024-03-01") ∧
    (∃ between, call "Date.daysBetween" [.str "2024-01-31T23:30:00-05:00", .str "2024-03-01"] =
      .ok (.number between) ∧ between.equal (.ofInt 30)) ∧
    call "Date.addDays" [.str "2024-03-01", .number (Number.ofInt 30).neg] =
      .ok (.str "2024-01-31") ∧
    ∃ between, call "Date.daysBetween" [.str "2024-01-31T23:30:00-05:00", .str " +10000-1-1 "] =
        .ok (.number between) ∧
      call "Date.addDays" [.str "2024-01-31T23:30:00-05:00", .number between] =
        .ok (.str "+10000-01-01") := by
  have hread : Date.read? (Text.trim "2024-01-31T23:30:00-05:00") =
      some ⟨2024, 1, 31, by decide⟩ := by
    decide +kernel
  have hread' : Date.read? (Text.trim " +10000-1-1 ") = some ⟨10000, 1, 1, by decide⟩ := by
    decide +kernel
  have hwhole : (Number.ofInt 30).isWhole := by decide +kernel
  have hadd : call "Date.addDays" [.str "2024-01-31T23:30:00-05:00", .number (.ofInt 30)] =
      .ok (.str "2024-03-01") := by
    rw [call_addDays hread]
    rfl
  obtain ⟨hlater, between, hbetween, hother⟩ := addDays_daysBetween hread hread'
  obtain ⟨shifted, day, days, hshifted, -, hdays, hequal, hback⟩ := hlater _ _ hwhole hadd
  cases hshifted
  exact ⟨hadd, ⟨days, hdays, hequal⟩, hback, between, hbetween, hother⟩

end Function

end CommissionRules
