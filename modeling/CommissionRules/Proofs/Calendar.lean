import CommissionRules.Calendar

/-!
# Days and their numbers

Days are numbered without gaps: the day of a number has that number (`Calendar.dayNumber_civil`),
and a day that the calendar has is the day of its number (`Calendar.civil_dayNumber`).  Years start
in March here, so that the days before a year count its leap days, and the year of a number is the
one whose days enclose it: `Calendar.marchYear_eq`.
-/

namespace CommissionRules

namespace Calendar

/-! ## Years from March on -/

/-- The days from the 1st of March of the year zero up to that of a year. -/
def daysBefore (year : Int) : Int := 365 * year + year / 4 - year / 100 + year / 400

theorem daysBefore_succ (year : Int) :
    daysBefore (year + 1) = daysBefore year + if isLeap (year + 1) then 366 else 365 := by
  unfold daysBefore isLeap
  split <;> simp_all <;> omega

theorem daysBefore_mono {year later : Int} (h : year ≤ later) :
    daysBefore year ≤ daysBefore later := by
  have hcenturies : later / 100 - year / 100 ≤ later - year := by omega
  unfold daysBefore
  omega

/-- The days of an era without one for each leap year. -/
def withoutLeapDays (day : Int) : Int := day - day / 1460 + day / 36524 - day / 146096

theorem withoutLeapDays_mono {day later : Int} (h : day ≤ later) :
    withoutLeapDays day ≤ withoutLeapDays later := by
  have hera : day / 146096 = day / 36524 / 4 := by omega
  have hera' : later / 146096 = later / 36524 / 4 := by omega
  have hcenturies : day / 36524 ≤ later / 36524 := by omega
  have hleapYears : later / 1460 - day / 1460 ≤ later - day := by omega
  unfold withoutLeapDays
  omega

theorem withoutLeapDays_bounds : ∀ year : Nat, year < 400 →
    365 * (year : Int) ≤ withoutLeapDays (daysBefore year) ∧
      withoutLeapDays (daysBefore (year + 1) - 1) < 365 * ((year : Int) + 1) := by
  decide +kernel

/-- The year that a day of an era is in: a day before or behind this year would have too few or too
many days before it. -/
theorem daysBefore_yearOfEra {day : Int} (hlow : 0 ≤ day) (hhigh : day < 146097) :
    ∃ year : Nat, year < 400 ∧ withoutLeapDays day / 365 = year ∧ daysBefore year ≤ day ∧
      day < daysBefore (year + 1) := by
  have hfirst : withoutLeapDays 0 ≤ withoutLeapDays day := withoutLeapDays_mono hlow
  have hlast : withoutLeapDays day ≤ withoutLeapDays 146096 :=
    withoutLeapDays_mono (Int.le_of_lt_add_one hhigh)
  have hfirst' : withoutLeapDays 0 = 0 := rfl
  have hlast' : withoutLeapDays 146096 = 145999 := rfl
  obtain ⟨year, hyear⟩ := Int.eq_ofNat_of_zero_le
    (show 0 ≤ withoutLeapDays day / 365 by omega)
  refine ⟨year, by omega, hyear, ?_, ?_⟩
  · refine Int.not_lt.mp fun hbefore => ?_
    have hmono := withoutLeapDays_mono (Int.le_sub_one_of_lt hbefore)
    cases year with
    | zero => exact absurd hlow (Int.not_le.mpr hbefore)
    | succ year =>
      obtain ⟨-, hbound⟩ := withoutLeapDays_bounds year (by omega)
      rw [Int.natCast_add, Int.natCast_one] at hmono hyear
      omega
  · refine Int.not_le.mp fun hbehind => ?_
    have hmono := withoutLeapDays_mono hbehind
    rcases Nat.lt_or_ge (year + 1) 400 with hlater | hlater
    · obtain ⟨hbound, -⟩ := withoutLeapDays_bounds (year + 1) hlater
      rw [Int.natCast_add, Int.natCast_one] at hbound
      omega
    · have hera : daysBefore 400 ≤ daysBefore (year + 1) := daysBefore_mono (by omega)
      exact absurd (Int.le_trans hera hbehind) (Int.not_le.mpr hhigh)

/-- The year from March on of a number. -/
def marchYear (number : Int) : Int :=
  withoutLeapDays (number % 146097) / 365 + number / 146097 * 400

/-- Every 400 years have as many days. -/
theorem daysBefore_era (year era : Int) :
    daysBefore (year + era * 400) = daysBefore year + era * 146097 := by
  unfold daysBefore
  omega

theorem daysBefore_marchYear (number : Int) :
    daysBefore (marchYear number) ≤ number ∧ number < daysBefore (marchYear number + 1) := by
  obtain ⟨year, -, hyear, hlow, hhigh⟩ := daysBefore_yearOfEra
    (Int.emod_nonneg number (by decide)) (Int.emod_lt_of_pos number (by decide))
  have hsucc : (year : Int) + number / 146097 * 400 + 1 =
      year + 1 + number / 146097 * 400 := by omega
  rw [marchYear, hyear, hsucc, daysBefore_era, daysBefore_era]
  omega

theorem marchYear_eq {number year : Int} (hlow : daysBefore year ≤ number)
    (hhigh : number < daysBefore (year + 1)) : marchYear number = year := by
  obtain ⟨hlow', hhigh'⟩ := daysBefore_marchYear number
  rcases Int.lt_trichotomy (marchYear number) year with hlt | heq | hgt
  · have hmono := daysBefore_mono (Int.add_one_le_of_lt hlt)
    omega
  · exact heq
  · have hmono := daysBefore_mono (Int.add_one_le_of_lt hgt)
    omega

/-! ## Months from March on -/

/-- The days of a year before a month.  Months are counted from zero for March. -/
def monthStart (month : Int) : Int := (153 * month + 2) / 5

theorem month_eq {month day : Int} (hlow : monthStart month ≤ day)
    (hhigh : day < monthStart (month + 1)) : (5 * day + 2) / 153 = month := by
  unfold monthStart at hlow hhigh
  omega

theorem month_bounds {day : Int} (hlow : 0 ≤ day) (hhigh : day < 366) :
    0 ≤ (5 * day + 2) / 153 ∧ (5 * day + 2) / 153 ≤ 11 ∧
      monthStart ((5 * day + 2) / 153) ≤ day := by
  unfold monthStart
  omega

/-- The number of a month in its calendar year. -/
def monthNumber (month : Int) : Int := if month < 10 then month + 3 else month - 9

/-- A day by its year and month from March on. -/
theorem civil_eq (number : Int) :
    civil number =
      let day := number - daysBefore (marchYear number)
      let month := (5 * day + 2) / 153
      (if monthNumber month ≤ 2 then marchYear number + 1 else marchYear number,
        (monthNumber month).toNat, (day - monthStart month + 1).toNat) := by
  obtain ⟨year, hlast, hyear, -⟩ := daysBefore_yearOfEra
    (Int.emod_nonneg number (by decide)) (Int.emod_lt_of_pos number (by decide))
  have hdays : number - daysBefore (marchYear number) =
      number % 146097 - (365 * (year : Int) + year / 4 - year / 100) := by
    rw [marchYear, hyear, daysBefore_era, daysBefore]
    omega
  have hyear' : (number % 146097 - number % 146097 / 1460 + number % 146097 / 36524 -
      number % 146097 / 146096) / 365 = year := hyear
  rw [hdays, marchYear, hyear, civil, hyear']
  rfl

theorem dayNumber_civil (number : Int) :
    dayNumber (civil number).1 (civil number).2.1 (civil number).2.2 = number := by
  obtain ⟨hlow, hhigh⟩ := daysBefore_marchYear number
  rw [daysBefore_succ] at hhigh
  have hyear : number - daysBefore (marchYear number) < 366 := by
    split at hhigh <;> omega
  obtain ⟨hfirst, hlast, hstart⟩ := month_bounds (by omega) hyear
  rw [civil_eq, dayNumber]
  generalize hday : number - daysBefore (marchYear number) = day at *
  generalize (5 * day + 2) / 153 = month at *
  dsimp only [monthNumber]
  rw [daysBefore] at hday
  unfold monthStart at *
  omega

/-- The month of a calendar year, counted from March on. -/
def marchMonth (month : Nat) : Int := if month ≤ 2 then month + 9 else month - 3

/-- A month is over before the next one starts, and February with the year. -/
theorem monthStart_add_monthLength_le (year : Int) {month : Nat} (hfirst : 1 ≤ month)
    (hlast : month ≤ 12) :
    monthStart (marchMonth month) + monthLength year month ≤ monthStart (marchMonth month + 1) ∧
      monthStart (marchMonth month) + monthLength year month ≤
        if month = 2 then (if isLeap year then 366 else 365) else 337 := by
  have hmonth : month = 1 ∨ month = 2 ∨ month = 3 ∨ month = 4 ∨ month = 5 ∨ month = 6 ∨
      month = 7 ∨ month = 8 ∨ month = 9 ∨ month = 10 ∨ month = 11 ∨ month = 12 := by omega
  rw [monthLength]
  rcases hmonth with rfl | rfl | rfl | rfl | rfl | rfl | rfl | rfl | rfl | rfl | rfl | rfl
  all_goals cases isLeap year <;> decide

theorem monthNumber_marchMonth {month : Nat} (hfirst : 1 ≤ month) (hlast : month ≤ 12) :
    monthNumber (marchMonth month) = month := by
  unfold monthNumber marchMonth
  omega

theorem civil_dayNumber {year : Int} {month day : Nat} (h : Exists year month day) :
    civil (dayNumber year month day) = (year, month, day) := by
  obtain ⟨-, -, hfirst, hlast, hday, hlength⟩ := h
  let start := if month ≤ 2 then year - 1 else year
  have hnumber : dayNumber year month day =
      daysBefore start + (monthStart (marchMonth month) + (day - 1)) := by
    rw [dayNumber, daysBefore, monthStart, marchMonth]
    omega
  obtain ⟨hnext, hend⟩ := monthStart_add_monthLength_le year hfirst hlast
  have hstart : 0 ≤ monthStart (marchMonth month) := by
    unfold monthStart marchMonth
    omega
  have hyear : marchYear (dayNumber year month day) = start := by
    refine marchYear_eq (by omega) ?_
    rw [daysBefore_succ, hnumber]
    by_cases hfebruary : month = 2
    · have hleap : start + 1 = year := by
        dsimp only [start]
        omega
      rw [hleap]
      rw [if_pos hfebruary] at hend
      split at hend <;> split <;> omega
    · rw [if_neg hfebruary] at hend
      split <;> omega
  have hdays : dayNumber year month day - daysBefore start =
      monthStart (marchMonth month) + (day - 1) := by omega
  have hmonth : (5 * (monthStart (marchMonth month) + ((day : Int) - 1)) + 2) / 153 =
      marchMonth month := month_eq (by omega) (by omega)
  rw [civil_eq, hyear, hdays]
  dsimp only
  rw [hmonth, monthNumber_marchMonth hfirst hlast]
  refine Prod.ext ?_ (Prod.ext (Int.toNat_natCast month) ?_)
  · dsimp only [start]
    split <;> split <;> omega
  · dsimp only
    omega

end Calendar

namespace Date

/-- Every day is the day of its number. -/
theorem ofNumber?_number (d : Date) : ofNumber? d.number = some d := by
  rw [ofNumber?, number, Calendar.civil_dayNumber d.valid]
  exact dif_pos d.valid

theorem number_of_ofNumber? {number : Int} {d : Date} (h : ofNumber? number = some d) :
    d.number = number := by
  have hcivil := Calendar.dayNumber_civil number
  rw [ofNumber?] at h
  obtain ⟨year, month, day⟩ := Calendar.civil number
  dsimp only [of?] at h
  split at h
  · cases h
    exact hcivil
  · cases h

/-- A day is some days after another one just if that many days lie between them. -/
theorem addDays?_eq_some {d other : Date} {days : Int} :
    d.addDays? days = some other ↔ d.daysUntil other = days := by
  rw [addDays?, daysUntil]
  constructor
  · intro h
    have hnumber := number_of_ofNumber? h
    omega
  · intro h
    have hnumber : d.number + days = other.number := by omega
    rw [hnumber, ofNumber?_number]

theorem daysUntil_symm (d other : Date) : other.daysUntil d = -d.daysUntil other := by
  rw [daysUntil, daysUntil]
  omega

end Date

end CommissionRules
