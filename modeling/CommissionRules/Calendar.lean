/-!
# The calendar

Days of the proleptic Gregorian calendar.  Years are counted from the 1st of March, so that a leap
day is the last day of its year; the days are numbered from the 1st of March of the year zero, and
`Date.number` and `civil` go between the numbers and the months.
-/

namespace CommissionRules

namespace Calendar

def firstYear : Int := -262143

def lastYear : Int := 262142

def isLeap (year : Int) : Bool := year % 4 == 0 && (year % 100 != 0 || year % 400 == 0)

def monthLength (year : Int) (month : Nat) : Nat :=
  if month = 2 then (if isLeap year then 29 else 28)
  else if month = 4 || month = 6 || month = 9 || month = 11 then 30
  else 31

/-- A year, a month and a day that the calendar has. -/
def Exists (year : Int) (month day : Nat) : Prop :=
  firstYear ≤ year ∧ year ≤ lastYear ∧ 1 ≤ month ∧ month ≤ 12 ∧ 1 ≤ day
    ∧ day ≤ monthLength year month

instance (year : Int) (month day : Nat) : Decidable (Exists year month day) := by
  unfold Exists
  infer_instance

def dayNumber (year : Int) (month day : Nat) : Int :=
  let y := if month ≤ 2 then year - 1 else year
  let m : Int := if month ≤ 2 then month + 9 else month - 3
  365 * y + y / 4 - y / 100 + y / 400 + (153 * m + 2) / 5 + (day - 1)

/-- The year, month and day of a number.  Every 400 years have as many days, and the days before a
month of a year that starts in March are `(153 * m + 2) / 5`. -/
def civil (number : Int) : Int × Nat × Nat :=
  let era := number / 146097
  let dayOfEra := number % 146097
  let yearOfEra :=
    (dayOfEra - dayOfEra / 1460 + dayOfEra / 36524 - dayOfEra / 146096) / 365
  let dayOfYear := dayOfEra - (365 * yearOfEra + yearOfEra / 4 - yearOfEra / 100)
  let m := (5 * dayOfYear + 2) / 153
  let day := dayOfYear - (153 * m + 2) / 5 + 1
  let month := if m < 10 then m + 3 else m - 9
  let year := yearOfEra + era * 400
  (if month ≤ 2 then year + 1 else year, month.toNat, day.toNat)

end Calendar

structure Date where
  year : Int
  month : Nat
  day : Nat
  valid : Calendar.Exists year month day
deriving DecidableEq

namespace Date

/-- The day of a year, month and day, if the calendar has it. -/
def of? (year : Int) (month day : Nat) : Option Date :=
  if h : Calendar.Exists year month day then some ⟨year, month, day, h⟩ else none

def number (d : Date) : Int := Calendar.dayNumber d.year d.month d.day

/-- The day with a number, if the calendar goes that far. -/
def ofNumber? (number : Int) : Option Date :=
  let (year, month, day) := Calendar.civil number
  of? year month day

/-- The quarter of the year, from one to four. -/
def quarter (d : Date) : Nat := (d.month - 1) / 3 + 1

def daysUntil (d other : Date) : Int := other.number - d.number

/-- The day that comes a number of days later, if the calendar goes that far. -/
def addDays? (d : Date) (days : Int) : Option Date := ofNumber? (d.number + days)

end Date

end CommissionRules
