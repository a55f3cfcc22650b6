import Mathlib.Data.List.Sort

/-!
# Days of the calendar

A day is its number in the proleptic Gregorian calendar (`date.toordinal`), so that days compare
and follow one another as numbers do.
-/

namespace TigerDuck.AcademicCalendar

/-- A day, by its number: 1 is 0001-01-01, a Monday. -/
abbrev Day := Nat

/-- `isoweekday`: 1 for Monday to 7 for Sunday. -/
def isoweekday (d : Day) : Nat := if d % 7 = 0 then 7 else d % 7

/-- The days before each month of a year that is no leap year. -/
def DAYS_BEFORE_MONTH : List Nat := [0, 31, 59, 90, 120, 151, 181, 212, 243, 273, 304, 334]

/-- `toordinal`'s inverse: a day's year, month and day of the month. -/
def ymd (d : Day) : Nat × Nat × Nat :=
  let n := d - 1
  let (n400, n) := (n / 146097, n % 146097)
  let (n100, n) := (n / 36524, n % 36524)
  let (n4, n) := (n / 1461, n % 1461)
  let (n1, n) := (n / 365, n % 365)
  let year := n400 * 400 + n100 * 100 + n4 * 4 + n1 + 1
  -- The last day of a leap year's four, or of four centuries.
  if n1 = 4 ∨ n100 = 4 then (year - 1, 12, 31)
  else
    let leap := n1 = 3 ∧ (n4 ≠ 24 ∨ n100 = 3)
    let before (m : Nat) := DAYS_BEFORE_MONTH.getD m 0 + if leap ∧ 2 ≤ m then 1 else 0
    let month := ((List.range 12).filter fun m => before m ≤ n).length - 1
    (year, month + 1, n - before month + 1)

/-- A number with leading zeros. -/
def zeroPadded (width n : Nat) : String :=
  let digits := toString n
  String.ofList (List.replicate (width - digits.length) '0') ++ digits

/-- `isoformat`: YYYY-MM-DD. -/
def isoformat (d : Day) : String :=
  let (year, month, day) := ymd d
  zeroPadded 4 year ++ "-" ++ zeroPadded 2 month ++ "-" ++ zeroPadded 2 day

/-- The days from one to another, both included. -/
def daysFromTo (first last : Day) : List Day := (List.range (last + 1 - first)).map (first + ·)

@[simp]
theorem mem_daysFromTo {first last d : Nat} :
    d ∈ daysFromTo first last ↔ first ≤ d ∧ d ≤ last := by
  simp only [daysFromTo, List.mem_map, List.mem_range]
  constructor
  · rintro ⟨n, hn, rfl⟩
    show first ≤ first + n ∧ first + n ≤ last
    omega
  · rintro ⟨hfirst, hlast⟩
    exact ⟨d - first, by omega, by omega⟩

end TigerDuck.AcademicCalendar
