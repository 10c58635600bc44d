import Rp1.Support.Calendar
import Rp1.Validation.Record

/-!
# Validation — the clock

`time.rs`: the date and the time of day that the runner derives from the seconds of the host clock.
All arithmetic is checked, and a failed operation is an error of the run.

`civilFromDays_eq` says that none fails for the days a clock can count, and that the date is the one
with that number of days since 1970-01-01.  The year of the era is the hard part: the corrections
for leap days are guessed from the day of the era, and `yearOfEra_bounds` says that the guess is
right in every year of the 400.
-/

namespace Rp1.Validation
open Codec Calendar

/-! ### The functions -/

def secondsPerDay : Nat := 86400
def secondsPerHour : Nat := 3600
def secondsPerMinute : Nat := 60

/-- Days from 0000-03-01 to 1970-01-01. -/
def epochShiftDays : Int := 719468

/-- Days in one 400 year era. -/
def daysPerEra : Int := 146097

/-- A point in time with second resolution, in UTC. -/
structure Utc where
  seconds : UInt64
deriving DecidableEq, Repr

/-- `civil_from_days`: a day count since 1970-01-01 as a proleptic Gregorian date. -/
def civilFromDays (days : Int) : Option (Int × Nat × Nat) := do
  let shifted ← I64.checkedAdd days epochShiftDays
  let eraBase ← (if shifted ≥ 0 then some shifted
    else I64.checkedSub daysPerEra 1 >>= I64.checkedSub shifted)
  let era ← I64.checkedDiv eraBase daysPerEra
  let dayOfEra ← I64.checkedSub shifted (← I64.checkedMul era daysPerEra)
  let yearOfEra ← I64.checkedDiv (← I64.checkedSub (← I64.checkedAdd
    (← I64.checkedSub dayOfEra (← I64.checkedDiv dayOfEra 1460))
    (← I64.checkedDiv dayOfEra 36524)) (← I64.checkedDiv dayOfEra 146096)) 365
  let shiftedYear ← I64.checkedAdd yearOfEra (← I64.checkedMul era 400)
  let leapDays ← I64.checkedSub (← I64.checkedDiv yearOfEra 4) (← I64.checkedDiv yearOfEra 100)
  let dayOfYear ← I64.checkedSub dayOfEra
    (← I64.checkedAdd (← I64.checkedMul yearOfEra 365) leapDays)
  let monthPosition ← I64.checkedDiv (← I64.checkedAdd (← I64.checkedMul dayOfYear 5) 2) 153
  let day ← I64.checkedAdd (← I64.checkedSub dayOfYear
    (← I64.checkedDiv (← I64.checkedAdd (← I64.checkedMul monthPosition 153) 2) 5)) 1
  let month ← (if monthPosition < 10 then I64.checkedAdd monthPosition 3
    else I64.checkedSub monthPosition 9)
  let year ← (if month ≤ 2 then I64.checkedAdd shiftedYear 1 else some shiftedYear)
  some (year, ← I64.tryU32 month, ← I64.tryU32 day)

/-- `split_day`: the hour, the minute and the second. -/
def splitDay (secondsOfDay : Nat) : Except String (Nat × Nat × Nat) :=
  let parts := do
    let hour ← checkedDiv secondsOfDay secondsPerHour
    let remainder ← checkedRem secondsOfDay secondsPerHour
    let minute ← checkedDiv remainder secondsPerMinute
    let second ← checkedRem remainder secondsPerMinute
    some (hour, minute, second)
  okOr parts "a time of day could not be derived from the host clock"

/-- The format `{:04}` of an `i64`; the sign counts. -/
def yearText (year : Int) : String :=
  if year < 0 then
    let digits := toString year.natAbs
    "-" ++ String.ofList (List.replicate (3 - digits.length) '0') ++ digits
  else pad4 year.toNat

namespace Utc

def civil (u : Utc) : Except String (Int × Nat × Nat) := do
  let days ← okOr (checkedDiv u.seconds.toNat secondsPerDay)
    "a calendar date could not be derived from the host clock"
  let days ← okOr (I64.fit days) "the host clock reports a time the runner cannot represent"
  okOr (civilFromDays days) "the host clock reports a date the runner cannot represent"

/-- The calendar date as `YYYY-MM-DD`. -/
def date (u : Utc) : Except String String := do
  let (year, month, day) ← u.civil
  .ok (yearText year ++ "-" ++ pad2 month ++ "-" ++ pad2 day)

/-- The instant as `YYYY-MM-DDTHH:MM:SSZ`. -/
def timestamp (u : Utc) : Except String String := do
  let (year, month, day) ← u.civil
  let secondsOfDay ← okOr (checkedRem u.seconds.toNat secondsPerDay)
    "a timestamp could not be derived from the host clock"
  let (hour, minute, second) ← splitDay secondsOfDay
  .ok (yearText year ++ "-" ++ pad2 month ++ "-" ++ pad2 day ++ "T" ++ pad2 hour ++ ":" ++
    pad2 minute ++ ":" ++ pad2 second ++ "Z")

end Utc

/-! ### The year of the era -/

section YearOfEra
variable {n y c : Int}

/-- The centuries are right. -/
theorem century_yearOfEra (h₀ : 0 ≤ n) (h₁ : n < 146096) (hc : c = n / 36524)
    (hy : y = (n - n / 1460 + c) / 365) : y / 100 = c := by
  omega

theorem yearStart_le (h₀ : 0 ≤ n) (h₁ : n < 146096) (hc : c = n / 36524)
    (hy : y = (n - n / 1460 + c) / 365) : 365 * y + y / 4 - y / 100 ≤ n := by
  have hcentury := century_yearOfEra h₀ h₁ hc hy
  have hleap : y / 4 ≤ n / 1460 := by omega
  omega

theorem lt_nextYear (h₀ : 0 ≤ n) (h₁ : n < 146096) (hc : c = n / 36524)
    (hy : y = (n - n / 1460 + c) / 365) :
    n < 365 * (y + 1) + (y + 1) / 4 - (y + 1) / 100 + (y + 1) / 400 := by
  have hcentury := century_yearOfEra h₀ h₁ hc hy
  by_cases hlast : (y + 1) % 100 = 0
  · -- the last year of a century ends where the century ends
    have hnext : y + 1 = 100 * (c + 1) := by omega
    have hend : n < 36524 * (c + 1) := by omega
    rw [hnext]
    omega
  · have hnext : (y + 1) / 100 = c := by omega
    have hleap : n / 1460 ≤ (y + 1) / 4 := by omega
    have hera : 0 ≤ (y + 1) / 400 := by omega
    omega

/-- **The year of a day of the era**, counted from 1 March: the day is in it. -/
theorem yearOfEra_bounds (h₀ : 0 ≤ n) (h₁ : n < 146097)
    (hy : y = (n - n / 1460 + n / 36524 - n / 146096) / 365) :
    0 ≤ y ∧ y < 400 ∧ 365 * y + y / 4 - y / 100 ≤ n ∧
      n < 365 * (y + 1) + (y + 1) / 4 - (y + 1) / 100 + (y + 1) / 400 := by
  rcases (show n ≤ 146096 by omega).eq_or_lt with rfl | hlt
  · -- the last day of the era, a 29 February
    obtain rfl : y = 399 := hy
    decide
  · have hzero : n / 146096 = 0 := Int.ediv_eq_zero_of_lt h₀ hlt
    rw [hzero, sub_zero] at hy
    exact ⟨by omega, by omega, yearStart_le h₀ hlt rfl hy, lt_nextYear h₀ hlt rfl hy⟩

end YearOfEra

/-! ### The date -/

/-- The values that `civil_from_days` goes through for a day that is not before 0000-03-01: the era,
the day `n` of it, the year `y` of the era, the day `d` of the year and its month `p`.  Years start
on 1 March here, and months count from 0. -/
structure Derives (days era n y d p : Int) : Prop where
  era_eq : era = (days + 719468) / 146097
  dayOfEra_eq : n = days + 719468 - era * 146097
  yearOfEra_eq : y = (n - n / 1460 + n / 36524 - n / 146096) / 365
  dayOfYear_eq : d = n - (y * 365 + (y / 4 - y / 100))
  monthPosition_eq : p = (d * 5 + 2) / 153

/-- The year, the month and the day of such values. -/
def civilOf (era y d p : Int) : Int × Nat × Nat :=
  (y + era * 400 + if p < 10 then 0 else 1, (if p < 10 then p + 3 else p - 9).toNat,
    (d - (p * 153 + 2) / 5 + 1).toNat)

namespace Derives
variable {days era n y d p : Int}

theorem dayOfEra_bounds (h : Derives days era n y d p) : 0 ≤ n ∧ n < 146097 := by
  obtain ⟨hera, hn, -, -, -⟩ := h
  omega

theorem year_bounds (h : Derives days era n y d p) :
    0 ≤ y ∧ y < 400 ∧ 365 * y + y / 4 - y / 100 ≤ n ∧
      n < 365 * (y + 1) + (y + 1) / 4 - (y + 1) / 100 + (y + 1) / 400 :=
  yearOfEra_bounds h.dayOfEra_bounds.1 h.dayOfEra_bounds.2 h.yearOfEra_eq

theorem dayOfYear_bounds (h : Derives days era n y d p) : 0 ≤ d ∧ d < 366 := by
  have hyear := h.year_bounds
  have hd := h.dayOfYear_eq
  omega

theorem monthPosition_bounds (h : Derives days era n y d p) : 0 ≤ p ∧ p < 12 := by
  have hd := h.dayOfYear_bounds
  have hp := h.monthPosition_eq
  omega

end Derives

theorem exists_derives (days : Int) : ∃ era n y d p, Derives days era n y d p :=
  ⟨_, _, _, _, _, rfl, rfl, rfl, rfl, rfl⟩

/-- No operation of `civil_from_days` fails. -/
theorem civilFromDays_eq_some {days era n y d p : Int} (h : Derives days era n y d p)
    (h₀ : 0 ≤ days) (h₁ : days < 2 ^ 48) : civilFromDays days = some (civilOf era y d p) := by
  obtain ⟨hn₀, hn₁⟩ := h.dayOfEra_bounds
  obtain ⟨hy₀, hy₁, -, -⟩ := h.year_bounds
  obtain ⟨hd₀, hd₁⟩ := h.dayOfYear_bounds
  obtain ⟨hp₀, hp₁⟩ := h.monthPosition_bounds
  have hera : 0 ≤ era ∧ era < 2 ^ 31 := by
    have := h.era_eq
    omega
  rw [civilFromDays, epochShiftDays, daysPerEra]
  -- the era and the day of it
  refine I64.bind_checkedAdd rfl (by omega) (by omega) ?_
  rw [if_pos (by omega : days + 719468 ≥ 0), Option.bind_eq_bind, Option.bind_some]
  refine I64.bind_checkedDiv h.era_eq (by omega) (by omega) (by decide) ?_
  refine I64.bind_checkedMul rfl (by omega) (by omega) ?_
  refine I64.bind_checkedSub h.dayOfEra_eq (by omega) (by omega) ?_
  -- the year of the era
  refine I64.bind_checkedDiv rfl (by omega) (by omega) (by decide) ?_
  refine I64.bind_checkedSub rfl (by omega) (by omega) ?_
  refine I64.bind_checkedDiv rfl (by omega) (by omega) (by decide) ?_
  refine I64.bind_checkedAdd rfl (by omega) (by omega) ?_
  refine I64.bind_checkedDiv rfl (by omega) (by omega) (by decide) ?_
  refine I64.bind_checkedSub rfl (by omega) (by omega) ?_
  refine I64.bind_checkedDiv h.yearOfEra_eq (by omega) (by omega) (by decide) ?_
  refine I64.bind_checkedMul rfl (by omega) (by omega) ?_
  refine I64.bind_checkedAdd rfl (by omega) (by omega) ?_
  -- the day of the year
  refine I64.bind_checkedDiv rfl (by omega) (by omega) (by decide) ?_
  refine I64.bind_checkedDiv rfl (by omega) (by omega) (by decide) ?_
  refine I64.bind_checkedSub rfl (by omega) (by omega) ?_
  refine I64.bind_checkedMul rfl (by omega) (by omega) ?_
  refine I64.bind_checkedAdd rfl (by omega) (by omega) ?_
  refine I64.bind_checkedSub h.dayOfYear_eq (by omega) (by omega) ?_
  -- the month and the day of it
  refine I64.bind_checkedMul rfl (by omega) (by omega) ?_
  refine I64.bind_checkedAdd rfl (by omega) (by omega) ?_
  refine I64.bind_checkedDiv h.monthPosition_eq (by omega) (by omega) (by decide) ?_
  refine I64.bind_checkedMul rfl (by omega) (by omega) ?_
  refine I64.bind_checkedAdd rfl (by omega) (by omega) ?_
  refine I64.bind_checkedDiv rfl (by omega) (by omega) (by decide) ?_
  refine I64.bind_checkedSub rfl (by omega) (by omega) ?_
  refine I64.bind_checkedAdd rfl (by omega) (by omega) ?_
  have hday : 0 ≤ d - (p * 153 + 2) / 5 + 1 := by
    have := h.monthPosition_eq
    omega
  by_cases hmarch : p < 10
  · rw [if_pos hmarch]
    refine I64.bind_checkedAdd rfl (by omega) (by omega) ?_
    rw [if_neg (by omega : ¬ p + 3 ≤ 2), Option.bind_eq_bind, Option.bind_some]
    refine I64.bind_tryU32 (by omega) (by omega) (I64.bind_tryU32 hday (by omega) ?_)
    simp only [civilOf, if_pos hmarch, add_zero]
  · rw [if_neg hmarch]
    refine I64.bind_checkedSub rfl (by omega) (by omega) ?_
    rw [if_pos (by omega : p - 9 ≤ 2)]
    refine I64.bind_checkedAdd rfl (by omega) (by omega) ?_
    refine I64.bind_tryU32 (by omega) (by omega) (I64.bind_tryU32 hday (by omega) ?_)
    simp only [civilOf, if_neg hmarch]

namespace Derives
variable {days era n y d p : Int}

/-- The year from 1 March of a year has the leap day of the next. -/
theorem dayOfYear_lt (h : Derives days era n y d p) : d < yearLength (y + era * 400 + 1) := by
  obtain ⟨hy₀, hy₁, -, hnext⟩ := h.year_bounds
  have hd := h.dayOfYear_eq
  rw [yearLength]
  split
  case isTrue => omega
  case isFalse hleap =>
    rw [IsLeap] at hleap
    omega

theorem days_eq (h : Derives days era n y d p) :
    days = elapsed (y + era * 400 + 1) - elapsed 1970 - 306 + d := by
  obtain ⟨hy₀, hy₁, -, -⟩ := h.year_bounds
  have hd := h.dayOfYear_eq
  have hn := h.dayOfEra_eq
  simp only [elapsed]
  omega

/-- **The date of a day**: the values that `civil_from_days` derives are the date with that number
of days since 1970-01-01. -/
theorem exists_date (h : Derives days era n y d p) :
    ∃ date : Calendar.Date, civilOf era y d p = (date.year, date.month, date.day) ∧
      date.daysSince 1970 = days := by
  obtain ⟨hd₀, -⟩ := h.dayOfYear_bounds
  obtain ⟨hp₀, hp₁⟩ := h.monthPosition_bounds
  have hp := h.monthPosition_eq
  have hdays := h.days_eq
  have hlt := h.dayOfYear_lt
  obtain ⟨k, rfl⟩ := Int.eq_ofNat_of_zero_le hp₀
  obtain ⟨e, he⟩ : ∃ e : Nat, d - (k * 153 + 2) / 5 + 1 = e :=
    ⟨_, (Int.toNat_of_nonneg (by omega)).symm⟩
  by_cases hmarch : k < 10
  · have hlength := monthLength_add_three (y + era * 400) hmarch
    have hstart := monthStart_add_three (y + era * 400) hmarch
    have hyear := elapsed_succ (y + era * 400)
    refine ⟨⟨y + era * 400, k + 3, e, by omega, by omega⟩, ?_, ?_⟩
    · have hmonth : ((k : Int) + 3).toNat = k + 3 := by omega
      rw [civilOf, he, if_pos (by omega), if_pos (by omega), hmonth, add_zero, Int.toNat_natCast]
    · simp only [Calendar.Date.daysSince, yearStart_eq]
      omega
  · -- January and February are in the next year
    have hstart := monthStart_sub_nine (y + era * 400 + 1) (p := k) (by omega)
    have hlength : e ≤ monthLength (y + era * 400 + 1) (k - 9) := by
      rcases (by omega : k = 10 ∨ k = 11) with rfl | rfl
      · have hjanuary : monthLength (y + era * 400 + 1) (10 - 9) = 31 := monthLength_one _
        omega
      · have hfebruary : (monthLength (y + era * 400 + 1) (11 - 9) : Int) = _ := monthLength_two _
        omega
    refine ⟨⟨y + era * 400 + 1, k - 9, e, by omega, by omega, hlength⟩, ?_, ?_⟩
    · have hmonth : ((k : Int) - 9).toNat = k - 9 := by omega
      rw [civilOf, he, if_neg (by omega), if_neg (by omega), hmonth, Int.toNat_natCast]
    · simp only [Calendar.Date.daysSince, yearStart_eq]
      omega

end Derives

theorem civilFromDays_eq {days : Int} (h₀ : 0 ≤ days) (h₁ : days < 2 ^ 48) :
    ∃ date : Calendar.Date, civilFromDays days = some (date.year, date.month, date.day) ∧
      date.daysSince 1970 = days := by
  obtain ⟨era, n, y, d, p, h⟩ := exists_derives days
  obtain ⟨date, hcivil, hdays⟩ := h.exists_date
  exact ⟨date, by rw [civilFromDays_eq_some h h₀ h₁, hcivil], hdays⟩

/-! ### The clock -/

namespace Utc

/-- The number of the day since 1970-01-01. -/
def day (u : Utc) : Nat := u.seconds.toNat / secondsPerDay

theorem day_lt (u : Utc) : u.day < 2 ^ 48 := by
  have hseconds := u.seconds.toNat_lt
  rw [day, secondsPerDay]
  omega

/-- The date of the clock. -/
theorem exists_civil (u : Utc) :
    ∃ date : Calendar.Date, u.civil = .ok (date.year, date.month, date.day) ∧
      date.daysSince 1970 = u.day := by
  have hlt := u.day_lt
  obtain ⟨date, hcivil, hdays⟩ := civilFromDays_eq (Int.natCast_nonneg u.day) (by omega)
  refine ⟨date, ?_, hdays⟩
  have hdiv : checkedDiv u.seconds.toNat secondsPerDay = some u.day := if_neg (by decide)
  rw [civil, hdiv, okOr_some, ok_bind, I64.fit_of_lt (by omega) (by omega), okOr_some, ok_bind,
    hcivil, okOr_some]

theorem splitDay_eq (s : Nat) :
    splitDay s = .ok (s / 3600, s % 3600 / 60, s % 3600 % 60) := rfl

/-- **The calendar is exact for every clock value.**  The date exists, it is the only one with the
number of days that the clock counts, and a clock that is a day later shows the day after; the time
of day is the number of seconds in it. -/
theorem civil_exact (u : Utc) :
    (∃ date : Calendar.Date, u.civil = .ok (date.year, date.month, date.day) ∧
      date.daysSince 1970 = (u.seconds.toNat / 86400 : Nat) ∧
      (∀ other : Calendar.Date,
        other.daysSince 1970 = (u.seconds.toNat / 86400 : Nat) → other = date) ∧
      ∀ v : Utc, v.seconds.toNat / 86400 = u.seconds.toNat / 86400 + 1 →
        v.civil = .ok (date.next.year, date.next.month, date.next.day)) ∧
    ∃ hour minute second, splitDay (u.seconds.toNat % 86400) = .ok (hour, minute, second) ∧
      hour < 24 ∧ minute < 60 ∧ second < 60 ∧
      3600 * hour + 60 * minute + second = u.seconds.toNat % 86400 := by
  refine ⟨?_, _, _, _, splitDay_eq _, by omega, by omega, by omega, by omega⟩
  obtain ⟨date, hcivil, hdays⟩ := u.exists_civil
  refine ⟨date, hcivil, hdays, fun other hother => ?_, fun v hv => ?_⟩
  · exact Calendar.Date.daysSince_inj (hother.trans hdays.symm)
  · obtain ⟨date', hcivil', hdays'⟩ := v.exists_civil
    have hnext : date' = date.next := by
      refine Calendar.Date.daysSince_inj (?_ : _ = date.next.daysSince 1970)
      rw [Calendar.Date.daysSince_next, hdays', hdays, day, day, secondsPerDay, hv]
      exact Nat.cast_succ _
    rw [hcivil', hnext]

end Utc

end Rp1.Validation
