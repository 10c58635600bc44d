import Mathlib.Tactic

/-!
# Support — the proleptic Gregorian calendar

The calendar from its rule for leap years: the lengths of years and months, the dates, and the
number of days from 1 January of a base year to a date (`Date.daysSince`), which is a sum of
lengths.  A date is valid by construction.

`yearStart_eq` is the closed form of the sum over the years.  `before_iff` and `daysSince_inj` say
that the numbers are in the order of the dates and that a date is known by its number, and
`daysSince_next` that they count the days.
-/

namespace Calendar

/-! ### Years -/

/-- Every fourth year is a leap year, of the centuries every fourth. -/
def IsLeap (year : Int) : Prop := year % 4 = 0 ∧ (year % 100 ≠ 0 ∨ year % 400 = 0)

instance (year : Int) : Decidable (IsLeap year) := inferInstanceAs (Decidable (_ ∧ _))

def yearLength (year : Int) : Int := if IsLeap year then 366 else 365

/-- The years from `a` on and before `b`. -/
def years (a b : Int) : List Int := (List.range (b - a).toNat).map fun i : Nat => a + i

/-- The days from 1 January of `base` to 1 January of `year`, negative for a year before it. -/
def yearStart (base year : Int) : Int :=
  ((years base year).map yearLength).sum - ((years year base).map yearLength).sum

theorem years_of_le {a b : Int} (h : b ≤ a) : years a b = [] := by
  rw [years, Int.toNat_eq_zero.mpr (by omega), List.range_zero, List.map_nil]

theorem years_succ {a b : Int} (h : a ≤ b) : years a (b + 1) = years a b ++ [b] := by
  have hlen : (b + 1 - a).toNat = (b - a).toNat + 1 := by omega
  have hlast : a + ((b - a).toNat : Int) = b := by omega
  rw [years, hlen, List.range_succ, List.map_append, List.map_singleton, hlast, years]

theorem years_cons {a b : Int} (h : a < b) : years a b = a :: years (a + 1) b := by
  have hlen : (b - a).toNat = (b - (a + 1)).toNat + 1 := by omega
  rw [years, hlen, List.range_succ_eq_map, List.map_cons, List.map_map, years]
  refine congrArg₂ _ (by simp) (List.map_congr_left fun i _ => ?_)
  simp only [Function.comp_apply, Nat.succ_eq_add_one, Nat.cast_add, Nat.cast_one]
  ring

theorem yearStart_self (base : Int) : yearStart base base = 0 := by
  rw [yearStart, sub_self]

theorem yearStart_succ (base year : Int) :
    yearStart base (year + 1) = yearStart base year + yearLength year := by
  rcases le_or_gt base year with h | h
  · rw [yearStart, yearStart, years_succ h, years_of_le (by omega : base ≤ year + 1),
      years_of_le h, List.map_append, List.sum_append, List.map_singleton, List.sum_singleton]
    ring
  · rw [yearStart, yearStart, years_cons h, years_of_le (by omega : year + 1 ≤ base),
      years_of_le h.le, List.map_cons, List.sum_cons]
    ring

/-- The days from 1 January of year 1 to 1 January of `year`. -/
def elapsed (year : Int) : Int :=
  365 * (year - 1) + (year - 1) / 4 - (year - 1) / 100 + (year - 1) / 400

theorem elapsed_succ (year : Int) : elapsed (year + 1) = elapsed year + yearLength year := by
  rw [elapsed, elapsed, yearLength]
  split
  case isTrue h =>
    rw [IsLeap] at h
    omega
  case isFalse h =>
    rw [IsLeap] at h
    omega

/-- **The closed form.** -/
theorem yearStart_eq (base year : Int) : yearStart base year = elapsed year - elapsed base := by
  induction year using Int.inductionOn' (b := base) with
  | zero => rw [yearStart_self, sub_self]
  | succ k _ ih =>
      rw [yearStart_succ, elapsed_succ, ih]
      ring
  | pred k _ ih =>
      have hstart := yearStart_succ base (k - 1)
      have helapsed := elapsed_succ (k - 1)
      rw [sub_add_cancel] at hstart helapsed
      omega

theorem yearStart_mono (base : Int) {y z : Int} (h : y ≤ z) :
    yearStart base y ≤ yearStart base z := by
  simp only [yearStart_eq, elapsed]
  omega

/-! ### Months -/

def monthLength (year : Int) (month : Nat) : Nat :=
  if month = 2 then if IsLeap year then 29 else 28
  else if month = 4 ∨ month = 6 ∨ month = 9 ∨ month = 11 then 30
  else 31

/-- The days from 1 January to the first day of `month`. -/
def monthStart (year : Int) (month : Nat) : Nat :=
  ((List.range (month - 1)).map fun i => monthLength year (i + 1)).sum

theorem monthStart_succ (year : Int) {month : Nat} (h : 1 ≤ month) :
    monthStart year (month + 1) = monthStart year month + monthLength year month := by
  obtain ⟨k, rfl⟩ := Nat.exists_eq_add_one_of_ne_zero (Nat.ne_zero_of_lt h)
  rw [monthStart, monthStart, Nat.add_sub_cancel, Nat.add_sub_cancel, List.range_succ,
    List.map_append, List.sum_append, List.map_singleton, List.sum_singleton]

theorem monthStart_mono (year : Int) {m n : Nat} (h : m ≤ n) :
    monthStart year m ≤ monthStart year n := by
  induction n, h using Nat.le_induction with
  | base => exact Nat.le_refl _
  | succ n _ ih =>
      rcases Nat.eq_zero_or_pos n with rfl | hn
      · exact ih
      · rw [monthStart_succ year hn]
        exact Nat.le_add_right_of_le ih

/-- A year is its twelve months. -/
theorem monthStart_thirteen (year : Int) : (monthStart year 13 : Int) = yearLength year := by
  by_cases h : IsLeap year <;> simp [monthStart, List.range_succ, monthLength, yearLength, h]

theorem monthLength_pos (year : Int) (month : Nat) : 1 ≤ monthLength year month := by
  rw [monthLength]
  split
  case isTrue => split <;> decide
  case isFalse => split <;> decide

theorem monthLength_le (year : Int) (month : Nat) : monthLength year month ≤ 31 := by
  rw [monthLength]
  split
  case isTrue => split <;> decide
  case isFalse => split <;> decide

/-! ### Months from March

Counted from 1 March the months have a closed form, since February with its leap day comes last. -/

theorem monthStart_add_three (year : Int) {p : Nat} (hp : p < 10) :
    (monthStart year (p + 3) : Int) = yearLength year - 306 + (p * 153 + 2) / 5 := by
  by_cases h : IsLeap year <;>
    interval_cases p <;> simp [monthStart, List.range_succ, monthLength, yearLength, h]

theorem monthStart_sub_nine (year : Int) {p : Nat} (hp : 10 ≤ p ∧ p < 12) :
    (monthStart year (p - 9) : Int) = (p * 153 + 2) / 5 - 306 := by
  obtain ⟨hp₁, hp₂⟩ := hp
  interval_cases p <;> simp [monthStart, List.range_succ, monthLength]

theorem monthLength_add_three (year : Int) {p : Nat} (hp : p < 10) :
    (monthLength year (p + 3) : Int) = ((p + 1) * 153 + 2) / 5 - (p * 153 + 2) / 5 := by
  interval_cases p <;> simp [monthLength]

theorem monthLength_one (year : Int) : monthLength year 1 = 31 := by
  simp [monthLength]

theorem monthLength_two (year : Int) : (monthLength year 2 : Int) = yearLength year - 337 := by
  by_cases h : IsLeap year <;> simp [monthLength, yearLength, h]

/-! ### Dates -/

/-- A date of the proleptic Gregorian calendar. -/
structure Date where
  year : Int
  month : Nat
  day : Nat
  month_mem : 1 ≤ month ∧ month ≤ 12
  day_mem : 1 ≤ day ∧ day ≤ monthLength year month
deriving DecidableEq

namespace Date
variable {d e : Date}

/-- The days from 1 January of `base` to the date. -/
def daysSince (base : Int) (d : Date) : Int :=
  yearStart base d.year + monthStart d.year d.month + (d.day - 1)

/-- The first of a month. -/
def first (year : Int) (month : Nat) (h : 1 ≤ month ∧ month ≤ 12) : Date :=
  ⟨year, month, 1, h, Nat.le_refl 1, monthLength_pos year month⟩

/-- The day after. -/
def next (d : Date) : Date :=
  if hd : d.day < monthLength d.year d.month then
    ⟨d.year, d.month, d.day + 1, d.month_mem, by omega, hd⟩
  else if hm : d.month < 12 then first d.year (d.month + 1) ⟨by omega, hm⟩
  else first (d.year + 1) 1 ⟨Nat.le_refl 1, by decide⟩

/-- **The numbers count the days.** -/
theorem daysSince_next (base : Int) (d : Date) :
    d.next.daysSince base = d.daysSince base + 1 := by
  obtain ⟨hm₁, hm₂⟩ := d.month_mem
  obtain ⟨hd₁, hd₂⟩ := d.day_mem
  rw [next]
  split
  case isTrue hd =>
    simp only [daysSince, Nat.cast_add, Nat.cast_one]
    ring
  case isFalse hd =>
    have hlast : d.day = monthLength d.year d.month := Nat.le_antisymm hd₂ (Nat.not_lt.mp hd)
    have hmonth := monthStart_succ d.year hm₁
    split
    case isTrue hm =>
      simp only [daysSince, first, hmonth, hlast, Nat.cast_add]
      ring
    case isFalse hm =>
      have hdec : d.month = 12 := by omega
      have hyear := monthStart_thirteen d.year
      rw [hdec] at hlast hmonth
      rw [hmonth, ← hlast] at hyear
      simp only [daysSince, first, yearStart_succ, ← hyear, hdec, Nat.cast_add, monthStart]
      simp
      ring

theorem yearStart_le_daysSince (base : Int) (d : Date) :
    yearStart base d.year ≤ d.daysSince base := by
  have hd := d.day_mem.1
  rw [daysSince]
  omega

theorem daysSince_lt_yearStart (base : Int) (d : Date) :
    d.daysSince base < yearStart base (d.year + 1) := by
  obtain ⟨hm₁, hm₂⟩ := d.month_mem
  have hd := d.day_mem.2
  have hmonth := monthStart_succ d.year hm₁
  have hle := monthStart_mono d.year (by omega : d.month + 1 ≤ 13)
  have hyear := monthStart_thirteen d.year
  rw [yearStart_succ, daysSince]
  omega

/-- `d` is before `e`. -/
def Before (d e : Date) : Prop :=
  d.year < e.year ∨ d.year = e.year ∧ (d.month < e.month ∨ d.month = e.month ∧ d.day < e.day)

theorem before_trichotomy (d e : Date) : d.Before e ∨ d = e ∨ e.Before d := by
  obtain ⟨year, month, day, hm, hd⟩ := d
  obtain ⟨year', month', day', hm', hd'⟩ := e
  simp only [Before, Date.mk.injEq]
  omega

theorem Before.daysSince_lt (base : Int) (h : d.Before e) :
    d.daysSince base < e.daysSince base := by
  rcases h with hy | ⟨hy, hm | ⟨hm, hd⟩⟩
  · have hmono : yearStart base (d.year + 1) ≤ yearStart base e.year := yearStart_mono base hy
    exact (daysSince_lt_yearStart base d).trans_le (hmono.trans (yearStart_le_daysSince base e))
  · have hmono := monthStart_mono d.year (by omega : d.month + 1 ≤ e.month)
    have hstart := monthStart_succ d.year d.month_mem.1
    have hd := d.day_mem.2
    have he := e.day_mem.1
    rw [daysSince, daysSince, ← hy]
    omega
  · rw [daysSince, daysSince, ← hy, ← hm]
    omega

theorem before_iff (base : Int) : d.Before e ↔ d.daysSince base < e.daysSince base := by
  refine ⟨Before.daysSince_lt base, fun h => ?_⟩
  rcases before_trichotomy d e with hb | rfl | hb
  · exact hb
  · exact absurd h (lt_irrefl _)
  · exact absurd h (hb.daysSince_lt base).asymm

/-- **A date is known by its number.** -/
theorem daysSince_inj {base : Int} (h : d.daysSince base = e.daysSince base) : d = e := by
  rcases before_trichotomy d e with hb | rfl | hb
  · exact absurd h (hb.daysSince_lt base).ne
  · rfl
  · exact absurd h.symm (hb.daysSince_lt base).ne

end Date

end Calendar
