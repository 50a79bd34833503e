import Transcode.Date
/-!
# Counting days

The calendar goes from day to day (`Date.tomorrow`, `Date.yesterday`), and dates are compared year
by year, month by month and day by day (`Date.Before`). The number of a day agrees with both: it
grows by one from each day to the next (`Date.dayNumber_tomorrow`), so going back day by day is a
subtraction (`Date.dayNumber_back`), and the earlier one of two dates has the smaller number
(`Date.before_iff_dayNumber_lt`). The numbers between those of the first and the last day belong to
the dates of the years in between (`Date.inCalendar_iff`).
-/

set_option autoImplicit false

namespace Transcode

namespace Date

variable {date other : Date} {year : Int} {month : Nat}

/-! ## From day to day -/

/-- The day before. -/
def yesterday (date : Date) : Date :=
  if 1 < date.day then ⟨date.year, date.month, date.day - 1⟩
  else if 1 < date.month then ⟨date.year, date.month - 1, daysIn date.year (date.month - 1)⟩
  else ⟨date.year - 1, 12, 31⟩

/-- The day so many days earlier; a negative number leads to a later day. -/
def back (date : Date) : Int → Date
  | .ofNat n => Nat.repeat yesterday n date
  | .negSucc n => Nat.repeat tomorrow (n + 1) date

/-- An earlier date: the year decides, then the month, then the day. -/
def Before (date other : Date) : Prop :=
  date.year < other.year ∨ date.year = other.year ∧
    (date.month < other.month ∨ date.month = other.month ∧ date.day < other.day)

instance : Decidable (date.Before other) :=
  inferInstanceAs (Decidable (_ ∨ _ ∧ (_ ∨ _ ∧ _)))

/-- A date of the calendar, which has the years from -262143 to 262142. -/
structure Representable (date : Date) : Prop where
  valid : date.isValid = true
  years : -262143 ≤ date.year ∧ date.year ≤ 262142

/-! ## Years, and days within a year -/

/-- The number of the day before the first one of a year. -/
def yearStart (year : Int) : Int :=
  365 * (year - 1) + (year - 1) / 4 - (year - 1) / 100 + (year - 1) / 400

/-- The number of days of a year. -/
def daysOf (year : Int) : Nat :=
  if isLeap year then 366 else 365

/-- The place of a day in its year. -/
def dayOfYear (date : Date) : Nat :=
  daysBefore date.year date.month + date.day

theorem dayNumber_eq (date : Date) : date.dayNumber = yearStart date.year + date.dayOfYear := by
  simp only [dayNumber, yearStart, dayOfYear]
  omega

theorem isLeap_iff : isLeap year = true ↔ year % 4 = 0 ∧ (year % 100 ≠ 0 ∨ year % 400 = 0) := by
  simp [isLeap]

/-- Each year starts where the one before ends. -/
theorem yearStart_succ (year : Int) : yearStart (year + 1) = yearStart year + daysOf year := by
  unfold yearStart daysOf
  split
  · next hleap =>
      rw [isLeap_iff] at hleap
      omega
  · next hcommon =>
      rw [isLeap_iff] at hcommon
      omega

theorem yearStart_mono {year' : Int} (later : year ≤ year') : yearStart year ≤ yearStart year' := by
  unfold yearStart
  omega

theorem daysBefore_succ (year : Int) (counted : 1 ≤ month) :
    daysBefore year (month + 1) = daysBefore year month + daysIn year month := by
  obtain ⟨earlier, rfl⟩ := Nat.exists_eq_add_of_le' counted
  simp [daysBefore, List.range_succ]

theorem daysBefore_mono (year : Int) {month' : Nat} (counted : 1 ≤ month) (later : month ≤ month') :
    daysBefore year month ≤ daysBefore year month' := by
  induction later with
  | refl => exact Nat.le_refl _
  | step later ih =>
      rw [daysBefore_succ year (Nat.le_trans counted later)]
      exact Nat.le_trans ih (Nat.le_add_right _ _)

/-- The days of the twelve months are those of the year. -/
theorem daysBefore_thirteen (year : Int) : daysBefore year 13 = daysOf year := by
  cases hleap : isLeap year <;> simp [daysBefore, daysOf, daysIn, hleap, List.range_succ]

theorem isValid_iff : date.isValid = true ↔
    (1 ≤ date.month ∧ date.month ≤ 12) ∧ 1 ≤ date.day ∧ date.day ≤ daysIn date.year date.month := by
  simp [isValid, and_assoc]

theorem daysIn_pos (year : Int) (month : Nat) : 1 ≤ daysIn year month := by
  unfold daysIn
  repeat' split
  all_goals decide

/-- A day lies within its year. -/
theorem dayOfYear_bounds (valid : date.isValid = true) :
    1 ≤ date.dayOfYear ∧ date.dayOfYear ≤ daysOf date.year := by
  obtain ⟨⟨hfirst, htwelve⟩, hpositive, hwithin⟩ := isValid_iff.1 valid
  have hmonth := daysBefore_succ date.year hfirst
  have hyear := daysBefore_mono date.year (Nat.le_add_left 1 date.month) (Nat.succ_le_succ htwelve)
  rw [daysBefore_thirteen] at hyear
  unfold dayOfYear
  omega

/-! ## The number of a day -/

theorem isValid_tomorrow (valid : date.isValid = true) : date.tomorrow.isValid = true := by
  obtain ⟨⟨hfirst, htwelve⟩, hpositive, hwithin⟩ := isValid_iff.1 valid
  unfold tomorrow
  split
  · next hmore => exact isValid_iff.2 ⟨⟨hfirst, htwelve⟩, Nat.le_add_left 1 _, hmore⟩
  · split
    · next hmonth =>
        exact isValid_iff.2 ⟨⟨Nat.le_add_left 1 _, hmonth⟩, Nat.le_refl 1, daysIn_pos _ _⟩
    · exact isValid_iff.2 ⟨by simp, Nat.le_refl 1, daysIn_pos _ _⟩

theorem isValid_yesterday (valid : date.isValid = true) : date.yesterday.isValid = true := by
  obtain ⟨⟨hfirst, htwelve⟩, hpositive, hwithin⟩ := isValid_iff.1 valid
  unfold yesterday
  split
  · next hmore =>
      exact isValid_iff.2 ⟨⟨hfirst, htwelve⟩, Nat.le_sub_one_of_lt hmore,
        Nat.le_trans (Nat.sub_le _ 1) hwithin⟩
  · split
    · next hmonth =>
        exact isValid_iff.2 ⟨⟨Nat.le_sub_one_of_lt hmonth, Nat.le_trans (Nat.sub_le _ 1) htwelve⟩,
          daysIn_pos _ _, Nat.le_refl _⟩
    · exact isValid_iff.2 ⟨by simp, by simp [daysIn]⟩

/-- The day after has the next number. -/
theorem dayNumber_tomorrow (valid : date.isValid = true) :
    date.tomorrow.dayNumber = date.dayNumber + 1 := by
  obtain ⟨⟨hfirst, htwelve⟩, hpositive, hwithin⟩ := isValid_iff.1 valid
  have hmonth := daysBefore_succ date.year hfirst
  rw [dayNumber_eq, dayNumber_eq]
  unfold tomorrow dayOfYear
  split
  · dsimp only
    omega
  · next hended =>
      split
      · dsimp only
        omega
      · -- December ends, and with it the year
        have hdecember : date.month = 12 := by omega
        have hnext := yearStart_succ date.year
        have hjanuary : daysBefore (date.year + 1) 1 = 0 := rfl
        rw [hdecember] at hmonth hwithin hended ⊢
        rw [daysBefore_thirteen] at hmonth
        dsimp only
        omega

/-- The day before is the one that this day comes after. -/
theorem tomorrow_yesterday (valid : date.isValid = true) : date.yesterday.tomorrow = date := by
  obtain ⟨year, month, day⟩ := date
  obtain ⟨⟨hfirst, htwelve⟩, hpositive, hwithin⟩ := isValid_iff.1 valid
  dsimp only at hfirst htwelve hpositive hwithin
  unfold yesterday
  dsimp only
  -- the day is within its month, the first one of a month, or the first one of the year
  split
  · next hmore =>
      have hbefore : day - 1 < daysIn year month := by omega
      simp only [tomorrow, if_pos hbefore, Nat.sub_add_cancel hpositive]
  · have hday : day = 1 := by omega
    split
    · next hmonth =>
        have hnext : month - 1 < 12 := by omega
        simp only [tomorrow, Nat.lt_irrefl, if_false, if_pos hnext, Nat.sub_add_cancel hfirst, hday]
    · have hmonth : month = 1 := by omega
      simp [tomorrow, daysIn, hday, hmonth]

theorem dayNumber_yesterday (valid : date.isValid = true) :
    date.yesterday.dayNumber = date.dayNumber - 1 := by
  have hnext := dayNumber_tomorrow (isValid_yesterday valid)
  rw [tomorrow_yesterday valid] at hnext
  omega

/-- Going back day by day subtracts from the number of the day. -/
theorem dayNumber_back (valid : date.isValid = true) (days : Int) :
    (date.back days).isValid = true ∧ (date.back days).dayNumber = date.dayNumber - days := by
  -- the sign gives the direction, and each single step goes from a valid date to a valid one
  cases days with
  | ofNat n =>
      induction n with
      | zero => exact ⟨valid, (Int.sub_zero _).symm⟩
      | succ n ih =>
          obtain ⟨hvalid, hnumber⟩ := ih
          refine ⟨isValid_yesterday hvalid, (dayNumber_yesterday hvalid).trans ?_⟩
          rw [hnumber]
          simp only [Int.ofNat_eq_natCast]
          omega
  | negSucc n =>
      induction n with
      | zero => exact ⟨isValid_tomorrow valid, dayNumber_tomorrow valid⟩
      | succ n ih =>
          obtain ⟨hvalid, hnumber⟩ := ih
          refine ⟨isValid_tomorrow hvalid, (dayNumber_tomorrow hvalid).trans ?_⟩
          rw [hnumber]
          omega

/-! ## Earlier dates -/

/-- Of two dates that differ one is the earlier one. -/
theorem Before.trichotomy (date other : Date) :
    date.Before other ∨ date = other ∨ other.Before date := by
  obtain ⟨year, month, day⟩ := date
  obtain ⟨year', month', day'⟩ := other
  simp only [Before, mk.injEq]
  omega

theorem Before.dayNumber_lt (valid : date.isValid = true) (valid' : other.isValid = true)
    (before : date.Before other) : date.dayNumber < other.dayNumber := by
  rw [dayNumber_eq, dayNumber_eq]
  rcases before with hyear | ⟨hyear, hmonth | ⟨hmonth, hday⟩⟩
  · -- the year of the earlier date ends before the other one begins
    have hend := (dayOfYear_bounds valid).2
    have hbegin := (dayOfYear_bounds valid').1
    have hnext := yearStart_succ date.year
    have hlater := yearStart_mono (Int.add_one_le_of_lt hyear)
    omega
  · -- so does its month
    obtain ⟨⟨hfirst, -⟩, -, hwithin⟩ := isValid_iff.1 valid
    obtain ⟨-, hpositive, -⟩ := isValid_iff.1 valid'
    have hend := daysBefore_succ date.year hfirst
    have hlater := daysBefore_mono date.year (Nat.le_add_left 1 date.month) hmonth
    rw [← hyear, dayOfYear, dayOfYear, ← hyear]
    omega
  · rw [dayOfYear, dayOfYear, hyear, hmonth]
    omega

/-- The earlier one of two dates has the smaller number. -/
theorem before_iff_dayNumber_lt (valid : date.isValid = true) (valid' : other.isValid = true) :
    date.Before other ↔ date.dayNumber < other.dayNumber := by
  constructor
  · exact Before.dayNumber_lt valid valid'
  · intro hless
    rcases Before.trichotomy date other with hbefore | rfl | hafter
    · exact hbefore
    · exact absurd hless (Int.lt_irrefl _)
    · exact absurd (hafter.dayNumber_lt valid' valid) (Int.lt_asymm hless)

/-! ## The ends of the calendar -/

/-- The numbers of the calendar are those of its dates. -/
theorem inCalendar_iff (valid : date.isValid = true) :
    inCalendar date.dayNumber = true ↔ date.Representable := by
  obtain ⟨⟨hfirst, htwelve⟩, hpositive, hwithin⟩ := isValid_iff.1 valid
  have hlow : ¬ date.Before first ↔ first.dayNumber ≤ date.dayNumber := by
    rw [before_iff_dayNumber_lt valid (by decide), Int.not_lt]
  have hhigh : ¬ last.Before date ↔ date.dayNumber ≤ last.dayNumber := by
    rw [before_iff_dayNumber_lt (by decide) valid, Int.not_lt]
  have hdays : date.month = 12 → date.day ≤ 31 := by
    intro hdecember
    rw [hdecember] at hwithin
    exact hwithin
  rw [inCalendar, Bool.and_eq_true, decide_eq_true_eq, decide_eq_true_eq, ← hlow, ← hhigh]
  constructor
  · rintro ⟨hnotBefore, hnotAfter⟩
    refine ⟨valid, ?_⟩
    simp only [Before, first, last] at hnotBefore hnotAfter
    omega
  · rintro ⟨-, hyears⟩
    simp only [Before, first, last]
    omega

/-- Representability of a date some days back, by day numbers. -/
theorem representable_back_iff (valid : date.isValid = true) (days : Int) :
    (date.back days).Representable ↔ inCalendar (date.dayNumber - days) = true := by
  obtain ⟨hvalid, hnumber⟩ := dayNumber_back valid days
  rw [← inCalendar_iff hvalid, hnumber]

end Date

end Transcode
