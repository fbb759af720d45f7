import Mathlib.Algebra.Order.Ring.Int
import Mathlib.Order.Basic

/-!
# Dates, clock readings and their differences

Days are numbered as in the proleptic Gregorian calendar, day 1 being 1 January of
year 1. A clock reading is a date and a time of day, down to the microsecond, and a
difference of two is a number of microseconds; its `seconds` are what is left of them
behind the whole days.

* `toordinal_injective`: a number is the number of one date only.
* `sameMinute_iff`: two readings are in the same calendar minute if they are in the same minute
  of those counted from the first day on, so that readings in between are too
  (`SameMinute.between`).
-/

namespace Calendar

/-! ## Dates -/

/-- Whether a year has 29 February. -/
def isLeap (year : ℕ) : Bool := year % 4 == 0 && (year % 100 != 0 || year % 400 == 0)

/-- The number of days in the years before. -/
def daysBeforeYear (year : ℕ) : ℕ :=
  (year - 1) * 365 + (year - 1) / 4 - (year - 1) / 100 + (year - 1) / 400

/-- The number of days in a month of a year. -/
def daysInMonth (year : ℕ) : ℕ → ℕ
  | 2 => if isLeap year then 29 else 28
  | 4 => 30
  | 6 => 30
  | 9 => 30
  | 11 => 30
  | _ => 31

/-- The number of days in the months before, of the same year. -/
def daysBeforeMonth (year : ℕ) : ℕ → ℕ
  | 0 => 0
  | 1 => 0
  | month + 2 => daysBeforeMonth year (month + 1) + daysInMonth year (month + 1)

/-- A date of the calendar. -/
structure Date : Type where
  year : ℕ
  month : ℕ
  day : ℕ
  /-- years are counted from 1 on -/
  year_pos : 1 ≤ year
  /-- months are counted from 1 on -/
  month_pos : 1 ≤ month
  /-- months go up to 12 -/
  month_le : month ≤ 12
  /-- days are counted from 1 on -/
  day_pos : 1 ≤ day
  /-- days go up to the end of the month -/
  day_le : day ≤ daysInMonth year month
  deriving DecidableEq

/-- The date of a year, a month and a day that there are. -/
def Date.of (year month day : ℕ) (h : (1 ≤ year ∧ 1 ≤ month ∧ month ≤ 12) ∧
    1 ≤ day ∧ day ≤ daysInMonth year month) : Date :=
  ⟨year, month, day, h.1.1, h.1.2.1, h.1.2.2, h.2.1, h.2.2⟩

/-- The number of a date. -/
def toordinal (d : Date) : ℕ := daysBeforeYear d.year + daysBeforeMonth d.year d.month + d.day

/-- A year has 365 days, or one more. -/
theorem daysBeforeYear_succ {year : ℕ} (h : 1 ≤ year) :
    daysBeforeYear (year + 1) = daysBeforeYear year + 365 + if isLeap year then 1 else 0 := by
  obtain ⟨y, rfl⟩ : ∃ y, year = y + 1 := ⟨year - 1, by omega⟩
  have hle : y / 100 ≤ y / 4 := Nat.div_le_div_left (by decide) (by decide)
  have hdvd : 400 ∣ y + 1 → 100 ∣ y + 1 := Nat.dvd_trans (by decide)
  have hdvd' : 100 ∣ y + 1 → 4 ∣ y + 1 := Nat.dvd_trans (by decide)
  have hleap : isLeap (y + 1) = true ↔ 4 ∣ y + 1 ∧ (¬ 100 ∣ y + 1 ∨ 400 ∣ y + 1) := by
    simp only [isLeap, Bool.and_eq_true, Bool.or_eq_true, beq_iff_eq, bne_iff_ne,
      Nat.dvd_iff_mod_eq_zero, ne_eq]
  simp only [daysBeforeYear, Nat.add_sub_cancel, Nat.succ_div, hleap]
  generalize y / 4 = q, y / 100 = q', y / 400 = q'' at *
  -- a year is one of four kinds
  by_cases h4 : 4 ∣ y + 1
  · by_cases h100 : 100 ∣ y + 1
    · by_cases h400 : 400 ∣ y + 1
      · simp only [h4, h100, h400, if_true, not_true, or_true, and_self]
        omega
      · simp only [h4, h100, h400, if_true, if_false, not_true, or_self, and_false]
        omega
    · have h400 : ¬ 400 ∣ y + 1 := fun h => h100 (hdvd h)
      simp only [h4, h100, h400, if_true, if_false, not_false_eq_true, true_or, and_self]
      omega
  · have h100 : ¬ 100 ∣ y + 1 := fun h => h4 (hdvd' h)
    have h400 : ¬ 400 ∣ y + 1 := fun h => h100 (hdvd h)
    simp only [h4, h100, h400, if_false, false_and]
    omega

theorem daysBeforeYear_mono {year year' : ℕ} (h : 1 ≤ year) (hle : year ≤ year') :
    daysBeforeYear year ≤ daysBeforeYear year' := by
  induction year', hle using Nat.le_induction with
  | base => exact le_refl _
  | succ year' hle ih =>
    rw [daysBeforeYear_succ (le_trans h hle)]
    omega

/-- The months before one and the month itself are the months before the next. -/
theorem daysBeforeMonth_succ {year month : ℕ} (h : 1 ≤ month) :
    daysBeforeMonth year (month + 1) = daysBeforeMonth year month + daysInMonth year month := by
  obtain ⟨month, rfl⟩ : ∃ k, month = k + 1 := ⟨month - 1, by omega⟩
  rfl

theorem daysBeforeMonth_mono (year : ℕ) {month month' : ℕ} (h : 1 ≤ month)
    (hle : month ≤ month') :
    daysBeforeMonth year month ≤ daysBeforeMonth year month' := by
  induction month', hle using Nat.le_induction with
  | base => exact le_refl _
  | succ month' hle ih =>
    rw [daysBeforeMonth_succ (le_trans h hle)]
    omega

/-- The twelve months make up the year. -/
theorem daysBeforeMonth_thirteen (year : ℕ) :
    daysBeforeMonth year 13 = 365 + if isLeap year then 1 else 0 := by
  simp only [daysBeforeMonth, daysInMonth]
  split
  next => rfl
  next => rfl

/-- A date comes behind the months before it, and within its own. -/
theorem Date.bounds (d : Date) :
    daysBeforeYear d.year + daysBeforeMonth d.year d.month < toordinal d ∧
      toordinal d ≤ daysBeforeYear d.year + daysBeforeMonth d.year (d.month + 1) := by
  have hday := d.day_pos
  have hday' := d.day_le
  rw [daysBeforeMonth_succ d.month_pos, toordinal]
  omega

/-- Dates of an earlier month of the same year have smaller numbers. -/
theorem toordinal_lt_of_month {d d' : Date} (hyear : d.year = d'.year) (h : d.month < d'.month) :
    toordinal d < toordinal d' := by
  have hd := d.bounds.2
  have hd' := d'.bounds.1
  have hmono := daysBeforeMonth_mono d'.year (Nat.le_add_left 1 d.month) h
  rw [hyear] at hd
  omega

/-- Dates of an earlier year have smaller numbers. -/
theorem toordinal_lt_of_year {d d' : Date} (h : d.year < d'.year) : toordinal d < toordinal d' := by
  have hd := d.bounds.2
  have hd' := d'.bounds.1
  have hmonths := daysBeforeMonth_mono d.year (Nat.le_add_left 1 d.month)
    (Nat.succ_le_succ d.month_le)
  have hyears := daysBeforeYear_mono (Nat.le_add_left 1 d.year) h
  rw [daysBeforeMonth_thirteen] at hmonths
  rw [daysBeforeYear_succ d.year_pos] at hyears
  omega

/-- **No two dates have the same number.** -/
theorem toordinal_injective : Function.Injective toordinal := by
  intro d d' h
  have hyear : d.year = d'.year := by
    rcases Nat.lt_trichotomy d.year d'.year with hlt | heq | hgt
    · exact absurd h (Nat.ne_of_lt (toordinal_lt_of_year hlt))
    · exact heq
    · exact absurd h (Nat.ne_of_gt (toordinal_lt_of_year hgt))
  have hmonth : d.month = d'.month := by
    rcases Nat.lt_trichotomy d.month d'.month with hlt | heq | hgt
    · exact absurd h (Nat.ne_of_lt (toordinal_lt_of_month hyear hlt))
    · exact heq
    · exact absurd h (Nat.ne_of_gt (toordinal_lt_of_month hyear.symm hgt))
  obtain ⟨year, month, day, _, _, _, _, _⟩ := d
  obtain ⟨year', month', day', _, _, _, _, _⟩ := d'
  obtain rfl : year = year' := hyear
  obtain rfl : month = month' := hmonth
  obtain rfl : day = day' := by simpa only [toordinal, Nat.add_left_cancel_iff] using h
  rfl

/-! ## Clock readings -/

/-- A reading of the clock. -/
structure DateTime : Type where
  date : Date
  hour : ℕ
  minute : ℕ
  second : ℕ
  microsecond : ℕ
  /-- a day has 24 hours -/
  hour_lt : hour < 24
  /-- an hour has 60 minutes -/
  minute_lt : minute < 60
  /-- a minute has 60 seconds -/
  second_lt : second < 60
  /-- a second has a million microseconds -/
  microsecond_lt : microsecond < 1000000
  deriving DecidableEq

namespace DateTime

/-- The reading on a date, at a time of day in seconds. -/
def of (date : Date) (hour minute second : ℕ) (h : hour < 24 ∧ minute < 60 ∧ second < 60) :
    DateTime :=
  ⟨date, hour, minute, second, 0, h.1, h.2.1, h.2.2, Nat.succ_pos _⟩

/-- The minutes from day 0 on. -/
def minutes (t : DateTime) : ℕ := (toordinal t.date * 24 + t.hour) * 60 + t.minute

/-- The microseconds from day 0 on. -/
def micros (t : DateTime) : ℕ := (t.minutes * 60 + t.second) * 1000000 + t.microsecond

/-- Readings are ordered as the microseconds are. -/
instance : Preorder DateTime := Preorder.lift micros

theorem le_def {s t : DateTime} : s ≤ t ↔ s.micros ≤ t.micros := Iff.rfl

instance : DecidableRel (fun s t : DateTime => s ≤ t) := fun s t => Nat.decLe s.micros t.micros

/-- The microseconds from one reading to another. -/
def sub (t s : DateTime) : ℤ := t.micros - s.micros

theorem minutes_eq (t : DateTime) : t.minutes = t.micros / 60000000 := by
  have hsecond := t.second_lt
  have hmicrosecond := t.microsecond_lt
  rw [micros]
  omega

end DateTime

/-- What is left of a difference behind its whole days, in whole seconds. -/
def seconds (microseconds : ℤ) : ℤ := microseconds % 86400000000 / 1000000

/-- A difference is no less than its seconds. -/
theorem seconds_le {d : ℤ} (h : 0 ≤ d) : seconds d * 1000000 ≤ d := by
  rw [seconds]
  omega

/-! ## Calendar minutes -/

/-- Two readings are in the same minute of the same day. -/
def SameMinute (s t : DateTime) : Prop := s.date = t.date ∧ s.hour = t.hour ∧ s.minute = t.minute

instance (s t : DateTime) : Decidable (SameMinute s t) := inferInstanceAs (Decidable (_ ∧ _ ∧ _))

/-- **A calendar minute is one of those counted.** -/
theorem sameMinute_iff {s t : DateTime} : SameMinute s t ↔ s.minutes = t.minutes := by
  refine ⟨fun ⟨hdate, hhour, hminute⟩ => ?_, fun h => ?_⟩
  · rw [DateTime.minutes, DateTime.minutes, hdate, hhour, hminute]
  · have hhour := s.hour_lt
    have hhour' := t.hour_lt
    have hminute := s.minute_lt
    have hminute' := t.minute_lt
    simp only [DateTime.minutes] at h
    exact ⟨toordinal_injective (by omega), by omega, by omega⟩

theorem SameMinute.symm {s t : DateTime} (h : SameMinute s t) : SameMinute t s :=
  sameMinute_iff.mpr (sameMinute_iff.mp h).symm

/-- Minutes are ordered as readings are. -/
theorem minutes_mono {s t : DateTime} (h : s ≤ t) : s.minutes ≤ t.minutes := by
  rw [s.minutes_eq, t.minutes_eq]
  exact Nat.div_le_div_right h

/-- A reading between two of the same minute is of that minute. -/
theorem SameMinute.between {s t u : DateTime} (h : SameMinute s u) (hst : s ≤ t) (htu : t ≤ u) :
    SameMinute s t := by
  have hle := minutes_mono hst
  have hle' := minutes_mono htu
  rw [sameMinute_iff] at h ⊢
  omega

/-- Within a minute less than a minute passes. -/
theorem SameMinute.sub_lt {s t : DateTime} (h : SameMinute s t) : t.sub s < 60000000 := by
  rw [sameMinute_iff, s.minutes_eq, t.minutes_eq] at h
  rw [DateTime.sub]
  omega

end Calendar
