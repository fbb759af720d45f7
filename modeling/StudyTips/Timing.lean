import Mathlib.Data.Set.Insert
import StudyTips.Calendar

/-!
# `python/playmusic.py`: when music is due

`isTiming` says whether music is due at a reading of the clock, which it is at the
configured timings, except that those of the first five minutes of an hour of remembrance
are put off to the sixth.

* `isTiming_eq_true`: when it is due, read off the code.
* `isTiming_timings`: the minutes of a day at which music is due are the configured timings,
  less those in the quiet minutes, and the minute these are put off to.
-/

namespace StudyTips

open Calendar

/-- `minute_threshold` -/
def minute_threshold : ℤ := 5

/-- `isSpecialMinute(minute)`. -/
def isSpecialMinute (minute : ℤ) : Bool := minute < minute_threshold

/-- `isSpecialHour(now)`. -/
def isSpecialHour (now : DateTime) : Bool :=
  now.date.month == 12 && now.date.day == 13 && now.hour == 10

/-- A configured timing, `(hour, minute)`. -/
abbrev Timing : Type := ℤ × ℤ

/-- `isTiming(now, inSettingList)`. -/
def isTiming (now : DateTime) (inSettingList : List Timing) : Bool :=
  if isSpecialHour now && isSpecialMinute now.minute then false
  else inSettingList.any fun item => now.hour == item.1 && (now.minute == item.2 ||
    (isSpecialHour now && isSpecialMinute item.2 && now.minute == minute_threshold))

/-- The hour and the minute of a reading. -/
def timeOf (now : DateTime) : Timing := (now.hour, now.minute)

/-- There is such a time of day. -/
def Timing.Valid (t : Timing) : Prop := 0 ≤ t.1 ∧ t.1 ≤ 23 ∧ 0 ≤ t.2 ∧ t.2 ≤ 59

instance (t : Timing) : Decidable t.Valid := inferInstanceAs (Decidable (_ ∧ _ ∧ _ ∧ _))

/-- 10:00 to 10:04. -/
def quietMinutes : Set Timing := {t | t.1 = 10 ∧ 0 ≤ t.2 ∧ t.2 ≤ 4}

/-- 13 December. -/
def Remembrance (date : Date) : Prop := date.month = 12 ∧ date.day = 13

/-- The times at which music is to be due on a date. -/
def timingsOf (date : Date) (inSettingList : List Timing) : Set Timing :=
  {t | (t ∈ inSettingList ∧ ¬ (Remembrance date ∧ t ∈ quietMinutes)) ∨
    (Remembrance date ∧ t = (10, 5) ∧ ∃ t' ∈ inSettingList, t' ∈ quietMinutes)}

/-- `isTiming` holds at the times of a date it is to hold at. -/
structure TimingsOf (date : Date) (inSettingList : List Timing) : Prop where
  /-- `isTiming` holds at a reading exactly if its time is one of `timingsOf` -/
  iff : ∀ now : DateTime, now.date = date →
    (isTiming now inSettingList = true ↔ timeOf now ∈ timingsOf date inSettingList)
  /-- every time of `timingsOf` has a reading at which `isTiming` holds -/
  times : {t | ∃ now : DateTime, now.date = date ∧ timeOf now = t ∧
    isTiming now inSettingList = true} = timingsOf date inSettingList
  /-- `isTiming` does not hold in the quiet minutes -/
  quiet : ∀ now : DateTime, now.date = date → Remembrance date → timeOf now ∈ quietMinutes →
    isTiming now inSettingList = false
  /-- no timing is lost -/
  kept : ∀ t ∈ inSettingList, t ∈ timingsOf date inSettingList ∨
    (Remembrance date ∧ t ∈ quietMinutes ∧ (10, 5) ∈ timingsOf date inSettingList)
  /-- no timing is added, but the one behind the quiet minutes -/
  only : ∀ now : DateTime, now.date = date → isTiming now inSettingList = true →
    timeOf now ∈ inSettingList ∨ (Remembrance date ∧ timeOf now = (10, 5))

theorem isSpecialHour_eq_true {now : DateTime} :
    isSpecialHour now = true ↔ Remembrance now.date ∧ now.hour = 10 := by
  simp only [isSpecialHour, Remembrance, Bool.and_eq_true, beq_iff_eq]

theorem isSpecialMinute_eq_true {minute : ℤ} : isSpecialMinute minute = true ↔ minute < 5 := by
  rw [isSpecialMinute, minute_threshold, decide_eq_true_iff]

/-- Music is due outside the quiet minutes, at a timing or behind one that was put off. -/
theorem isTiming_eq_true {now : DateTime} {l : List Timing} : isTiming now l = true ↔
    ¬ (Remembrance now.date ∧ now.hour = 10 ∧ now.minute < 5) ∧
      ∃ t ∈ l, now.hour = t.1 ∧ (now.minute = t.2 ∨
        (Remembrance now.date ∧ now.hour = 10 ∧ t.2 < 5 ∧ now.minute = 5)) := by
  have hquiet : (isSpecialHour now && isSpecialMinute now.minute) = true ↔
      Remembrance now.date ∧ now.hour = 10 ∧ now.minute < 5 := by
    have hlt : (now.minute : ℤ) < 5 ↔ now.minute < 5 := by omega
    rw [Bool.and_eq_true, isSpecialHour_eq_true, isSpecialMinute_eq_true, and_assoc, hlt]
  have hitem : ∀ t : Timing, (now.hour == t.1 && (now.minute == t.2 ||
      (isSpecialHour now && isSpecialMinute t.2 && now.minute == minute_threshold))) = true ↔
      now.hour = t.1 ∧ (now.minute = t.2 ∨
        (Remembrance now.date ∧ now.hour = 10 ∧ t.2 < 5 ∧ now.minute = 5)) := by
    intro t
    have hfive : (now.minute : ℤ) = 5 ↔ now.minute = 5 := by omega
    rw [Bool.and_eq_true, Bool.or_eq_true, Bool.and_eq_true, Bool.and_eq_true, beq_iff_eq,
      beq_iff_eq, beq_iff_eq, isSpecialHour_eq_true, isSpecialMinute_eq_true, minute_threshold,
      hfive, and_assoc, and_assoc]
  rw [isTiming]
  split
  next h => simp [hquiet.mp h]
  next h =>
    rw [List.any_eq_true]
    simp only [hitem, and_iff_right (hquiet.not.mp h)]

theorem timeOf_mem_quietMinutes {now : DateTime} :
    timeOf now ∈ quietMinutes ↔ now.hour = 10 ∧ now.minute < 5 := by
  simp only [quietMinutes, timeOf, Set.mem_ofPred_eq]
  omega

/-- The sixth minute of the hour is that of the timings put off. -/
theorem timeOf_eq_ten_five {now : DateTime} :
    timeOf now = (10, 5) ↔ now.hour = 10 ∧ now.minute = 5 := by
  rw [timeOf, Prod.mk.injEq]
  omega

theorem isTiming_iff_mem {l : List Timing} (hl : ∀ t ∈ l, t.Valid) (now : DateTime) :
    isTiming now l = true ↔ timeOf now ∈ timingsOf now.date l := by
  rw [isTiming_eq_true]
  constructor
  · rintro ⟨hloud, t, ht, hhour, hminute | ⟨hdate, hten, hlt, hfive⟩⟩
    · -- a timing itself
      have htime : timeOf now = t := Prod.ext hhour hminute
      refine .inl ⟨htime ▸ ht, fun ⟨hdate, hquiet⟩ => hloud ⟨hdate, ?_⟩⟩
      exact timeOf_mem_quietMinutes.mp hquiet
    · -- one that was put off
      refine .inr ⟨hdate, timeOf_eq_ten_five.mpr ⟨hten, hfive⟩, t, ht, ?_, (hl t ht).2.2.1, ?_⟩
      · rw [← hhour, hten]
        rfl
      · exact Int.le_of_lt_add_one hlt
  · rintro (⟨hmem, hloud⟩ | ⟨hdate, htime, t, ht, hten, -, hle⟩)
    · refine ⟨fun ⟨hdate, hquiet⟩ => hloud ⟨hdate, ?_⟩, timeOf now, hmem, rfl, .inl rfl⟩
      exact timeOf_mem_quietMinutes.mpr hquiet
    · obtain ⟨hhour, hminute⟩ := timeOf_eq_ten_five.mp htime
      refine ⟨fun ⟨_, _, hlt⟩ => by omega, t, ht, by rw [hhour, hten]; rfl, .inr ?_⟩
      exact ⟨hdate, hhour, Int.lt_add_one_of_le hle, hminute⟩

/-- Every time of day is that of a reading, on every date. -/
theorem exists_timeOf {t : Timing} (h : t.Valid) (date : Date) :
    ∃ now : DateTime, now.date = date ∧ timeOf now = t := by
  obtain ⟨hhour, hhour', hminute, hminute'⟩ := h
  have htime : t.1.toNat < 24 ∧ t.2.toNat < 60 ∧ 0 < 60 := ⟨by omega, by omega, by decide⟩
  refine ⟨DateTime.of date t.1.toNat t.2.toNat 0 htime, rfl, ?_⟩
  exact Prod.ext (Int.toNat_of_nonneg hhour) (Int.toNat_of_nonneg hminute)

/-- **`isTiming` holds at the configured timings**, less those in the quiet minutes, and at the
minute behind these instead. -/
theorem isTiming_timings (date : Date) {inSettingList : List Timing}
    (hvalid : ∀ t ∈ inSettingList, t.Valid) : TimingsOf date inSettingList := by
  have hiff : ∀ now : DateTime, now.date = date →
      (isTiming now inSettingList = true ↔ timeOf now ∈ timingsOf date inSettingList) := by
    rintro now rfl
    exact isTiming_iff_mem hvalid now
  refine ⟨hiff, ?_, fun now hdate hrem hquiet => ?_, fun t ht => ?_, fun now hdate htiming => ?_⟩
  · apply Set.ext
    intro t
    constructor
    · rintro ⟨now, hdate, rfl, htiming⟩
      exact (hiff now hdate).mp htiming
    · intro ht
      have htValid : t.Valid := by
        rcases ht with ⟨hmem, -⟩ | ⟨-, rfl, -⟩
        · exact hvalid t hmem
        · exact ⟨by decide, by decide, by decide, by decide⟩
      obtain ⟨now, hdate, rfl⟩ := exists_timeOf htValid date
      exact ⟨now, hdate, rfl, (hiff now hdate).mpr ht⟩
  · apply Bool.eq_false_iff.mpr
    rw [Ne, hiff now hdate]
    rintro (⟨-, hloud⟩ | ⟨-, htime, -⟩)
    · exact hloud ⟨hrem, hquiet⟩
    · have hlt := (timeOf_mem_quietMinutes.mp hquiet).2
      rw [(timeOf_eq_ten_five.mp htime).2] at hlt
      exact absurd hlt (by decide)
  · by_cases hput : Remembrance date ∧ t ∈ quietMinutes
    · exact .inr ⟨hput.1, hput.2, .inr ⟨hput.1, rfl, t, ht, hput.2⟩⟩
    · exact .inl (.inl ⟨ht, hput⟩)
  · rcases (hiff now hdate).mp htiming with ⟨hmem, -⟩ | ⟨hrem, htime, -⟩
    · exact .inl hmem
    · exact .inr ⟨hrem, htime⟩

/-- 13 December 2024. -/
def december13 : Date := Date.of 2024 12 13 (by decide)

/-- Timings on that day that are kept, put off, and already where these are put off to. -/
theorem isTiming_timings_mixed : TimingsOf december13 [(8, 0), (10, 4), (10, 5), (10, 4)] :=
  isTiming_timings december13 (by decide +kernel)

end StudyTips
