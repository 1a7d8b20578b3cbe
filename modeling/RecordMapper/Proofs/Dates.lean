import RecordMapper.Time.Calendar

/-!
# Days and dates

Every day has one date, which exists, and the date has the number of the day.

1. `Calendar.yearOf` and `Calendar.yearStart`: an era is cut into years that start in March.
2. `Calendar.dateOf`: such a year is cut into months.
3. `Calendar.isDate_civilDate`, `Calendar.dayNumber_civilDate`: the date of a day exists and has its
   number.
4. `Calendar.year_civilDate`: the supported days have the supported years.
-/

namespace RecordMapper

namespace Calendar

variable {d y n : Int}

/-! ## Years of an era -/

/-- The year of an era in which a day of it lies, both counted from zero. -/
def yearOf (d : Int) : Int := (d - d / 1460 + d / 36524 - d / 146096) / 365

/-- The first day of a year of an era. -/
def yearStart (y : Int) : Int := 365 * y + y / 4 - y / 100

/-- A year lies in the century of its days; only the last day of an era would start a fifth one. -/
theorem yearOf_eq (h : 0 ≤ d) (h' : d < 146097) (hy : yearOf d = y) :
    (d < 146096 ∧ y / 100 = d / 36524 ∧ y = (d - d / 1460 + d / 36524) / 365) ∨
      (d = 146096 ∧ y = 399) := by
  subst hy
  unfold yearOf
  by_cases hl : d = 146096
  · exact .inr ⟨hl, by rw [hl]; rfl⟩
  · have h0 : d / 146096 = 0 := by omega
    have hc : d / 36524 = 0 ∨ d / 36524 = 1 ∨ d / 36524 = 2 ∨ d / 36524 = 3 := by omega
    rw [h0, Int.sub_zero]
    refine .inl ⟨by omega, ?_, rfl⟩
    rcases hc with hc | hc | hc | hc <;> rw [hc] <;> omega

theorem yearOf_bounds (h : 0 ≤ d) (h' : d < 146097) (hy : yearOf d = y) :
    0 ≤ y ∧ y ≤ 399 ∧ yearStart y ≤ d ∧ d ≤ yearStart y + 365 := by
  unfold yearStart
  obtain ⟨hd, hc, hy⟩ | ⟨rfl, rfl⟩ := yearOf_eq h h' hy <;> omega

theorem leap_yearOf (h : 0 ≤ d) (h' : d < 146097) (hy : yearOf d = y) (hd : d = yearStart y + 365) :
    (y + 1) % 4 = 0 ∧ ((y + 1) % 100 ≠ 0 ∨ (y + 1) % 400 = 0) := by
  unfold yearStart at hd
  obtain ⟨-, hc, hy⟩ | ⟨-, rfl⟩ := yearOf_eq h h' hy
  · have h4 : (y + 1) % 4 = 0 := by
      by_cases h4 : (y + 1) % 4 = 0
      · exact h4
      · have hq : y / 4 ≤ 99 := by omega
        have hb : 0 ≤ y / 4 - y / 100 := by omega
        generalize hr : y / 4 = q at *
        have hle : y ≤ 4 * q + 2 := by omega
        have : d < 1460 * q + 1460 := by omega
        omega
    omega
  · omega

/-! ## Months of a year -/

/-- The date of a day of a year that starts in March. -/
def dateOf (y n : Int) : CivilDate :=
  let m := (5 * n + 2) / 153
  let month := if m < 10 then m + 3 else m - 9
  ⟨y + (if month ≤ 2 then 1 else 0), month.toNat, (n - (153 * m + 2) / 5 + 1).toNat⟩

theorem dayNumber_dateOf (h : 0 ≤ n) (h' : n ≤ 365) :
    dayNumber (dateOf y n) = y / 400 * 146097 + yearStart (y % 400) + n - 719468 := by
  unfold dayNumber dateOf yearStart
  dsimp only
  have hm : (5 * n + 2) / 153 ≤ 11 := by omega
  by_cases hlow : (5 * n + 2) / 153 < 10
  · simp only [if_pos hlow]
    omega
  · simp only [if_neg hlow]
    omega

theorem isDate_dateOf (h : 0 ≤ n) (h' : n ≤ 365) (hleap : n = 365 → isLeapYear (y + 1) = true) :
    isDate (dateOf y n) = true := by
  unfold isDate dateOf
  dsimp only
  have hm : (5 * n + 2) / 153 = 0 ∨ (5 * n + 2) / 153 = 1 ∨ (5 * n + 2) / 153 = 2 ∨
      (5 * n + 2) / 153 = 3 ∨ (5 * n + 2) / 153 = 4 ∨ (5 * n + 2) / 153 = 5 ∨
      (5 * n + 2) / 153 = 6 ∨
      (5 * n + 2) / 153 = 7 ∨ (5 * n + 2) / 153 = 8 ∨ (5 * n + 2) / 153 = 9 ∨
      (5 * n + 2) / 153 = 10 ∨ (5 * n + 2) / 153 = 11 := by
    omega
  simp only [Bool.and_eq_true, decide_eq_true_eq]
  rcases hm with hm | hm | hm | hm | hm | hm | hm | hm | hm | hm | hm | hm <;> rw [hm]
  all_goals
    simp only [daysInMonth, ↓reduceIte, Int.reduceLT, Int.reduceAdd, Int.reduceSub, Int.reduceMul,
      Int.reduceDiv, Int.reduceToNat, Int.toNat_one, Nat.reduceLeDiff, Std.le_refl,
      and_self, true_and, Int.lt_irrefl, Int.toNat_le]
  -- February, the last month of the year, is the only one whose length depends on the year
  case inr.inr.inr.inr.inr.inr.inr.inr.inr.inr.inr =>
    by_cases hl : n = 365
    · rw [hleap hl, if_pos rfl]
      omega
    · split <;> omega
  all_goals omega

/-! ## Dates of days -/

theorem civilDate_eq (n : Int) : civilDate n =
    dateOf (yearOf ((n + 719468) % 146097) + (n + 719468) / 146097 * 400)
      ((n + 719468) % 146097 - yearStart (yearOf ((n + 719468) % 146097))) := rfl

/-- The date of a day has the number of the day. -/
theorem dayNumber_civilDate (n : Int) : dayNumber (civilDate n) = n := by
  have hd : (n + 719468) % 146097 < 146097 := by omega
  obtain ⟨hlow, hhigh, hstart, hend⟩ := yearOf_bounds (by omega) hd rfl
  rw [civilDate_eq, dayNumber_dateOf (by omega) (by omega)]
  generalize yearOf ((n + 719468) % 146097) = y at *
  have hyear : (y + (n + 719468) / 146097 * 400) % 400 = y := by omega
  rw [hyear]
  omega

/-- The date of a day exists. -/
theorem isDate_civilDate (n : Int) : isDate (civilDate n) = true := by
  have hd : (n + 719468) % 146097 < 146097 := by omega
  obtain ⟨hlow, hhigh, hstart, hend⟩ := yearOf_bounds (by omega) hd rfl
  rw [civilDate_eq]
  refine isDate_dateOf (by omega) (by omega) fun hlast => ?_
  have hleap := leap_yearOf (by omega) hd rfl (by omega)
  generalize yearOf ((n + 719468) % 146097) = y at *
  simp only [isLeapYear, Bool.and_eq_true, Bool.or_eq_true, beq_iff_eq, bne_iff_ne]
  omega

/-- The supported days have the supported years. -/
theorem year_civilDate (h : firstDay ≤ n) (h' : n ≤ lastDay) :
    minYear ≤ (civilDate n).year ∧ (civilDate n).year ≤ maxYear := by
  have hd : (n + 719468) % 146097 < 146097 := by omega
  obtain ⟨hlow, hhigh, hstart, hend⟩ := yearOf_bounds (by omega) hd rfl
  have hfirst : firstDay = -96465292 := by decide
  have hlast : lastDay = 95026236 := by decide
  rw [hfirst] at h
  rw [hlast] at h'
  rw [civilDate_eq]
  generalize hy : yearOf ((n + 719468) % 146097) = y at *
  unfold dateOf minYear maxYear yearStart at *
  dsimp only
  -- only the first and the last era reach beyond the supported years
  have hera : -656 ≤ (n + 719468) / 146097 ∧ (n + 719468) / 146097 ≤ 655 := by omega
  by_cases hleast : (n + 719468) / 146097 = -656
  · rw [hleast]
    have : 256 ≤ y := by omega
    split <;> split <;> omega
  · by_cases hgreatest : (n + 719468) / 146097 = 655
    · rw [hgreatest]
      have : y ≤ 142 := by omega
      split <;> split <;> omega
    · split <;> split <;> omega

example : civilDate 0 = ⟨1970, 1, 1⟩ := by decide

end Calendar

end RecordMapper
