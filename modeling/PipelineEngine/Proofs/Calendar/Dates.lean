import PipelineEngine.Calendar.Date
import Mathlib.Tactic.IntervalCases

/-!
# Days and months

The months of the calendar stand in one row, and each has the days from its first one up
to the first one of the next.  All that a lookup needs to know of the calendar is how far
these first days lie apart.

* `Date.monthFirst`: the number of the first day of a month.  `monthFirst_succ`,
  `monthFirst_add_twelve` and `monthFirst_add_cycle` give the distances over one month,
  one year and the whole cycle of four hundred years.
* `Date.monthIndex_ofDayNumber_iff`: the month of a day is the one between whose first day
  and whose end it lies.
-/

namespace PipelineEngine.Date

/-! ## Years -/

theorem daysBeforeYear_add_cycle (year : Int) :
    daysBeforeYear (year + 400) = daysBeforeYear year + 146097 := by
  unfold daysBeforeYear
  omega

theorem isLeap_add_cycle (year : Int) : isLeap (year + 400) = isLeap year := by
  have h4 : (year + 400) % 4 = year % 4 := by omega
  have h100 : (year + 400) % 100 = year % 100 := by omega
  have h400 : (year + 400) % 400 = year % 400 := by omega
  rw [isLeap, isLeap, h4, h100, h400]

/-- The year that is found for a day is the one in which it lies. -/
theorem yearOf_spec (n : Int) :
    daysBeforeYear (yearOf n) ≤ n ∧ n < daysBeforeYear (yearOf n + 1) := by
  have hlow : daysBeforeYear (n * 400 / 146097 - 1) ≤ n := by
    unfold daysBeforeYear
    omega
  have hhigh : n < daysBeforeYear (n * 400 / 146097 + 1 + 1) := by
    unfold daysBeforeYear
    omega
  unfold yearOf
  simp only
  split
  · rename_i hbefore
    rw [Int.sub_add_cancel]
    exact ⟨hlow, hbefore⟩
  · split
    · rename_i hafter
      exact ⟨hafter, hhigh⟩
    · rename_i hbefore hafter
      exact ⟨not_lt.1 hbefore, not_le.1 hafter⟩

/-! ## Months of a year -/

theorem monthLength_bounds (year : Int) (month : Nat) :
    28 ≤ monthLength year month ∧ monthLength year month ≤ 31 := by
  unfold monthLength
  split
  · split <;> simp
  all_goals simp

theorem daysBeforeMonth_succ (year : Int) {month : Nat} (h : 1 ≤ month) :
    daysBeforeMonth year (month + 1) = daysBeforeMonth year month + monthLength year month := by
  cases month with
  | zero => cases h
  | succ m => rfl

/-- Months from March on come a day later in a leap year. -/
theorem daysBeforeMonth_eq (year : Int) {month : Nat} (hlow : 1 ≤ month) (hhigh : month ≤ 13) :
    daysBeforeMonth year month =
      daysBeforeMonth 1 month + if isLeap year ∧ 2 < month then 1 else 0 := by
  have hone : isLeap 1 = false := by decide
  cases hleap : isLeap year <;> interval_cases month <;>
    simp [daysBeforeMonth, monthLength, hleap, hone]

/-- A year ends where a thirteenth month would start. -/
theorem daysBeforeYear_succ (year : Int) :
    daysBeforeYear (year + 1) = daysBeforeYear year + daysBeforeMonth year 13 := by
  have hcommon : daysBeforeMonth 1 13 = 365 := by decide
  rw [daysBeforeMonth_eq year (by decide) le_rfl, hcommon]
  unfold daysBeforeYear isLeap
  split
  · rename_i hleap
    simp only [Bool.and_eq_true, Bool.or_eq_true, decide_eq_true_eq] at hleap
    omega
  · rename_i hleap
    simp only [Bool.and_eq_true, Bool.or_eq_true, decide_eq_true_eq] at hleap
    omega

/-- The month that is looked for is the one in which the day lies. -/
theorem monthFrom_spec {year : Int} {fuel month n : Nat} (hmonth : 1 ≤ month)
    (h : daysBeforeMonth year month + n < daysBeforeMonth year (month + fuel + 1)) {m d : Nat}
    (hfound : monthFrom year fuel month n = (m, d)) :
    month ≤ m ∧ m ≤ month + fuel ∧ 1 ≤ d ∧ d ≤ monthLength year m ∧
      daysBeforeMonth year m + d = daysBeforeMonth year month + n + 1 := by
  have hnext := daysBeforeMonth_succ year hmonth
  induction fuel generalizing month n with
  | zero =>
    rw [Nat.add_zero] at h
    cases hfound
    omega
  | succ fuel ih =>
    rw [monthFrom] at hfound
    split at hfound
    · cases hfound
      omega
    · have hsum : month + 1 + fuel + 1 = month + (fuel + 1) + 1 := by omega
      have hrest := ih (by omega) (by rw [hsum]; omega) hfound
        (daysBeforeMonth_succ year (by omega))
      omega

/-! ## Dates -/

/-- The months and days that there are. -/
structure IsValid (d : Date) : Prop where
  month_pos : 1 ≤ d.month
  month_le : d.month ≤ 12
  day_pos : 1 ≤ d.day
  day_le : d.day ≤ monthLength d.year d.month

theorem isValid_of_ofParts? {year : Int} {month day : Nat} {d : Date}
    (h : ofParts? year month day = some d) : d = ⟨year, month, day⟩ ∧ d.IsValid ∧
      firstYear ≤ d.year ∧ d.year ≤ lastYear := by
  unfold ofParts? at h
  split at h
  · rename_i hparts
    cases h
    exact ⟨rfl, ⟨hparts.2.2.1, hparts.2.2.2.1, hparts.2.2.2.2.1, hparts.2.2.2.2.2⟩,
      hparts.1, hparts.2.1⟩
  · cases h

theorem IsValid.ofParts? {d : Date} (h : d.IsValid) (hfirst : firstYear ≤ d.year)
    (hlast : d.year ≤ lastYear) : Date.ofParts? d.year d.month d.day = some d :=
  if_pos ⟨hfirst, hlast, h.month_pos, h.month_le, h.day_pos, h.day_le⟩

/-- Every number is that of a day of the calendar. -/
theorem ofDayNumber_spec (n : Int) : (ofDayNumber n).IsValid ∧ (ofDayNumber n).dayNumber = n := by
  obtain ⟨hlow, hhigh⟩ := yearOf_spec (n + epoch)
  rw [daysBeforeYear_succ] at hhigh
  obtain ⟨m, d, hfound⟩ : ∃ m d, monthFrom (yearOf (n + epoch)) 11 1
      (n + epoch - daysBeforeYear (yearOf (n + epoch))).toNat = (m, d) := ⟨_, _, rfl⟩
  have hdate : ofDayNumber n = ⟨yearOf (n + epoch), m, d⟩ := by
    unfold ofDayNumber
    simp only [hfound]
  have hbefore : daysBeforeMonth (yearOf (n + epoch)) 1 = 0 := rfl
  have hwithin : daysBeforeMonth (yearOf (n + epoch)) 1 +
      (n + epoch - daysBeforeYear (yearOf (n + epoch))).toNat <
        daysBeforeMonth (yearOf (n + epoch)) 13 := by omega
  obtain ⟨hmonth, hmonthLe, hday, hdayLe, hsum⟩ := monthFrom_spec le_rfl hwithin hfound
  rw [hdate]
  refine ⟨⟨hmonth, hmonthLe, hday, hdayLe⟩, ?_⟩
  unfold dayNumber
  simp only
  omega

/-! ## The row of months -/

/-- The length of a month, by its place in the row. -/
def lengthAt (index : Int) : Nat := monthLength (index / 12) ((index % 12).toNat + 1)

/-- The number of the first day of a month, by its place in the row. -/
def monthFirst (index : Int) : Int := dayNumber ⟨index / 12, (index % 12).toNat + 1, 1⟩

theorem lengthAt_bounds (index : Int) : 28 ≤ lengthAt index ∧ lengthAt index ≤ 31 :=
  monthLength_bounds _ _

theorem monthFirst_eq (index : Int) :
    monthFirst index = daysBeforeYear (index / 12) +
      daysBeforeMonth (index / 12) ((index % 12).toNat + 1) - epoch := by
  unfold monthFirst dayNumber
  simp only
  omega

/-- A month starts on the day after the last one of the month before. -/
theorem monthFirst_succ (index : Int) :
    monthFirst (index + 1) = monthFirst index + lengthAt index := by
  rw [monthFirst_eq, monthFirst_eq, lengthAt]
  by_cases hlast : index % 12 = 11
  · have hyear : (index + 1) / 12 = index / 12 + 1 := by omega
    have hmonth : (index + 1) % 12 = 0 := by omega
    have hdecember : daysBeforeMonth (index / 12) 13 =
        daysBeforeMonth (index / 12) 12 + monthLength (index / 12) 12 := rfl
    have hfirst : daysBeforeMonth (index / 12 + 1) ((0 : Int).toNat + 1) = 0 := rfl
    have htwelve : (11 : Int).toNat + 1 = 12 := rfl
    rw [hyear, hmonth, hlast, daysBeforeYear_succ, hfirst, htwelve]
    omega
  · have hyear : (index + 1) / 12 = index / 12 := by omega
    have hmonth : ((index + 1) % 12).toNat = (index % 12).toNat + 1 := by omega
    have hnext := daysBeforeMonth_succ (index / 12) (show 1 ≤ (index % 12).toNat + 1 by omega)
    rw [hyear, hmonth, hnext]
    omega

/-- A year is 365 or 366 days long, wherever it starts. -/
theorem monthFirst_add_twelve (index : Int) :
    monthFirst (index + 12) = monthFirst index + 365 ∨
      monthFirst (index + 12) = monthFirst index + 366 := by
  have hyear : (index + 12) / 12 = index / 12 + 1 := by omega
  have hmonth : (index + 12) % 12 = index % 12 := by omega
  have hrange : (index % 12).toNat + 1 ≤ 13 := by omega
  have hcommon : daysBeforeMonth 1 13 = 365 := by decide
  rw [monthFirst_eq, monthFirst_eq, hyear, hmonth, daysBeforeYear_succ,
    daysBeforeMonth_eq (index / 12) (by decide) le_rfl, hcommon,
    daysBeforeMonth_eq (index / 12 + 1) (by omega) hrange,
    daysBeforeMonth_eq (index / 12) (by omega) hrange]
  -- A leap day belongs to the first of the two years up to February, to the second after it.
  have hleap : ¬ (isLeap (index / 12) = true ∧ isLeap (index / 12 + 1) = true) := by
    unfold isLeap
    simp only [Bool.and_eq_true, Bool.or_eq_true, decide_eq_true_eq]
    omega
  by_cases hfirst : isLeap (index / 12) = true <;>
    by_cases hsecond : isLeap (index / 12 + 1) = true <;>
      by_cases hmarch : 2 < (index % 12).toNat + 1 <;>
        simp_all <;> omega

/-- The calendar repeats itself after four hundred years. -/
theorem monthFirst_add_cycle (index : Int) :
    monthFirst (index + 4800) = monthFirst index + 146097 := by
  have hyear : (index + 4800) / 12 = index / 12 + 400 := by omega
  have hmonth : (index + 4800) % 12 = index % 12 := by omega
  have hrange : (index % 12).toNat + 1 ≤ 13 := by omega
  rw [monthFirst_eq, monthFirst_eq, hyear, hmonth, daysBeforeYear_add_cycle,
    daysBeforeMonth_eq _ (by omega) hrange, daysBeforeMonth_eq (index / 12) (by omega) hrange,
    isLeap_add_cycle]
  omega

/-- Later months start later. -/
theorem monthFirst_mono {i j : Int} (h : i ≤ j) : monthFirst i + 28 * (j - i) ≤ monthFirst j := by
  induction j, h using Int.leInduction with
  | base => omega
  | succ j hij ih =>
    have hbounds := lengthAt_bounds j
    rw [monthFirst_succ]
    omega

/-- So many years take no more than 366 days each. -/
theorem monthFirst_le_add (index : Int) (years : Nat) :
    monthFirst (index + 12 * years) ≤ monthFirst index + 366 * years := by
  induction years with
  | zero => simp
  | succ years ih =>
    have hnext := monthFirst_add_twelve (index + 12 * years)
    rw [show index + 12 * ((years + 1 : Nat) : Int) = index + 12 * years + 12 by omega]
    omega

theorem IsValid.year_eq {d : Date} (h : d.IsValid) : d.year = d.monthIndex / 12 := by
  have := h.month_pos
  have := h.month_le
  unfold monthIndex
  omega

theorem IsValid.month_eq {d : Date} (h : d.IsValid) : d.month = (d.monthIndex % 12).toNat + 1 := by
  have := h.month_pos
  have := h.month_le
  unfold monthIndex
  omega

/-- A day comes so many days after the first of its month. -/
theorem dayNumber_eq {d : Date} (h : d.IsValid) :
    d.dayNumber = monthFirst d.monthIndex + d.day - 1 ∧ (d.day : Int) ≤ lengthAt d.monthIndex := by
  rw [monthFirst, lengthAt, ← h.year_eq, ← h.month_eq]
  refine ⟨?_, by exact_mod_cast h.day_le⟩
  unfold dayNumber
  simp only
  omega

variable {n index : Int}

/-- The month of a day is the one between whose first day and whose end it lies. -/
theorem monthIndex_ofDayNumber_iff :
    (ofDayNumber n).monthIndex = index ↔ monthFirst index ≤ n ∧ n < monthFirst (index + 1) := by
  obtain ⟨hvalid, hnumber⟩ := ofDayNumber_spec n
  obtain ⟨heq, hle⟩ := dayNumber_eq hvalid
  have hpos := hvalid.day_pos
  have hnext := monthFirst_succ (ofDayNumber n).monthIndex
  constructor
  · rintro rfl
    omega
  · rintro ⟨hlow, hhigh⟩
    -- Months that do not overlap cannot both hold the day.
    rcases lt_trichotomy (ofDayNumber n).monthIndex index with hlt | heq | hgt
    · have hmono := monthFirst_mono (Int.add_one_le_of_lt hlt)
      omega
    · exact heq
    · have hmono := monthFirst_mono (Int.add_one_le_of_lt hgt)
      omega

/-- The year, month and day of a day number. -/
theorem ofDayNumber_eq (hlow : monthFirst index ≤ n) (hhigh : n < monthFirst (index + 1)) :
    ofDayNumber n = ⟨index / 12, (index % 12).toNat + 1, (n - monthFirst index).toNat + 1⟩ := by
  have hindex := monthIndex_ofDayNumber_iff.2 ⟨hlow, hhigh⟩
  obtain ⟨hvalid, hnumber⟩ := ofDayNumber_spec n
  have heq := (dayNumber_eq hvalid).1
  have hyear := hvalid.year_eq
  have hmonth := hvalid.month_eq
  have hday := hvalid.day_pos
  rw [hindex] at heq hyear hmonth
  rw [hnumber] at heq
  generalize ofDayNumber n = d at *
  obtain ⟨year, month, day⟩ := d
  simp only at heq hyear hmonth hday
  simp only [mk.injEq]
  omega

end PipelineEngine.Date
