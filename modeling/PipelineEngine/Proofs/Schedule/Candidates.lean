import Mathlib.Tactic.Ring
import PipelineEngine.Proofs.Calendar.Instants
import PipelineEngine.Schedule.Basic

/-!
# The candidates of a schedule

The candidates of a schedule stand in one row, at the start's nanosecond and each at least
a minute after the one before it.  Where the start lies in the calendar the row has no
gaps: it breaks off where the calendar ends or a span of time grows too long.

* `Schedule.secondAt`: the second of a candidate.  `secondAt_lt` says that the row goes up.
* `Schedule.exists_candidate_of_le`: a candidate that there is has all those before it.
* `Schedule.secondAt_lt_of_lt_estimate`, `lt_secondAt_of_estimate_le`: an estimate is off by
  two candidates at most.
-/

namespace PipelineEngine

/-! ## Dates in the row of months -/

namespace Date

/-- The first day of a month is a date when its year is one. -/
theorem ofParts?_first (index : Int) :
    ofParts? (index / 12) ((index % 12).toNat + 1) 1 =
      if firstYear ≤ index / 12 ∧ index / 12 ≤ lastYear then
        some ⟨index / 12, (index % 12).toNat + 1, 1⟩
      else none := by
  have hlength := monthLength_bounds (index / 12) ((index % 12).toNat + 1)
  have hmonth : (index % 12).toNat + 1 ≤ 12 := by omega
  unfold ofParts?
  by_cases hyear : firstYear ≤ index / 12 ∧ index / 12 ≤ lastYear
  · rw [if_pos hyear, if_pos ⟨hyear.1, hyear.2, by omega, hmonth, le_rfl, by omega⟩]
  · rw [if_neg hyear, if_neg fun h => hyear ⟨h.1, h.2.1⟩]

/-- The last day of a month is found when the month after it is in the calendar. -/
theorem endOfMonth?_eq (index : Int) :
    endOfMonth? (index / 12) ((index % 12).toNat + 1) =
      if firstYear ≤ (index + 1) / 12 ∧ (index + 1) / 12 ≤ lastYear then
        some ⟨index / 12, (index % 12).toNat + 1, lengthAt index⟩
      else none := by
  have hfirst := ofParts?_first (index + 1)
  have hfollowing : (if (index % 12).toNat + 1 = 12 then ofParts? (index / 12 + 1) 1 1
      else ofParts? (index / 12) ((index % 12).toNat + 1 + 1) 1) =
        ofParts? ((index + 1) / 12) (((index + 1) % 12).toNat + 1) 1 := by
    split
    · have hyear : (index + 1) / 12 = index / 12 + 1 := by omega
      have hmonth : ((index + 1) % 12).toNat = 0 := by omega
      rw [hyear, hmonth]
    · have hyear : (index + 1) / 12 = index / 12 := by omega
      have hmonth : ((index + 1) % 12).toNat = (index % 12).toNat + 1 := by omega
      rw [hyear, hmonth]
  unfold endOfMonth?
  simp only [hfollowing, hfirst]
  split <;> rfl

end Date

namespace Schedule

variable {s : Schedule} {k k' units units' : Nat} {c c' t : Instant}

/-! ## Calendar units -/

/-- The month, by its place in the row of months, in which a candidate lies a number of
units after the start. -/
def monthAt (s : Schedule) (units : Nat) : Int :=
  match s.unit with
  | .yearStart => 12 * (s.start.date.year + units)
  | .yearEnd => 12 * (s.start.date.year + units) + 11
  | _ => s.start.date.monthIndex + units

/-- The number of the day of that candidate. -/
def dayAt (s : Schedule) (units : Nat) : Int :=
  match s.unit with
  | .monthEnd | .yearEnd => Date.monthFirst (s.monthAt units + 1) - 1
  | _ => Date.monthFirst (s.monthAt units)

/-- The month that has to be in the calendar for that candidate. -/
def neededMonth (s : Schedule) (units : Nat) : Int :=
  match s.unit with
  | .monthEnd => s.monthAt units + 1
  | _ => s.monthAt units

theorem dayAt_bounds (s : Schedule) (units : Nat) :
    Date.monthFirst (s.monthAt units) ≤ s.dayAt units ∧
      s.dayAt units < Date.monthFirst (s.monthAt units + 1) := by
  have hnext := Date.monthFirst_succ (s.monthAt units)
  have hlength := Date.lengthAt_bounds (s.monthAt units)
  unfold dayAt
  split <;> omega

theorem monthAt_lt (h : units < units') : s.monthAt units < s.monthAt units' := by
  unfold monthAt
  split <;> omega

/-- The candidate that lies a number of units after the start, when its month and the one
that ends it are in the calendar. -/
theorem calendarCandidate?_eq (hunit : s.unit.fixedSeconds? = none) (units : Nat) :
    s.calendarCandidate? units =
      if Date.firstYear ≤ s.neededMonth units / 12 ∧ s.neededMonth units / 12 ≤ Date.lastYear then
        some ⟨s.dayAt units * Instant.secondsPerDay + s.start.secondOfDay, s.start.nanos⟩
      else none := by
  unfold calendarCandidate? neededMonth dayAt monthAt
  cases hu : s.unit with
  | monthStart =>
    simp only [Date.ofParts?_first]
    split <;> rfl
  | monthEnd =>
    simp only [Date.endOfMonth?_eq]
    have hlast : ∀ index : Int, Date.dayNumber ⟨index / 12, (index % 12).toNat + 1,
        Date.lengthAt index⟩ = Date.monthFirst (index + 1) - 1 := by
      intro index
      rw [Date.monthFirst_succ]
      unfold Date.monthFirst Date.dayNumber
      simp only
      omega
    split
    · simp only [Option.map_some, Instant.sameTimeOn, Instant.onDate, hlast]
    · rfl
  | yearStart =>
    have hfirst := Date.ofParts?_first (12 * (s.start.date.year + units))
    have hyear : 12 * (s.start.date.year + units) / 12 = s.start.date.year + units := by omega
    have hmonth : (12 * (s.start.date.year + units) % 12).toNat = 0 := by omega
    rw [hyear, hmonth] at hfirst
    simp only [hyear]
    rw [hfirst]
    split
    · simp only [Option.map_some, Instant.sameTimeOn, Instant.onDate, Date.monthFirst, hyear,
        hmonth]
    · rfl
  | yearEnd =>
    have hyear : (12 * (s.start.date.year + units) + 11) / 12 = s.start.date.year + units := by
      omega
    have hmonth : ((12 * (s.start.date.year + units) + 11) % 12).toNat + 1 = 12 := by omega
    have hlast : Date.dayNumber ⟨s.start.date.year + units, 12, 31⟩ =
        Date.monthFirst (12 * (s.start.date.year + units) + 11 + 1) - 1 := by
      rw [Date.monthFirst_succ, Date.lengthAt, Date.monthFirst, hyear, hmonth]
      unfold Date.dayNumber Date.monthLength
      simp only
      omega
    simp only [hyear]
    unfold Date.ofParts?
    by_cases hrange : Date.firstYear ≤ s.start.date.year + units ∧
        s.start.date.year + units ≤ Date.lastYear
    · have hday : 31 ≤ Date.monthLength (s.start.date.year + units) 12 := le_refl 31
      rw [if_pos hrange, if_pos ⟨hrange.1, hrange.2, by decide, by decide, by decide, hday⟩]
      simp only [Option.map_some, Instant.sameTimeOn, Instant.onDate, hlast]
    · rw [if_neg hrange, if_neg fun h => hrange ⟨h.1, h.2.1⟩]
      rfl
  | _ =>
    rw [hu] at hunit
    cases hunit

/-! ## The row of candidates -/

/-- The second of candidate number `k`, if the row reached so far. -/
def secondAt (s : Schedule) (k : Nat) : Int :=
  match s.unit.fixedSeconds? with
  | some seconds => s.start.seconds + (seconds * (s.frequency.multiple * k) : Nat)
  | none => s.dayAt (s.frequency.multiple * k) * Instant.secondsPerDay + s.start.secondOfDay

/-- What is known of the schedules of jobs: they count in whole units from a start in the
calendar. -/
structure WellFormed (s : Schedule) : Prop where
  multiple_pos : 0 < s.frequency.multiple
  inCalendar : s.start.inCalendar = true

/-- A unit of fixed length has a minute at least. -/
theorem le_of_fixedSeconds? {unit : IntervalUnit} {seconds : Nat}
    (h : unit.fixedSeconds? = some seconds) : 60 ≤ seconds := by
  cases unit <;> cases h <;> decide

theorem candidate_of_fixed {seconds : Nat} (hunit : s.unit.fixedSeconds? = some seconds) :
    s.candidate k = .ok (some c) ↔
      c = s.start.after (seconds * (s.frequency.multiple * k)) ∧
        seconds * (s.frequency.multiple * k) ≤ maxSpan ∧ c.inCalendar = true := by
  have hbound : maxSpan < Word.bound 63 := by decide
  unfold candidate
  simp only [hunit]
  generalize seconds * (s.frequency.multiple * k) = span
  split
  · simp only [Except.ok.injEq, reduceCtorEq, false_iff]
    omega
  · split
    · simp only [reduceCtorEq, false_iff]
      omega
    · simp only [Except.ok.injEq, Option.filter_eq_some_iff, Option.some.injEq]
      constructor
      · rintro ⟨rfl, hcalendar⟩
        exact ⟨rfl, by omega, hcalendar⟩
      · rintro ⟨rfl, -, hcalendar⟩
        exact ⟨rfl, hcalendar⟩

theorem candidate_of_calendar (hunit : s.unit.fixedSeconds? = none) :
    s.candidate k = .ok (some c) ↔
      c = ⟨s.secondAt k, s.start.nanos⟩ ∧
        Date.firstYear ≤ s.neededMonth (s.frequency.multiple * k) / 12 ∧
          s.neededMonth (s.frequency.multiple * k) / 12 ≤ Date.lastYear := by
  unfold candidate secondAt
  simp only [hunit, calendarCandidate?_eq hunit, Except.ok.injEq]
  split
  · rename_i hrange
    rw [Option.some.injEq]
    exact ⟨fun h => ⟨h.symm, hrange⟩, fun h => h.1.symm⟩
  · rename_i hrange
    simp only [reduceCtorEq, false_iff]
    exact fun h => hrange h.2

/-- A candidate lies in its second. -/
theorem seconds_of_candidate (h : s.candidate k = .ok (some c)) : c.seconds = s.secondAt k := by
  cases hunit : s.unit.fixedSeconds? with
  | some seconds =>
    rw [((candidate_of_fixed hunit).1 h).1, Instant.seconds_after, secondAt, hunit]
  | none => rw [((candidate_of_calendar hunit).1 h).1]

/-- A candidate lies at its second, at the start's nanosecond. -/
theorem candidate_eq (hleap : s.start.inLeapSecond = false) (h : s.candidate k = .ok (some c)) :
    c = ⟨s.secondAt k, s.start.nanos⟩ := by
  have hsecond := seconds_of_candidate h
  cases hunit : s.unit.fixedSeconds? with
  | some seconds =>
    obtain ⟨rfl, -, -⟩ := (candidate_of_fixed hunit).1 h
    rw [← hsecond]
    simp [Instant.after, hleap]
  | none => exact ((candidate_of_calendar hunit).1 h).1

/-- Each candidate lies a minute at least after the one before it. -/
theorem secondAt_lt (hs : s.WellFormed) (h : k < k') : s.secondAt k + 60 ≤ s.secondAt k' := by
  have hunits : s.frequency.multiple * k < s.frequency.multiple * k' :=
    Nat.mul_lt_mul_of_pos_left h hs.multiple_pos
  unfold secondAt
  cases hunit : s.unit.fixedSeconds? with
  | some seconds =>
    have hminute := le_of_fixedSeconds? hunit
    have hstep : seconds * (s.frequency.multiple * k) + seconds * 1 ≤
        seconds * (s.frequency.multiple * k') := by
      rw [← Nat.mul_add]
      exact Nat.mul_le_mul_left seconds hunits
    simp only
    omega
  | none =>
    -- Two calendar candidates lie in different months, the later one in the later month.
    have hmonth := monthAt_lt (s := s) hunits
    have hday := dayAt_bounds s (s.frequency.multiple * k)
    have hday' := dayAt_bounds s (s.frequency.multiple * k')
    have hmono := Date.monthFirst_mono (Int.add_one_le_of_lt hmonth)
    unfold Instant.secondsPerDay
    simp only
    omega

/-- Candidates go up along the row. -/
theorem candidate_lt (hs : s.WellFormed) (h : s.candidate k = .ok (some c))
    (h' : s.candidate k' = .ok (some c')) (hk : k < k') : c < c' := by
  have hsecond := secondAt_lt hs hk
  rw [← seconds_of_candidate h, ← seconds_of_candidate h'] at hsecond
  exact Instant.lt_iff.2 (Or.inl (by omega))

theorem candidate_le (hs : s.WellFormed) (h : s.candidate k = .ok (some c))
    (h' : s.candidate k' = .ok (some c')) (hk : k ≤ k') : c ≤ c' := by
  rcases Nat.eq_or_lt_of_le hk with rfl | hlt
  · obtain rfl : c = c' := Option.some.inj (Except.ok.inj (h.symm.trans h'))
    exact le_rfl
  · exact (candidate_lt hs h h' hlt).le

/-- The row has no gaps: a candidate that there is has all those before it. -/
theorem exists_candidate_of_le (hs : s.WellFormed) (h : s.candidate k' = .ok (some c'))
    (hk : k ≤ k') : ∃ c, s.candidate k = .ok (some c) := by
  have hunits : s.frequency.multiple * k ≤ s.frequency.multiple * k' :=
    Nat.mul_le_mul_left _ hk
  cases hunit : s.unit.fixedSeconds? with
  | some seconds =>
    obtain ⟨rfl, hspan, hcalendar⟩ := (candidate_of_fixed hunit).1 h
    have hless := Nat.mul_le_mul_left seconds hunits
    refine ⟨_, (candidate_of_fixed hunit).2 ⟨rfl, hless.trans hspan, ?_⟩⟩
    have hstart := hs.inCalendar
    simp only [Instant.inCalendar, Instant.seconds_after, Bool.and_eq_true,
      decide_eq_true_eq] at hcalendar hstart ⊢
    omega
  | none =>
    obtain ⟨rfl, hlow, hhigh⟩ := (candidate_of_calendar hunit).1 h
    refine ⟨_, (candidate_of_calendar hunit).2 ⟨rfl, ?_⟩⟩
    have hfirst := (Instant.monthIndex_bounds hs.inCalendar).1
    have hyear := Instant.year_date s.start
    unfold neededMonth monthAt at *
    cases hu : s.unit <;> simp only [hu] at hlow hhigh ⊢ <;> omega

/-! ## Estimates -/

/-- A candidate whose month comes before that of a point comes before the point. -/
theorem secondAt_lt_of_monthAt (hunit : s.unit.fixedSeconds? = none)
    (h : s.monthAt (s.frequency.multiple * k) < t.date.monthIndex) : s.secondAt k < t.seconds := by
  obtain ⟨hlow, hhigh⟩ := Instant.month_bounds t
  have hday := dayAt_bounds s (s.frequency.multiple * k)
  have hmono := Date.monthFirst_mono (Int.add_one_le_of_lt h)
  have hsecond := Instant.secondOfDay_lt s.start
  unfold secondAt
  unfold Instant.secondsPerDay at *
  simp only [hunit]
  omega

/-- A candidate whose month comes after that of a point comes after the point. -/
theorem lt_secondAt_of_monthAt (hunit : s.unit.fixedSeconds? = none)
    (h : t.date.monthIndex < s.monthAt (s.frequency.multiple * k)) : t.seconds < s.secondAt k := by
  obtain ⟨hlow, hhigh⟩ := Instant.month_bounds t
  have hday := dayAt_bounds s (s.frequency.multiple * k)
  have hmono := Date.monthFirst_mono (Int.add_one_le_of_lt h)
  unfold secondAt
  unfold Instant.secondsPerDay at *
  simp only [hunit]
  omega

/-- The units that an estimate counts from the start to a point, for units that follow the
calendar: a candidate so many units after the start, or more, lies past the point's month,
and one that is two units short of it lies before. -/
theorem monthAt_of_unitsBetween (hunit : s.unit.fixedSeconds? = none) {between : Int}
    (hbetween : between = if s.unit.countsYears then t.date.year - s.start.date.year
      else t.date.monthIndex - s.start.date.monthIndex) :
    ((units : Int) + 1 ≤ between → s.monthAt units < t.date.monthIndex) ∧
      (between < units → t.date.monthIndex < s.monthAt units) := by
  have hyear := Instant.year_date t
  unfold monthAt
  cases hu : s.unit with
  | monthStart | monthEnd | yearStart | yearEnd =>
    simp only [hu, IntervalUnit.countsYears, if_true, Bool.false_eq_true, if_false] at hbetween ⊢
    omega
  | _ =>
    rw [hu] at hunit
    cases hunit

/-- The candidates before the estimate for a point lie before the point. -/
theorem secondAt_lt_of_lt_estimate (hs : s.WellFormed) (hstart : s.start.OnClock) (ht : t.OnClock)
    (h : k < s.estimate t) : s.secondAt k < t.seconds := by
  have hmultiple := hs.multiple_pos
  unfold estimate at h
  split at h
  · cases h
  · cases hunit : s.unit.fixedSeconds? with
    | some seconds =>
      have hminute := le_of_fixedSeconds? hunit
      have hdistance := Instant.secondsSince_bounds ht hstart
      simp only [hunit] at h
      have hspan : (k + 1) * (seconds * s.frequency.multiple) ≤ (t.secondsSince s.start).toNat :=
        (Nat.le_div_iff_mul_le (Nat.mul_pos (by omega) hmultiple)).1 h
      have hstep : (k + 1) * (seconds * s.frequency.multiple) =
          seconds * (s.frequency.multiple * k) + seconds * s.frequency.multiple := by ring
      have hunitLe : seconds ≤ seconds * s.frequency.multiple := Nat.le_mul_of_pos_right _ hmultiple
      unfold secondAt
      simp only [hunit]
      omega
    | none =>
      simp only [hunit] at h
      apply secondAt_lt_of_monthAt hunit
      refine (monthAt_of_unitsBetween hunit rfl).1 ?_
      generalize (if s.unit.countsYears = true then t.date.year - s.start.date.year
        else t.date.monthIndex - s.start.date.monthIndex) = between at h ⊢
      have hunits : (k + 2) * s.frequency.multiple ≤ between.toNat :=
        (Nat.le_div_iff_mul_le hmultiple).1 (by omega)
      have hstep : (k + 2) * s.frequency.multiple =
          s.frequency.multiple * k + 2 * s.frequency.multiple := by ring
      omega

/-- The candidates from the second one after the estimate for a point on lie after the
point. -/
theorem lt_secondAt_of_estimate_le (hs : s.WellFormed) (hstart : s.start.OnClock) (ht : t.OnClock)
    (h : s.estimate t + 2 ≤ k) : t.seconds < s.secondAt k := by
  have hmultiple := hs.multiple_pos
  unfold estimate at h
  cases hunit : s.unit.fixedSeconds? with
  | some seconds =>
    have hminute := le_of_fixedSeconds? hunit
    have hunitLe : seconds ≤ seconds * s.frequency.multiple := Nat.le_mul_of_pos_right _ hmultiple
    have hstep : seconds * (s.frequency.multiple * k) = k * (seconds * s.frequency.multiple) := by
      ring
    unfold secondAt
    simp only [hunit] at h ⊢
    split at h
    · rename_i hbefore
      have hspan : 2 * (seconds * s.frequency.multiple) ≤ k * (seconds * s.frequency.multiple) :=
        Nat.mul_le_mul_right _ h
      rw [Instant.le_iff] at hbefore
      omega
    · have hdistance := Instant.secondsSince_bounds ht hstart
      have hspan : (t.secondsSince s.start).toNat <
          (k - 1) * (seconds * s.frequency.multiple) :=
        (Nat.div_lt_iff_lt_mul (Nat.mul_pos (by omega) hmultiple)).1 (Nat.lt_sub_of_add_lt h)
      have hlast : k * (seconds * s.frequency.multiple) =
          (k - 1) * (seconds * s.frequency.multiple) + seconds * s.frequency.multiple := by
        have hpos : 1 ≤ k := Nat.lt_of_lt_of_le (Nat.succ_pos _) h
        obtain ⟨n, rfl⟩ := Nat.exists_eq_add_of_le hpos
        rw [Nat.add_sub_cancel_left]
        ring
      omega
  | none =>
    simp only [hunit] at h
    split at h
    · rename_i hbefore
      have hafter : s.start.seconds < s.secondAt k := by
        apply lt_secondAt_of_monthAt hunit
        refine (monthAt_of_unitsBetween (t := s.start) hunit rfl).2 ?_
        have hunits : 0 < s.frequency.multiple * k := Nat.mul_pos hmultiple (by omega)
        split <;> omega
      rw [Instant.le_iff] at hbefore
      omega
    · apply lt_secondAt_of_monthAt hunit
      refine (monthAt_of_unitsBetween hunit rfl).2 ?_
      generalize (if s.unit.countsYears = true then t.date.year - s.start.date.year
        else t.date.monthIndex - s.start.date.monthIndex) = between at h ⊢
      have hunits : between.toNat < k * s.frequency.multiple :=
        (Nat.div_lt_iff_lt_mul hmultiple).1 (by omega)
      rw [Nat.mul_comm] at hunits
      omega

end Schedule

end PipelineEngine
