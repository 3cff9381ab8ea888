import PipelineEngine.Proofs.Schedule.Bounds
import PipelineEngine.Proofs.Schedule.Enumeration

/-!
# When a schedule is over

A lookup that finds nothing retires the job.  For a schedule that lists places of minutes,
hours, days, weeks or months the number of candidates that a lookup looks at is never the
reason: what is listed comes back before that many candidates are passed.  Two matching
candidates are missed all the same.  The end of the last month of the calendar is computed
from the month after it, and the lookup of the next fire steps over a leap second.

* `Schedule.IsMatch`: the matching candidates, as they are declared.
* `Schedule.candidate_eq_ok_iff`: which of the declared candidates are computed.
* `Schedule.searchFrom_add`: a longer search finds the same.
* `Schedule.retires_iff`: when the two lookups find nothing.
-/

namespace PipelineEngine

/-- The points of the calendar are those of its years. -/
theorem Instant.inCalendar_iff {t : Instant} :
    t.inCalendar = true ↔ Date.firstYear ≤ t.date.year ∧ t.date.year ≤ Date.lastYear := by
  refine ⟨Schedule.year_bounds, fun ⟨hlow, hhigh⟩ => ?_⟩
  have hyear := year_date t
  obtain ⟨hfrom, hto⟩ := month_bounds t
  have hfirst : firstSecond = Date.monthFirst (Date.firstYear * 12) * secondsPerDay := rfl
  have hlast : lastSecond = Date.monthFirst ((Date.lastYear + 1) * 12) * secondsPerDay - 1 := rfl
  have hmono := Date.monthFirst_mono (show Date.firstYear * 12 ≤ t.date.monthIndex by omega)
  have hmono' :=
    Date.monthFirst_mono (show t.date.monthIndex + 1 ≤ (Date.lastYear + 1) * 12 by omega)
  unfold secondsPerDay at *
  simp only [inCalendar, Bool.and_eq_true, decide_eq_true_eq]
  omega

namespace Schedule

variable {s : Schedule} {t f : Instant} {k : Nat} {places : List Int}

/-! ## Matching candidates -/

/-- Candidate number `k` as it is declared, whether or not the calendar reaches so far. -/
def rowAt (s : Schedule) (k : Nat) : Instant :=
  match s.unit.fixedSeconds? with
  | some seconds => s.start.after (seconds * (s.frequency.multiple * k))
  | none => s.pointAt k

/-- A declared candidate of the calendar that lies between start and end and is taken. -/
structure IsMatch (s : Schedule) (f : Instant) : Prop where
  row : ∃ k, f = s.rowAt k
  inCalendar : f.inCalendar = true
  start_le : s.start ≤ f
  le_stop : s.stop.any (· < f) = false
  takes : s.takes f = true

/-- The point is the end of the last month of the calendar. -/
def EndsCalendar (s : Schedule) (f : Instant) : Prop :=
  s.unit = .monthEnd ∧ f.date.year = Date.lastYear ∧ f.date.month = 12

/-- The candidates that are computed are the declared ones in the calendar, but for the end of its
last month. -/
theorem candidate_eq_ok_iff (hs : s.WellFormed) :
    s.candidate k = .ok (some f) ↔
      f = s.rowAt k ∧ f.inCalendar = true ∧ ¬ s.EndsCalendar f := by
  unfold rowAt EndsCalendar
  cases hunit : s.unit.fixedSeconds? with
  | some seconds =>
    have hmonthEnd : s.unit ≠ .monthEnd := by
      intro h
      rw [h] at hunit
      cases hunit
    have hmax : 16800000000000 ≤ maxSpan := by decide
    have hstart := seconds_bounds hs.inCalendar
    simp only [candidate_of_fixed hunit, hmonthEnd, false_and, not_false_eq_true, and_true]
    refine and_congr_right fun hrow => and_iff_right_of_imp fun hcalendar => ?_
    have hend := seconds_bounds hcalendar
    rw [hrow, Instant.seconds_after] at hend
    omega
  | none =>
    simp only [candidate_of_calendar hunit, Instant.inCalendar_iff]
    refine and_congr_right fun hrow => ?_
    have hindex : f.date.monthIndex = s.monthAt (s.frequency.multiple * k) :=
      hrow ▸ monthIndex_pointAt hunit
    have hyear := Instant.year_date f
    have hmonth : f.date.month = (f.date.monthIndex % 12).toNat + 1 :=
      (Date.ofDayNumber_spec _).1.month_eq
    have hstart := (Instant.monthIndex_bounds hs.inCalendar).1
    have hstartYear := Instant.year_date s.start
    simp only [Date.firstYear, Date.lastYear] at hstart ⊢
    unfold neededMonth monthAt at *
    cases hu : s.unit with
    | monthEnd =>
      simp only [hu, true_and] at hindex ⊢
      omega
    | _ =>
      simp only [hu, reduceCtorEq, false_and, not_false_eq_true, and_true] at hindex ⊢
      omega

theorem isOccasion_iff (hs : s.WellFormed) :
    s.IsOccasion f ↔ s.IsMatch f ∧ ¬ s.EndsCalendar f := by
  constructor
  · rintro ⟨⟨k, hcandidate⟩, hstart, hstop, htakes⟩
    obtain ⟨hrow, hcalendar, hends⟩ := (candidate_eq_ok_iff hs).1 hcandidate
    exact ⟨⟨⟨k, hrow⟩, hcalendar, hstart, hstop, htakes⟩, hends⟩
  · rintro ⟨⟨⟨k, hrow⟩, hcalendar, hstart, hstop, htakes⟩, hends⟩
    exact ⟨⟨k, (candidate_eq_ok_iff hs).2 ⟨hrow, hcalendar, hends⟩⟩, hstart, hstop, htakes⟩

/-- Of a schedule that repeats, every occasion is a fire. -/
theorem isFire_iff_of_repeats (hs : s.WellFormed) (hrepeats : s.repeats = true) :
    s.IsFire f ↔ s.IsMatch f ∧ ¬ s.EndsCalendar f := by
  rw [IsFire, isOccasion_iff hs, hrepeats]
  exact and_iff_left nofun

/-! ## The number of candidates -/

/-- Places that are not years come back. -/
theorem recurs_of_countsYears (hs : s.WellFormed) (hyears : s.unit.countsYears = false) :
    s.Recurs := by
  refine recurs_of_not_listsYears hs fun hlists => ?_
  rw [ListsYears, hyears] at hlists
  cases hlists.1

/-- What a walk finds a longer one finds as well. -/
theorem searchFrom_add_of_some {fuel : Nat} (n : Nat) (h : s.searchFrom t fuel k = .ok (some f)) :
    s.searchFrom t (fuel + n) k = .ok (some f) := by
  induction fuel generalizing k with
  | zero => cases h
  | succ fuel ih =>
    rw [searchFrom] at h
    rw [Nat.succ_add, searchFrom]
    split at h
    · cases h
    · cases h
    · split at h
      · cases h
      · rename_i hstop
        rw [if_neg hstop]
        split at h
        · rename_i hfits
          rw [if_pos hfits]
          exact h
        · rename_i hfits
          rw [if_neg hfits]
          split at h
          · cases h
          · rename_i hyears
            rw [if_neg hyears]
            exact ih h

section
variable (hs : s.WellFormed) (hclock : s.start.OnClock) (hplaces : s.frequency = .only places)
  (ht : t.OnClock) (hcalendar : t.inCalendar = true)
include hs hclock hplaces ht hcalendar

/-- However long a walk from an estimate is, it comes to no fault. -/
theorem searchFrom_ne_error (fuel : Nat) (e : SpanOverflow) :
    s.searchFrom t fuel (s.estimate t) ≠ .error e := by
  intro herror
  obtain ⟨i, hlooks, hcandidate⟩ := searchFrom_eq_error_iff.1 herror
  cases e
  obtain ⟨seconds, hunit, hlong, -⟩ := candidate_eq_error_iff.1 hcandidate
  have hmultiple : s.frequency.multiple = 1 := by rw [hplaces]; rfl
  have hlength := fixedSeconds?_le hunit
  have hmax : 2 ^ 44 + 365 * 86400 ≤ maxSpan := by decide
  have hreach : ∀ k, s.InReach 1 k → seconds * k ≤ 2 ^ 44 := by
    intro k hk
    simpa only [InReach, hunit, hmultiple, Nat.one_mul] using hk
  rw [hmultiple, Nat.one_mul] at hlong
  rcases hlooks.eq_or_exists with rfl | ⟨i', c, rfl, hbefore⟩
  · have hestimate := hreach _ (inReach_estimate hs hclock ht hcalendar)
    omega
  · have hnear := hreach _ (inReach_of_candidate hs hbefore)
    rw [Nat.mul_succ] at hlong
    omega

/-- A longer search finds the same. -/
theorem searchFrom_add (hyears : s.unit.countsYears = false) (n : Nat) :
    s.searchFrom t (maxCandidates + n) (s.estimate t) = s.search t := by
  have hrecurs := recurs_of_countsYears hs hyears
  have herror := searchFrom_ne_error hs hclock hplaces ht hcalendar
  cases hsearch : s.search t with
  | error e => exact absurd hsearch (herror maxCandidates e)
  | ok fire =>
    cases fire with
    | some f => exact searchFrom_add_of_some n hsearch
    | none =>
      cases hlonger : s.searchFrom t (maxCandidates + n) (s.estimate t) with
      | error e => exact absurd hlonger (herror _ e)
      | ok found =>
        cases found with
        | none => rfl
        | some f =>
          obtain ⟨i, -, hcandidate, hfits, -⟩ := fits_of_searchFrom hlonger
          have hoccasion : s.IsOccasion f :=
            ⟨⟨i, hcandidate⟩, hfits.2.1, hfits.2.2.1, hfits.2.2.2⟩
          exact absurd hoccasion (not_occasion_of_search hs hclock hrecurs ht hsearch hfits.1)

end

/-! ## Lookups that find nothing -/

/-- A point lies in the leap second that carries on the second of which another is the end. -/
def CarriesOn (f t : Instant) : Prop :=
  t.nanos + 1 = Instant.nanosPerSecond ∧ f.seconds = t.seconds ∧ f.inLeapSecond = true

/-- A schedule that repeats lists places that are not years.  The lookup of the first fire at or
after a point comes to no fault, and it finds nothing exactly when no candidate matches from there
on but the end of the last month of the calendar.  The lookup of the next fire finds nothing
exactly when no other one matches after the point but one in a leap second that follows at once.
How many candidates are looked at is never the reason. -/
theorem retires_iff (hstart : s.start.inCalendar = true) (hclock : s.start.OnClock)
    (hplaces : s.frequency = .only places) (hyears : s.unit.countsYears = false)
    (hrepeats : s.repeats = true) (ht : t.OnClock) (hnow : t.inCalendar = true) :
    (∃ fire, s.fireAtOrAfter t = .ok fire ∧
        (fire = none ↔ ∀ f, s.IsMatch f → t ≤ f → s.EndsCalendar f)) ∧
      (t.next.inCalendar = true → ∃ fire, s.nextFire t = .ok fire ∧
        (fire = none ↔ ∀ f, s.IsMatch f → t < f → s.EndsCalendar f ∨ CarriesOn f t)) ∧
      ∀ p : Instant, p.OnClock → p.inCalendar = true → ∀ n,
        s.searchFrom p (maxCandidates + n) (s.estimate p) = s.search p := by
  have hs : s.WellFormed := ⟨by rw [hplaces]; exact Nat.one_pos, hstart⟩
  have hrecurs := recurs_of_countsYears hs hyears
  have hfire : ∀ {f}, s.IsFire f ↔ s.IsMatch f ∧ ¬ s.EndsCalendar f :=
    isFire_iff_of_repeats hs hrepeats
  have hlookup : ∀ p : Instant, p.OnClock → p.inCalendar = true →
      ∃ fire, s.fireAtOrAfter p = .ok fire ∧
        (fire = none ↔ ∀ f, s.IsFire f → ¬ p ≤ f) := by
    intro p hp hcalendar
    obtain ⟨-, hfrom, hfromCalendar⟩ := of_pointFrom hs hclock hp hcalendar
    cases hfound : s.fireAtOrAfter p with
    | error e =>
      exact absurd (fireAtOrAfter_eq_error_iff.1 hfound)
        (searchFrom_ne_error hs hclock hplaces hfrom hfromCalendar maxCandidates e)
    | ok fire =>
      have hearliest := earliest_of_fireAtOrAfter hs hclock hp (fun _ => hrecurs) hfound
      refine ⟨fire, rfl, ?_⟩
      cases fire with
      | none => exact iff_of_true rfl fun f hf hle => hearliest f ⟨hf, hle⟩
      | some f => exact iff_of_false nofun fun hnone => hnone f hearliest.1.1 hearliest.1.2
  refine ⟨?_, ?_, fun p hp hcalendar => searchFrom_add hs hclock hplaces hp hcalendar hyears⟩
  · obtain ⟨fire, hfound, hnone⟩ := hlookup t ht hnow
    refine ⟨fire, hfound, hnone.trans (forall_congr' fun f => ?_)⟩
    rw [hfire]
    tauto
  · intro hnext
    obtain ⟨fire, hfound, hnone⟩ := hlookup t.next t.onClock_next hnext
    refine ⟨fire, hfound, hnone.trans (forall_congr' fun f => ?_)⟩
    -- Between the point and the next one there is nothing but a leap second.
    have hbetween : s.IsFire f → (t < f ∧ f < t.next ↔ CarriesOn f t) := fun hf =>
      Instant.between_next_iff ht (hf.onClock hclock)
    have hbefore : ¬ t < f → f < t.next := fun hle => (not_lt.1 hle).trans_lt t.lt_next
    rw [hfire] at hbetween ⊢
    rw [not_le]
    constructor
    · intro hnone hmatch hlt
      by_cases hends : s.EndsCalendar f
      · exact Or.inl hends
      · have hf : s.IsMatch f ∧ ¬ s.EndsCalendar f := ⟨hmatch, hends⟩
        exact Or.inr ((hbetween hf).1 ⟨hlt, hnone hf⟩)
    · intro hnone hf
      by_cases hlt : t < f
      · rcases hnone hf.1 hlt with hends | hcarries
        · exact absurd hends hf.2
        · exact ((hbetween hf).2 hcarries).2
      · exact hbefore hlt

/-! ## Days at the end of January, and candidates that are missed -/

/-- A schedule that fires in the fifth week of January 2024. -/
def fifths : Schedule := ⟨⟨1704067200, 0⟩, some ⟨1706659200, 0⟩, .week, .only [5], true⟩

/-- Its only fire. -/
def fifth : Instant := ⟨1706486400, 0⟩

/-- The lookups find the fire, and nothing after it, because nothing else matches. -/
theorem retires_fifths :
    fifths.start.inCalendar = true ∧ fifths.start.OnClock ∧ fifths.frequency = .only [5] ∧
      fifths.unit.countsYears = false ∧ fifths.repeats = true ∧ fifth.OnClock ∧
      fifth.inCalendar = true ∧ fifth.next.inCalendar = true ∧
      fifths.fireAtOrAfter fifth = .ok (some fifth) ∧ fifths.nextFire fifth = .ok none ∧
      ∀ f, fifths.IsMatch f → ¬ fifth < f := by
  have hcalendar : fifth.inCalendar = true := by decide
  have hnext : fifth.next.inCalendar = true := by decide
  have hnone : fifths.nextFire fifth = .ok none := rfl
  obtain ⟨-, hafter, -⟩ := retires_iff (s := fifths) (t := fifth) (by decide) (by decide) rfl rfl
    rfl (by decide) hcalendar
  obtain ⟨fire, hfire, hiff⟩ := hafter hnext
  obtain rfl : none = fire := Except.ok.inj (hnone.symm.trans hfire)
  refine ⟨by decide, by decide, rfl, rfl, rfl, by decide, hcalendar, hnext, rfl, hnone, ?_⟩
  intro f hmatch hlt
  rcases hiff.1 rfl f hmatch hlt with ⟨hunit, -⟩ | ⟨hnanos, -⟩
  · cases hunit
  · exact absurd hnanos (by decide)

/-- A job that fires once, in the leap second that ended 2016. -/
def leapingOnce : Job :=
  ⟨"tick", "p", true, true, "2016-12-31T23:59:60Z", some "2016-12-31T23:59:60Z", "minute",
    some "59,"⟩

/-- Its schedule. -/
def leapOnce : Schedule :=
  ⟨⟨1483228799, 1000000000⟩, some ⟨1483228799, 1000000000⟩, .minute, .only [59], true⟩

/-- A job that fires at the ends of December, from the last month of the calendar on. -/
def closing : Job :=
  ⟨"close", "p", true, true, "+262142-12-01T00:00:00", none, "month_end", some "12,"⟩

/-- Its schedule. -/
def closes : Schedule := ⟨⟨8210264198400, 0⟩, none, .monthEnd, .only [12], true⟩

/-- The lookups find nothing from a nanosecond before the leap second on, and nothing from the
start of the last month of the calendar on, although the leap second and the end of that month
match. -/
theorem misses_matches :
    (ofJob leapingOnce = .ok leapOnce ∧ leapOnce.IsMatch leapOnce.start ∧
        (⟨1483228799, 999999999⟩ : Instant) < leapOnce.start ∧
        leapOnce.nextFire ⟨1483228799, 999999999⟩ = .ok none) ∧
      ofJob closing = .ok closes ∧ closes.IsMatch ⟨8210266790400, 0⟩ ∧
        closes.start ≤ ⟨8210266790400, 0⟩ ∧ closes.fireAtOrAfter closes.start = .ok none := by
  refine ⟨⟨rfl, ⟨⟨0, rfl⟩, by decide, le_rfl, by decide, by decide⟩, by decide, rfl⟩, rfl,
    ⟨⟨0, rfl⟩, by decide, by decide, rfl, by decide⟩, by decide, rfl⟩

end Schedule

end PipelineEngine
