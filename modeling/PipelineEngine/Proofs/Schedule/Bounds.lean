import PipelineEngine.Proofs.Schedule.Declared

/-!
# The numbers of a lookup

A lookup computes with whole numbers that are held in words: its estimate, the numbers of the
candidates that it looks at, and the seconds, months or years that lie between these and the
start.  `Schedule.Computes` says that all of them can be held, that nothing is divided by zero
and that no span of time grows too long.

Only the candidate after the start's own can be too far away, and only when a single step is
(`Schedule.OverstepsSpan`, `Schedule.OverstepsYears`): any later one is looked at because the one
before it is in the calendar, which is small.

* `Schedule.LooksAt`: the candidates that a lookup looks at.
* `Schedule.inReach_of_looksAt`: these are hardly farther away than the calendar is long.
* `Schedule.computes_iff` and, for the three lookups, `Schedule.lookups_compute_iff`.
-/

namespace PipelineEngine

theorem Word.fits_iff {bits : Nat} {n : Int} :
    Word.fits bits n = true ↔ -(Word.bound bits : Int) ≤ n ∧ n < Word.bound bits := by
  simp [Word.fits]

namespace Schedule

variable {s : Schedule} {t f c : Instant} {k i : Nat}

/-! ## What is computed -/

/-- What an estimate divides by. -/
def divisor (s : Schedule) : Nat := s.unit.fixedSeconds?.getD 1 * s.frequency.multiple

/-- The numbers that the estimate for a point is computed through, with the bits that each is
held in. -/
def estimateWords (s : Schedule) (t : Instant) : List (Nat × Int) :=
  if t ≤ s.start then []
  else
    match s.unit.fixedSeconds? with
    | some _ =>
      [(63, t.secondsSince s.start), (63, s.divisor), (63, (t.secondsSince s.start).tdiv s.divisor)]
    | none =>
      if s.unit.countsYears then
        let years := t.date.year - s.start.date.year
        [(31, years), (63, years.tdiv s.divisor), (63, years.tdiv s.divisor - 1)]
      else
        let months := t.date.monthIndex - s.start.date.monthIndex
        [(63, t.date.year * 12), (63, t.date.monthIndex), (63, s.start.date.year * 12),
          (63, s.start.date.monthIndex), (63, months), (63, months.tdiv s.divisor),
          (63, months.tdiv s.divisor - 1)]

/-- The numbers that a candidate is computed through, with the bits that each is held in.  The
product with the seconds of a unit is not among them: it is multiplied with a check. -/
def candidateWords (s : Schedule) (k : Nat) : List (Nat × Int) :=
  let units : Int := s.frequency.multiple * k
  (63, units) ::
    match s.unit with
    | .monthStart | .monthEnd =>
      let index := s.start.date.monthIndex + units
      [(63, s.start.date.year * 12), (63, s.start.date.monthIndex), (63, index)] ++
        -- The month after a December is one of the next year.
        if s.unit = .monthEnd ∧ Word.fits 31 (index / 12) = true ∧ index % 12 = 11 then
          [(31, index / 12 + 1)]
        else []
    | .yearStart | .yearEnd =>
      if Word.fits 31 units then [(31, s.start.date.year + units)] else []
    | _ => []

/-- A candidate and the number of the next one are computed without a fault. -/
structure ComputesCandidate (s : Schedule) (k : Nat) : Prop where
  words : ∀ w ∈ s.candidateWords k, Word.fits w.1 w.2 = true
  span : s.candidate k ≠ .error .spanOverflow
  following : Word.fits 63 (k + 1) = true

/-- The candidate does not end a lookup from a point. -/
def Passes (s : Schedule) (t c : Instant) : Prop :=
  s.stop.any (· < c) = false ∧ ¬ (t ≤ c ∧ s.start ≤ c ∧ s.takes c = true) ∧ s.beyondYears c = false

/-- Candidate `i` is one of those that a walk of at most `fuel` of them from number `k` on looks
at. -/
def LooksAtFrom (s : Schedule) (t : Instant) : (fuel k i : Nat) → Prop
  | 0, _, _ => False
  | fuel + 1, k, i =>
    i = k ∨ ∃ c, s.candidate k = .ok (some c) ∧ s.Passes t c ∧ s.LooksAtFrom t fuel (k + 1) i

/-- The candidate is one of those that a lookup from a point looks at. -/
def LooksAt (s : Schedule) (t : Instant) (i : Nat) : Prop :=
  s.LooksAtFrom t maxCandidates (s.estimate t) i

/-- A lookup from a point computes without a fault. -/
structure Computes (s : Schedule) (t : Instant) : Prop where
  divisor : s.divisor ≠ 0
  estimate : ∀ w ∈ s.estimateWords t, Word.fits w.1 w.2 = true
  candidates : ∀ k, s.LooksAt t k → s.ComputesCandidate k

/-! ## The candidates that are looked at -/

/-- A walk goes on behind a candidate that it passes. -/
theorem walk_of_passes (fuel : Nat) (hcandidate : s.candidate k = .ok (some c))
    (h : s.Passes t c) :
    s.searchFrom t (fuel + 1) k = s.searchFrom t fuel (k + 1) ∧
      ∀ i, s.LooksAtFrom t (fuel + 1) k i ↔ i = k ∨ s.LooksAtFrom t fuel (k + 1) i := by
  refine ⟨?_, fun i => or_congr_right ⟨?_, fun hlater => ⟨c, hcandidate, h, hlater⟩⟩⟩
  · obtain ⟨hstop, hfits, hyears⟩ := h
    rw [searchFrom, hcandidate]
    simp only
    rw [if_neg (by simp [hstop]), if_neg (by simpa [and_assoc] using hfits),
      if_neg (by simp [hyears])]
  · rintro ⟨c', -, -, hlater⟩
    exact hlater

/-- A walk ends at a candidate that it does not pass, with a fault only if the candidate is
one. -/
theorem walk_of_not_passes (fuel : Nat) (e : SpanOverflow)
    (h : ∀ c, s.candidate k = .ok (some c) → ¬ s.Passes t c) :
    (s.searchFrom t (fuel + 1) k = .error e ↔ s.candidate k = .error e) ∧
      ∀ i, s.LooksAtFrom t (fuel + 1) k i ↔ i = k := by
  constructor
  · rw [searchFrom]
    split
    · rename_i e' hcandidate
      rw [hcandidate]
    · rename_i hcandidate
      rw [hcandidate]
    · rename_i c hcandidate
      rw [hcandidate]
      refine iff_of_false ?_ (by rintro ⟨⟩)
      split
      · rintro ⟨⟩
      · rename_i hstop
        split
        · rintro ⟨⟩
        · rename_i hfits
          split
          · rintro ⟨⟩
          · rename_i hyears
            refine absurd ⟨by simpa using hstop, ?_, by simpa using hyears⟩ (h c hcandidate)
            rintro ⟨hle, hstart, htakes⟩
            exact hfits (by simp [hle, hstart, htakes])
  · intro i
    refine or_iff_left ?_
    rintro ⟨c, hcandidate, hpasses, -⟩
    exact h c hcandidate hpasses

/-- A walk comes to a fault when a candidate that it looks at is one. -/
theorem searchFrom_eq_error_iff {fuel : Nat} {e : SpanOverflow} :
    s.searchFrom t fuel k = .error e ↔
      ∃ i, s.LooksAtFrom t fuel k i ∧ s.candidate i = .error e := by
  induction fuel generalizing k with
  | zero => simp [searchFrom, LooksAtFrom]
  | succ fuel ih =>
    by_cases hpasses : ∃ c, s.candidate k = .ok (some c) ∧ s.Passes t c
    · obtain ⟨c, hcandidate, hpasses⟩ := hpasses
      obtain ⟨hwalk, hlooks⟩ := walk_of_passes fuel hcandidate hpasses
      rw [hwalk, ih]
      simp only [hlooks, or_and_right, exists_or, exists_eq_left, hcandidate]
      simp
    · obtain ⟨hwalk, hlooks⟩ := walk_of_not_passes fuel e
        fun c hcandidate h => hpasses ⟨c, hcandidate, h⟩
      rw [hwalk]
      simp only [hlooks, exists_eq_left]

/-- Behind the first candidate that a walk looks at, each one follows a candidate that there
is. -/
theorem LooksAtFrom.eq_or_exists {fuel : Nat} (h : s.LooksAtFrom t fuel k i) :
    i = k ∨ ∃ i' c, i = i' + 1 ∧ s.candidate i' = .ok (some c) := by
  induction fuel generalizing k with
  | zero => exact h.elim
  | succ fuel ih =>
    rcases h with rfl | ⟨c, hcandidate, -, h⟩
    · exact Or.inl rfl
    · rcases ih h with rfl | hlater
      · exact Or.inr ⟨k, c, rfl, hcandidate⟩
      · exact Or.inr hlater

/-! ## How far the candidates are away -/

/-- The candidate is no farther away from the start than so many times the length of the
calendar. -/
def InReach (s : Schedule) (times k : Nat) : Prop :=
  match s.unit.fixedSeconds? with
  | some seconds => seconds * (s.frequency.multiple * k) ≤ times * 2 ^ 44
  | none => s.frequency.multiple * k ≤ times * 2 ^ 23

/-- The seconds of the calendar. -/
theorem seconds_bounds (h : t.inCalendar = true) :
    -8400000000000 < t.seconds ∧ t.seconds < 8400000000000 := by
  simp only [Instant.inCalendar, Bool.and_eq_true, decide_eq_true_eq] at h
  have hfirst : -8400000000000 < Instant.firstSecond := by decide
  have hlast : Instant.lastSecond < 8400000000000 := by decide
  omega

/-- The years of the calendar. -/
theorem year_bounds (h : t.inCalendar = true) :
    Date.firstYear ≤ t.date.year ∧ t.date.year ≤ Date.lastYear := by
  have hyear := Instant.year_date t
  have hmonth := Instant.monthIndex_bounds h
  omega

section
variable (hs : s.WellFormed)
include hs

theorem inReach_of_candidate (h : s.candidate k = .ok (some c)) : s.InReach 1 k := by
  have hstart := seconds_bounds hs.inCalendar
  unfold InReach
  cases hunit : s.unit.fixedSeconds? with
  | some seconds =>
    obtain ⟨rfl, -, hcalendar⟩ := (candidate_of_fixed hunit).1 h
    have hend := seconds_bounds hcalendar
    rw [Instant.seconds_after] at hend
    simp only
    omega
  | none =>
    obtain ⟨rfl, -, hlast⟩ := (candidate_of_calendar hunit).1 h
    have hyears := year_bounds hs.inCalendar
    have hmonths := Instant.monthIndex_bounds hs.inCalendar
    have hyear := Instant.year_date s.start
    simp only [Date.firstYear, Date.lastYear] at hyears hmonths hlast
    simp only
    unfold neededMonth monthAt at hlast
    cases hu : s.unit <;> simp only [hu] at hlast <;> omega

/-- The estimate for a point of the calendar. -/
theorem inReach_estimate (hclock : s.start.OnClock) (ht : t.OnClock)
    (hcalendar : t.inCalendar = true) : s.InReach 1 (s.estimate t) := by
  have hmultiple := hs.multiple_pos
  unfold InReach estimate
  cases hunit : s.unit.fixedSeconds? with
  | some seconds =>
    simp only
    split
    · simp
    · have hdistance := Instant.secondsSince_bounds ht hclock
      have hstart := seconds_bounds hs.inCalendar
      have hpoint := seconds_bounds hcalendar
      calc seconds * (s.frequency.multiple *
              ((t.secondsSince s.start).toNat / (seconds * s.frequency.multiple)))
          = (t.secondsSince s.start).toNat / (seconds * s.frequency.multiple) *
              (seconds * s.frequency.multiple) := by ring
        _ ≤ (t.secondsSince s.start).toNat := Nat.div_mul_le_self _ _
        _ ≤ 1 * 2 ^ 44 := by omega
  | none =>
    have hunits : ∀ units : Int, units.toNat ≤ 1 * 2 ^ 23 →
        s.frequency.multiple * (units.toNat / s.frequency.multiple - 1) ≤ 1 * 2 ^ 23 := by
      intro units hle
      calc s.frequency.multiple * (units.toNat / s.frequency.multiple - 1)
          ≤ s.frequency.multiple * (units.toNat / s.frequency.multiple) :=
            Nat.mul_le_mul_left _ (Nat.sub_le _ _)
        _ ≤ units.toNat := Nat.mul_div_le _ _
        _ ≤ 1 * 2 ^ 23 := hle
    simp only
    split
    · simp
    · refine hunits _ ?_
      have hyears := year_bounds hs.inCalendar
      have hyears' := year_bounds hcalendar
      have hmonths := Instant.monthIndex_bounds hs.inCalendar
      have hmonths' := Instant.monthIndex_bounds hcalendar
      simp only [Date.firstYear, Date.lastYear] at hyears hyears' hmonths hmonths'
      split <;> omega

/-- The candidates that a lookup looks at are in reach, or follow one that is. -/
theorem inReach_of_looksAt (hclock : s.start.OnClock) (ht : t.OnClock)
    (hcalendar : t.inCalendar = true) (h : s.LooksAt t k) :
    s.InReach 1 k ∨ ∃ k', k = k' + 1 ∧ s.InReach 1 k' := by
  rcases LooksAtFrom.eq_or_exists h with rfl | ⟨k', c, rfl, hcandidate⟩
  · exact Or.inl (inReach_estimate hs hclock ht hcalendar)
  · exact Or.inr ⟨k', rfl, inReach_of_candidate hs hcandidate⟩

end

/-- Once a step has been made, the next one doubles the distance at most. -/
theorem InReach.succ (h : s.InReach 1 k) (hk : 0 < k) : s.InReach 2 (k + 1) := by
  have hunits : s.frequency.multiple * (k + 1) ≤ 2 * (s.frequency.multiple * k) := by
    calc s.frequency.multiple * (k + 1) ≤ s.frequency.multiple * (2 * k) :=
          Nat.mul_le_mul_left _ (by omega)
      _ = 2 * (s.frequency.multiple * k) := by ring
  unfold InReach at *
  cases hunit : s.unit.fixedSeconds? with
  | some seconds =>
    simp only [hunit] at h ⊢
    calc seconds * (s.frequency.multiple * (k + 1))
        ≤ seconds * (2 * (s.frequency.multiple * k)) := Nat.mul_le_mul_left _ hunits
      _ = 2 * (seconds * (s.frequency.multiple * k)) := by ring
      _ ≤ 2 * 2 ^ 44 := by omega
  | none =>
    simp only [hunit] at h ⊢
    omega

theorem InReach.mono (h : s.InReach 1 k) : s.InReach 2 k := by
  unfold InReach at *
  cases hunit : s.unit.fixedSeconds? <;> simp only [hunit] at h ⊢ <;> omega

/-! ## The numbers of candidates -/

/-- A single step is a span of time with too many seconds. -/
def OverstepsSpan (s : Schedule) : Prop :=
  ∃ seconds, s.unit.fixedSeconds? = some seconds ∧ maxSpan < seconds * s.frequency.multiple

/-- A single step is a number of years that a word holds, but the year that it leads to is not. -/
def OverstepsYears (s : Schedule) : Prop :=
  (s.unit = .yearStart ∨ s.unit = .yearEnd) ∧ s.frequency.multiple < Word.bound 31 ∧
    Word.bound 31 ≤ s.start.date.year + s.frequency.multiple

theorem candidate_eq_error_iff :
    s.candidate k = .error .spanOverflow ↔
      ∃ seconds, s.unit.fixedSeconds? = some seconds ∧
        maxSpan < seconds * (s.frequency.multiple * k) ∧
          seconds * (s.frequency.multiple * k) < Word.bound 63 := by
  unfold candidate
  cases hunit : s.unit.fixedSeconds? with
  | none => simp
  | some seconds =>
    simp only [Option.some.injEq, exists_eq_left']
    split
    · rename_i hbeyond
      exact iff_of_false (by rintro ⟨⟩) fun h => absurd h.2 (not_lt.2 hbeyond)
    · rename_i hwithin
      split
      · rename_i hlong
        exact iff_of_true rfl ⟨hlong, not_le.1 hwithin⟩
      · rename_i hshort
        exact iff_of_false (by rintro ⟨⟩) fun h => hshort h.1

/-- For candidates that are not too many units away, what can go wrong are the span of time and
the sum of the years. -/
theorem computesCandidate_iff (hs : s.WellFormed) (hunits : s.frequency.multiple * k < 2 ^ 46)
    (hcalendar : s.unit.fixedSeconds? = none → s.frequency.multiple * k < 2 ^ 32) :
    s.ComputesCandidate k ↔
      s.candidate k ≠ .error .spanOverflow ∧
        ¬ ((s.unit = .yearStart ∨ s.unit = .yearEnd) ∧
          s.frequency.multiple * k < Word.bound 31 ∧
            Word.bound 31 ≤ s.start.date.year + (s.frequency.multiple * k : Nat)) := by
  have h31 : Word.bound 31 = 2147483648 := rfl
  have h63 : Word.bound 63 = 9223372036854775808 := rfl
  have hyears := year_bounds hs.inCalendar
  have hmonths := Instant.monthIndex_bounds hs.inCalendar
  simp only [Date.firstYear, Date.lastYear] at hyears hmonths
  have hnumber : k ≤ s.frequency.multiple * k := Nat.le_mul_of_pos_left k hs.multiple_pos
  have hnext : Word.fits 63 (k + 1) = true := Word.fits_iff.2 (by omega)
  have hwords : (∀ w ∈ s.candidateWords k, Word.fits w.1 w.2 = true) ↔
      ¬ ((s.unit = .yearStart ∨ s.unit = .yearEnd) ∧ s.frequency.multiple * k < Word.bound 31 ∧
        Word.bound 31 ≤ s.start.date.year + (s.frequency.multiple * k : Nat)) := by
    have hyear := Instant.year_date s.start
    unfold candidateWords
    rw [← Nat.cast_mul]
    simp only [List.forall_mem_cons]
    generalize s.frequency.multiple * k = units at hunits hcalendar ⊢
    cases hu : s.unit with
    | monthStart | monthEnd =>
      rw [hu] at hcalendar
      have hunits := hcalendar rfl
      refine iff_of_true ⟨Word.fits_iff.2 (by omega), List.forall_mem_append.2 ⟨?_, ?_⟩⟩
        (by rintro ⟨hunit | hunit, -⟩ <;> cases hunit)
      · simp only [List.forall_mem_cons, List.not_mem_nil, false_imp_iff, implies_true, and_true,
          Word.fits_iff]
        omega
      · split
        · simp only [List.forall_mem_singleton, Word.fits_iff]
          omega
        · simp
    | yearStart | yearEnd =>
      rw [hu] at hcalendar
      have hunits := hcalendar rfl
      rw [and_iff_right (Word.fits_iff.2 (by omega))]
      by_cases hfits : Word.fits 31 (units : Int) = true
      · simp only [if_pos hfits, List.forall_mem_singleton, reduceCtorEq, or_true, true_or,
          true_and]
        rw [Word.fits_iff] at hfits ⊢
        omega
      · simp only [if_neg hfits, List.not_mem_nil, false_imp_iff, implies_true, true_iff]
        rw [Word.fits_iff] at hfits
        omega
    | _ =>
      simp [Word.fits_iff]
      omega
  rw [← hwords]
  exact ⟨fun h => ⟨h.span, h.words⟩, fun h => ⟨h.2, h.1, hnext⟩⟩

/-- Candidates in reach are computed without a fault. -/
theorem computesCandidate_of_inReach (hs : s.WellFormed) (h : s.InReach 2 k) :
    s.ComputesCandidate k := by
  have h31 : Word.bound 31 = 2147483648 := rfl
  have hyears := year_bounds hs.inCalendar
  simp only [Date.firstYear, Date.lastYear] at hyears
  unfold InReach at h
  cases hunit : s.unit.fixedSeconds? with
  | some seconds =>
    have hminute := le_of_fixedSeconds? hunit
    simp only [hunit] at h
    have hunits : s.frequency.multiple * k ≤ seconds * (s.frequency.multiple * k) :=
      Nat.le_mul_of_pos_left _ (by omega)
    refine (computesCandidate_iff hs (by omega) fun hnone => ?_).2 ⟨?_, ?_⟩
    · rw [hunit] at hnone
      cases hnone
    · rw [Ne, candidate_eq_error_iff]
      rintro ⟨seconds', hseconds', hlong, -⟩
      obtain rfl : seconds = seconds' := Option.some.inj (hunit.symm.trans hseconds')
      have hmax : 2 * 2 ^ 44 ≤ maxSpan := by decide
      omega
    · rintro ⟨hunit' | hunit', -⟩ <;> rw [hunit'] at hunit <;> cases hunit
  | none =>
    simp only [hunit] at h
    refine (computesCandidate_iff hs (by omega) fun _ => by omega).2 ⟨?_, ?_⟩
    · rw [Ne, candidate_eq_error_iff]
      rintro ⟨seconds, hseconds, -⟩
      rw [hunit] at hseconds
      cases hseconds
    · rintro ⟨-, -, hbeyond⟩
      omega

/-- A unit of fixed length has a year of 365 days at most. -/
theorem fixedSeconds?_le {unit : IntervalUnit} {seconds : Nat}
    (h : unit.fixedSeconds? = some seconds) : seconds ≤ 365 * 86400 := by
  cases unit <;> cases h <;> decide

section
variable (hs : s.WellFormed) (hmultiple : s.frequency.multiple < Word.bound 32)
include hmultiple

/-- A step that a word can count can be multiplied with the seconds of its units. -/
theorem lt_of_fixedSeconds? {seconds : Nat} (hunit : s.unit.fixedSeconds? = some seconds) :
    seconds * s.frequency.multiple < Word.bound 63 := by
  have h32 : Word.bound 32 = 4294967296 := rfl
  have h63 : Word.bound 63 = 9223372036854775808 := rfl
  calc seconds * s.frequency.multiple ≤ 365 * 86400 * s.frequency.multiple :=
        Nat.mul_le_mul_right _ (fixedSeconds?_le hunit)
    _ < Word.bound 63 := by omega

theorem candidate_one_eq_error_iff : s.candidate 1 = .error .spanOverflow ↔ s.OverstepsSpan := by
  rw [candidate_eq_error_iff, Nat.mul_one]
  exact exists_congr fun seconds => and_congr_right fun hunit =>
    and_iff_left (lt_of_fixedSeconds? hmultiple hunit)

include hs

/-- The candidate after the start's own is computed without a fault unless the step is too
long. -/
theorem computesCandidate_one_iff :
    s.ComputesCandidate 1 ↔ ¬ (s.OverstepsSpan ∨ s.OverstepsYears) := by
  have h32 : Word.bound 32 = 4294967296 := rfl
  rw [computesCandidate_iff hs (by omega) fun _ => by omega, not_or, Nat.mul_one]
  exact and_congr_left' (not_congr (candidate_one_eq_error_iff hmultiple))

/-! ## Lookups -/

variable (hclock : s.start.OnClock) (ht : t.OnClock) (hcalendar : t.inCalendar = true)
include hclock ht hcalendar

/-- Estimates are computed without a fault. -/
theorem fits_of_mem_estimateWords : ∀ w ∈ s.estimateWords t, Word.fits w.1 w.2 = true := by
  have h31 : Word.bound 31 = 2147483648 := rfl
  have h32 : Word.bound 32 = 4294967296 := rfl
  have h63 : Word.bound 63 = 9223372036854775808 := rfl
  have hquotient := fun n : Int => Int.natAbs_tdiv_le_natAbs n s.divisor
  unfold estimateWords
  split
  · simp
  · cases hunit : s.unit.fixedSeconds? with
    | some seconds =>
      have hdistance := Instant.secondsSince_bounds ht hclock
      have hstart := seconds_bounds hs.inCalendar
      have hpoint := seconds_bounds hcalendar
      have hdivisor : s.divisor < Word.bound 63 := by
        rw [divisor, hunit]
        exact lt_of_fixedSeconds? hmultiple hunit
      have hquotient := hquotient (t.secondsSince s.start)
      simp only [List.forall_mem_cons, List.not_mem_nil, false_imp_iff, implies_true, and_true,
        Word.fits_iff]
      omega
    | none =>
      have hyears := year_bounds hs.inCalendar
      have hyears' := year_bounds hcalendar
      have hmonths := Instant.monthIndex_bounds hs.inCalendar
      have hmonths' := Instant.monthIndex_bounds hcalendar
      simp only [Date.firstYear, Date.lastYear] at hyears hyears' hmonths hmonths'
      cases s.unit.countsYears with
      | true =>
        have hquotient := hquotient (t.date.year - s.start.date.year)
        simp only [if_true, List.forall_mem_cons, List.not_mem_nil, false_imp_iff, implies_true,
          and_true, Word.fits_iff]
        omega
      | false =>
        have hquotient := hquotient (t.date.monthIndex - s.start.date.monthIndex)
        have hyear := Instant.year_date s.start
        have hyear' := Instant.year_date t
        simp only [Bool.false_eq_true, if_false, List.forall_mem_cons, List.not_mem_nil,
          false_imp_iff, implies_true, and_true, Word.fits_iff]
        omega

omit hmultiple in
/-- Of the candidates that a lookup looks at, only the one after the start's own may be too far
away. -/
theorem computesCandidate_of_looksAt (h : s.LooksAt t k) (hk : k ≠ 1) :
    s.ComputesCandidate k := by
  rcases inReach_of_looksAt hs hclock ht hcalendar h with hreach | ⟨k', rfl, hreach⟩
  · exact computesCandidate_of_inReach hs hreach.mono
  · exact computesCandidate_of_inReach hs (hreach.succ (by omega))

/-- A lookup computes without a fault unless it looks at a candidate that a single step puts too
far away. -/
theorem computes_iff :
    s.Computes t ↔ ¬ ((s.OverstepsSpan ∨ s.OverstepsYears) ∧ s.LooksAt t 1) := by
  constructor
  · rintro h ⟨hoversteps, hlooks⟩
    exact (computesCandidate_one_iff hs hmultiple).1 (h.candidates 1 hlooks) hoversteps
  · intro h
    refine ⟨?_, fits_of_mem_estimateWords hs hmultiple hclock ht hcalendar, fun k hlooks => ?_⟩
    · have hmultiple := hs.multiple_pos
      unfold divisor
      cases hunit : s.unit.fixedSeconds? with
      | some seconds =>
        have hminute := le_of_fixedSeconds? hunit
        exact (Nat.mul_pos (Nat.lt_of_lt_of_le (by decide) hminute) hmultiple).ne'
      | none => simpa using hmultiple.ne'
    · by_cases hk : k = 1
      · subst hk
        exact (computesCandidate_one_iff hs hmultiple).2 fun hoversteps => h ⟨hoversteps, hlooks⟩
      · exact computesCandidate_of_looksAt hs hclock ht hcalendar hlooks hk

/-- A lookup comes to a fault when it looks at a candidate that a single step puts too many
seconds away. -/
theorem search_eq_error_iff :
    s.search t = .error .spanOverflow ↔ s.OverstepsSpan ∧ s.LooksAt t 1 := by
  rw [search, searchFrom_eq_error_iff]
  constructor
  · rintro ⟨k, hlooks, herror⟩
    by_cases hk : k = 1
    · subst hk
      exact ⟨(candidate_one_eq_error_iff hmultiple).1 herror, hlooks⟩
    · exact absurd herror
        (computesCandidate_of_looksAt hs hclock ht hcalendar hlooks hk).span
  · rintro ⟨hoversteps, hlooks⟩
    exact ⟨1, hlooks, (candidate_one_eq_error_iff hmultiple).2 hoversteps⟩

end

/-- The first candidate lies before a point and not after the end, so a lookup from the point
goes on behind it. -/
def Passed (s : Schedule) (t : Instant) : Prop :=
  ∃ c, s.candidate 0 = .ok (some c) ∧ s.stop.any (· < c) = false ∧ c < t

/-- A step that is too long is one of several units, so all candidates are taken. -/
theorem exists_every_of_oversteps (hs : s.WellFormed) (h : s.OverstepsSpan ∨ s.OverstepsYears) :
    ∃ n, s.frequency = .every n := by
  cases hfrequency : s.frequency with
  | every n => exact ⟨n, rfl⟩
  | only places =>
    rcases h with ⟨seconds, hunit, hlong⟩ | ⟨-, -, hlong⟩
    · have hyear := fixedSeconds?_le hunit
      have hmax : 365 * 86400 ≤ maxSpan := by decide
      rw [hfrequency, Frequency.multiple, Nat.mul_one] at hlong
      omega
    · have h31 : Word.bound 31 = 2147483648 := rfl
      have hyears := year_bounds hs.inCalendar
      simp only [Date.firstYear, Date.lastYear] at hyears
      rw [hfrequency, Frequency.multiple] at hlong
      omega

/-- A lookup of such a schedule starts at the first candidate. -/
theorem estimate_of_oversteps (hs : s.WellFormed) (hclock : s.start.OnClock) (ht : t.OnClock)
    (hcalendar : t.inCalendar = true) (h : s.OverstepsSpan ∨ s.OverstepsYears) :
    s.estimate t = 0 := by
  unfold estimate
  split
  · rfl
  · rcases h with ⟨seconds, hunit, hlong⟩ | ⟨hunit, -, hlong⟩
    · have hdistance := Instant.secondsSince_bounds ht hclock
      have hstart := seconds_bounds hs.inCalendar
      have hpoint := seconds_bounds hcalendar
      have hmax : 16800000000004 ≤ maxSpan := by decide
      simp only [hunit]
      exact Nat.div_eq_of_lt (by omega)
    · have h31 : Word.bound 31 = 2147483648 := rfl
      have hyears := year_bounds hs.inCalendar
      have hyears' := year_bounds hcalendar
      simp only [Date.firstYear, Date.lastYear] at hyears hyears'
      have hcounts : s.unit.fixedSeconds? = none ∧ s.unit.countsYears = true := by
        rcases hunit with hunit | hunit <;> rw [hunit] <;> exact ⟨rfl, rfl⟩
      simp only [hcounts, if_true]
      rw [Nat.div_eq_of_lt (by omega)]

/-- The second candidate of a walk is looked at when the walk passes the first. -/
theorem looksAtFrom_succ_iff (fuel : Nat) :
    s.LooksAtFrom t (fuel + 2) k (k + 1) ↔ ∃ c, s.candidate k = .ok (some c) ∧ s.Passes t c := by
  simp [LooksAtFrom]

/-- A lookup of such a schedule looks at the candidate after the start's own when it passes the
first one. -/
theorem looksAt_one_iff (hs : s.WellFormed) (hclock : s.start.OnClock) (ht : t.OnClock)
    (hcalendar : t.inCalendar = true) (hle : s.start ≤ t)
    (h : s.OverstepsSpan ∨ s.OverstepsYears) : s.LooksAt t 1 ↔ s.Passed t := by
  obtain ⟨n, hn⟩ := exists_every_of_oversteps hs h
  have hpasses : ∀ c, s.Passes t c ↔ s.stop.any (· < c) = false ∧ c < t := by
    intro c
    unfold Passes takes beyondYears
    simp only [hn, and_true]
    refine and_congr_right fun _ => ?_
    rw [← not_le]
    exact not_congr (and_iff_left_of_imp hle.trans)
  rw [LooksAt, estimate_of_oversteps hs hclock ht hcalendar h]
  refine (looksAtFrom_succ_iff 99998).trans ?_
  simp only [hpasses, Passed]

/-- The point from which the lookup of the first fire at or after a point searches. -/
def pointFrom (s : Schedule) (t : Instant) : Instant :=
  if s.repeats then t.later s.start else s.start

/-- The lookups for a point, each with the point from which it searches. -/
def lookups (s : Schedule) (t : Instant) : List (Instant × Except SpanOverflow (Option Instant)) :=
  [(s.start, s.firstFire), (s.pointFrom t, s.fireAtOrAfter t), (s.pointFrom t.next, s.nextFire t)]

/-- The lookup of the first fire at or after a point fails as the search does. -/
theorem fireAtOrAfter_eq_error_iff {e : SpanOverflow} :
    s.fireAtOrAfter t = .error e ↔ s.search (s.pointFrom t) = .error e := by
  unfold fireAtOrAfter pointFrom firstFire
  split
  · rfl
  · exact Fallible.map_eq_error_iff

theorem of_pointFrom (hs : s.WellFormed) (hclock : s.start.OnClock) (ht : t.OnClock)
    (hcalendar : t.inCalendar = true) :
    s.start ≤ s.pointFrom t ∧ (s.pointFrom t).OnClock ∧ (s.pointFrom t).inCalendar = true := by
  unfold pointFrom
  split
  · refine ⟨(Instant.later_le_iff.1 le_rfl).2, ht.later hclock, ?_⟩
    unfold Instant.later
    split
    · exact hs.inCalendar
    · exact hcalendar
  · exact ⟨le_rfl, hclock, hs.inCalendar⟩

/-- For the schedule of any job and any point before the last one of the calendar: a lookup
computes without a fault unless a single step is too long and the first candidate is passed.
It comes to an end unless it is then a span of time that grows too long. -/
theorem lookups_compute_iff {j : Job} (h : ofJob j = .ok s) (ht : t.OnClock)
    (hnow : t.inCalendar = true) (hnext : t.next.inCalendar = true) :
    ∀ l ∈ s.lookups t,
      (s.Computes l.1 ↔ ¬ ((s.OverstepsSpan ∨ s.OverstepsYears) ∧ s.Passed l.1)) ∧
        (l.2 = .error .spanOverflow ↔ s.OverstepsSpan ∧ s.Passed l.1) := by
  have hs := wellFormed_of_ofJob h
  have hclock := onClock_of_ofJob h
  have hmultiple := multiple_lt_of_ofJob h
  have hpoint : ∀ p : Instant, s.start ≤ p → p.OnClock → p.inCalendar = true →
      (s.Computes p ↔ ¬ ((s.OverstepsSpan ∨ s.OverstepsYears) ∧ s.Passed p)) ∧
        (s.search p = .error .spanOverflow ↔ s.OverstepsSpan ∧ s.Passed p) := by
    intro p hle hp hcalendar
    have hlooks := looksAt_one_iff hs hclock hp hcalendar hle
    rw [computes_iff hs hmultiple hclock hp hcalendar,
      search_eq_error_iff hs hmultiple hclock hp hcalendar]
    exact ⟨not_congr (and_congr_right hlooks), and_congr_right fun hspan => hlooks (Or.inl hspan)⟩
  obtain ⟨hle, hp, hcalendar⟩ := of_pointFrom hs hclock ht hnow
  obtain ⟨hle', hp', hcalendar'⟩ := of_pointFrom hs hclock (Instant.onClock_next t) hnext
  simp only [lookups, List.forall_mem_cons, List.not_mem_nil, false_imp_iff, implies_true, and_true]
  refine ⟨hpoint s.start le_rfl hclock hs.inCalendar, ?_, ?_⟩
  · rw [fireAtOrAfter_eq_error_iff]
    exact hpoint _ hle hp hcalendar
  · rw [nextFire, fireAtOrAfter_eq_error_iff]
    exact hpoint _ hle' hp' hcalendar'

/-! ## Steps of four thousand million years -/

/-- A job that fires again after as many years as a word can count. -/
def aeonic : Job :=
  ⟨"sweep", "p", true, true, "2024-01-01T00:00:00Z", none, "year", some "4294967295"⟩

/-- Its schedule. -/
def aeons : Schedule := ⟨⟨1704067200, 0⟩, none, .year, .every 4294967295, true⟩

/-- The first fire is found. -/
theorem lookups_aeons :
    ofJob aeonic = .ok aeons ∧ aeons.start.OnClock ∧ aeons.start.inCalendar = true ∧
      aeons.start.next.inCalendar = true ∧ aeons.Computes aeons.start ∧
      aeons.firstFire = .ok (some aeons.start) := by
  have hjob : ofJob aeonic = .ok aeons := rfl
  have hclock : aeons.start.OnClock := by decide
  have hnow : aeons.start.inCalendar = true := by decide
  have hnext : aeons.start.next.inCalendar = true := by decide
  have hpassed : ¬ aeons.Passed aeons.start := by
    rintro ⟨c, hc, -, hlt⟩
    obtain rfl : aeons.start = c := Option.some.inj (Except.ok.inj hc)
    exact lt_irrefl _ hlt
  have hfirst := (lookups_compute_iff hjob hclock hnow hnext
    (aeons.start, aeons.firstFire) List.mem_cons_self).1
  exact ⟨hjob, hclock, hnow, hnext, hfirst.2 fun h => hpassed h.2, rfl⟩

/-- The next one is looked for where no span of time reaches. -/
theorem not_computes_aeons :
    ofJob aeonic = .ok aeons ∧ aeons.start.inCalendar = true ∧
      aeons.nextFire aeons.start = .error .spanOverflow ∧
      aeons.LooksAt aeons.start.next 1 ∧ aeons.candidate 1 = .error .spanOverflow ∧
      ¬ aeons.Computes aeons.start.next := by
  have hlooks : aeons.LooksAt aeons.start.next 1 :=
    (looksAtFrom_succ_iff (k := 0) 99998).2 ⟨aeons.start, rfl, rfl, by decide, rfl⟩
  have herror : aeons.candidate 1 = .error .spanOverflow := rfl
  exact ⟨rfl, by decide, rfl, hlooks, herror, fun h => (h.candidates 1 hlooks).span herror⟩

end Schedule

end PipelineEngine
