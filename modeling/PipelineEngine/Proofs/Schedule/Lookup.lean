import PipelineEngine.Proofs.Fallible
import PipelineEngine.Proofs.Schedule.Recurrence

/-!
# Lookups find the earliest fire

The fires of a schedule are those of its candidates that lie between start and end and are
taken.  A lookup walks along the row of candidates from an estimate on and gives up after
a while; where what it takes recurs, it gives up only where there is nothing to find.

* `Schedule.IsFire`: the fires that a schedule declares.
* `Schedule.earliest_of_firstFire`, `earliest_of_fireAtOrAfter`, `earliest_of_nextFire`: what
  the lookups return.
-/

namespace PipelineEngine

/-- The earliest of the points with a property, or none where there are no such points. -/
def Instant.Earliest (p : Instant → Prop) : Option Instant → Prop
  | some f => p f ∧ ∀ g, p g → f ≤ g
  | none => ∀ g, ¬ p g

/-- Only which points have the property matters. -/
theorem Instant.Earliest.congr {p q : Instant → Prop} {fire : Option Instant}
    (h : Instant.Earliest p fire) (hpq : ∀ f, p f ↔ q f) : Instant.Earliest q fire := by
  obtain rfl : p = q := funext fun f => propext (hpq f)
  exact h

namespace Schedule

variable {s : Schedule} {t f g : Instant} {k : Nat}

/-- A candidate that lies between start and end and is taken. -/
structure IsOccasion (s : Schedule) (f : Instant) : Prop where
  candidate : ∃ k, s.candidate k = .ok (some f)
  start_le : s.start ≤ f
  le_stop : s.stop.any (· < f) = false
  takes : s.takes f = true

/-- A fire of the schedule: an occasion, and the first one of a schedule that does not
repeat. -/
def IsFire (s : Schedule) (f : Instant) : Prop :=
  s.IsOccasion f ∧ (s.repeats = false → ∀ g, s.IsOccasion g → f ≤ g)

/-- The candidate lies between start and end and is taken, and does not come before a
point. -/
def Fits (s : Schedule) (t c : Instant) : Prop :=
  t ≤ c ∧ s.start ≤ c ∧ s.stop.any (· < c) = false ∧ s.takes c = true

/-! ## The walk along the row -/

/-- After a candidate beyond the end or beyond all years that are listed, none fits. -/
theorem not_fits_of_le {c : Instant} (hle : c ≤ f)
    (h : s.stop.any (· < c) = true ∨ s.beyondYears c = true) : ¬ s.Fits t f := by
  rintro ⟨-, -, hstop, htakes⟩
  rcases h with hend | hyears
  · rw [Option.any_eq_true] at hend
    obtain ⟨e, he, hlt⟩ := hend
    rw [he] at hstop
    simp only [Option.any_some, decide_eq_false_iff_not, decide_eq_true_eq] at hstop hlt
    exact hstop (hlt.trans_le hle)
  · unfold beyondYears at hyears
    unfold takes at htakes
    cases hfrequency : s.frequency with
    | every n => simp [hfrequency] at hyears
    | only places =>
      simp only [hfrequency, Bool.and_eq_true, List.all_eq_true, decide_eq_true_eq] at hyears
      rw [hfrequency] at htakes
      have hplace : s.unit.place f = f.date.year := by
        cases hunit : s.unit <;> rw [hunit] at hyears <;> first | rfl | cases hyears.1
      have hyear := hyears.2 _ (List.contains_iff_mem.1 htakes)
      rw [hplace] at hyear
      have hmono := Instant.year_mono hle
      omega

/-- The candidate that a walk finds fits, and none before it on the walk does. -/
theorem fits_of_searchFrom {fuel : Nat} (h : s.searchFrom t fuel k = .ok (some f)) :
    ∃ i, k ≤ i ∧ s.candidate i = .ok (some f) ∧ s.Fits t f ∧
      ∀ j c, k ≤ j → j < i → s.candidate j = .ok (some c) → ¬ s.Fits t c := by
  induction fuel generalizing k with
  | zero => cases h
  | succ fuel ih =>
    rw [searchFrom] at h
    split at h
    · cases h
    · cases h
    · rename_i c hcandidate
      split at h
      · cases h
      · rename_i hstop
        split at h
        · rename_i hfits
          cases h
          simp only [Bool.and_eq_true, decide_eq_true_eq] at hfits
          refine ⟨k, le_rfl, hcandidate,
            ⟨hfits.1.1, hfits.1.2, by simpa using hstop, hfits.2⟩, ?_⟩
          intro j c hkj hjk
          omega
        · rename_i hfits
          split at h
          · cases h
          · obtain ⟨i, hi, hcandidate', hfits', hnone⟩ := ih h
            refine ⟨i, by omega, hcandidate', hfits', ?_⟩
            intro j c' hkj hji hc'
            rcases Nat.eq_or_lt_of_le hkj with rfl | hlt
            · obtain rfl : c = c' := Option.some.inj (Except.ok.inj (hcandidate.symm.trans hc'))
              rintro ⟨ht, hstart, -, htakes⟩
              exact hfits (by simp [ht, hstart, htakes])
            · exact hnone j c' hlt hji hc'

/-- Where a walk finds nothing, no candidate on it fits. -/
theorem not_fits_of_searchFrom (hs : s.WellFormed) {fuel : Nat}
    (h : s.searchFrom t fuel k = .ok none) {i : Nat} (hki : k ≤ i) (hi : i < k + fuel)
    (hcandidate : s.candidate i = .ok (some f)) : ¬ s.Fits t f := by
  induction fuel generalizing k with
  | zero => omega
  | succ fuel ih =>
    obtain ⟨c, hfirst⟩ := exists_candidate_of_le hs hcandidate hki
    have hle : c ≤ f := candidate_le hs hfirst hcandidate hki
    rw [searchFrom, hfirst] at h
    simp only at h
    split at h
    · rename_i hstop
      exact not_fits_of_le hle (Or.inl hstop)
    · rename_i hstop
      split at h
      · cases h
      · rename_i hfits
        split at h
        · rename_i hyears
          exact not_fits_of_le hle (Or.inr hyears)
        · rcases Nat.eq_or_lt_of_le hki with rfl | hlt
          · obtain rfl : c = f := Option.some.inj (Except.ok.inj (hfirst.symm.trans hcandidate))
            rintro ⟨ht, hstart, -, htakes⟩
            exact hfits (by simp [ht, hstart, htakes])
          · exact ih h hlt (by omega)

/-! ## Lookups -/

theorem onClock_of_noLeap (h : t.inLeapSecond = false) : t.OnClock := by
  simp only [Instant.inLeapSecond, decide_eq_false_iff_not, not_le] at h
  unfold Instant.OnClock
  omega

theorem IsOccasion.fits (h : s.IsOccasion f) (ht : t ≤ f) : s.Fits t f :=
  ⟨ht, h.start_le, h.le_stop, h.takes⟩

/-- What comes before a point within the end lies within it. -/
theorem le_stop_of_le (h : s.stop.any (· < f) = false) (hle : g ≤ f) :
    s.stop.any (· < g) = false := by
  rw [Option.any_eq_false] at h ⊢
  intro e he
  have hstop := h e he
  simp only [decide_eq_false_iff_not, not_lt] at hstop ⊢
  exact hle.trans hstop

section
variable (hs : s.WellFormed) (hclock : s.start.OnClock)
include hs hclock

/-- No occasion at or after a point comes before the estimate for it. -/
theorem estimate_le (ht : t.OnClock) (hcandidate : s.candidate k = .ok (some f)) (hle : t ≤ f) :
    s.estimate t ≤ k := by
  by_contra hlt
  have hsecond := secondAt_lt_of_lt_estimate hs hclock ht (not_le.1 hlt)
  rw [← seconds_of_candidate hcandidate] at hsecond
  rw [Instant.le_iff] at hle
  omega

/-- From the second one after the estimate on, the candidates come after the point. -/
theorem le_of_estimate_le (ht : t.OnClock) (hcandidate : s.candidate k = .ok (some f))
    (h : s.estimate t + 2 ≤ k) : t ≤ f := by
  have hsecond := lt_secondAt_of_estimate_le hs hclock ht h
  rw [← seconds_of_candidate hcandidate] at hsecond
  exact Instant.le_iff.2 (Or.inl hsecond)

/-- Where a lookup finds nothing, there is nothing to find: far from the estimate a fitting
candidate would have another one before it, and so on back to the ones looked at. -/
theorem not_occasion_of_search (hrecurs : s.Recurs) (ht : t.OnClock) (h : s.search t = .ok none)
    (hle : t ≤ f) : ¬ s.IsOccasion f := by
  intro hoccasion
  obtain ⟨k, hcandidate⟩ := hoccasion.candidate
  induction k using Nat.strongRecOn generalizing f with
  | ind k ih =>
    have hestimate := estimate_le hs hclock ht hcandidate hle
    by_cases hnear : k < s.estimate t + maxCandidates
    · exact not_fits_of_searchFrom hs h hestimate hnear hcandidate (hoccasion.fits hle)
    · obtain ⟨k', f', hlt, hback, hcandidate', htakes⟩ :=
        hrecurs k f (by omega) hcandidate hoccasion.takes
      have hcycle : 20873 ≤ maxCandidates := by decide
      have hzero : s.estimate s.start = 0 := by simp [estimate]
      have ht' : t ≤ f' := le_of_estimate_le hs hclock ht hcandidate' (by omega)
      have hstart : s.start ≤ f' := le_of_estimate_le hs hclock hclock hcandidate' (by omega)
      have hle' : f' ≤ f := candidate_le hs hcandidate' hcandidate hlt.le
      have hstop := le_stop_of_le hoccasion.le_stop hle'
      exact ih k' hlt ht' ⟨⟨k', hcandidate'⟩, hstart, hstop, htakes⟩ hcandidate'

/-- A lookup finds the earliest occasion at or after a point. -/
theorem earliest_of_search (ht : t.OnClock) {fire : Option Instant}
    (hrecurs : fire = none → s.Recurs) (h : s.search t = .ok fire) :
    Instant.Earliest (fun f => s.IsOccasion f ∧ t ≤ f) fire := by
  cases fire with
  | none =>
    exact fun f hf => not_occasion_of_search hs hclock (hrecurs rfl) ht h hf.2 hf.1
  | some f =>
    obtain ⟨i, hi, hcandidate, ⟨hle, hstart, hstop, htakes⟩, hnone⟩ := fits_of_searchFrom h
    refine ⟨⟨⟨⟨i, hcandidate⟩, hstart, hstop, htakes⟩, hle⟩, ?_⟩
    rintro g ⟨hoccasion, hg⟩
    obtain ⟨j, hj⟩ := hoccasion.candidate
    have hestimate := estimate_le hs hclock ht hj hg
    refine candidate_le hs hcandidate hj (not_lt.1 fun hji => ?_)
    exact hnone j g hestimate hji hj (hoccasion.fits hg)

/-- The first fire. -/
theorem earliest_of_firstFire {fire : Option Instant} (hrecurs : fire = none → s.Recurs)
    (h : s.firstFire = .ok fire) : Instant.Earliest s.IsFire fire := by
  have hearliest := earliest_of_search hs hclock hclock hrecurs h
  cases fire with
  | none => exact fun g hg => hearliest g ⟨hg.1, hg.1.start_le⟩
  | some f =>
    have hleast : ∀ g, s.IsOccasion g → f ≤ g := fun g hg => hearliest.2 g ⟨hg, hg.start_le⟩
    exact ⟨⟨hearliest.1.1, fun _ => hleast⟩, fun g hg => hleast g hg.1⟩

/-- The lookup of the first fire at or after a point. -/
theorem earliest_of_fireAtOrAfter (ht : t.OnClock) {fire : Option Instant}
    (hrecurs : fire = none → s.Recurs) (h : s.fireAtOrAfter t = .ok fire) :
    Instant.Earliest (fun f => s.IsFire f ∧ t ≤ f) fire := by
  unfold fireAtOrAfter at h
  cases hrepeats : s.repeats with
  | true =>
    rw [if_pos hrepeats] at h
    refine (earliest_of_search hs hclock (ht.later hclock) hrecurs h).congr fun f => ?_
    rw [Instant.later_le_iff]
    constructor
    · rintro ⟨hoccasion, hle, -⟩
      exact ⟨⟨hoccasion, fun hfalse => by rw [hrepeats] at hfalse; cases hfalse⟩, hle⟩
    · rintro ⟨⟨hoccasion, -⟩, hle⟩
      exact ⟨hoccasion, hle, hoccasion.start_le⟩
  | false =>
    rw [if_neg (by simp [hrepeats]), Fallible.map_eq_ok_iff] at h
    obtain ⟨first, hfirst, rfl⟩ := h
    cases first with
    | none =>
      have hearliest := earliest_of_firstFire hs hclock (fun _ => hrecurs rfl) hfirst
      exact fun g hg => hearliest g hg.1
    | some f =>
      -- The only fire is the first one, and it is kept if it does not come too early.
      have hsome : some f = none → s.Recurs := fun hnone => by cases hnone
      obtain ⟨hfire, hleast⟩ := earliest_of_firstFire hs hclock hsome hfirst
      have honly : ∀ g, s.IsFire g → g = f := fun g hg =>
        le_antisymm (hg.2 hrepeats f hfire.1) (hleast g hg)
      by_cases hle : t ≤ f
      · rw [Option.filter_some_pos (by simpa using hle)]
        exact ⟨⟨hfire, hle⟩, fun g hg => (honly g hg.1).ge⟩
      · rw [Option.filter_some_neg (by simpa using hle)]
        rintro g ⟨hg, hge⟩
        exact hle (honly g hg ▸ hge)

end

/-- The lookup of the first fire after a point, for a schedule that starts outside leap
seconds. -/
theorem earliest_of_nextFire (hs : s.WellFormed) (hordinary : s.IsOrdinary)
    {fire : Option Instant} (h : s.nextFire t = .ok fire) :
    Instant.Earliest (fun f => s.IsFire f ∧ t < f) fire := by
  have hleap := hordinary.noLeap
  refine (earliest_of_fireAtOrAfter hs (onClock_of_noLeap hleap) (Instant.onClock_next t)
    (fun _ => hordinary.recurs hs) h).congr fun f => ?_
  refine and_congr_right fun hfire => ?_
  obtain ⟨k, hcandidate⟩ := hfire.1.candidate
  have hnanos : f.nanos < Instant.nanosPerSecond := by
    rw [candidate_eq hleap hcandidate]
    simpa [Instant.inLeapSecond] using hleap
  exact (Instant.lt_iff_next_le hnanos).symm

end Schedule

end PipelineEngine
