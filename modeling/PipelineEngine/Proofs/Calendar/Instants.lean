import Mathlib.Order.Defs.LinearOrder
import PipelineEngine.Proofs.Calendar.Dates
import PipelineEngine.Calendar.Instant

/-!
# The order of instants

Points of time are compared by their second and then by their nanosecond.  Where a leap
second comes in, distances are off by a few seconds and the next nanosecond may lie behind
it; `secondsSince_bounds` and `lt_iff_next_le` say what remains.
-/

namespace PipelineEngine.Instant

variable {t u f : Instant}

theorem lt_iff : t < u ↔ t.seconds < u.seconds ∨ t.seconds = u.seconds ∧ t.nanos < u.nanos := by
  show t.before u = true ↔ _
  simp [before]

theorem le_iff : t ≤ u ↔ t.seconds < u.seconds ∨ t.seconds = u.seconds ∧ t.nanos ≤ u.nanos := by
  show u.before t = false ↔ _
  simp only [before, Bool.or_eq_false_iff, Bool.and_eq_false_iff, decide_eq_false_iff_not]
  omega

instance : LinearOrder Instant where
  le_refl t := le_iff.2 (Or.inr ⟨rfl, Nat.le_refl _⟩)
  le_trans t u f htu huf := by
    rw [le_iff] at htu huf ⊢
    omega
  le_antisymm t u htu hut := by
    rw [le_iff] at htu hut
    obtain ⟨seconds, nanos⟩ := t
    obtain ⟨seconds', nanos'⟩ := u
    simp only [mk.injEq] at htu hut ⊢
    omega
  lt_iff_le_not_ge t u := by
    rw [lt_iff, le_iff, le_iff]
    omega
  le_total t u := by
    rw [le_iff, le_iff]
    omega
  toDecidableLE := inferInstance
  toDecidableEq := inferInstance
  toDecidableLT := inferInstance

/-! ## The later point and the next one -/

theorem later_le_iff : t.later u ≤ f ↔ t ≤ f ∧ u ≤ f := by
  unfold later
  split
  · rename_i hlt
    exact ⟨fun hu => ⟨hlt.le.trans hu, hu⟩, fun h => h.2⟩
  · rename_i hge
    exact ⟨fun ht => ⟨ht, (not_lt.1 hge).trans ht⟩, fun h => h.1⟩

/-- What comes after a point and not in a leap second does not come before the next
point.  The next point may skip a leap second. -/
theorem lt_iff_next_le (hf : f.nanos < nanosPerSecond) : t < f ↔ t.next ≤ f := by
  rw [lt_iff, le_iff]
  unfold next
  split
  · rename_i hcarry
    simp only [Bool.or_eq_true, decide_eq_true_eq] at hcarry
    simp only
    omega
  · rename_i hcarry
    simp only [Bool.or_eq_true, decide_eq_true_eq] at hcarry
    simp only
    omega

/-- The nanoseconds of a clock, those of leap seconds among them. -/
def OnClock (t : Instant) : Prop := t.nanos < 2 * nanosPerSecond

instance (t : Instant) : Decidable t.OnClock := inferInstanceAs (Decidable (_ < _))

theorem onClock_next (t : Instant) : t.next.OnClock := by
  unfold OnClock next
  split
  · show 0 < 2 * nanosPerSecond
    decide
  · rename_i hcarry
    simp only [Bool.or_eq_true, decide_eq_true_eq] at hcarry
    simp only
    omega

theorem lt_next (t : Instant) : t < t.next := by
  rw [lt_iff]
  unfold next
  split
  · dsimp only
    omega
  · dsimp only
    omega

/-- What lies between a point and the next one is the leap second that carries on the second
that the point ends. -/
theorem between_next_iff (ht : t.OnClock) (hf : f.OnClock) :
    t < f ∧ f < t.next ↔
      t.nanos + 1 = nanosPerSecond ∧ f.seconds = t.seconds ∧ f.inLeapSecond = true := by
  have hpositive : 0 < nanosPerSecond := by decide
  rw [lt_iff, lt_iff, inLeapSecond, decide_eq_true_eq]
  unfold OnClock at ht hf
  unfold next
  split
  · rename_i hcarry
    simp only [Bool.or_eq_true, decide_eq_true_eq] at hcarry
    dsimp only
    omega
  · rename_i hcarry
    simp only [Bool.or_eq_true, decide_eq_true_eq] at hcarry
    dsimp only
    omega

theorem OnClock.later (ht : t.OnClock) (hu : u.OnClock) : (t.later u).OnClock := by
  unfold Instant.later
  split
  · exact hu
  · exact ht

theorem OnClock.after (ht : t.OnClock) (n : Nat) : (t.after n).OnClock := by
  unfold OnClock at *
  unfold Instant.after
  split
  · exact Nat.lt_of_le_of_lt (Nat.sub_le _ _) ht
  · exact ht

@[simp] theorem seconds_after (t : Instant) (n : Nat) : (t.after n).seconds = t.seconds + n := by
  unfold Instant.after
  split <;> rfl

/-! ## Distances -/

/-- The seconds from one point to another are those of the clock, but for leap seconds. -/
theorem secondsSince_bounds (ht : t.OnClock) (hu : u.OnClock) :
    t.seconds - u.seconds - 4 ≤ t.secondsSince u ∧
      t.secondsSince u ≤ t.seconds - u.seconds + 4 := by
  have hleap : ∀ p q : Prop, ∀ [Decidable p] [Decidable q],
      -1 ≤ (if p then (1 : Int) else if q then -1 else 0) ∧
        (if p then (1 : Int) else if q then -1 else 0) ≤ 1 := by
    intro p q _ _
    split
    · decide
    · split <;> decide
  obtain ⟨hlow, hhigh⟩ := hleap ((u.secondOfDay < t.secondOfDay && u.inLeapSecond) = true)
    ((t.secondOfDay < u.secondOfDay && t.inLeapSecond) = true)
  have hnanos : (t.seconds - u.seconds - 3) * nanosPerSecond ≤ t.nanosSince u ∧
      t.nanosSince u ≤ (t.seconds - u.seconds + 3) * nanosPerSecond := by
    unfold OnClock nanosPerSecond at *
    unfold nanosSince nanosPerSecond
    simp only
    omega
  unfold secondsSince
  have hsplit := Int.mul_tdiv_add_tmod (t.nanosSince u) nanosPerSecond
  have hrest := Int.tmod_lt_of_pos (t.nanosSince u) (show (0 : Int) < nanosPerSecond by decide)
  have hrest' := Int.lt_tmod_of_pos (t.nanosSince u) (show (0 : Int) < nanosPerSecond by decide)
  unfold nanosPerSecond at *
  omega

/-! ## Days -/

theorem secondOfDay_lt (t : Instant) : (t.secondOfDay : Int) < secondsPerDay := by
  unfold secondOfDay secondsPerDay
  omega

/-- A point lies in the month of its date. -/
theorem monthFirst_le_iff {index : Int} :
    t.date.monthIndex = index ↔
      Date.monthFirst index * secondsPerDay ≤ t.seconds ∧
        t.seconds < Date.monthFirst (index + 1) * secondsPerDay := by
  rw [date, Date.monthIndex_ofDayNumber_iff]
  unfold secondsPerDay
  omega

theorem month_bounds (t : Instant) :
    Date.monthFirst t.date.monthIndex * secondsPerDay ≤ t.seconds ∧
      t.seconds < Date.monthFirst (t.date.monthIndex + 1) * secondsPerDay :=
  monthFirst_le_iff.1 rfl

theorem year_date (t : Instant) : t.date.year = t.date.monthIndex / 12 :=
  (Date.ofDayNumber_spec (t.seconds / secondsPerDay)).1.year_eq

/-- A point in the calendar lies in a month of the calendar. -/
theorem monthIndex_bounds (h : t.inCalendar = true) :
    Date.firstYear * 12 ≤ t.date.monthIndex ∧ t.date.monthIndex < (Date.lastYear + 1) * 12 := by
  simp only [inCalendar, Bool.and_eq_true, decide_eq_true_eq] at h
  have hfirst : firstSecond = Date.monthFirst (Date.firstYear * 12) * secondsPerDay := rfl
  have hlast : lastSecond = Date.monthFirst ((Date.lastYear + 1) * 12) * secondsPerDay - 1 := rfl
  obtain ⟨hlow, hhigh⟩ := month_bounds t
  unfold secondsPerDay at hfirst hlast hlow hhigh
  constructor
  · by_contra hbefore
    have hmono := Date.monthFirst_mono (Int.add_one_le_of_lt (not_le.1 hbefore))
    omega
  · by_contra hafter
    have hmono := Date.monthFirst_mono (not_lt.1 hafter)
    omega

/-- A later point lies in no earlier year. -/
theorem year_mono (h : t ≤ u) : t.date.year ≤ u.date.year := by
  have htYear := year_date t
  have huYear := year_date u
  have hlow := (month_bounds t).1
  have hhigh := (month_bounds u).2
  by_contra hlater
  have hmonth := Date.monthFirst_mono (show u.date.monthIndex + 1 ≤ t.date.monthIndex by omega)
  rw [le_iff] at h
  unfold secondsPerDay at *
  omega

end PipelineEngine.Instant
