import PipelineEngine.Proofs.Schedule.Declared

/-!
# The fires of a schedule, one after another

What the three lookups come to for the schedule of any job, and what is found by looking up
the next fire again and again.  The next fire after a point is looked up from the nanosecond
that follows, and this nanosecond is never one of a leap second: from the last nanosecond before
one, a fire in it is skipped (`Schedule.Skips`).  None is skipped from a fire itself, so the
enumeration of the fires is complete.

* `Schedule.finds_nextFire_iff`: when the lookup of the next fire finds it.
* `Schedule.lists_enumerate`: what the enumeration is.
* `Schedule.lookups_spec` is the main statement.
-/

namespace PipelineEngine

namespace Schedule

variable {s : Schedule} {t f g : Instant} {fire : Option Instant}

/-- What a lookup of the fires with a property is to come to: the earliest of them, or none
when there are none.  A lookup for a schedule that lists places may give up. -/
def Finds (s : Schedule) (p : Instant → Prop) : Option Instant → Prop
  | some f => (s.IsFire f ∧ p f) ∧ ∀ g, s.IsFire g → p g → f ≤ g
  | none => ∀ n, s.frequency = .every n → ∀ g, s.IsFire g → ¬ p g

/-- The point is the last of a second that a leap second carries on with a fire in it. -/
def Skips (s : Schedule) (t : Instant) : Prop :=
  t.nanos + 1 = Instant.nanosPerSecond ∧
    ∃ f, s.IsFire f ∧ f.seconds = t.seconds ∧ f.inLeapSecond = true

/-- At most `n` fires from one on, each looked up as the next one after that before it. -/
def following (s : Schedule) : (n : Nat) → Option Instant → Except SpanOverflow (List Instant)
  | 0, _ => .ok []
  | _ + 1, none => .ok []
  | n + 1, some f => do return f :: (← s.following n (← s.nextFire f))

/-- The first fires, at most `n`. -/
def enumerate (s : Schedule) (n : Nat) : Except SpanOverflow (List Instant) := do
  s.following n (← s.firstFire)

/-- The first `n` fires with a property, in order, or all of them where they are fewer. -/
structure Lists (s : Schedule) (p : Instant → Prop) (n : Nat) (fires : List Instant) : Prop where
  increasing : fires.Pairwise (· < ·)
  sound : ∀ f ∈ fires, s.IsFire f ∧ p f
  /-- A fire that is not listed comes after all that are. -/
  complete : ∀ g, s.IsFire g → p g → g ∈ fires ∨ ∀ f ∈ fires, f < g
  ends : fires.length < n → ∀ m, s.frequency = .every m → ∀ g, s.IsFire g → p g → g ∈ fires

/-! ## Single lookups -/

theorem Finds.of_earliest {p : Instant → Prop} (hs : s.WellFormed)
    (h : (fire = none → s.Recurs) → Instant.Earliest (fun f => s.IsFire f ∧ p f) fire) :
    s.Finds p fire := by
  cases fire with
  | some f =>
    obtain ⟨hfire, hleast⟩ := h fun hnone => by cases hnone
    exact ⟨hfire, fun g hg hp => hleast g ⟨hg, hp⟩⟩
  | none => exact fun n hn g hg hp => h (fun _ => recurs_of_every hs hn) g ⟨hg, hp⟩

/-- Only which fires have the property matters. -/
theorem Finds.congr {p q : Instant → Prop} (h : s.Finds p fire)
    (hpq : ∀ g, s.IsFire g → (p g ↔ q g)) : s.Finds q fire := by
  cases fire with
  | some f =>
    obtain ⟨⟨hfire, hp⟩, hleast⟩ := h
    exact ⟨⟨hfire, (hpq f hfire).1 hp⟩, fun g hg hq => hleast g hg ((hpq g hg).2 hq)⟩
  | none => exact fun n hn g hg hq => h n hn g hg ((hpq g hg).2 hq)

section
variable (hs : s.WellFormed) (hclock : s.start.OnClock)
include hs hclock

theorem finds_firstFire (h : s.firstFire = .ok fire) : s.Finds (fun _ => True) fire :=
  .of_earliest hs fun hrecurs =>
    (earliest_of_firstFire hs hclock hrecurs h).congr fun _ => (and_iff_left trivial).symm

theorem finds_fireAtOrAfter (ht : t.OnClock) (h : s.fireAtOrAfter t = .ok fire) :
    s.Finds (t ≤ ·) fire :=
  .of_earliest hs fun hrecurs => earliest_of_fireAtOrAfter hs hclock ht hrecurs h

omit hs in
/-- A clock can show the fires. -/
theorem IsFire.onClock (hf : s.IsFire f) : f.OnClock := by
  obtain ⟨k, hcandidate⟩ := hf.1.candidate
  cases hunit : s.unit.fixedSeconds? with
  | some seconds =>
    obtain ⟨rfl, -, -⟩ := (candidate_of_fixed hunit).1 hcandidate
    exact hclock.after _
  | none =>
    obtain ⟨rfl, -, -⟩ := (candidate_of_calendar hunit).1 hcandidate
    exact hclock

omit hs in
/-- Where no fire is skipped, those after a point are those from the next point on. -/
theorem lt_iff_of_not_skips (ht : t.OnClock) (hskips : ¬ s.Skips t) (hg : s.IsFire g) :
    t < g ↔ t.next ≤ g := by
  constructor
  · intro hlt
    by_contra hbefore
    obtain ⟨hnanos, hsecond, hleap⟩ :=
      (Instant.between_next_iff ht (hg.onClock hclock)).1 ⟨hlt, not_le.1 hbefore⟩
    exact hskips ⟨hnanos, g, hg, hsecond, hleap⟩
  · exact t.lt_next.trans_le

/-- The lookup of the next fire after a point is right unless it skips a fire. -/
theorem finds_nextFire_iff (ht : t.OnClock) (h : s.nextFire t = .ok fire) :
    s.Finds (t < ·) fire ↔
      ¬ s.Skips t ∨ fire = none ∧ ∃ places, s.frequency = .only places := by
  have hfound : s.Finds (t.next ≤ ·) fire :=
    finds_fireAtOrAfter hs hclock (Instant.onClock_next t) h
  constructor
  · intro hfinds
    cases fire with
    | some f =>
      refine Or.inl fun ⟨hnanos, g, hg, hsecond, hleap⟩ => ?_
      obtain ⟨hlt, hbefore⟩ :=
        (Instant.between_next_iff ht (hg.onClock hclock)).2 ⟨hnanos, hsecond, hleap⟩
      exact absurd (hfound.1.2.trans (hfinds.2 g hg hlt)) (not_le.2 hbefore)
    | none =>
      cases hfrequency : s.frequency with
      | only places => exact Or.inr ⟨rfl, places, rfl⟩
      | every n =>
        refine Or.inl fun ⟨hnanos, g, hg, hsecond, hleap⟩ => hfinds n hfrequency g hg ?_
        exact ((Instant.between_next_iff ht (hg.onClock hclock)).2 ⟨hnanos, hsecond, hleap⟩).1
  · rintro (hskips | ⟨rfl, places, hplaces⟩)
    · exact hfound.congr fun g hg => (lt_iff_of_not_skips hclock ht hskips hg).symm
    · intro n hn
      rw [hplaces] at hn
      cases hn

/-! ## Lookups in turn -/

omit hclock in
/-- Fires are a minute apart, so no two of them share a second. -/
theorem IsFire.eq_of_seconds (hf : s.IsFire f) (hg : s.IsFire g) (h : f.seconds = g.seconds) :
    f = g := by
  obtain ⟨k, hk⟩ := hf.1.candidate
  obtain ⟨k', hk'⟩ := hg.1.candidate
  rw [seconds_of_candidate hk, seconds_of_candidate hk'] at h
  rcases Nat.lt_trichotomy k k' with hlt | rfl | hlt
  · have := secondAt_lt hs hlt
    omega
  · exact Option.some.inj (Except.ok.inj (hk.symm.trans hk'))
  · have := secondAt_lt hs hlt
    omega

omit hclock in
/-- No fire is skipped after a fire. -/
theorem IsFire.not_skips (hf : s.IsFire f) : ¬ s.Skips f := by
  rintro ⟨hnanos, g, hg, hsecond, hleap⟩
  obtain rfl : f = g := hf.eq_of_seconds hs hg hsecond.symm
  simp only [Instant.inLeapSecond, decide_eq_true_eq] at hleap
  omega

/-- The fires that are found from one on, when this one is the first of those with a
property. -/
theorem lists_following {p : Instant → Prop} (hup : ∀ f g, f ≤ g → p f → p g) {n : Nat}
    {fires : List Instant} (hfirst : s.Finds p fire) (h : s.following n fire = .ok fires) :
    s.Lists p n fires := by
  induction n generalizing fire p fires with
  | zero =>
    cases h
    exact ⟨.nil, by simp, fun g _ _ => Or.inr (by simp), fun hlt => absurd hlt (Nat.not_lt_zero _)⟩
  | succ n ih =>
    cases fire with
    | none =>
      cases h
      refine ⟨.nil, by simp, fun g _ _ => Or.inr (by simp), fun _ m hm g hg hp => ?_⟩
      exact absurd hp (hfirst m hm g hg)
    | some f =>
      obtain ⟨⟨hfire, hp⟩, hleast⟩ := hfirst
      rw [following, Fallible.bind_eq_ok_iff] at h
      obtain ⟨after, hafter, h⟩ := h
      rw [Fallible.bind_eq_ok_iff] at h
      obtain ⟨rest, hrest, h⟩ := h
      obtain rfl : f :: rest = fires := Except.ok.inj h
      have hnext : s.Finds (f < ·) after :=
        (finds_nextFire_iff hs hclock (hfire.onClock hclock) hafter).2 (Or.inl (hfire.not_skips hs))
      have hlists : s.Lists (f < ·) n rest := ih (fun _ _ hle hlt => hlt.trans_le hle) hnext hrest
      have hafter : ∀ g ∈ rest, f < g := fun g hg => (hlists.sound g hg).2
      refine ⟨List.pairwise_cons.2 ⟨hafter, hlists.increasing⟩, ?_, ?_, ?_⟩
      · intro g hg
        rcases List.mem_cons.1 hg with rfl | hg
        · exact ⟨hfire, hp⟩
        · obtain ⟨hfire', hlt⟩ := hlists.sound g hg
          exact ⟨hfire', hup f g hlt.le hp⟩
      · intro g hg hpg
        rcases (hleast g hg hpg).eq_or_lt with rfl | hlt
        · exact Or.inl List.mem_cons_self
        · rcases hlists.complete g hg hlt with hmem | hlater
          · exact Or.inl (List.mem_cons_of_mem f hmem)
          · exact Or.inr (List.forall_mem_cons.2 ⟨hlt, hlater⟩)
      · intro hfew m hm g hg hpg
        rcases (hleast g hg hpg).eq_or_lt with rfl | hlt
        · exact List.mem_cons_self
        · exact List.mem_cons_of_mem f (hlists.ends (Nat.lt_of_succ_lt_succ hfew) m hm g hg hlt)

/-- The enumeration of the fires. -/
theorem lists_enumerate {n : Nat} {fires : List Instant} (h : s.enumerate n = .ok fires) :
    s.Lists (fun _ => True) n fires := by
  rw [enumerate, Fallible.bind_eq_ok_iff] at h
  obtain ⟨first, hfirst, h⟩ := h
  exact lists_following hs hclock (fun _ _ _ => id) (finds_firstFire hs hclock hfirst) h

end

/-- For the schedule of any job and any point that a clock can show: the first fire, and the
first one at or after the point, are what the lookups find.  The lookup of the first fire
after the point finds it exactly when it skips none.  What is found by looking up the next
fire again and again are the fires in order, none left out and none twice. -/
theorem lookups_spec {j : Job} (h : ofJob j = .ok s) (ht : t.OnClock) :
    (∀ fire, s.firstFire = .ok fire → s.Finds (fun _ => True) fire) ∧
      (∀ fire, s.fireAtOrAfter t = .ok fire → s.Finds (t ≤ ·) fire) ∧
      (∀ fire, s.nextFire t = .ok fire →
        (s.Finds (t < ·) fire ↔
          ¬ s.Skips t ∨ fire = none ∧ ∃ places, s.frequency = .only places)) ∧
      ∀ n fires, s.enumerate n = .ok fires → s.Lists (fun _ => True) n fires := by
  have hs := wellFormed_of_ofJob h
  have hclock := onClock_of_ofJob h
  exact ⟨fun _ => finds_firstFire hs hclock, fun _ => finds_fireAtOrAfter hs hclock ht,
    fun _ => finds_nextFire_iff hs hclock ht, fun _ _ => lists_enumerate hs hclock⟩

/-! ## A start in a leap second -/

/-- A job that starts in the leap second that ended 2016 and fires each minute. -/
def leaping : Job :=
  ⟨"tick", "p", true, true, "2016-12-31T23:59:60Z", none, "minute", none⟩

/-- Its schedule. -/
def leap : Schedule := ⟨⟨1483228799, 1000000000⟩, none, .minute, .every 1, true⟩

/-- After its first fire the next one is found, a minute after the second that the leap second
carries on. -/
theorem lookups_leap :
    ofJob leaping = .ok leap ∧ leap.start.OnClock ∧ ¬ leap.Skips leap.start ∧
      leap.Finds (leap.start < ·) (some ⟨1483228859, 0⟩) := by
  have hjob : ofJob leaping = .ok leap := rfl
  have hclock : leap.start.OnClock := by decide
  have hskips : ¬ leap.Skips leap.start := fun h => absurd h.1 (by decide)
  have hnext : leap.nextFire leap.start = .ok (some ⟨1483228859, 0⟩) := rfl
  obtain ⟨-, -, hafter, -⟩ := lookups_spec hjob hclock
  exact ⟨hjob, hclock, hskips, (hafter _ hnext).2 (Or.inl hskips)⟩

/-- After the nanosecond before the leap second comes the first fire, but the lookup finds the
second one. -/
theorem not_finds_leap :
    ofJob leaping = .ok leap ∧ leap.firstFire = .ok (some leap.start) ∧
      (⟨1483228799, 999999999⟩ : Instant) < leap.start ∧
      leap.nextFire ⟨1483228799, 999999999⟩ = .ok (some ⟨1483228859, 0⟩) ∧
      ¬ leap.Finds (⟨1483228799, 999999999⟩ < ·) (some ⟨1483228859, 0⟩) := by
  have hfirst : leap.firstFire = .ok (some leap.start) := rfl
  have hbefore : (⟨1483228799, 999999999⟩ : Instant) < leap.start := by decide
  have hfire : leap.IsFire leap.start :=
    ⟨⟨⟨0, rfl⟩, le_rfl, rfl, rfl⟩, fun _ g hg => hg.start_le⟩
  refine ⟨rfl, hfirst, hbefore, rfl, fun hfinds => ?_⟩
  exact absurd (hfinds.2 leap.start hfire hbefore) (by decide)

end Schedule

end PipelineEngine
