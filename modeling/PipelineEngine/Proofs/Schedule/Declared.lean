import Mathlib.Data.List.Nodup
import PipelineEngine.Proofs.Fields
import PipelineEngine.Proofs.Model.Linked
import PipelineEngine.Proofs.Schedule.Lookup

/-!
# The schedules that jobs declare

Every reader of timestamps ends with a check that the point lies in the calendar, and no
frequency counts in steps of nothing, so the schedules of jobs are well formed.  What a clock
cannot show no timestamp denotes.

* `Schedule.wellFormed_of_ofJob`, `onClock_of_ofJob`.
* `Document.schedule?_of_mem`: a linked model has the schedule of each of its jobs.
-/

namespace PipelineEngine

/-- A numeral with some digits lies below the power of the base with that exponent. -/
theorem Numeral.lt_of_digits? {base n : Nat} {digits : List Char}
    (h : Numeral.digits? base digits = some n) : n < base ^ digits.length := by
  have hfrom : ∀ {acc : Nat} {digits : List Char}, digitsFrom base acc digits = some n →
      n < (acc + 1) * base ^ digits.length := by
    intro acc digits h
    induction digits generalizing acc with
    | nil =>
      cases h
      simp
    | cons c rest ih =>
      obtain ⟨d, hd, h⟩ := Option.bind_eq_some_iff.1 h
      have hdigit : d < base := by simpa using (Option.filter_eq_some_iff.1 hd).2
      calc n < (acc * base + d + 1) * base ^ rest.length := ih h
        _ ≤ (acc + 1) * base * base ^ rest.length := by
          refine Nat.mul_le_mul_right _ ?_
          rw [Nat.add_mul]
          omega
        _ = (acc + 1) * base ^ (c :: rest).length := by
          rw [List.length_cons, Nat.pow_succ', Nat.mul_assoc]
  unfold digits? at h
  split at h
  · cases h
  · simpa using hfrom h

namespace Instant

/-- The parts of a date and a time give a point in the calendar. -/
theorem inCalendar_of_ofParts? {year : Int} {month day hour minute second nanos : Nat} {t : Instant}
    (h : ofParts? year month day hour minute second nanos = some t) : t.inCalendar = true := by
  unfold ofParts? at h
  rw [Option.bind_eq_bind, Option.bind_eq_some_iff] at h
  obtain ⟨d, hd, h⟩ := h
  obtain ⟨-, hvalid, hfirst, hlast⟩ := Date.isValid_of_ofParts? hd
  obtain ⟨hnumber, hlength⟩ := Date.dayNumber_eq hvalid
  have hyear := hvalid.year_eq
  have hday := hvalid.day_pos
  have hnext := Date.monthFirst_succ d.monthIndex
  have hlow := Date.monthFirst_mono (show Date.firstYear * 12 ≤ d.monthIndex by omega)
  have hhigh := Date.monthFirst_mono (show d.monthIndex + 1 ≤ (Date.lastYear + 1) * 12 by omega)
  have hfirstSecond : firstSecond = Date.monthFirst (Date.firstYear * 12) * secondsPerDay := rfl
  have hlastSecond :
      lastSecond = Date.monthFirst ((Date.lastYear + 1) * 12) * secondsPerDay - 1 := rfl
  have hwithin : ∀ second : Nat, second < 86400 →
      ∀ nanos, (onDate d second nanos).inCalendar = true := by
    intro second hsecond nanos
    unfold inCalendar onDate secondsPerDay at *
    rw [Bool.and_eq_true, decide_eq_true_eq, decide_eq_true_eq]
    dsimp only
    omega
  split at h
  · rename_i htime
    split at h <;> cases h <;> exact hwithin _ (by omega) _
  · cases h

theorem inCalendar_of_ahead? {t u : Instant} {offset : Int} (h : ahead? t offset = some u) :
    u.inCalendar = true := by
  unfold ahead? at h
  simp only at h
  split at h
  · rename_i hcalendar
    cases h
    exact (Bool.and_eq_true_iff.1 hcalendar).2
  · cases h

namespace Reader

/-- The result of two readers is that of the second one after that of the first. -/
theorem exists_of_bind {α β : Type} {x : Reader α} {f : α → Reader β} {s s' : List Char} {b : β}
    (h : (x >>= f) s = some (b, s')) : ∃ a s₁, x s = some (a, s₁) ∧ f a s₁ = some (b, s') := by
  have hbind : (x s).bind (fun p => f p.1 p.2) = some (b, s') := h
  obtain ⟨⟨a, s₁⟩, hx, hf⟩ := Option.bind_eq_some_iff.1 hbind
  exact ⟨a, s₁, hx, hf⟩

theorem of_lift {α : Type} {x : Option α} {s s' : List Char} {a : α}
    (h : (liftM x : Reader α) s = some (a, s')) : x = some a := by
  have hmap : x.bind (fun b => some (b, s)) = some (a, s') := h
  obtain ⟨b, hb, heq⟩ := Option.bind_eq_some_iff.1 hmap
  cases heq
  exact hb

end Reader

open Reader

/-- The time of day of a point that is made of its parts shows less than two seconds of
nanoseconds. -/
theorem onClock_of_ofParts? {year : Int} {month day hour minute second nanos : Nat} {t : Instant}
    (hnanos : nanos < nanosPerSecond)
    (h : ofParts? year month day hour minute second nanos = some t) : t.OnClock := by
  unfold ofParts? at h
  rw [Option.bind_eq_bind, Option.bind_eq_some_iff] at h
  obtain ⟨d, -, h⟩ := h
  unfold OnClock
  split at h
  · split at h <;> cases h <;> dsimp only [onDate] <;> omega
  · cases h

theorem onClock_of_ahead? {t u : Instant} {offset : Int} (ht : t.OnClock)
    (h : ahead? t offset = some u) : u.OnClock := by
  unfold ahead? at h
  simp only at h
  split at h
  · cases h
    exact ht
  · cases h

/-- A number that was read has some digits, and what is left stands after these. -/
theorem of_number {least most : Nat} {s s' : List Char} {n : Nat}
    (h : number least most s = some (n, s')) :
    ∃ count ≤ most, count ≤ s.length ∧ n < 10 ^ count ∧ s' = s.drop count := by
  unfold number at h
  simp only at h
  split at h
  · cases h
  · obtain ⟨n', hdigits, heq⟩ := Option.map_eq_some_iff.1 h
    cases heq
    have hle := (List.takeWhile_prefix (l := s.take most) Numeral.isDigit).length_le
    rw [List.length_take] at hle
    exact ⟨_, by omega, by omega, Numeral.lt_of_digits? hdigits, rfl⟩

/-- A fraction of a second is less than a second. -/
theorem lt_of_fraction {s s' : List Char} {n : Nat} (h : fraction s = some (n, s')) :
    n < nanosPerSecond := by
  unfold fraction at h
  obtain ⟨front, s₁, -, h⟩ := exists_of_bind h
  split at h
  · rename_i rest
    obtain ⟨_, _, hset, h⟩ := exists_of_bind h
    obtain ⟨digits, after, hnumber, h⟩ := exists_of_bind h
    obtain ⟨_, _, hget, h⟩ := exists_of_bind h
    obtain ⟨_, _, -, h⟩ := exists_of_bind h
    cases hset
    cases hget
    cases h
    obtain ⟨count, hcount, hwithin, hdigits, rfl⟩ := of_number hnumber
    have hread : rest.length - (rest.drop count).length = count := by
      rw [List.length_drop]
      omega
    rw [hread]
    calc digits * Nat.pow 10 (9 - count) < 10 ^ count * 10 ^ (9 - count) :=
          Nat.mul_lt_mul_of_pos_right hdigits (Nat.pow_pos (by decide))
      _ = nanosPerSecond := by rw [← Nat.pow_add, Nat.add_sub_cancel' hcount]; rfl
  · cases h
    decide

/-- What RFC 3339 denotes is a point that a clock can show, in the calendar. -/
theorem of_rfc3339 {s s' : List Char} {t : Instant} (h : rfc3339 s = some (t, s')) :
    t.inCalendar = true ∧ t.OnClock := by
  unfold rfc3339 at h
  iterate 11 obtain ⟨_, _, -, h⟩ := exists_of_bind h
  obtain ⟨nanos, _, hfraction, h⟩ := exists_of_bind h
  obtain ⟨_, _, -, h⟩ := exists_of_bind h
  obtain ⟨t', _, ht, h⟩ := exists_of_bind h
  have hclock := onClock_of_ofParts? (lt_of_fraction hfraction) (of_lift ht)
  exact ⟨inCalendar_of_ahead? (of_lift h), onClock_of_ahead? hclock (of_lift h)⟩

/-- Dates and times without an offset and without fractions. -/
theorem of_ofParts? {year : Int} {month day hour minute second : Nat} {t : Instant}
    (h : ofParts? year month day hour minute second 0 = some t) :
    t.inCalendar = true ∧ t.OnClock :=
  ⟨inCalendar_of_ofParts? h, onClock_of_ofParts? (by decide) h⟩

theorem of_dateTime {between : Reader Unit} {seconds : Bool} {s s' : List Char}
    {t : Instant} (h : dateTime between seconds s = some (t, s')) :
    t.inCalendar = true ∧ t.OnClock := by
  unfold dateTime at h
  iterate 5 obtain ⟨_, _, -, h⟩ := exists_of_bind h
  dsimp only at h
  split at h
  · iterate 2 obtain ⟨_, _, -, h⟩ := exists_of_bind h
    exact of_ofParts? (of_lift h)
  · obtain ⟨_, _, -, h⟩ := exists_of_bind h
    exact of_ofParts? (of_lift h)

theorem of_dateOnly {s s' : List Char} {t : Instant} (h : dateOnly s = some (t, s')) :
    t.inCalendar = true ∧ t.OnClock := by
  unfold dateOnly at h
  obtain ⟨_, _, -, h⟩ := exists_of_bind h
  exact of_ofParts? (of_lift h)

/-- What a timestamp of a job denotes is a point that a clock can show, in the calendar. -/
theorem of_parse? {text : String} {t : Instant} (h : parse? text = some t) :
    t.inCalendar = true ∧ t.OnClock := by
  unfold parse? at h
  obtain ⟨r, hr, hwhole⟩ := List.exists_of_findSome?_eq_some h
  obtain ⟨s', hread⟩ : ∃ s', r (Text.trim text.toList) = some (t, s') := by
    unfold Reader.whole? at hwhole
    split at hwhole
    · rename_i hread
      cases hwhole
      exact ⟨_, hread⟩
    · cases hwhole
  simp only [List.mem_cons, List.not_mem_nil, or_false] at hr
  rcases hr with rfl | rfl | rfl | rfl | rfl
  · exact of_rfc3339 hread
  · exact of_dateTime hread
  · exact of_dateTime hread
  · exact of_dateTime hread
  · exact of_dateOnly hread

end Instant

/-- A frequency counts in steps of one unit at least and of as many as a word can hold at
most. -/
theorem Frequency.multiple_bounds_of_parse {unit : IntervalUnit} {text : Option String}
    {q : Frequency} (h : parse unit text = .ok q) :
    0 < q.multiple ∧ q.multiple < Word.bound 32 := by
  have hone : 0 < 1 ∧ 1 < Word.bound 32 := by decide
  have hread : ∀ {s : List Char} {q : Frequency}, read unit s = .ok q →
      0 < q.multiple ∧ q.multiple < Word.bound 32 := by
    intro s q hread
    unfold read at hread
    split at hread
    · obtain ⟨places, -, rfl⟩ := Fallible.map_eq_ok_iff.1 hread
      exact hone
    · split at hread
      · cases hread
      · cases hread
      · rename_i n hzero hnumber
        cases hread
        have hbound : n < Word.bound 32 := by
          simpa using (Option.filter_eq_some_iff.1 hnumber).2
        exact ⟨Nat.pos_of_ne_zero fun h => hzero (h ▸ rfl), hbound⟩
  unfold parse at h
  simp only at h
  split at h
  · cases h
    exact hone
  · exact hread (Fallible.mapError_eq_ok_iff.1 h)

/-- The start of a job's schedule is that of its timestamp, and its frequency was read. -/
theorem Schedule.parse_of_ofJob {j : Job} {s : Schedule} (h : ofJob j = .ok s) :
    Instant.parse? j.start = some s.start ∧
      ∃ unit, Frequency.parse unit j.frequency = .ok s.frequency := by
  have hrest : ∀ {start : Instant} {stop : Option Instant},
      (do
        let unit ← IntervalUnit.parse j.interval
        let frequency ← Frequency.parse unit j.frequency
        return (⟨start, stop, unit, frequency, j.repeats⟩ : Schedule)) = .ok s →
        s.start = start ∧ ∃ unit, Frequency.parse unit j.frequency = .ok s.frequency := by
    intro start stop hread
    rw [Fallible.bind_eq_ok_iff] at hread
    obtain ⟨unit, -, hread⟩ := hread
    rw [Fallible.bind_eq_ok_iff] at hread
    obtain ⟨frequency, hfrequency, hread⟩ := hread
    cases hread
    exact ⟨rfl, unit, hfrequency⟩
  unfold ofJob at h
  dsimp only at h
  cases hstart : Instant.parse? j.start with
  | none =>
    rw [hstart] at h
    cases h
  | some start =>
    simp only [hstart, Fallible.bind_eq_ok_iff, Except.ok.injEq, exists_eq_left'] at h
    -- The end of the schedule may be absent or read; what comes after it is the same.
    have hdone : s.start = start ∧ ∃ unit, Frequency.parse unit j.frequency = .ok s.frequency := by
      split at h
      · obtain ⟨stop, -, h⟩ := Fallible.bind_eq_ok_iff.1 h
        split at h
        · cases h
        · exact hrest h
      · split at h
        · obtain ⟨stop, -, h⟩ := Fallible.bind_eq_ok_iff.1 h
          split at h
          · cases h
          · exact hrest h
        · cases h
    exact ⟨congrArg some hdone.1.symm, hdone.2⟩

/-- The schedule of a job is well formed. -/
theorem Schedule.wellFormed_of_ofJob {j : Job} {s : Schedule} (h : ofJob j = .ok s) :
    s.WellFormed := by
  obtain ⟨hstart, unit, hfrequency⟩ := parse_of_ofJob h
  exact ⟨(Frequency.multiple_bounds_of_parse hfrequency).1, (Instant.of_parse? hstart).1⟩

/-- A word can hold the number of units in which a job's schedule counts. -/
theorem Schedule.multiple_lt_of_ofJob {j : Job} {s : Schedule} (h : ofJob j = .ok s) :
    s.frequency.multiple < Word.bound 32 := by
  obtain ⟨-, unit, hfrequency⟩ := parse_of_ofJob h
  exact (Frequency.multiple_bounds_of_parse hfrequency).2

/-- The start of a job's schedule is a point that a clock can show. -/
theorem Schedule.onClock_of_ofJob {j : Job} {s : Schedule} (h : ofJob j = .ok s) :
    s.start.OnClock :=
  (Instant.of_parse? (parse_of_ofJob h).1).2

namespace Document

variable {d : Document} {epoch : Nat} {m : Model}

/-- The jobs of a document without faults have different names, and nothing is wrong with
any of them. -/
theorem jobFaults_of_link (h : d.link epoch = .ok m) :
    (d.jobs.map (·.name)).Nodup ∧ ∀ j ∈ d.jobs, j.faults d = [] := by
  have hjobs := (isFaultless_of_link h).jobs
  rw [jobFaults, List.append_eq_nil_iff, ConfigFault.ofNames_eq_nil_iff,
    List.flatMap_eq_nil_iff] at hjobs
  exact hjobs

/-- A linked model has the schedule that each of its jobs declares. -/
theorem schedule?_of_mem (h : d.link epoch = .ok m) {j : Job} (hj : j ∈ m.document.jobs) :
    ∃ s, Schedule.ofJob j = .ok s ∧ m.schedule? j.name = some s := by
  obtain ⟨hnames, hfaults⟩ := jobFaults_of_link h
  obtain rfl := (link_eq_ok_iff.1 h).2
  have hdeclared : ∃ s, Schedule.ofJob j = .ok s := by
    have hjob := hfaults j hj
    rw [Job.faults, List.append_eq_nil_iff] at hjob
    cases hs : Schedule.ofJob j with
    | error e => simp [hs] at hjob
    | ok s => exact ⟨s, rfl⟩
  obtain ⟨s, hs⟩ := hdeclared
  refine ⟨s, hs, ?_⟩
  show Fields.get? d.schedules j.name = some s
  rw [schedules, Fields.ofList, Fields.get?_extend, Fields.get?_nil, Option.or_none]
  generalize hpairs : (d.jobs.filterMap fun j =>
    (Schedule.ofJob j).toOption.map fun s => (j.name, s)).reverse = pairs
  have hmem : ∀ pair, pair ∈ pairs ↔ ∃ j ∈ d.jobs,
      (Schedule.ofJob j).toOption.map (fun s => (j.name, s)) = some pair := by
    intro pair
    rw [← hpairs, List.mem_reverse, List.mem_filterMap]
  have hsome : (Fields.get? pairs j.name).isSome := by
    rw [Fields.isSome_get?_iff]
    exact List.mem_map.2 ⟨(j.name, s), (hmem _).2 ⟨j, hj, by rw [hs]; rfl⟩, rfl⟩
  obtain ⟨s', hs'⟩ := Option.isSome_iff_exists.1 hsome
  -- No other job has the name.
  obtain ⟨j', hj', hpair⟩ := (hmem _).1 (Fields.mem_of_get? hs')
  obtain ⟨s'', hs'', heq⟩ := Option.map_eq_some_iff.1 hpair
  obtain ⟨hname, rfl⟩ := Prod.mk.inj heq
  have hsame : j' = j := List.inj_on_of_nodup_map hnames hj' hj hname
  rw [hsame, hs] at hs''
  rw [hs']
  exact hs''.symm

end Document

end PipelineEngine
