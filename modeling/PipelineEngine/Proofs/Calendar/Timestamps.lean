import PipelineEngine.Calendar.Timestamp
import PipelineEngine.Proofs.Calendar.Instants
import PipelineEngine.Proofs.Text.Numerals
import PipelineEngine.Proofs.Text.Trimmed

/-!
# Timestamps that are written and read

The point of time of an event is read from the text that it is written as, also in years of more
than four digits and in leap seconds.

* `Instant.IsValid`: the points that there are.
* `Reader.Takes`: what a reader takes off the front of a text, one lemma for each reader.
* `Instant.ofEvent?_zuluText` is the main statement.
-/

namespace PipelineEngine.Instant

/-- A point lies in the calendar, and a leap second comes at the end of a minute. -/
structure IsValid (t : Instant) : Prop where
  inCalendar : t.inCalendar = true
  nanos : t.nanos < nanosPerSecond ∨ t.nanos < 2 * nanosPerSecond ∧ t.secondOfDay % 60 = 59

/-! ## Readers -/

namespace Reader

variable {α β : Type} {r : Reader α} {a : α} {b : β} {text rest rest' : List Char}

/-- A reader reads `a` and leaves `rest`. -/
def Takes (r : Reader α) (text : List Char) (a : α) (rest : List Char) : Prop :=
  r text = some (a, rest)

theorem takes_pure {a' : α} (h : a = a') (text : List Char) :
    Takes (pure a : Reader α) text a' text := by
  rw [h]
  rfl

theorem takes_lift {x : Option α} (h : x = some a) (text : List Char) :
    Takes (liftM x : Reader α) text a text := by
  rw [h]
  rfl

theorem Takes.bind {f : α → Reader β} (h : Takes r text a rest) (h' : Takes (f a) rest b rest') :
    Takes (r >>= f) text b rest' := by
  show (r text).bind (fun p => f p.1 p.2) = some (b, rest')
  rw [h]
  exact h'

theorem takes_mark (c : Char) (rest : List Char) : Takes (mark c) (c :: rest) () rest := by
  simp [Takes, mark]

theorem takes_oneOf {c : Char} {cs : List Char} (h : c ∈ cs) (rest : List Char) :
    Takes (oneOf cs) (c :: rest) c rest := by
  simp [Takes, oneOf, h]

/-- Blanks may be left out. -/
theorem takes_blanks (h : ∀ c ∈ text.head?, Text.isBlank c = false) : Takes blanks text () text :=
  congrArg (fun s => some ((), s)) (Text.trimStart_eq_self h)

/-- A number of digits that nothing follows which could belong to it. -/
theorem takes_number {least most n : Nat} {digits : List Char} (hleast : least ≤ digits.length)
    (hmost : digits.length ≤ most) (hn : Numeral.digits? 10 digits = some n)
    (hrest : ∀ c ∈ (rest.take (most - digits.length)).head?, Numeral.isDigit c = false) :
    Takes (number least most) (digits ++ rest) n rest := by
  have htake : ((digits ++ rest).take most).takeWhile Numeral.isDigit = digits := by
    rw [List.take_append, List.take_of_length_le hmost]
    exact takeWhile_word (Numeral.isDigit_of_digits? hn).2 hrest
  simp only [Takes, number, htake, if_neg (Nat.not_lt.2 hleast), hn, Option.map_some,
    List.drop_left]

/-- There are no blanks in front of a numeral. -/
theorem takes_blanks_padded (width n : Nat) (rest : List Char) :
    Takes blanks ((Numeral.padded 10 width n).toList ++ rest) ()
      ((Numeral.padded 10 width n).toList ++ rest) := by
  obtain ⟨c, more, heq, hdigit⟩ := Numeral.exists_padded_eq_cons width n
  refine takes_blanks fun d hd => ?_
  rw [heq] at hd
  cases hd
  exact Numeral.isBlank_of_isDigit hdigit

/-- A number of two digits. -/
theorem takes_part {n : Nat} (h : n < 100) (rest : List Char) :
    Takes part ((Numeral.padded 10 2 n).toList ++ rest) n rest := by
  have hlength : (Numeral.padded 10 2 n).toList.length = 2 :=
    Numeral.length_padded (k := 1) (by decide) h
  refine (takes_blanks_padded 2 n rest).bind ?_
  refine takes_number (by omega) hlength.le (Numeral.digits?_padded (by decide) (by decide) 2 n) ?_
  rw [hlength]
  nofun

/-- A number of digits without a bound, up to a hyphen. -/
theorem takes_numeral (width n : Nat) (rest : List Char) :
    Takes numeral ((Numeral.padded 10 width n).toList ++ '-' :: rest) n ('-' :: rest) := by
  have hn := @Numeral.digits?_padded 10 (by decide) (by decide) width n
  obtain ⟨c, more, heq, -⟩ := Numeral.exists_padded_eq_cons width n
  generalize (Numeral.padded 10 width n).toList = digits at hn heq ⊢
  have hlength : digits.length ≤ (digits ++ '-' :: rest).length := by simp
  have hfirst : ∀ c ∈ (('-' :: rest).take ((digits ++ '-' :: rest).length - digits.length)).head?,
      Numeral.isDigit c = false := by
    rw [List.length_append, Nat.add_sub_cancel_left, List.length_cons, List.take_succ_cons]
    rintro c ⟨⟩
    decide
  exact takes_number (by simp [heq]) hlength hn hfirst

/-- A year of four digits, or of any number of digits after a sign. -/
theorem takes_year (y : Int) (rest : List Char) :
    Takes year ((yearText y).toList ++ '-' :: rest) y ('-' :: rest) := by
  by_cases hfour : 0 ≤ y ∧ y ≤ 9999
  · obtain ⟨n, rfl⟩ := Int.eq_ofNat_of_zero_le hfour.1
    have hlength : (Numeral.padded 10 4 n).toList.length = 4 :=
      Numeral.length_padded (k := 3) (by decide) (by omega)
    have hnumber : Takes (number 1 4) ((Numeral.padded 10 4 n).toList ++ '-' :: rest) n
        ('-' :: rest) :=
      takes_number (by omega) hlength.le (Numeral.digits?_padded (by decide) (by decide) 4 n)
        (by rw [hlength]; nofun)
    rw [yearText, if_pos hfour, Int.toNat_natCast]
    refine (takes_blanks_padded 4 n _).bind (Takes.bind (r := get) rfl ?_)
    -- A digit is no sign.
    obtain ⟨c, more, heq, hdigit⟩ := Numeral.exists_padded_eq_cons 4 n
    split
    · rename_i hsign
      rw [heq] at hsign
      cases hsign
      exact absurd hdigit (by decide)
    · rename_i hsign
      rw [heq] at hsign
      cases hsign
      exact absurd hdigit (by decide)
    · exact hnumber.bind (takes_pure rfl _)
  · rw [yearText, if_neg hfour]
    have hnumeral := takes_numeral 4 y.natAbs rest
    by_cases hneg : y < 0
    · have hy : -(y.natAbs : Int) = y := by omega
      rw [if_pos hneg, String.toList_append, List.append_assoc]
      refine (takes_blanks (by rintro c ⟨⟩; decide)).bind (Takes.bind (r := get) rfl ?_)
      exact Takes.bind (r := set _) rfl (hnumeral.bind (takes_pure hy _))
    · have hy : (y.natAbs : Int) = y := by omega
      rw [if_neg hneg, String.toList_append, List.append_assoc]
      refine (takes_blanks (by rintro c ⟨⟩; decide)).bind (Takes.bind (r := get) rfl ?_)
      exact Takes.bind (r := set _) rfl (hnumeral.bind (takes_pure hy _))

/-- A fraction of some digits before the zone. -/
theorem takes_digits {k m n : Nat} (hlow : 1 ≤ k) (hhigh : k ≤ 9) (hm : m < 10 ^ k)
    (hn : m * 10 ^ (9 - k) = n) :
    Takes fraction ("." ++ Numeral.padded 10 k m ++ "Z").toList n ['Z'] := by
  have htext : ("." ++ Numeral.padded 10 k m ++ "Z").toList =
      '.' :: ((Numeral.padded 10 k m).toList ++ ['Z']) := by simp
  have hlength : (Numeral.padded 10 k m).toList.length = k := by
    obtain ⟨j, rfl⟩ := Nat.exists_eq_add_of_le' hlow
    exact Numeral.length_padded (by decide) hm
  have hzone : ∀ c ∈ (['Z'].take (9 - (Numeral.padded 10 k m).toList.length)).head?,
      Numeral.isDigit c = false := by
    intro c hc
    obtain rfl := List.mem_singleton.1 (List.mem_of_mem_take (List.mem_of_mem_head? hc))
    decide
  have hnumber : Takes (number 1 9) ((Numeral.padded 10 k m).toList ++ ['Z']) m ['Z'] :=
    takes_number (by omega) (by omega) (Numeral.digits?_padded (by decide) (by decide) _ m) hzone
  have hdigits : ((Numeral.padded 10 k m).toList ++ ['Z']).length - ['Z'].length = k := by
    rw [List.length_append, hlength, Nat.add_sub_cancel]
  rw [htext]
  refine Takes.bind (r := get) rfl (Takes.bind (r := set _) rfl (hnumber.bind ?_))
  refine Takes.bind (r := get) rfl (Takes.bind (r := skip _) rfl (takes_pure ?_ _))
  rw [hdigits]
  exact hn

/-- The fraction of a second before the zone. -/
theorem takes_fraction {nanos : Nat} (h : nanos < nanosPerSecond) :
    Takes fraction (fractionText nanos ++ "Z").toList nanos ['Z'] := by
  unfold nanosPerSecond at h
  by_cases hzero : nanos = 0
  · rw [fractionText, if_pos hzero, hzero]
    exact Takes.bind (r := get) rfl (takes_pure rfl _)
  rw [fractionText, if_neg hzero]
  by_cases hmillis : nanos % 1000000 = 0
  · rw [if_pos hmillis]
    exact takes_digits (by decide) (by decide) (by omega) (by omega)
  rw [if_neg hmillis]
  by_cases hmicros : nanos % 1000 = 0
  · rw [if_pos hmicros]
    exact takes_digits (by decide) (by decide) (by omega) (by omega)
  · rw [if_neg hmicros]
    exact takes_digits (by decide) (by decide) (by omega) (by omega)

theorem takes_zone : Takes zone ['Z'] 0 [] := rfl

end Reader

/-! ## Points of time -/

variable {t : Instant}

/-- The second that is written, and the nanoseconds behind it. -/
def writtenSecond (t : Instant) : Nat × Nat :=
  if t.inLeapSecond then (t.secondOfDay % 60 + 1, t.nanos - nanosPerSecond)
  else (t.secondOfDay % 60, t.nanos)

/-- A leap second is written as the second 60. -/
theorem IsValid.writtenSecond (h : t.IsValid) :
    t.writtenSecond.2 < nanosPerSecond ∧
      (t.writtenSecond = (t.secondOfDay % 60, t.nanos) ∨ t.secondOfDay % 60 = 59 ∧
        t.writtenSecond.1 = 60 ∧ t.writtenSecond.2 + nanosPerSecond = t.nanos) := by
  have hnanos := h.nanos
  unfold Instant.writtenSecond inLeapSecond
  split
  · rename_i hleap
    have hleap := of_decide_eq_true hleap
    have hpos : 0 < nanosPerSecond := by decide
    have hbehind : t.nanos - nanosPerSecond < nanosPerSecond := by omega
    have hlast : t.secondOfDay % 60 = 59 := by omega
    exact ⟨hbehind, .inr ⟨hlast, by rw [hlast], Nat.sub_add_cancel hleap⟩⟩
  · rename_i hleap
    exact ⟨not_le.1 fun hle => hleap (decide_eq_true hle), .inl rfl⟩

/-- The parts of a clock have two digits. -/
theorem clock_bounds (t : Instant) : t.hour ≤ 23 ∧ t.minute ≤ 59 ∧ t.secondOfDay % 60 < 60 ∧
    t.hour * 3600 + t.minute * 60 + t.secondOfDay % 60 = t.secondOfDay := by
  have hlt := secondOfDay_lt t
  unfold hour minute
  unfold secondsPerDay at hlt
  omega

/-- The date of a point and its second of the day are all there is to its seconds. -/
theorem onDate_date (t : Instant) : onDate t.date t.secondOfDay t.nanos = t := by
  have hday : t.date.dayNumber * secondsPerDay + t.secondOfDay = t.seconds := by
    rw [date, (Date.ofDayNumber_spec _).2, secondOfDay]
    unfold secondsPerDay
    omega
  rw [onDate, hday]

/-- The date of a point in the calendar is a date of the calendar. -/
theorem IsValid.ofParts?_date (h : t.IsValid) :
    t.date.IsValid ∧ Date.ofParts? t.date.year t.date.month t.date.day = some t.date := by
  have hdate : t.date.IsValid := (Date.ofDayNumber_spec _).1
  have hyear := year_date t
  obtain ⟨hfirst, hlast⟩ := monthIndex_bounds h.inCalendar
  exact ⟨hdate, hdate.ofParts? (by omega) (by omega)⟩

/-- The written parts of a point of time are put together again. -/
theorem IsValid.ofParts? (h : t.IsValid) :
    Instant.ofParts? t.date.year t.date.month t.date.day t.hour t.minute t.writtenSecond.1
      t.writtenSecond.2 = some t := by
  obtain ⟨hhour, hminute, hsecond, hsum⟩ := clock_bounds t
  have hparts := h.ofParts?_date.2
  obtain ⟨-, hwritten | ⟨hlast, hsixty, hnanos⟩⟩ := h.writtenSecond
  · simp only [Instant.ofParts?, hparts, hwritten, Option.bind_eq_bind, Option.bind_some, hhour,
      hminute, hsecond.le, hsecond.ne, and_self, if_true, if_false, hsum, onDate_date]
  · rw [hlast] at hsum
    simp only [Instant.ofParts?, hparts, Option.bind_eq_bind, Option.bind_some, hhour, hminute,
      hsixty, le_refl, and_self, if_true, hnanos, hsum, onDate_date]

theorem IsValid.ahead? (h : t.IsValid) : t.ahead? 0 = some t := by
  have heq : (⟨t.seconds - 0, t.nanos⟩ : Instant) = t := by rw [Int.sub_zero]
  rw [Instant.ahead?, heq, h.inCalendar]
  rfl

open Reader in
/-- The point of time of an event is read from the text that it is written as. -/
theorem ofEvent?_zuluText (h : t.IsValid) : ofEvent? t.zuluText = some t := by
  have htext : t.zuluText.toList = (yearText t.date.year).toList ++ '-' ::
      ((Numeral.padded 10 2 t.date.month).toList ++ '-' ::
        ((Numeral.padded 10 2 t.date.day).toList ++ 'T' ::
          ((Numeral.padded 10 2 t.hour).toList ++ ':' ::
            ((Numeral.padded 10 2 t.minute).toList ++ ':' ::
              ((Numeral.padded 10 2 t.writtenSecond.1).toList ++
                (fractionText t.writtenSecond.2 ++ "Z").toList))))) := by
    simp [zuluText, text, dateText, clockText, writtenSecond]
  have hdate := h.ofParts?_date.1
  have hmonth := hdate.month_le
  have hday := hdate.day_le.trans (Date.monthLength_bounds _ _).2
  obtain ⟨hhour, hminute, hclock, -⟩ := clock_bounds t
  obtain ⟨hnanos, hwritten⟩ := h.writtenSecond
  have hsecond : t.writtenSecond.1 < 100 := by
    rcases hwritten with hwritten | ⟨-, hsixty, -⟩
    · rw [hwritten]
      exact hclock.trans (by decide)
    · rw [hsixty]
      decide
  have hread : Takes lenient t.zuluText.toList t [] := by
    rw [htext]
    refine (takes_year _ _).bind ?_
    refine (takes_blanks (by rintro c ⟨⟩; decide)).bind ((takes_mark _ _).bind ?_)
    refine (takes_part (by omega) _).bind ?_
    refine (takes_blanks (by rintro c ⟨⟩; decide)).bind ((takes_mark _ _).bind ?_)
    refine (takes_part (by omega) _).bind ((takes_oneOf (by decide) _).bind ?_)
    refine (takes_part (by omega) _).bind ?_
    refine (takes_blanks (by rintro c ⟨⟩; decide)).bind ((takes_mark _ _).bind ?_)
    refine (takes_part (by omega) _).bind ?_
    refine (takes_blanks (by rintro c ⟨⟩; decide)).bind ((takes_mark _ _).bind ?_)
    refine (takes_part hsecond _).bind ((takes_fraction hnanos).bind ?_)
    refine (takes_blanks (by rintro c ⟨⟩; decide)).bind (takes_zone.bind ?_)
    refine (@takes_blanks [] (by simp)).bind ?_
    exact (takes_lift h.ofParts? _).bind (takes_lift h.ahead? _)
  rw [ofEvent?, whole?, hread]

end PipelineEngine.Instant
