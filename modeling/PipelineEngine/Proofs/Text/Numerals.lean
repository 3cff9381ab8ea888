import Mathlib.Algebra.Group.Nat.Defs
import Mathlib.Data.List.Basic
import PipelineEngine.Text.Blank
import PipelineEngine.Text.Numeral

/-!
# Numerals that are written and read

A number is read from its text in any base, with zeros in front of it, and from its decimal text
with a sign or without one.

* `Numeral.digitsFrom_digitsIn`, by recursion on the number: its digits, the most significant
  first, are read as the number.
* `Numeral.digits?_padded`: zeros in front make no difference.
* `Numeral.integer?_signed`: an integer is read from the text that `signed` writes.
-/

namespace PipelineEngine.Numeral

theorem digitsFrom_append (base acc : Nat) (s t : List Char) :
    digitsFrom base acc (s ++ t) = (digitsFrom base acc s).bind fun n => digitsFrom base n t := by
  induction s generalizing acc with
  | nil => rfl
  | cons c s ih =>
    simp only [List.cons_append, digitsFrom, ih]
    cases digit? base c <;> rfl

theorem digit?_digitChar {base d : Nat} (hbase : base ≤ 16) (h : d < base) :
    digit? base (digitChar d) = some d := by
  have hall : ∀ d < 16, digit? 16 (digitChar d) = some d := by decide
  have hvalue := (Option.filter_eq_some_iff.1 (hall d (Nat.lt_of_lt_of_le h hbase))).1
  exact Option.filter_eq_some_iff.2 ⟨hvalue, decide_eq_true h⟩

theorem isDigit_digitChar {d : Nat} (h : d < 10) : isDigit (digitChar d) = true := by
  have hall : ∀ d < 10, isDigit (digitChar d) = true := by decide
  exact hall d h

theorem isDigit_of_digit? {c : Char} {d : Nat} (h : digit? 10 c = some d) : isDigit c = true := by
  obtain ⟨hvalue, hlt⟩ := Option.filter_eq_some_iff.1 h
  split at hvalue
  · rename_i hdigit
    simpa [isDigit] using hdigit
  · -- A letter is worth ten or more.
    have hlt : d < 10 := of_decide_eq_true hlt
    split at hvalue
    · cases hvalue
      omega
    · split at hvalue
      · cases hvalue
        omega
      · cases hvalue

/-- A digit is no blank. -/
theorem isBlank_of_isDigit {c : Char} (h : isDigit c = true) : Text.isBlank c = false := by
  simp only [isDigit, Bool.and_eq_true, decide_eq_true_eq, Char.le_def, UInt32.le_iff_toNat_le] at h
  change 48 ≤ c.toNat ∧ c.toNat ≤ 57 at h
  simp only [Text.isBlank, Bool.or_eq_false_iff, Bool.and_eq_false_iff, beq_eq_false_iff_ne,
    decide_eq_false_iff_not]
  omega

theorem isDigit_of_digitsFrom {s : List Char} {acc n : Nat} (h : digitsFrom 10 acc s = some n) :
    ∀ c ∈ s, isDigit c = true := by
  induction s generalizing acc with
  | nil => exact fun c hc => nomatch hc
  | cons c s ih =>
    obtain ⟨d, hd, hrest⟩ := Option.bind_eq_some_iff.1 h
    exact List.forall_mem_cons.2 ⟨isDigit_of_digit? hd, ih hrest⟩

/-- A numeral without a sign has digits, and nothing else. -/
theorem isDigit_of_digits? {s : List Char} {n : Nat} (h : digits? 10 s = some n) :
    s ≠ [] ∧ ∀ c ∈ s, isDigit c = true := by
  rw [digits?] at h
  split at h
  · cases h
  · rename_i hne
    exact ⟨by simpa using hne, isDigit_of_digitsFrom h⟩

/-! ## Digits in a base -/

/-- The digits of a number in a base as characters, the most significant first. -/
def digitsIn (base n : Nat) : List Char := (digitsRev base n).reverse.map digitChar

section
variable {base : Nat}

theorem digitsIn_of_lt {n : Nat} (h : n < base) : digitsIn base n = [digitChar n] := by
  rw [digitsIn, digitsRev, dif_pos (.inr h)]
  rfl

theorem digitsIn_of_le (hbase : 2 ≤ base) {n : Nat} (h : base ≤ n) :
    digitsIn base n = digitsIn base (n / base) ++ [digitChar (n % base)] := by
  rw [digitsIn, digitsRev, dif_neg (by omega), List.reverse_cons, List.map_append]
  rfl

theorem digitsIn_ne_nil (base n : Nat) : digitsIn base n ≠ [] := by
  rw [digitsIn, digitsRev]
  split <;> simp

/-- The characters of a numeral are those of digits. -/
theorem exists_of_mem_digitsIn (hbase : 2 ≤ base) (n : Nat) :
    ∀ c ∈ digitsIn base n, ∃ d < base, c = digitChar d := by
  by_cases h : n < base
  · intro c hc
    exact ⟨n, h, by simpa [digitsIn_of_lt h] using hc⟩
  · intro c hc
    rw [digitsIn_of_le hbase (Nat.le_of_not_lt h), List.mem_append, List.mem_singleton] at hc
    rcases hc with hc | rfl
    · exact exists_of_mem_digitsIn hbase (n / base) c hc
    · exact ⟨n % base, Nat.mod_lt n (by omega), rfl⟩
termination_by n
decreasing_by exact Nat.div_lt_self (by omega) (by omega)

/-- Digits that are read after others shift those to the left. -/
theorem digitsFrom_digitsIn (hlow : 2 ≤ base) (hhigh : base ≤ 16) (acc n : Nat) :
    digitsFrom base acc (digitsIn base n) =
      some (acc * base ^ (digitsIn base n).length + n) := by
  by_cases h : n < base
  · simp [digitsIn_of_lt h, digitsFrom, digit?_digitChar hhigh h]
  · have hrest := digitsFrom_digitsIn hlow hhigh acc (n / base)
    have hmod : n % base < base := Nat.mod_lt n (by omega)
    rw [digitsIn_of_le hlow (Nat.le_of_not_lt h), digitsFrom_append, hrest]
    simp only [Option.bind_some, digitsFrom, digit?_digitChar hhigh hmod,
      List.length_append, List.length_singleton, Nat.pow_succ, Option.some.injEq]
    rw [Nat.add_mul, Nat.mul_assoc, Nat.add_assoc, Nat.mul_comm (n / base), Nat.div_add_mod]
termination_by n
decreasing_by exact Nat.div_lt_self (by omega) (by omega)

/-- No zero stands in front of a number that is not zero. -/
theorem head?_digitsIn_ne (hlow : 2 ≤ base) (hhigh : base ≤ 16) {n : Nat} (hn : 0 < n) :
    (digitsIn base n).head? ≠ some '0' := by
  by_cases h : n < base
  · rw [digitsIn_of_lt h, List.head?_cons]
    intro hzero
    have hdigit := digit?_digitChar hhigh h
    rw [Option.some.inj hzero] at hdigit
    have hvalue := digit?_digitChar hhigh (Nat.lt_of_lt_of_le Nat.two_pos hlow)
    exact Nat.ne_of_gt hn (Option.some.inj (hdigit.symm.trans hvalue))
  · have hdiv : 0 < n / base := Nat.div_pos (Nat.le_of_not_lt h) (by omega)
    have hrest := head?_digitsIn_ne hlow hhigh hdiv
    rwa [digitsIn_of_le hlow (Nat.le_of_not_lt h),
      List.head?_append_of_ne_nil _ (digitsIn_ne_nil base _)]
termination_by n
decreasing_by exact Nat.div_lt_self (by omega) (by omega)

theorem length_digitsIn_le (hbase : 2 ≤ base) {n k : Nat} (h : n < base ^ (k + 1)) :
    (digitsIn base n).length ≤ k + 1 := by
  induction k generalizing n with
  | zero => simp [digitsIn_of_lt (show n < base by simpa using h)]
  | succ k ih =>
    by_cases hn : n < base
    · simp [digitsIn_of_lt hn]
    · have hdiv : n / base < base ^ (k + 1) :=
        Nat.div_lt_of_lt_mul (by rwa [Nat.pow_succ, Nat.mul_comm] at h)
      rw [digitsIn_of_le hbase (Nat.le_of_not_lt hn), List.length_append, List.length_singleton]
      exact Nat.succ_le_succ (ih hdiv)

theorem digitsFrom_replicate_zero (hlow : 2 ≤ base) (hhigh : base ≤ 16) (k : Nat)
    (s : List Char) : digitsFrom base 0 (List.replicate k '0' ++ s) = digitsFrom base 0 s := by
  have hzero : digit? base '0' = some 0 :=
    digit?_digitChar hhigh (Nat.lt_of_lt_of_le Nat.two_pos hlow)
  induction k with
  | zero => rfl
  | succ k ih =>
    rw [List.replicate_succ, List.cons_append, digitsFrom, hzero, Option.bind_some, Nat.zero_mul,
      Nat.zero_add, ih]

theorem toList_padded (base width n : Nat) : (padded base width n).toList =
    List.replicate (width - (digitsIn base n).length) '0' ++ digitsIn base n :=
  String.toList_ofList

/-- A number that is small enough is written in the width that is asked for. -/
theorem length_padded (hbase : 2 ≤ base) {n k : Nat} (h : n < base ^ (k + 1)) :
    (padded base (k + 1) n).toList.length = k + 1 := by
  have hlength := length_digitsIn_le hbase h
  rw [toList_padded, List.length_append, List.length_replicate]
  omega

/-- A number is read from its digits with zeros in front of them. -/
theorem digits?_padded (hlow : 2 ≤ base) (hhigh : base ≤ 16) (width n : Nat) :
    digits? base (padded base width n).toList = some n := by
  have hne := digitsIn_ne_nil base n
  rw [toList_padded, digits?, if_neg (by simp [hne]), digitsFrom_replicate_zero hlow hhigh,
    digitsFrom_digitsIn hlow hhigh, Nat.zero_mul, Nat.zero_add]

/-- The characters of a numeral with zeros in front are those of digits. -/
theorem exists_of_mem_padded (hbase : 2 ≤ base) (width n : Nat) :
    ∀ c ∈ (padded base width n).toList, ∃ d < base, c = digitChar d := by
  intro c hc
  rw [toList_padded, List.mem_append] at hc
  rcases hc with hc | hc
  · exact ⟨0, by omega, List.eq_of_mem_replicate hc⟩
  · exact exists_of_mem_digitsIn hbase n c hc

end

/-! ## Bytes -/

theorem toList_hex (bytes : List UInt8) :
    (hex bytes).toList = bytes.flatMap fun b => (padded 16 2 b.toNat).toList := by
  rw [hex, String.toList_join, List.flatMap_map]

theorem length_hex (bytes : List UInt8) : (hex bytes).toList.length = 2 * bytes.length := by
  rw [toList_hex]
  induction bytes with
  | nil => rfl
  | cons b rest ih =>
    have hbyte : (padded 16 2 b.toNat).toList.length = 2 := length_padded (by decide) b.toNat_lt
    rw [List.flatMap_cons, List.length_append, ih, hbyte, List.length_cons]
    omega

/-- The characters of bytes in hexadecimal are those of digits. -/
theorem exists_of_mem_hex {bytes : List UInt8} {c : Char} (h : c ∈ (hex bytes).toList) :
    ∃ d < 16, c = digitChar d := by
  rw [toList_hex] at h
  obtain ⟨b, -, hc⟩ := List.mem_flatMap.1 h
  exact exists_of_mem_padded (by decide) 2 b.toNat c hc

/-! ## Decimal texts -/

theorem isDigit_of_mem_padded (width n : Nat) :
    ∀ c ∈ (padded 10 width n).toList, isDigit c = true := by
  intro c hc
  obtain ⟨d, hd, rfl⟩ := exists_of_mem_padded (by decide) width n c hc
  exact isDigit_digitChar hd

/-- A numeral starts with a digit. -/
theorem exists_padded_eq_cons (width n : Nat) :
    ∃ c more, (padded 10 width n).toList = c :: more ∧ isDigit c = true := by
  have hne : (padded 10 width n).toList ≠ [] := by simp [toList_padded, digitsIn_ne_nil]
  obtain ⟨c, more, heq⟩ := List.exists_cons_of_ne_nil hne
  exact ⟨c, more, heq, isDigit_of_mem_padded width n c (heq ▸ List.mem_cons_self)⟩

/-- The decimal digits of a number as characters, the most significant first. -/
def digitChars (n : Nat) : List Char := (digitsRev 10 n).reverse.map digitChar

theorem digitChars_of_lt {n : Nat} (h : n < 10) : digitChars n = [digitChar n] :=
  digitsIn_of_lt h

theorem digitChars_ne_nil (n : Nat) : digitChars n ≠ [] := digitsIn_ne_nil 10 n

theorem isDigit_of_mem_digitChars (n : Nat) : ∀ c ∈ digitChars n, isDigit c = true := by
  intro c hc
  obtain ⟨d, hd, rfl⟩ := exists_of_mem_digitsIn (by decide) n c hc
  exact isDigit_digitChar hd

theorem digitsFrom_digitChars (acc n : Nat) :
    digitsFrom 10 acc (digitChars n) = some (acc * 10 ^ (digitChars n).length + n) :=
  digitsFrom_digitsIn (by decide) (by decide) acc n

/-- Zeros before a numeral do not count. -/
theorem digitsFrom_dropWhile_zero (s : List Char) :
    digitsFrom 10 0 (s.dropWhile (· = '0')) = digitsFrom 10 0 s := by
  induction s with
  | nil => rfl
  | cons c s ih =>
    by_cases hc : c = '0'
    · rw [List.dropWhile_cons_of_pos (by simpa using hc), ih, hc]
      rfl
    · rw [List.dropWhile_cons_of_neg (by simpa using hc)]

theorem length_digitChars_le {n k : Nat} (h : n < 10 ^ (k + 1)) :
    (digitChars n).length ≤ k + 1 :=
  length_digitsIn_le (by decide) h

theorem digits?_digitChars (n : Nat) : digits? 10 (digitChars n) = some n := by
  rw [digits?, if_neg (by simp [digitChars_ne_nil]), digitsFrom_digitChars]
  simp

theorem toList_decimal (n : Nat) : (decimal n).toList = digitChars n := by
  have hlength : 1 ≤ (digitChars n).length := List.length_pos_iff.2 (digitChars_ne_nil n)
  show (String.ofList (List.replicate (1 - (digitChars n).length) '0' ++ digitChars n)).toList = _
  rw [Nat.sub_eq_zero_of_le hlength]
  simp

theorem natural?_digitChars (n : Nat) : natural? 10 (digitChars n) = some n := by
  rw [natural?, digits?_digitChars]
  -- A digit is no sign.
  intro rest h
  have hplus := isDigit_of_mem_digitChars n '+' (by simp [h])
  exact absurd hplus (by decide)

theorem toList_signed_neg (n : Nat) : (signed (.negSucc n)).toList = '-' :: digitChars (n + 1) := by
  show ("-" ++ decimal (n + 1)).toList = _
  rw [String.toList_append, toList_decimal]
  rfl

/-- An integer is written as a digit or a minus sign with a digit behind it, and more digits. -/
theorem toList_signed_eq_cons (n : Int) : ∃ c more, (signed n).toList = c :: more ∧
    (isDigit c = true ∨ (c = '-' ∧ more.head?.any isDigit = true)) ∧
    ∀ d ∈ more, isDigit d = true := by
  have hcons : ∀ n, ∃ c more, digitChars n = c :: more ∧ isDigit c = true ∧
      ∀ d ∈ more, isDigit d = true := by
    intro n
    obtain ⟨c, more, heq⟩ := List.exists_cons_of_ne_nil (digitChars_ne_nil n)
    exact ⟨c, more, heq, List.forall_mem_cons.1 (heq ▸ isDigit_of_mem_digitChars n)⟩
  cases n with
  | ofNat n =>
    obtain ⟨c, more, heq, hc, hmore⟩ := hcons n
    exact ⟨c, more, by rw [signed, toList_decimal, heq], .inl hc, hmore⟩
  | negSucc n =>
    obtain ⟨c, more, heq, hc, hmore⟩ := hcons (n + 1)
    refine ⟨'-', c :: more, by rw [toList_signed_neg, heq], .inr ⟨rfl, hc⟩, ?_⟩
    exact List.forall_mem_cons.2 ⟨hc, hmore⟩

theorem integer?_signed (n : Int) : integer? 10 (signed n).toList = some n := by
  cases n with
  | ofNat n =>
    rw [signed, toList_decimal, integer?, natural?_digitChars]
    · rfl
    · intro rest h
      have hminus := isDigit_of_mem_digitChars n '-' (by simp [h])
      exact absurd hminus (by decide)
  | negSucc n =>
    rw [toList_signed_neg, integer?, digits?_digitChars]
    rfl

end PipelineEngine.Numeral
