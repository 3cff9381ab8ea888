import Mathlib.Algebra.Group.Nat.Defs
import Mathlib.Data.Char
import Mathlib.Data.List.Sort
import PipelineEngine.Identifier.Short

/-!
# Identifiers that sort as text

An identifier of 128 bits is written in 26 digits of five bits each, the highest first, so the
first digit has only three bits of its own.  Digits stand in increasing order in their alphabet
and all texts have one length, so texts compare as numbers do: by the first digit that differs.

* `Crockford.digits_lt_digits_iff`, by induction on the number of digits.
* `Crockford.encode_sorts`: the digits of an identifier, and how its text compares with others.
-/

namespace PipelineEngine.Crockford

/-! ## Digits -/

theorem length_alphabet : alphabet.length = 32 := by decide

theorem sortedLT_alphabet : alphabet.SortedLT :=
  List.Pairwise.sortedLT (by decide)

theorem mod_lt_length_alphabet (n : Nat) : n % 32 < alphabet.length :=
  length_alphabet ▸ Nat.mod_lt n (by decide)

theorem digit_eq_get (n : Nat) :
    digit n = alphabet.get ⟨n % 32, mod_lt_length_alphabet n⟩ := by
  rw [digit, List.getElem?_eq_getElem (mod_lt_length_alphabet n), Option.getD_some]
  rfl

theorem digit_mem_alphabet (n : Nat) : digit n ∈ alphabet := by
  rw [digit_eq_get]
  exact List.get_mem alphabet _

theorem digit_lt_digit_iff {m n : Nat} : digit m < digit n ↔ m % 32 < n % 32 := by
  rw [digit_eq_get, digit_eq_get, sortedLT_alphabet.strictMono_get.lt_iff_lt, Fin.mk_lt_mk]

theorem digit_eq_digit_iff {m n : Nat} : digit m = digit n ↔ m % 32 = n % 32 := by
  rw [digit_eq_get, digit_eq_get, sortedLT_alphabet.nodup.get_inj_iff, Fin.mk.injEq]

/-! ## Texts -/

@[simp] theorem length_digits (value n : Nat) : (digits value n).length = n := by
  induction n with
  | zero => rfl
  | succ n ih => rw [digits, List.length_cons, ih]

theorem mem_alphabet_of_mem_digits {c : Char} {value n : Nat} (h : c ∈ digits value n) :
    c ∈ alphabet := by
  induction n with
  | zero => cases h
  | succ n ih =>
    rcases List.mem_cons.1 h with rfl | h
    · exact digit_mem_alphabet _
    · exact ih h

/-- The digit at a place counts the powers of 32 that go with the place. -/
theorem getElem?_digits {n i : Nat} (h : i < n) (value : Nat) :
    (digits value n)[i]? = some (digit (value / 32 ^ (n - 1 - i))) := by
  induction n generalizing i with
  | zero => omega
  | succ n ih =>
    rw [digits]
    cases i with
    | zero => rfl
    | succ i =>
      rw [List.getElem?_cons_succ, ih (by omega)]
      congr 4
      omega

/-- Numbers in two places compare as the higher places do, or else as the lower ones. -/
theorem add_mul_lt_add_mul_iff {base r s p q : Nat} (hr : r < base) (hs : s < base) :
    r + base * p < s + base * q ↔ p < q ∨ p = q ∧ r < s := by
  rcases Nat.lt_trichotomy p q with hlt | rfl | hgt
  · have hnext : base * (p + 1) ≤ base * q := Nat.mul_le_mul_left base hlt
    rw [Nat.mul_succ] at hnext
    exact iff_of_true (by omega) (.inl hlt)
  · omega
  · have hnext : base * (q + 1) ≤ base * p := Nat.mul_le_mul_left base hgt
    rw [Nat.mul_succ] at hnext
    exact iff_of_false (by omega) (by omega)

/-- Texts of so many digits compare as the numbers that so many digits can hold. -/
theorem digits_lt_digits_iff (a b n : Nat) :
    digits a n < digits b n ↔ a % 32 ^ n < b % 32 ^ n := by
  induction n with
  | zero => simp [digits, Nat.mod_one]
  | succ n ih =>
    have hpos : 0 < 32 ^ n := Nat.pow_pos (by decide)
    -- The first digit stands in the place of `32 ^ n`, the others hold what is left.
    rw [digits, digits, List.cons_lt_cons_iff, digit_lt_digit_iff, digit_eq_digit_iff, ih,
      Nat.mod_pow_succ, Nat.mod_pow_succ]
    exact (add_mul_lt_add_mul_iff (Nat.mod_lt a hpos) (Nat.mod_lt b hpos)).symm

/-! ## Identifiers -/

theorem toList_encode (value : BitVec 128) : (encode value).toList = digits value.toNat 26 :=
  String.toList_ofList

/-- Texts sort as identifiers: 26 digits hold more than 128 bits. -/
theorem encode_lt_encode_iff {a b : BitVec 128} : encode a < encode b ↔ a < b := by
  have hfits : ∀ value : BitVec 128, value.toNat % 32 ^ 26 = value.toNat := fun value =>
    Nat.mod_eq_of_lt (Nat.lt_trans value.isLt (by decide))
  rw [String.lt_iff, toList_encode, toList_encode, digits_lt_digits_iff, hfits, hfits,
    BitVec.lt_def]

theorem encode_injective : Function.Injective encode := by
  intro a b h
  rcases Nat.lt_trichotomy a.toNat b.toNat with hlt | heq | hgt
  · have hless : encode a < encode b := encode_lt_encode_iff.2 hlt
    rw [h] at hless
    exact absurd hless (String.lt_irrefl _)
  · exact BitVec.eq_of_toNat_eq heq
  · have hless : encode b < encode a := encode_lt_encode_iff.2 hgt
    rw [h] at hless
    exact absurd hless (String.lt_irrefl _)

/-- Each digit of a text stands for five bits of the identifier. -/
theorem getElem?_encode {i : Nat} (h : i < 26) (value : BitVec 128) :
    (encode value).toList[i]? = alphabet[((value >>> (125 - 5 * i)) &&& 31).toNat]? := by
  have hbits : ((value >>> (125 - 5 * i)) &&& 31).toNat = value.toNat / 32 ^ (25 - i) % 32 := by
    have hmask : (31 : BitVec 128).toNat = 2 ^ 5 - 1 := rfl
    have hshift : 125 - 5 * i = 5 * (25 - i) := by omega
    rw [BitVec.toNat_and, BitVec.toNat_ushiftRight, hmask, Nat.and_two_pow_sub_one_eq_mod,
      Nat.shiftRight_eq_div_pow, hshift, Nat.pow_mul]
  rw [toList_encode, getElem?_digits h, hbits, digit_eq_get,
    List.getElem?_eq_getElem (mod_lt_length_alphabet _)]
  rfl

/-- A text has 26 digits, each of which stands for five bits from the highest on, and texts sort
as the identifiers that they are made of; different identifiers have different texts. -/
theorem encode_sorts (a b : BitVec 128) :
    ((encode a).length = 26 ∧ (∀ c ∈ (encode a).toList, c ∈ alphabet) ∧
        ∀ i < 26, (encode a).toList[i]? = alphabet[((a >>> (125 - 5 * i)) &&& 31).toNat]?) ∧
      (a < b ↔ encode a < encode b) ∧ (encode a = encode b ↔ a = b) := by
  refine ⟨⟨?_, ?_, fun i hi => getElem?_encode hi a⟩, encode_lt_encode_iff.symm,
    encode_injective.eq_iff⟩
  · rw [← String.length_toList, toList_encode, length_digits]
  · rw [toList_encode]
    exact fun c => mem_alphabet_of_mem_digits

/-- The greatest identifier: its first digit has no more than three bits. -/
example : encode (BitVec.allOnes 128) = "7ZZZZZZZZZZZZZZZZZZZZZZZZZ" := by decide

end PipelineEngine.Crockford
