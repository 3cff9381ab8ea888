import Mathlib
import PipelineEngine.Value.Compare

/-!
# Doubles as rational numbers

The comparison of an integer with a double goes through doubles.  What it decides is said in
terms of the rational numbers that finite doubles are (`Double.value`).

* `Double.beq_iff_value_eq`: finite doubles are equal exactly when their values are, because what
  is unpacked is canonical and a canonical mantissa and exponent are the only ones of their value
  (`Canonical.eq_iff`).
* `Double.ofInt_spec`: an integer of at most 64 bits becomes a finite double, the one that is
  nearest to it (`Double.nearest`).  Numbers of at most 53 bits are converted and multiplied by
  one; the others are shifted to 53 bits and rounded (`Double.roundWithAccuracy_exact`).
* `Double.nearest_eq_of_value_eq`: an integer that is a double is not rounded.
* `Double.exists_ne_nearest_eq`: from 2 ^ 63 on no integer has a double for itself.
-/

namespace PipelineEngine.Double

open Float.Model (Format UnpackedFloat totalExponent)
open Float.Model.UnpackedFloat (Sign ExtendedMantissa roundWithAccuracy shiftToTargetExponent
  shiftToExponent packComponents unpackMantissa unpackExponent unpackSign
  unpackMantissa_packComponents unpackExponent_packComponents unpackSign_packComponents)

/-! ## Values -/

/-- The number that an unpacked double stands for, zero where it is none. -/
def rational : UnpackedFloat → ℚ
  | .finite s m e _ => s.apply m * 2 ^ e
  | .zero _ | .infinity _ | .notANumber => 0

/-- The number that a finite double is. -/
def value (x : Float) : ℚ := rational x.toModel.unpack

/-- The mantissas and exponents of doubles: as many bits as there are, unless the exponent is the
least one. -/
structure Canonical (m : Nat) (e : Int) : Prop where
  lt : m < 2 ^ 53
  min_le : -1074 ≤ e
  full : 2 ^ 52 ≤ m ∨ e = -1074

/-- What is unpacked is canonical. -/
theorem Canonical.of_unpack {x : Float.Model} {s : Sign} {m : Nat} {e : Int} {hm : 0 < m}
    (h : x.unpack = .finite s m e hm) : Canonical m e := by
  unfold Float.Model.unpack UnpackedFloat.unpack at h
  dsimp only at h
  have hbias : (Format.binary64.exponentBias : Int) +
      Format.binary64.mantissaBitsWithoutImplicit = 1075 := rfl
  rw [hbias] at h
  have hmantissa : (@unpackMantissa Format.binary64 x.toBits.toBitVec).toNat < 2 ^ 52 :=
    BitVec.isLt _
  split at h
  · split at h <;> cases h
  · split at h
    next hzero =>
      split at h
      · cases h
      · cases h
        rw [hzero]
        exact ⟨Nat.lt_trans hmantissa (by decide), by decide, .inr (by decide)⟩
    next hnormal =>
      cases h
      have hexponent : (@unpackExponent Format.binary64 x.toBits.toBitVec).toNat ≠ 0 :=
        fun h => hnormal (BitVec.eq_of_toNat_eq h)
      have himplicit : (1#1 ++ @unpackMantissa Format.binary64 x.toBits.toBitVec).toNat =
          2 ^ 52 + (@unpackMantissa Format.binary64 x.toBits.toBitVec).toNat := by
        rw [BitVec.toNat_append, ← Nat.shiftLeft_add_eq_or_of_lt hmantissa]
        rfl
      rw [himplicit]
      exact ⟨by omega, by omega, .inl (by omega)⟩

/-- Doubles of one value have one representation, except for the sign of zero. -/
theorem Canonical.eq_of_le {m n : Nat} {e f : Int} (hm : Canonical m e) (hn : Canonical n f)
    (hle : e ≤ f) (h : (m : ℚ) * 2 ^ e = n * 2 ^ f) : m = n ∧ e = f := by
  obtain ⟨k, rfl⟩ := Int.le.dest hle
  have hpow : (2 : ℚ) ^ (e + k) = 2 ^ e * (2 ^ k : ℕ) := by
    rw [zpow_add₀ (by norm_num), zpow_natCast]
    push_cast
    rfl
  have hpos : (2 : ℚ) ^ e ≠ 0 := (zpow_pos (by norm_num) e).ne'
  have hshift : m = n * 2 ^ k := by
    have hcast : (m : ℚ) = (n * 2 ^ k : ℕ) := by
      apply mul_right_cancel₀ hpos
      rw [h, hpow]
      push_cast
      ring
    exact_mod_cast hcast
  cases k with
  | zero => simpa using hshift
  | succ k =>
    -- A greater exponent is not the least one, so all bits are there, and more would be too many.
    have hfull : 2 ^ 52 ≤ n := hn.full.resolve_right (by have := hm.min_le; push_cast; omega)
    have hpow : 1 ≤ 2 ^ k := Nat.one_le_two_pow
    have hlt := hm.lt
    rw [hshift, pow_succ, ← Nat.mul_assoc] at hlt
    have hle : n * 1 ≤ n * 2 ^ k := Nat.mul_le_mul_left n hpow
    omega

theorem Canonical.eq_iff {m n : Nat} {e f : Int} (hm : Canonical m e) (hn : Canonical n f) :
    (m : ℚ) * 2 ^ e = n * 2 ^ f ↔ e = f ∧ m = n := by
  constructor
  · intro h
    rcases Int.le_total e f with hle | hle
    · obtain ⟨hmn, hef⟩ := hm.eq_of_le hn hle h
      exact ⟨hef, hmn⟩
    · obtain ⟨hnm, hfe⟩ := hn.eq_of_le hm hle h.symm
      exact ⟨hfe.symm, hnm.symm⟩
  · rintro ⟨rfl, rfl⟩
    rfl

/-- An unpacked double that is a number and canonical. -/
def IsNumber (a : UnpackedFloat) : Prop :=
  match a with
  | .finite _ m e _ => Canonical m e
  | .zero _ => True
  | .infinity _ | .notANumber => False

theorem isNumber_unpack {x : Float} (hx : x.isFinite = true) : IsNumber x.toModel.unpack := by
  change x.toModel.unpack.isFinite = true at hx
  cases h : x.toModel.unpack with
  | notANumber => rw [h] at hx; cases hx
  | infinity s => rw [h] at hx; cases hx
  | zero s => trivial
  | finite s m e hm => exact .of_unpack h

/-- Equal doubles are those of equal value. -/
theorem compare_eq_iff {a b : UnpackedFloat} (ha : IsNumber a) (hb : IsNumber b) :
    a.compare b = some .eq ↔ rational a = rational b := by
  have hpos : ∀ {m : Nat} (e : Int), 0 < m → (0 : ℚ) < m * 2 ^ e :=
    fun e hm => mul_pos (Nat.cast_pos.2 hm) (zpow_pos (by norm_num) e)
  cases a with
  | notANumber | infinity => exact ha.elim
  | zero s =>
    cases b with
    | notANumber | infinity => exact hb.elim
    | zero t => exact iff_of_true rfl rfl
    | finite t n f hn =>
      have hn := hpos f hn
      cases t with
      | positive => exact iff_of_false (by rintro ⟨⟩) hn.ne
      | negative =>
        refine iff_of_false (by rintro ⟨⟩) fun h => hn.ne' ?_
        simpa [rational, Sign.apply] using h
  | finite s m e hm =>
    have hm' := hpos e hm
    cases b with
    | notANumber | infinity => exact hb.elim
    | zero t =>
      cases s with
      | positive => exact iff_of_false (by rintro ⟨⟩) hm'.ne'
      | negative =>
        refine iff_of_false (by rintro ⟨⟩) fun h => hm'.ne' ?_
        simpa [rational, Sign.apply] using h
    | finite t n f hn =>
      have hn' := hpos f hn
      have hthen : (compare e f).then (compare m n) = .eq ↔ (m : ℚ) * 2 ^ e = n * 2 ^ f := by
        rw [Ordering.then_eq_eq, compare_eq_iff_eq, compare_eq_iff_eq]
        exact (Canonical.eq_iff ha hb).symm
      cases s with
      | positive =>
        cases t with
        | positive => exact (Option.some_inj.trans hthen)
        | negative =>
          refine iff_of_false (by rintro ⟨⟩) fun h => ?_
          simp only [rational, Sign.apply] at h
          push_cast at h
          linarith
      | negative =>
        cases t with
        | positive =>
          refine iff_of_false (by rintro ⟨⟩) fun h => ?_
          simp only [rational, Sign.apply] at h
          push_cast at h
          linarith
        | negative =>
          have hswap : some ((compare e f).then (compare m n)).swap = some .eq ↔
              (m : ℚ) * 2 ^ e = n * 2 ^ f := by
            rw [Option.some_inj, Ordering.swap_eq_eq, hthen]
          refine hswap.trans ?_
          simp only [rational, Sign.apply]
          push_cast
          rw [neg_mul, neg_mul, neg_inj]

/-- Finite doubles are compared by value. -/
theorem beq_iff_value_eq {x y : Float} (hx : x.isFinite = true) (hy : y.isFinite = true) :
    (x == y) = true ↔ value x = value y := by
  rw [value, value, ← compare_eq_iff (isNumber_unpack hx) (isNumber_unpack hy)]
  change (x.toModel.unpack.compare y.toModel.unpack == some .eq) = true ↔ _
  exact beq_iff_eq

/-! ## Rounding -/

/-- A number divided by a power of two and rounded to the nearest integer, in the middle to the
even one. -/
def halfEven (n k : Nat) : Nat :=
  if 2 ^ k < 2 * (n % 2 ^ k) ∨ 2 ^ k = 2 * (n % 2 ^ k) ∧ n / 2 ^ k % 2 = 1 then n / 2 ^ k + 1
  else n / 2 ^ k

theorem shiftRight_exact (n k : Nat) :
    (⟨n, false, false⟩ : ExtendedMantissa) >>> (k + 1) =
      ⟨n / 2 ^ (k + 1), n / 2 ^ k % 2 != 0, n % 2 ^ k != 0⟩ := by
  induction k with
  | zero =>
    show ExtendedMantissa.shiftRightOne ⟨n, false, false⟩ = _
    simp [ExtendedMantissa.shiftRightOne, Nat.mod_one]
  | succ k ih =>
    change ExtendedMantissa.shiftRightOne ((⟨n, false, false⟩ : ExtendedMantissa) >>> (k + 1)) = _
    rw [ih]
    have hsticky : n % 2 ^ (k + 1) = n % 2 ^ k + 2 ^ k * (n / 2 ^ k % 2) := Nat.mod_pow_succ
    simp only [ExtendedMantissa.shiftRightOne, ExtendedMantissa.mk.injEq]
    refine ⟨by rw [Nat.div_div_eq_div_mul, ← pow_succ], trivial, ?_⟩
    rw [hsticky, Bool.eq_iff_iff]
    have hpos : 0 < 2 ^ k := Nat.two_pow_pos k
    rcases Nat.mod_two_eq_zero_or_one (n / 2 ^ k) with hbit | hbit
    · simp [hbit]
    · simp [hbit]

theorem roundedMantissa_shiftRight (n k : Nat) :
    ((⟨n, false, false⟩ : ExtendedMantissa) >>> k).roundedMantissa = halfEven n k := by
  cases k with
  | zero =>
    show n = halfEven n 0
    simp [halfEven, Nat.mod_one]
  | succ k =>
    rw [shiftRight_exact, halfEven]
    have hrest : n % 2 ^ (k + 1) = n % 2 ^ k + 2 ^ k * (n / 2 ^ k % 2) := Nat.mod_pow_succ
    have hlt : n % 2 ^ k < 2 ^ k := Nat.mod_lt _ (Nat.two_pow_pos k)
    have hdouble : 2 ^ (k + 1) = 2 * 2 ^ k := by rw [pow_succ, Nat.mul_comm]
    generalize n / 2 ^ (k + 1) = q
    generalize n % 2 ^ (k + 1) = r at hrest ⊢
    rw [hdouble]
    rcases Nat.mod_two_eq_zero_or_one (n / 2 ^ k) with hbit | hbit
    · have hlow : r < 2 ^ k := by simpa [hrest, hbit] using hlt
      rw [if_neg (by omega)]
      cases hsticky : n % 2 ^ k != 0 <;> simp [hbit] <;> rfl
    · have hhigh : r = n % 2 ^ k + 2 ^ k := by rw [hrest, hbit, Nat.mul_one]
      cases hsticky : n % 2 ^ k != 0 with
      | true =>
        have hne : n % 2 ^ k ≠ 0 := by simpa using hsticky
        rw [if_pos (by omega)]
        simp [hbit]
        rfl
      | false =>
        have heq : n % 2 ^ k = 0 := by simpa using hsticky
        have hmiddle : ∀ {m : Nat}, (⟨m, true, false⟩ : ExtendedMantissa).roundedMantissa =
            m + m % 2 := rfl
        simp only [hbit]
        rw [show (1 != 0) = true from rfl, hmiddle]
        rcases Nat.mod_two_eq_zero_or_one q with hq | hq
        · rw [if_neg (by omega), hq, Nat.add_zero]
        · rw [if_pos (by omega), hq]

theorem halfEven_bounds {n k : Nat} (hlow : 2 ^ (52 + k) ≤ n) (hhigh : n < 2 ^ (53 + k)) :
    2 ^ 52 ≤ halfEven n k ∧ halfEven n k ≤ 2 ^ 53 := by
  have hpos : 0 < 2 ^ k := Nat.two_pow_pos k
  have hle : 2 ^ 52 ≤ n / 2 ^ k := by
    rw [Nat.le_div_iff_mul_le hpos, ← pow_add]
    exact hlow
  have hlt : n / 2 ^ k < 2 ^ 53 := by
    rw [Nat.div_lt_iff_lt_mul hpos, ← pow_add]
    exact hhigh
  rw [halfEven]
  split <;> omega

/-- No bits are dropped from a mantissa that has as many as a double. -/
theorem shiftToTargetExponent_full {m : Nat} {e : Int} (hlow : 2 ^ 52 ≤ m) (hhigh : m < 2 ^ 53)
    (he : -1074 ≤ e) :
    shiftToTargetExponent Format.binary64 m e .exact = (⟨m, false, false⟩, e) := by
  have hlog : m.log2 = 52 := (Nat.log2_eq_iff (by omega)).2 ⟨hlow, hhigh⟩
  have htarget : Format.binary64.targetExponent (totalExponent m e) = e := by
    simp only [totalExponent, hlog, Format.targetExponent, Format.mantissaBits, Format.minExponent]
    omega
  simp only [shiftToTargetExponent, htarget, shiftToExponent, sub_self, Int.toNat_zero]
  exact Prod.ext rfl (add_zero e)

/-- A mantissa that rounding has carried over loses a bit again. -/
theorem shiftToTargetExponent_overflow {e : Int} (he : -1074 ≤ e) :
    shiftToTargetExponent Format.binary64 (2 ^ 53) e .exact =
      (⟨2 ^ 52, false, false⟩, e + 1) := by
  have htarget : Format.binary64.targetExponent (totalExponent (2 ^ 53) e) = e + 1 := by
    simp only [totalExponent, Nat.log2_two_pow, Format.targetExponent, Format.mantissaBits,
      Format.minExponent]
    omega
  have hamount : (e + 1 - e).toNat = 1 := by omega
  simp only [shiftToTargetExponent, htarget, shiftToExponent, hamount]
  rfl

/-- A number with more bits than a double has is rounded to one: to the mantissa, or to the next
power of two where the mantissa overflows. -/
theorem roundWithAccuracy_exact (s : Sign) {n k : Nat} {e : Int} (hlow : 2 ^ (52 + k) ≤ n)
    (hhigh : n < 2 ^ (53 + k)) (he : -1074 ≤ e + k) :
    ∃ m f hm, roundWithAccuracy Format.binary64 s n e .exact = .finite s m f hm ∧
      2 ^ 52 ≤ m ∧ m < 2 ^ 53 ∧ -1074 ≤ f ∧ f ≤ e + k + 1 ∧
      (m : ℚ) * 2 ^ f = halfEven n k * 2 ^ (e + k) := by
  have hlog : n.log2 = 52 + k := by
    have hne : n ≠ 0 := (Nat.lt_of_lt_of_le (Nat.two_pow_pos _) hlow).ne'
    exact (Nat.log2_eq_iff hne).2 ⟨hlow, by rwa [Nat.add_right_comm]⟩
  have htarget : Format.binary64.targetExponent (totalExponent n e) = e + k := by
    simp only [totalExponent, hlog, Format.targetExponent, Format.mantissaBits, Format.minExponent]
    push_cast
    omega
  have hfirst : shiftToTargetExponent Format.binary64 n e .exact =
      ((⟨n, false, false⟩ : ExtendedMantissa) >>> k, e + k) := by
    have hamount : (e + k - e).toNat = k := by omega
    simp only [shiftToTargetExponent, htarget, shiftToExponent, hamount]
    rfl
  obtain ⟨hle, hge⟩ := halfEven_bounds hlow hhigh
  rw [roundWithAccuracy, hfirst]
  simp only [roundedMantissa_shiftRight]
  rcases Nat.lt_or_eq_of_le hge with hlt | heq
  · have hne : halfEven n k ≠ 0 := by omega
    refine ⟨halfEven n k, e + k, Nat.pos_of_ne_zero hne, ?_, hle, hlt, he, by omega, rfl⟩
    simp only [shiftToTargetExponent_full hle hlt he, dif_neg hne]
  · refine ⟨2 ^ 52, e + k + 1, Nat.two_pow_pos 52, ?_, Nat.le_refl _, by decide, by omega,
      Int.le_refl _, ?_⟩
    · simp only [heq, shiftToTargetExponent_overflow he]
      rfl
    · rw [heq, zpow_add_one₀ (by norm_num)]
      push_cast
      ring

/-! ## Packing -/

/-- A double with all bits is packed without loss. -/
theorem unpack_pack {s : Sign} {m : Nat} {e : Int} (hm : 0 < m) (hlow : 2 ^ 52 ≤ m)
    (hhigh : m < 2 ^ 53) (hmin : -1074 ≤ e) (hmax : e ≤ 971) :
    (Float.Model.pack (.finite s m e hm)).unpack = .finite s m e hm := by
  have hlog : m.log2 = 52 := (Nat.log2_eq_iff (by omega)).2 ⟨hlow, hhigh⟩
  obtain ⟨biased, hbiased⟩ : ∃ b : Nat, e + 1075 = b := ⟨(e + 1075).toNat, by omega⟩
  have hpack : UnpackedFloat.pack Format.binary64 (.finite s m e hm) =
      packComponents Format.binary64 s (BitVec.ofNat 11 biased)
        (BitVec.ofNat 52 m) := by
    have hnat : (e + (Format.binary64.exponentBias : Int) +
        (Format.binary64.mantissaBitsWithoutImplicit : Int)).toNat = biased := by
      have hbias : (Format.binary64.exponentBias : Int) = 1023 := rfl
      have hbits : (Format.binary64.mantissaBitsWithoutImplicit : Int) = 52 := rfl
      rw [hbias, hbits]
      omega
    have hfits : ¬ 2 ^ Format.binary64.exponentBits ≤ biased + 1 := by
      change ¬ 2 ^ 11 ≤ biased + 1
      omega
    have hfull : m.log2 + 1 = Format.binary64.mantissaBits := by
      rw [hlog]
      rfl
    simp only [UnpackedFloat.pack, hnat, if_neg hfits, if_pos hfull]
  have hexponent : (BitVec.ofNat 11 biased).toNat = biased := by
    rw [BitVec.toNat_ofNat, Nat.mod_eq_of_lt (by omega)]
  have hinfinite : BitVec.ofNat 11 biased ≠ -1#11 := by
    intro h
    have hnat := congrArg BitVec.toNat h
    rw [hexponent] at hnat
    change biased = 2047 at hnat
    omega
  have hsubnormal : BitVec.ofNat 11 biased ≠ 0#11 := by
    intro h
    have hnat := congrArg BitVec.toNat h
    rw [hexponent] at hnat
    change biased = 0 at hnat
    omega
  have hmantissa : (1#1 ++ BitVec.ofNat 52 m).toNat = m := by
    have hlt : (BitVec.ofNat 52 m).toNat < 2 ^ 52 := BitVec.isLt _
    rw [BitVec.toNat_append, ← Nat.shiftLeft_add_eq_or_of_lt hlt, BitVec.toNat_ofNat]
    change 2 ^ 52 + m % 2 ^ 52 = m
    omega
  have hsign : Sign.ofBitVec s.toBitVec = s := by cases s <;> rfl
  change UnpackedFloat.unpack Format.binary64 (UnpackedFloat.pack Format.binary64 _) = _
  rw [hpack, UnpackedFloat.unpack]
  simp only [unpackExponent_packComponents,
    unpackMantissa_packComponents, unpackSign_packComponents]
  rw [if_neg hinfinite, if_neg hsubnormal]
  simp only [hmantissa, hsign, hexponent]
  congr 1
  have hbias : (Format.binary64.exponentBias : Int) +
      Format.binary64.mantissaBitsWithoutImplicit = 1075 := rfl
  rw [hbias]
  omega

/-! ## Integers -/

/-- The number of bits that a double drops from a natural number. -/
def dropped (n : Nat) : Nat := n.log2 - 52

/-- The natural number of 53 bits and zeros behind them that is nearest to a natural number. -/
def nearestNat (n : Nat) : Nat := halfEven n (dropped n) * 2 ^ dropped n

/-- The nearest such integer. -/
def nearest (n : Int) : Int := n.sign * nearestNat n.natAbs

/-- A positive double with all bits, with a bound on its exponent and with its value. -/
def IsFull (x : Float.Model) (bound : Int) (q : ℚ) : Prop :=
  ∃ m e hm, x.unpack = .finite .positive m e hm ∧ 2 ^ 52 ≤ m ∧ e ≤ bound ∧ (m : ℚ) * 2 ^ e = q

theorem isFull_round {n k : Nat} {e bound : Int} (hlow : 2 ^ (52 + k) ≤ n)
    (hhigh : n < 2 ^ (53 + k)) (he : -1074 ≤ e + k) (hbound : e + k + 1 ≤ bound)
    (hmax : bound ≤ 971) :
    IsFull (.pack (roundWithAccuracy Format.binary64 .positive n e .exact)) bound
      (halfEven n k * 2 ^ (e + k)) := by
  obtain ⟨m, f, hm, hround, hle, hlt, hmin, hf, hvalue⟩ :=
    roundWithAccuracy_exact .positive hlow hhigh he
  rw [hround]
  exact ⟨m, f, hm, unpack_pack hm hle hlt hmin (by omega), hle, by omega, hvalue⟩

theorem halfEven_mul (n j k : Nat) : halfEven (n * 2 ^ j) (j + k) = halfEven n k := by
  have hpos : 0 < 2 ^ j := Nat.two_pow_pos j
  have hpow : 2 ^ (j + k) = 2 ^ k * 2 ^ j := by rw [pow_add, Nat.mul_comm]
  have hdiv : n * 2 ^ j / (2 ^ k * 2 ^ j) = n / 2 ^ k := Nat.mul_div_mul_right _ _ hpos
  have hmod : n * 2 ^ j % (2 ^ k * 2 ^ j) = n % 2 ^ k * 2 ^ j := Nat.mul_mod_mul_right _ _ _
  have hlt : 2 ^ k * 2 ^ j < 2 * (n % 2 ^ k * 2 ^ j) ↔ 2 ^ k < 2 * (n % 2 ^ k) := by
    rw [← Nat.mul_assoc]
    exact Nat.mul_lt_mul_right hpos
  have heq : 2 ^ k * 2 ^ j = 2 * (n % 2 ^ k * 2 ^ j) ↔ 2 ^ k = 2 * (n % 2 ^ k) := by
    rw [← Nat.mul_assoc]
    exact Nat.mul_left_inj hpos.ne'
  simp only [halfEven, hpow, hdiv, hmod, hlt, heq]

theorem halfEven_zero (n : Nat) : halfEven n 0 = n := by
  simp [halfEven, Nat.mod_one]

theorem isFull_toFloat {n : Nat} (hn : 0 < n) (hlt : n < 2 ^ 53) :
    IsFull n.toUInt64.toFloat.toModel 1 n := by
  have hlog : n.log2 < 53 := (Nat.log2_lt hn.ne').2 hlt
  obtain ⟨j, hj⟩ : ∃ j, n.log2 + j = 52 := ⟨52 - n.log2, by omega⟩
  obtain ⟨hlow, hhigh⟩ := (Nat.log2_eq_iff hn.ne').1 rfl
  have htarget : Format.binary64.targetExponent (totalExponent n 0) = -j := by
    simp only [totalExponent, Format.targetExponent, Format.mantissaBits, Format.minExponent]
    omega
  have hmodel : n.toUInt64.toFloat.toModel =
      .pack (roundWithAccuracy Format.binary64 .positive (n * 2 ^ j) (-j) .exact) := by
    have hword : n.toUInt64.toNat = n := UInt64.toNat_ofNat_of_lt' (Nat.lt_trans hlt (by decide))
    have hsign : compare (n : Int) 0 = .gt := Int.compare_eq_gt.2 (by omega)
    have hamount : (- -(j : Int)).toNat = j := by omega
    change Float.Model.pack (UnpackedFloat.normalize Format.binary64 (n.toUInt64.toNat : Int) 0
      .positive) = _
    rw [hword, UnpackedFloat.normalize, hsign]
    simp only [UnpackedFloat.round, Int.toNat_natCast, htarget, UnpackedFloat.decreaseExponent,
      Int.zero_sub, hamount, Nat.shiftLeft_eq]
  have hfull : 2 ^ (52 + 0) ≤ n * 2 ^ j ∧ n * 2 ^ j < 2 ^ (53 + 0) := by
    have hsucc : n.log2 + 1 + j = 53 := by omega
    constructor
    · calc 2 ^ 52 = 2 ^ n.log2 * 2 ^ j := by rw [← pow_add, hj]
        _ ≤ n * 2 ^ j := Nat.mul_le_mul_right _ hlow
    · calc n * 2 ^ j < 2 ^ (n.log2 + 1) * 2 ^ j :=
            Nat.mul_lt_mul_of_pos_right hhigh (Nat.two_pow_pos j)
        _ = 2 ^ 53 := by rw [← pow_add, hsucc]
  have hvalue : ((halfEven (n * 2 ^ j) 0 : ℕ) : ℚ) * 2 ^ (-(j : Int) + (0 : ℕ)) = n := by
    rw [halfEven_zero, Nat.cast_zero, add_zero, zpow_neg, zpow_natCast]
    push_cast
    exact mul_inv_cancel_right₀ (pow_ne_zero j two_ne_zero) _
  rw [hmodel, ← hvalue]
  exact isFull_round hfull.1 hfull.2 (by omega) (by omega) (by omega)

/-- A number of at most 53 bits is converted and multiplied by one. -/
theorem isFull_toFloat_mul_one {n : Nat} (hn : 0 < n) (hlt : n < 2 ^ 53) :
    IsFull (n.toUInt64.toFloat * Float.ofBits 0x3FF0000000000000).toModel 971 (nearestNat n) := by
  obtain ⟨m, e, hm, hunpack, hfull, he, hvalue⟩ := isFull_toFloat hn hlt
  have hcanonical := Canonical.of_unpack hunpack
  have hmin := hcanonical.min_le
  have hmodel : (n.toUInt64.toFloat * Float.ofBits 0x3FF0000000000000).toModel =
      .pack (roundWithAccuracy Format.binary64 .positive (m * 2 ^ 52) (e + -52) .exact) := by
    change Float.Model.pack (UnpackedFloat.mul Format.binary64 n.toUInt64.toFloat.toModel.unpack
      (.finite .positive (2 ^ 52) (-52) _)) = _
    rw [hunpack]
    rfl
  have hnearest : nearestNat n = n := by
    have hlog : n.log2 < 53 := (Nat.log2_lt hn.ne').2 hlt
    have hdropped : dropped n = 0 := by
      rw [dropped]
      omega
    rw [nearestNat, hdropped, halfEven_zero, pow_zero, Nat.mul_one]
  have hround : ((halfEven (m * 2 ^ 52) 52 : ℕ) : ℚ) * 2 ^ (e + -52 + (52 : ℕ)) =
      nearestNat n := by
    have hhalf : halfEven (m * 2 ^ 52) 52 = m := (halfEven_mul m 52 0).trans (halfEven_zero m)
    have hexponent : e + -52 + (52 : ℕ) = e := by
      push_cast
      omega
    rw [hhalf, hexponent, hvalue, hnearest]
  have hlow : 2 ^ (52 + 52) ≤ m * 2 ^ 52 := by
    rw [pow_add]
    exact Nat.mul_le_mul_right _ hfull
  have hhigh : m * 2 ^ 52 < 2 ^ (53 + 52) := by
    rw [pow_add]
    exact Nat.mul_lt_mul_of_pos_right hcanonical.lt (Nat.two_pow_pos 52)
  rw [hmodel, ← hround]
  exact isFull_round hlow hhigh (by push_cast; omega) (by push_cast; omega) (by omega)

/-- The last bits of a number of more than 53 are rounded off. -/
theorem isFull_ofScientific {n : Nat} (hge : 2 ^ 53 ≤ n) (hlt : n < 2 ^ 64) :
    IsFull (Float.Model.ofScientific n (Int.ofNat 0)) 971 (nearestNat n) := by
  have hn : n ≠ 0 := (Nat.lt_of_lt_of_le (Nat.two_pow_pos 53) hge).ne'
  have hlog : 53 ≤ n.log2 := (Nat.le_log2 hn).2 hge
  have hsize : n.log2 < 64 := (Nat.log2_lt hn).2 hlt
  obtain ⟨hlow, hhigh⟩ := (Nat.log2_eq_iff hn).1 rfl
  obtain ⟨d, hd, hlogd⟩ : ∃ d, dropped n = d ∧ n.log2 = 52 + d :=
    ⟨_, rfl, by rw [dropped]; omega⟩
  have hmodel : Float.Model.ofScientific n (Int.ofNat 0) =
      .pack (roundWithAccuracy Format.binary64 .positive (n * 2 ^ 53) (-53) .exact) := by
    have hlarge : ¬ ((Int.ofNat 0 : Int) > 2 ^ Format.binary64.exponentBits) := by decide
    have hsmall : ¬ ((Int.ofNat 0 : Int) <
        -((2 ^ Format.binary64.exponentBits : Int) + (n.log2 : Int))) := by
      change ¬ (0 : Int) < -((2 ^ 11 : Int) + (n.log2 : Int))
      omega
    have hproduct : n <<< Format.binary64.mantissaBits * 10 ^ (Int.ofNat 0).toNat =
        n * 2 ^ 53 := by
      rw [Nat.shiftLeft_eq]
      exact Nat.mul_one _
    rw [Float.Model.ofScientific, UnpackedFloat.ofScientific, dif_neg hn, if_neg hlarge,
      if_neg hsmall, if_pos (by decide)]
    simp only [UnpackedFloat.mul, hproduct]
    rfl
  have hround : ((halfEven (n * 2 ^ 53) (53 + d) : ℕ) : ℚ) * 2 ^ ((-53 : Int) + (53 + d : ℕ)) =
      nearestNat n := by
    have hexponent : (-53 : Int) + (53 + d : ℕ) = (d : ℕ) := by
      push_cast
      omega
    rw [halfEven_mul, hexponent, zpow_natCast, nearestNat, hd]
    push_cast
    rfl
  have hle : 2 ^ (52 + (53 + d)) ≤ n * 2 ^ 53 := by
    rw [Nat.add_left_comm, pow_add, ← hlogd, Nat.mul_comm]
    exact Nat.mul_le_mul_right _ hlow
  have hgt : n * 2 ^ 53 < 2 ^ (53 + (53 + d)) := by
    have hsucc : 53 + d = n.log2 + 1 := by omega
    rw [pow_add, Nat.mul_comm, hsucc]
    exact Nat.mul_lt_mul_of_pos_left hhigh (Nat.two_pow_pos 53)
  rw [hmodel, ← hround]
  exact isFull_round hle hgt (by push_cast; omega) (by push_cast; omega) (by omega)

/-- The double of a natural number of at most 64 bits. -/
theorem isFull_ofNat {n : Nat} (hn : 0 < n) (hlt : n < 2 ^ 64) :
    IsFull (Float.ofNat n).toModel 971 (nearestNat n) := by
  change IsFull (Float.ofScientific n false 0).toModel _ _
  rw [Float.ofScientific]
  split
  next h => exact isFull_toFloat_mul_one hn h.1
  next h =>
    have hge : 2 ^ 53 ≤ n := by
      by_contra hsmall
      exact h ⟨by omega, by decide⟩
    exact isFull_ofScientific hge hlt

/-! ## Numbers as doubles -/

theorem IsFull.value_eq {x : Float} {bound : Int} {q : ℚ} (h : IsFull x.toModel bound q) :
    x.isFinite = true ∧ value x = q := by
  obtain ⟨m, e, hm, hunpack, -, -, hvalue⟩ := h
  constructor
  · change x.toModel.unpack.isFinite = true
    rw [hunpack]
    rfl
  · rw [value, hunpack, ← hvalue]
    rfl

theorem IsFull.neg_value_eq {x : Float} {q : ℚ} (h : IsFull x.toModel 971 q) :
    (Float.neg x).isFinite = true ∧ value (Float.neg x) = -q := by
  obtain ⟨m, e, hm, hunpack, hfull, he, hvalue⟩ := h
  have hcanonical := Canonical.of_unpack hunpack
  have hneg : (Float.neg x).toModel.unpack = .finite .negative m e hm := by
    change (Float.Model.pack x.toModel.unpack.neg).unpack = _
    rw [hunpack]
    exact unpack_pack hm hfull hcanonical.lt hcanonical.min_le he
  constructor
  · change (Float.neg x).toModel.unpack.isFinite = true
    rw [hneg]
    rfl
  · rw [value, hneg, ← hvalue]
    simp [rational, Sign.apply]

/-- An integer of at most 64 bits is converted to the double nearest to it. -/
theorem ofInt_spec {n : Int} (hn : n.natAbs < 2 ^ 64) :
    (Float.ofInt n).isFinite = true ∧ value (Float.ofInt n) = nearest n := by
  rcases n with (_ | n) | n
  · have hzero : (Float.ofInt 0).toModel.unpack = .zero .positive := rfl
    constructor
    · change (Float.ofInt 0).toModel.unpack.isFinite = true
      rw [hzero]
      rfl
    · change rational (Float.ofInt 0).toModel.unpack = _
      rw [hzero]
      simp [rational, nearest]
  · obtain ⟨hfinite, hvalue⟩ := (isFull_ofNat n.succ_pos hn).value_eq
    refine ⟨hfinite, hvalue.trans ?_⟩
    have hnearest : nearest (Int.ofNat (n + 1)) = nearestNat (n + 1) := Int.one_mul _
    rw [hnearest, Int.cast_natCast]
  · obtain ⟨hfinite, hvalue⟩ := (isFull_ofNat n.succ_pos hn).neg_value_eq
    refine ⟨hfinite, hvalue.trans ?_⟩
    have hnearest : nearest (Int.negSucc n) = -(nearestNat (n + 1) : Int) := Int.neg_one_mul _
    rw [hnearest, Int.cast_neg, Int.cast_natCast]

/-- Two integers, as doubles, are equal exactly when the doubles nearest to them are. -/
theorem ofInt_beq_iff {m n : Int} (hm : m.natAbs < 2 ^ 64) (hn : n.natAbs < 2 ^ 64) :
    (Float.ofInt m == Float.ofInt n) = true ↔ nearest m = nearest n := by
  obtain ⟨hmfinite, hmvalue⟩ := ofInt_spec hm
  obtain ⟨hnfinite, hnvalue⟩ := ofInt_spec hn
  rw [beq_iff_value_eq hmfinite hnfinite, hmvalue, hnvalue, Int.cast_inj]

/-! ## Integers that are doubles -/

theorem nearestNat_of_dvd {n : Nat} (h : 2 ^ dropped n ∣ n) : nearestNat n = n := by
  have hrest : n % 2 ^ dropped n = 0 := Nat.mod_eq_zero_of_dvd h
  have hpos : 0 < 2 ^ dropped n := Nat.two_pow_pos _
  have hhalf : halfEven n (dropped n) = n / 2 ^ dropped n := by
    rw [halfEven, hrest]
    exact if_neg (by omega)
  rw [nearestNat, hhalf, Nat.div_mul_cancel h]

theorem Canonical.nearestNat_eq {m n : Nat} {e : Int} (h : Canonical m e)
    (hvalue : (m : ℚ) * 2 ^ e = n) : nearestNat n = n := by
  apply nearestNat_of_dvd
  obtain ⟨k, rfl | rfl⟩ := Int.eq_nat_or_neg e
  · have hn : n = m * 2 ^ k := by
      rw [zpow_natCast] at hvalue
      exact_mod_cast hvalue.symm
    rcases Nat.eq_zero_or_pos n with rfl | hpos
    · exact dvd_zero _
    · have hlt : n < 2 ^ (53 + k) := by
        rw [hn, pow_add]
        exact Nat.mul_lt_mul_of_pos_right h.lt (Nat.two_pow_pos k)
      have hdropped : dropped n ≤ k := by
        have hlog := (Nat.log2_lt hpos.ne').2 hlt
        rw [dropped]
        omega
      rw [hn] at hdropped ⊢
      exact (pow_dvd_pow 2 hdropped).trans (Dvd.intro_left m rfl)
  · have hm : m = n * 2 ^ k := by
      rw [zpow_neg, zpow_natCast, ← div_eq_mul_inv,
        div_eq_iff (pow_ne_zero k two_ne_zero)] at hvalue
      exact_mod_cast hvalue
    have hle : n * 1 ≤ n * 2 ^ k := Nat.mul_le_mul_left n Nat.one_le_two_pow
    have hlt : n < 2 ^ 53 := by
      have hlt := h.lt
      omega
    have hdropped : dropped n = 0 := by
      rcases Nat.eq_zero_or_pos n with rfl | hpos
      · rfl
      · have hlog := (Nat.log2_lt hpos.ne').2 hlt
        rw [dropped]
        omega
    rw [hdropped, pow_zero]
    exact one_dvd n

/-- An integer that is a double is the nearest one. -/
theorem nearest_eq_of_value_eq {x : Float} {n : Int} (hx : x.isFinite = true)
    (h : value x = n) : nearest n = n := by
  have hnumber := isNumber_unpack hx
  rw [value] at h
  have hnat : nearestNat n.natAbs = n.natAbs := by
    cases hunpack : x.toModel.unpack with
    | notANumber | infinity =>
      rw [hunpack] at hnumber
      exact hnumber.elim
    | zero s =>
      rw [hunpack, rational] at h
      obtain rfl : n = 0 := by exact_mod_cast h.symm
      rfl
    | finite s m e hm =>
      rw [hunpack] at h hnumber
      have habs : (m : ℚ) * 2 ^ e = n.natAbs := by
        have hpos : (0 : ℚ) < m * 2 ^ e :=
          mul_pos (Nat.cast_pos.2 hm) (zpow_pos (by norm_num) e)
        rw [Nat.cast_natAbs, Int.cast_abs, ← h, rational]
        cases s with
        | positive => exact (abs_of_pos hpos).symm
        | negative =>
          simp only [Sign.apply]
          push_cast
          rw [neg_mul, abs_neg, abs_of_pos hpos]
      exact Canonical.nearestNat_eq hnumber habs
  rw [nearest, hnat, Int.sign_mul_natAbs]

/-! ## Integers that share a double -/

/-- From 2 ^ 63 on a double has neighbours only every 2 ^ 11, so every integer has a neighbour that
is rounded to the same double. -/
theorem exists_ne_nearest_eq {n : Nat} (hlow : 2 ^ 63 ≤ n) (hhigh : n < 2 ^ 64) :
    ∃ m : Nat, m ≠ n ∧ 2 ^ 63 ≤ m ∧ m < 2 ^ 64 ∧ nearest m = nearest n := by
  have hnearest : ∀ {k : Nat}, 2 ^ 63 ≤ k → k < 2 ^ 64 →
      nearest k = (halfEven k 11 * 2 ^ 11 : Nat) := by
    intro k hk hk'
    have hlog : k.log2 = 63 := (Nat.log2_eq_iff (by omega)).2 ⟨hk, hk'⟩
    have hsign : (k : Int).sign = 1 := Int.sign_eq_one_of_pos (by omega)
    rw [nearest, hsign, Int.one_mul, Int.natAbs_natCast, nearestNat, dropped, hlog]
  obtain ⟨m, hne, hm, hm', hhalf⟩ : ∃ m, m ≠ n ∧ 2 ^ 63 ≤ m ∧ m < 2 ^ 64 ∧
      halfEven m 11 = halfEven n 11 := by
    have hcases : ∀ k, halfEven k 11 = k / 2 ^ 11 ∧
          (k % 2 ^ 11 < 2 ^ 10 ∨ k % 2 ^ 11 = 2 ^ 10 ∧ k / 2 ^ 11 % 2 = 0) ∨
        halfEven k 11 = k / 2 ^ 11 + 1 ∧
          (2 ^ 10 < k % 2 ^ 11 ∨ k % 2 ^ 11 = 2 ^ 10 ∧ k / 2 ^ 11 % 2 = 1) := by
      intro k
      rw [halfEven]
      split <;> omega
    have hprevious := hcases (n - 1)
    have hthis := hcases n
    have hnext := hcases (n + 1)
    -- A double of this size is the nearest one to more than two integers in a row.
    by_cases hsame : n + 1 < 2 ^ 64 ∧ halfEven (n + 1) 11 = halfEven n 11
    · exact ⟨n + 1, by omega, by omega, hsame.1, hsame.2⟩
    · exact ⟨n - 1, by omega, by omega, by omega, by omega⟩
  refine ⟨m, hne, hm, hm', ?_⟩
  rw [hnearest hm hm', hnearest hlow hhigh, hhalf]

end PipelineEngine.Double
