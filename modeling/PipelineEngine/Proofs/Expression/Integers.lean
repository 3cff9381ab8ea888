import Mathlib.Data.List.TakeWhile
import PipelineEngine.Expression.Evaluate
import PipelineEngine.Proofs.Expression.Spelled
import PipelineEngine.Proofs.Value.Equality

/-!
# Arguments that are integers

A condition compares an argument with an integer, `args.x == n`.

* `Token.number?_signed_of_inRange`: an integer that 63 bits hold is read as itself, a larger one
  as the double nearest to it.
* `Value.equal_ofInteger`: what is read equals an integer exactly when they are the same or, from
  2 ^ 63 on, have the same nearest double, which no integer there has for itself
  (`Double.exists_ne_nearest_eq`).
* `Expr.parseCondition_argumentEq`: so the condition is exact below 2 ^ 63 and nowhere else.
-/

namespace PipelineEngine

/-! ## Reading large integers -/

namespace Decimal

theorem parts?_digitChars (n : Nat) :
    parts? (Numeral.digitChars n) = some ⟨Numeral.digitChars n, [], 0⟩ := by
  have hdigits := Numeral.isDigit_of_mem_digitChars n
  have htake : (Numeral.digitChars n).takeWhile Numeral.isDigit = Numeral.digitChars n :=
    List.takeWhile_eq_self_iff.2 hdigits
  have hdrop : (Numeral.digitChars n).dropWhile Numeral.isDigit = [] :=
    List.dropWhile_eq_nil_iff.2 hdigits
  have hempty : (Numeral.digitChars n).isEmpty = false := by
    simpa using Numeral.digitChars_ne_nil n
  simp only [parts?, htake, hdrop, hempty]
  rfl

theorem nearest_digitChars {n : Nat} (hn : 0 < n) (hlt : n < 2 ^ 64) :
    Parts.nearest ⟨Numeral.digitChars n, [], 0⟩ = Float.ofNat n := by
  have hvalue : (Numeral.digitsFrom 10 0
      ((Numeral.digitChars n).dropWhile (· = '0'))).getD 0 = n := by
    rw [Numeral.digitsFrom_dropWhile_zero, Numeral.digitsFrom_digitChars]
    simp
  have hlength : ((Numeral.digitChars n).dropWhile (· = '0')).length ≤ 20 :=
    (List.dropWhile_sublist _).length_le.trans
      (Numeral.length_digitChars_le (hlt.trans (by decide)))
  simp only [Parts.nearest, List.append_nil, hvalue, List.length_nil, Nat.cast_zero, Int.sub_zero]
  rw [if_neg (by omega), if_neg (by omega)]
  rfl

/-- The digits of a number of at most 64 bits are read as its double. -/
theorem nearest?_digitChars {n : Nat} (hn : 0 < n) (hlt : n < 2 ^ 64) :
    nearest? (Numeral.digitChars n) = some (Float.ofNat n) := by
  have hfinite : (Float.ofNat n).isInf = false := by
    obtain ⟨m, e, hm, hunpack, -⟩ := Double.isFull_ofNat hn hlt
    change (Float.ofNat n).toModel.unpack.isInf = false
    rw [hunpack]
    rfl
  obtain ⟨c, more, heq⟩ := List.exists_cons_of_ne_nil (Numeral.digitChars_ne_nil n)
  have hdigit : Numeral.isDigit c = true :=
    Numeral.isDigit_of_mem_digitChars n c (by rw [heq]; exact List.mem_cons_self)
  have hunsigned : nearest? (c :: more) = (parts? (c :: more)).bind fun p =>
      if p.nearest.isInf then none else some p.nearest := by
    unfold nearest?
    split
    next negative unsigned hsign =>
      split at hsign
      next h => cases h; cases hdigit
      next h => cases h; cases hdigit
      next => cases hsign; rfl
  rw [heq, hunsigned, ← heq, parts?_digitChars, Option.bind_some, nearest_digitChars hn hlt,
    hfinite]
  rfl

end Decimal

/-- The value that an integer has as a literal: a double where 63 bits do not hold it. -/
def Value.ofInteger (n : Int) : Value :=
  if Word.fits 63 n then .int n else .number (.float (Float.ofInt n))

theorem Word.fits_iff_lt {n : Int} (hn : Number.inRange n = true) :
    Word.fits 63 n = true ↔ n < 2 ^ 63 := by
  have hlow := (Number.inRange_iff.1 hn).1
  simp only [Word.fits, Bool.and_eq_true, decide_eq_true_eq]
  have hbound : (Word.bound 63 : Int) = 2 ^ 63 := rfl
  omega

theorem Token.number?_signed_of_inRange {n : Int} (hn : Number.inRange n = true) :
    number? (Numeral.signed n).toList = some (.ofInteger n) := by
  rw [Value.ofInteger]
  by_cases hfits : Word.fits 63 n = true
  · rw [if_pos hfits, number?_signed hfits]
  · have hlow : 2 ^ 63 ≤ n := Int.not_lt.1 fun h => hfits ((Word.fits_iff_lt hn).2 h)
    have hhigh := Number.natAbs_lt_of_inRange hn
    obtain ⟨k, rfl⟩ := Int.eq_ofNat_of_zero_le (show 0 ≤ n by omega)
    have hsigned : (Numeral.signed k).toList = Numeral.digitChars k := Numeral.toList_decimal k
    have hinteger :
        (Numeral.integer? 10 (Numeral.digitChars k)).filter (Word.fits 63 ·) = none := by
      rw [← hsigned, Numeral.integer?_signed, Option.filter_some_neg (Bool.eq_false_iff.2 hfits)]
    rw [if_neg hfits, number?, hsigned, hinteger, Decimal.nearest?_digitChars (by omega) (by omega)]
    rfl

/-! ## Comparing integers with literals -/

theorem Value.equal_ofInteger {m n : Int} (hm : Number.inRange m = true)
    (hn : Number.inRange n = true) : equal (.int m) (.ofInteger n) =
      decide (m = n ∨ 2 ^ 63 ≤ n ∧ Double.nearest m = Double.nearest n) := by
  rw [ofInteger, Bool.eq_iff_iff, decide_eq_true_iff]
  by_cases hfits : Word.fits 63 n = true
  · have hlt := (Word.fits_iff_lt hn).1 hfits
    have hequal : equal (.int m) (.int n) = (m == n) := rfl
    rw [if_pos hfits, hequal, beq_iff_eq]
    exact ⟨.inl, fun h => h.resolve_right fun hlarge => absurd hlt (Int.not_lt.2 hlarge.1)⟩
  · have hlow : 2 ^ 63 ≤ n := Int.not_lt.1 fun h => hfits ((Word.fits_iff_lt hn).2 h)
    rw [if_neg hfits]
    change (Float.ofInt m == Float.ofInt n) = true ↔ _
    rw [Double.ofInt_beq_iff (Number.natAbs_lt_of_inRange hm) (Number.natAbs_lt_of_inRange hn)]
    constructor
    · exact fun h => .inr ⟨hlow, h⟩
    · rintro (rfl | ⟨-, h⟩)
      · rfl
      · exact h

/-! ## The condition -/

theorem Value.walk_field {v w : Value} {name : String} (h : v.field? name = some w) :
    v.walk [.field name] = .ok w := by
  cases v with
  | object fields =>
    rw [field?] at h
    simp only [walk, h]
  | null | bool | number | string | array => cases h

/-- The reference to an argument. -/
def Reference.argument (name : String) : Reference := ⟨"args." ++ name, .args, [.field name]⟩

theorem Reference.isCanonical_argument {name : String} (hname : IsName name) :
    (argument name).IsCanonical where
  raw_eq := by
    simp [argument, Root.text, PathSegment.text, ← String.toList_inj]
  root := trivial
  path := List.forall_mem_singleton.2 hname

theorem Token.ofWord_argument {name : String} (hname : IsName name) (offset : Nat) :
    ofWord offset (Reference.argument name).raw.toList = .ok (.ref (.argument name)) := by
  have hne : ∀ {word : String}, word.toList.head? ≠ some 'a' ∨ word.toList[1]? ≠ some 'r' →
      (Reference.argument name).raw ≠ word := by
    rintro word hword rfl
    simp [Reference.argument] at hword
  rw [ofWord, String.ofList_toList, (Reference.isCanonical_argument hname).read]
  split
  case h_7 => rfl
  all_goals
    rename_i h
    exact absurd h (hne (by decide))

namespace Expr

/-- The condition that an argument is an integer. -/
def argumentEq (name : String) (n : Int) : String :=
  "args." ++ name ++ " == " ++ Numeral.signed n

variable {name : String} {m n : Int}

/-- The condition is cut into the reference, the operator and the literal. -/
theorem scans_argumentEq (hname : IsName name) (hn : Number.inRange n = true) :
    Token.Scans (argumentEq name n).toList
      [.ref (.argument name), .eqEq, .literal (.ofInteger n)] := by
  have hraw : (Reference.argument name).raw.toList = 'a' :: ("rgs.".toList ++ name.toList) := by
    rw [Reference.argument, String.toList_append]
    rfl
  have htext : (argumentEq name n).toList = 'a' :: ("rgs.".toList ++ name.toList ++
      ' ' :: '=' :: '=' :: ' ' :: ((Numeral.signed n).toList ++ [])) := by
    simp [argumentEq]
  have hchars : ∀ c ∈ "rgs.".toList ++ name.toList, Token.isWordChar c = true := fun c hc =>
    (Reference.isCanonical_argument hname).isWordChar c (by rw [hraw]; exact .tail _ hc)
  have hliteral : Token.Scans ((Numeral.signed n).toList ++ []) [.literal (.ofInteger n)] := by
    have hend : Token.Follows false [] := nofun
    obtain ⟨c, more, heq, hspace, hfront⟩ :=
      Token.front_signed (Token.number?_signed_of_inRange hn) hend
    rw [heq]
    exact .token hspace hfront .nil
  have hoperator : Token.Scans (' ' :: '=' :: '=' :: ' ' :: ((Numeral.signed n).toList ++ []))
      [.eqEq, .literal (.ofInteger n)] :=
    .blank rfl <| .token rfl (fun _ => rfl) <| .blank rfl hliteral
  rw [htext]
  refine .token rfl (fun offset => Token.front_word rfl ?_ hchars ?_) hoperator
  · rw [← hraw]
    exact Token.ofWord_argument hname offset
  · intro c hc
    obtain rfl := Option.some.inj hc
    rfl

theorem parseCondition_argumentEq_eq (hname : IsName name) (hn : Number.inRange n = true) :
    parseCondition (argumentEq name n) =
      .ok (.eq (.ref (.argument name)) (.literal (.ofInteger n))) := by
  have hderives : Derives .comparison
      ([.ref (.argument name)] ++ .eqEq :: [.literal (.ofInteger n)])
      (.eq (.ref (.argument name)) (.literal (.ofInteger n))) :=
    .eq (.primary (.ref _)) (.primary (.literal _))
  exact parseCondition_of_scans (scans_argumentEq hname hn) hderives.and_alone.or_alone

theorem test_eq_ofInteger {ctx : Context} (hm : Number.inRange m = true)
    (hn : Number.inRange n = true) (hargument : ctx.args.field? name = some (.int m)) :
    test (.eq (.ref (.argument name)) (.literal (.ofInteger n))) ctx =
      .ok (decide (m = n ∨ 2 ^ 63 ≤ n ∧ Double.nearest m = Double.nearest n)) := by
  have hresolve : (Reference.argument name).resolve ctx = .ok (.int m) := by
    change (ctx.args.walk [.field name]).mapError _ = _
    rw [Value.walk_field hargument]
    rfl
  rw [← Value.equal_ofInteger hm hn]
  simp only [test, evaluate, hresolve, bind, Except.bind]
  rfl

/-- The condition that an argument is an integer is read.  It holds of an argument that is an
integer when this is the same one, or from 2 ^ 63 on when both have the same nearest double; so it
tells all integers apart exactly below 2 ^ 63. -/
theorem parseCondition_argumentEq (hname : IsName name) (hn : Number.inRange n = true) :
    ∃ e, parseCondition (argumentEq name n) = .ok e ∧
      (∀ m ctx, Number.inRange m = true → ctx.args.field? name = some (.int m) →
        e.test ctx = .ok (decide (m = n ∨ 2 ^ 63 ≤ n ∧ Double.nearest m = Double.nearest n))) ∧
      ((∀ m ctx, Number.inRange m = true → ctx.args.field? name = some (.int m) →
        e.test ctx = .ok (decide (m = n))) ↔ n < 2 ^ 63) := by
  refine ⟨_, parseCondition_argumentEq_eq hname hn, fun m ctx hm => test_eq_ofInteger hm hn, ?_⟩
  constructor
  · intro hexact
    by_contra hlarge
    have hhigh := Number.natAbs_lt_of_inRange hn
    obtain ⟨k, rfl⟩ := Int.eq_ofNat_of_zero_le (show 0 ≤ n by omega)
    obtain ⟨m, hne, hlow, hlt, hnearest⟩ :=
      Double.exists_ne_nearest_eq (n := k) (by omega) (by omega)
    have hm : Number.inRange m = true := Number.inRange_iff.2 (by omega)
    have hargument : (Context.start (.object [(name, .int m)]) []).args.field? name =
        some (.int m) := by
      simp [Context.start, Value.field?, Fields.get?]
    have htrue := test_eq_ofInteger hm hn hargument
    rw [hexact m _ hm hargument, Except.ok.injEq, decide_eq_decide] at htrue
    exact hne (Int.ofNat.inj (htrue.2 (.inr ⟨by omega, hnearest⟩)))
  · intro hlt m ctx hm hargument
    rw [test_eq_ofInteger hm hn hargument, Except.ok.injEq, decide_eq_decide]
    exact ⟨fun h => h.resolve_right fun hlarge => absurd hlt (Int.not_lt.2 hlarge.1), .inl⟩

/-- The greatest integer of 63 bits is told apart from the one before it. -/
theorem parseCondition_argumentEq_below :
    IsName "x" ∧ Number.inRange 9223372036854775807 = true ∧
      ∃ e, parseCondition "args.x == 9223372036854775807" = .ok e ∧
        e.test (.start (.object [("x", .int 9223372036854775806)]) []) = .ok false := by
  have hname : IsName "x" := by decide
  obtain ⟨e, hparse, -, hexact⟩ :=
    parseCondition_argumentEq hname (show Number.inRange 9223372036854775807 = true from rfl)
  have htext : argumentEq "x" 9223372036854775807 = "args.x == 9223372036854775807" := by
    decide +kernel
  rw [htext] at hparse
  exact ⟨hname, rfl, e, hparse, hexact.2 (by decide) 9223372036854775806 _ rfl rfl⟩

/-- The condition that the argument is 2 ^ 64 - 1 holds of 2 ^ 64 - 2. -/
theorem not_argumentEq_exact :
    ¬ ∀ n m : Int, Number.inRange n = true → Number.inRange m = true →
      ∀ ctx : Context, ctx.args.field? "x" = some (.int m) →
        ∃ e, parseCondition (argumentEq "x" n) = .ok e ∧ (e.test ctx = .ok true ↔ m = n) := by
  intro h
  have hnearest : Double.nearest 18446744073709551614 = Double.nearest 18446744073709551615 := by
    decide +kernel
  obtain ⟨e, hparse, hexact⟩ := h 18446744073709551615 18446744073709551614 rfl rfl
    (.start (.object [("x", .int 18446744073709551614)]) []) rfl
  rw [parseCondition_argumentEq_eq (by decide) rfl] at hparse
  obtain rfl := Except.ok.inj hparse
  rw [test_eq_ofInteger (m := 18446744073709551614) rfl rfl rfl] at hexact
  exact absurd (hexact.1 (by simp [hnearest])) (by decide)

end Expr

end PipelineEngine
