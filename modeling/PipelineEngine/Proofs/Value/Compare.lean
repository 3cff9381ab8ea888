import PipelineEngine.Value.Compare

/-!
# Laws of comparisons

Both equalities of values are symmetric.  Neither is reflexive, for a float that is no
number does not equal itself, and equality by value is not transitive: two integers that
differ can both equal the float between them.
-/

namespace PipelineEngine

/-! ## Numbers -/

open Float.Model (UnpackedFloat) in
/-- Comparing floats the other way round turns the answer around. -/
theorem Number.compareUnpacked_swap (a b : UnpackedFloat) :
    b.compare a = (a.compare b).map Ordering.swap := by
  cases a with
  | notANumber => cases b <;> rfl
  | infinity s =>
    cases b with
    | notANumber => cases s <;> rfl
    | infinity t => cases s <;> cases t <;> rfl
    | zero t => cases s <;> rfl
    | finite t n f hn => cases s <;> rfl
  | zero s =>
    cases b with
    | notANumber => rfl
    | infinity t => cases t <;> rfl
    | zero t => rfl
    | finite t n f hn => cases t <;> rfl
  | finite s m e hm =>
    cases b with
    | notANumber => cases s <;> rfl
    | infinity t => cases s <;> cases t <;> rfl
    | zero t => cases s <;> rfl
    | finite t n f hn =>
      -- Only here do the sizes matter.
      have hexponents : compare f e = (compare e f).swap := (Int.compare_swap e f).symm
      have hmantissas : compare n m = (compare m n).swap := (Nat.compare_swap m n).symm
      have hsizes : (compare f e).then (compare n m) =
          ((compare e f).then (compare m n)).swap := by
        rw [hexponents, hmantissas, Ordering.swap_then]
      cases s with
      | negative =>
        cases t with
        | negative => exact congrArg (fun o => some (Ordering.swap o)) hsizes
        | positive => rfl
      | positive =>
        cases t with
        | negative => rfl
        | positive => exact congrArg some hsizes

theorem Number.beqFloat_comm (x y : Float) : (x == y) = (y == x) := by
  show (x.toModel.unpack.compare y.toModel.unpack == some .eq) =
    (y.toModel.unpack.compare x.toModel.unpack == some .eq)
  rw [Number.compareUnpacked_swap x.toModel.unpack]
  cases x.toModel.unpack.compare y.toModel.unpack with
  | none => rfl
  | some o => cases o <;> rfl

theorem Number.same_comm (a b : Number) : a.same b = b.same a := by
  cases a with
  | int m =>
    cases b with
    | int n => exact BEq.comm
    | float y => rfl
  | float x =>
    cases b with
    | int n => rfl
    | float y => exact Number.beqFloat_comm x y

theorem Number.equal_comm (a b : Number) : a.equal b = b.equal a := by
  cases a with
  | int m =>
    cases b with
    | int n => exact BEq.comm
    | float y => exact Number.beqFloat_comm _ _
  | float x =>
    cases b with
    | int n => exact Number.beqFloat_comm _ _
    | float y => exact Number.beqFloat_comm x y

/-! ## Values -/

namespace Value

mutual

theorem same_comm (a b : Value) : same a b = same b a := by
  cases a with
  | null => cases b <;> rfl
  | bool x =>
    cases b with
    | bool y => exact BEq.comm
    | _ => rfl
  | number x =>
    cases b with
    | number y => exact Number.same_comm x y
    | _ => rfl
  | string x =>
    cases b with
    | string y => exact BEq.comm
    | _ => rfl
  | array xs =>
    cases b with
    | array ys => exact sameItems_comm xs ys
    | _ => rfl
  | object xs =>
    cases b with
    | object ys => exact sameFields_comm xs ys
    | _ => rfl

theorem sameItems_comm (as bs : List Value) : sameItems as bs = sameItems bs as := by
  cases as with
  | nil => cases bs <;> rfl
  | cons a as =>
    cases bs with
    | nil => rfl
    | cons b bs =>
      rw [sameItems, sameItems, same_comm a b, sameItems_comm as bs]

theorem sameFields_comm (as bs : List (String × Value)) :
    sameFields as bs = sameFields bs as := by
  cases as with
  | nil => cases bs <;> rfl
  | cons a as =>
    cases bs with
    | nil => rfl
    | cons b bs =>
      obtain ⟨k, a⟩ := a
      obtain ⟨l, b⟩ := b
      rw [sameFields, sameFields, same_comm a b, sameFields_comm as bs, BEq.comm]

end

theorem equal_comm (a b : Value) : a.equal b = b.equal a := by
  cases a with
  | number x =>
    cases b with
    | number y => exact Number.equal_comm x y
    | _ => rfl
  | _ =>
    cases b <;> exact same_comm _ _

end Value

end PipelineEngine
