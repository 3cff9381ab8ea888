import PipelineEngine.Journal.Entry
import PipelineEngine.Proofs.Identifier.Uuids

/-!
# Keys that tell entries apart

The parts of a key stand between colons, and a step may have colons in its name.  The key of a
step can be taken apart all the same: the identifier in front and the sixteen digits at the end
have fixed lengths.  Every other key ends in a colon and a few characters more, where the key of
a step has nothing but digits.

* `EventKey.ofStep_eq_ofStep_iff`: when two steps have one key.
* `EventKey.ofStep_ne_of_isOther`: no key of another kind is the key of a step.
-/

namespace PipelineEngine

theorem Sha256.length_digest (bytes : List UInt8) : (Sha256.digest bytes).length = 32 := rfl

namespace EventKey

variable {run run' : Uuid} {step step' : String} {input input' : List UInt8}

/-! ## The digits at the end -/

theorem toList_inputHash (input : List UInt8) :
    (inputHash input).toList = (Numeral.hex (Sha256.digest input)).toList.take 16 :=
  String.toList_ofList

theorem length_inputHash (input : List UInt8) : (inputHash input).toList.length = 16 := by
  rw [toList_inputHash, List.length_take, Numeral.length_hex, Sha256.length_digest]
  rfl

theorem exists_of_mem_inputHash {c : Char} (h : c ∈ (inputHash input).toList) :
    ∃ d < 16, c = Numeral.digitChar d := by
  rw [toList_inputHash] at h
  exact Numeral.exists_of_mem_hex (List.mem_of_mem_take h)

theorem colon_notMem_inputHash (input : List UInt8) : ':' ∉ (inputHash input).toList := by
  intro h
  obtain ⟨d, hd, hcolon⟩ := exists_of_mem_inputHash h
  have hdigits : ∀ d < 16, ':' ≠ Numeral.digitChar d := by decide
  exact hdigits d hd hcolon

/-! ## Keys of steps -/

theorem toList_ofStep (run : Uuid) (step : String) (input : List UInt8) :
    (ofStep run step input).toList =
      run.text.toList ++ (':' :: step.toList ++ (':' :: (inputHash input).toList)) := by
  simp only [ofStep, String.toList_append, List.append_assoc]
  rfl

/-- Two steps have one key exactly when they are steps of one run, of one name, and their inputs
have the same digits: the parts around the name have fixed lengths. -/
theorem ofStep_eq_ofStep_iff : ofStep run step input = ofStep run' step' input' ↔
    run = run' ∧ step = step' ∧ inputHash input = inputHash input' := by
  constructor
  · intro h
    have hlist := congrArg String.toList h
    rw [toList_ofStep, toList_ofStep] at hlist
    -- Colons cannot cut the text, since the names may have some.  Lengths do, from both ends.
    obtain ⟨hrun, hrest⟩ := List.append_inj hlist (by rw [Uuid.length_text, Uuid.length_text])
    obtain ⟨hstep, hhash⟩ := List.append_inj' hrest (by
      rw [List.length_cons, List.length_cons, length_inputHash, length_inputHash])
    exact ⟨Uuid.text_injective (String.toList_inj.1 hrun),
      String.toList_inj.1 (List.cons.inj hstep).2, String.toList_inj.1 (List.cons.inj hhash).2⟩
  · rintro ⟨rfl, rfl, hhash⟩
    rw [ofStep, ofStep, hhash]

/-- The last sixteen characters of the key of a step are digits. -/
theorem toList_ofStep_ne {front tail : List Char} (hlength : tail.length < 16) :
    (ofStep run step input).toList ≠ front ++ ':' :: tail := by
  intro h
  rw [toList_ofStep] at h
  -- Both are ends of one text, and the one with the colon is not the longer one.
  have hhash : (inputHash input).toList <:+ front ++ ':' :: tail := by
    rw [← h]
    exact ⟨run.text.toList ++ (':' :: step.toList ++ [':']), by simp⟩
  have htail : ':' :: tail <:+ (inputHash input).toList :=
    List.suffix_of_suffix_length_le (List.suffix_append front _) hhash
      (by rw [length_inputHash, List.length_cons]; omega)
  exact colon_notMem_inputHash input (htail.subset List.mem_cons_self)

/-! ## Other keys -/

/-- The keys of the entries that are neither the start nor the completion of a step. -/
inductive IsOther : String → Prop
  | start (run : Uuid) : IsOther (ofStart run)
  | finish (run : Uuid) : IsOther (ofEnd run)
  | cancel (run : Uuid) : IsOther (ofCancel run)
  | failure (run : Uuid) (step : String) : IsOther (ofFailure run step)
  /-- The number of an attempt has 32 bits. -/
  | retry (run : Uuid) (step : String) (input : List UInt8) {attempt : Nat}
      (hattempt : attempt < Word.bound 32) : IsOther (ofRetry (ofStep run step input) attempt)

/-- Another key ends in a colon and fewer than sixteen characters. -/
theorem IsOther.exists_tail {key : String} (h : IsOther key) :
    ∃ front tail, key.toList = front ++ ':' :: tail ∧ tail.length < 16 := by
  cases h with
  | start run => exact ⟨run.text.toList, "start".toList, String.toList_append, by decide⟩
  | finish run => exact ⟨run.text.toList, "complete".toList, String.toList_append, by decide⟩
  | cancel run => exact ⟨run.text.toList, "cancel".toList, String.toList_append, by decide⟩
  | failure run step =>
    exact ⟨(run.text ++ ":" ++ step).toList, "failed".toList, String.toList_append, by decide⟩
  | @retry run step input attempt hattempt =>
    have hdigits : (Numeral.decimal attempt).toList.length ≤ 10 := by
      rw [Numeral.toList_decimal]
      exact Numeral.length_digitChars_le (Nat.lt_trans hattempt (by decide))
    refine ⟨(ofStep run step input).toList ++ ":retry".toList, (Numeral.decimal attempt).toList,
      ?_, by omega⟩
    simp only [ofRetry, String.toList_append, List.append_assoc]
    rfl

theorem ofStep_ne_of_isOther {key : String} (h : IsOther key) : ofStep run step input ≠ key := by
  rintro rfl
  obtain ⟨front, tail, hkey, hlength⟩ := h.exists_tail
  exact toList_ofStep_ne hlength hkey

end EventKey

end PipelineEngine
