import PipelineEngine.Model.Plan
import PipelineEngine.Proofs.Expression.Written
import PipelineEngine.Proofs.Text.Trimmed

/-!
# References to steps

How a step is referred to: by what can be read as a reference, between braces, in a
mapping (`Expr.parseMapping_of_read`) or in a condition (`Expr.parseCondition_of_read`).
The readers are followed on such a text, one after the other.
-/

namespace PipelineEngine

/-! ## Names -/

/-- A character of a name is no blank. -/
theorem isBlank_of_isNameChar {c : Char} (h : isNameChar c = true) : Text.isBlank c = false := by
  rw [isNameChar, Bool.or_eq_true, Bool.or_eq_true, decide_eq_true_iff, decide_eq_true_iff] at h
  rcases h with (h | rfl) | rfl
  · have hrange : 48 ≤ c.toNat ∧ c.toNat ≤ 122 := by
      change ((decide (65 ≤ c.val ∧ c.val ≤ 90) || (decide (97 ≤ c.val) && decide (c.val ≤ 122))) ||
        (decide (48 ≤ c.val) && decide (c.val ≤ 57))) = true at h
      simp only [Bool.or_eq_true, Bool.and_eq_true, decide_eq_true_eq,
        UInt32.le_iff_toNat_le] at h
      change ((65 ≤ c.toNat ∧ c.toNat ≤ 90) ∨ (97 ≤ c.toNat ∧ c.toNat ≤ 122)) ∨
        (48 ≤ c.toNat ∧ c.toNat ≤ 57) at h
      omega
    simp only [Text.isBlank, Bool.or_eq_false_iff, Bool.and_eq_false_iff, beq_eq_false_iff_ne,
      decide_eq_false_iff_not]
    omega
  · decide
  · decide

/-- A name that is not that of a root reads as a reference to a step. -/
theorem Reference.read_of_name {name : List Char} (hne : name ≠ [])
    (hname : ∀ c ∈ name, isNameChar c = true) (hroot : String.ofList name ∉ reservedStepNames)
    (offset : Nat) :
    Reference.read offset name =
      .ok ⟨String.ofList name, .named (String.ofList name), []⟩ := by
  have hblank : ∀ c ∈ name, Text.isBlank c = false := fun c hc => isBlank_of_isNameChar (hname c hc)
  have htrim : Text.trim name = name :=
    Text.trim_eq_self (fun c hc => hblank c (List.mem_of_mem_head? hc))
      fun c hc => hblank c (List.mem_of_mem_getLast? hc)
  have htake : name.takeWhile isNameChar = name := by
    have happend : (name ++ []).takeWhile isNameChar = name ++ [].takeWhile isNameChar :=
      List.takeWhile_append_of_pos hname
    simpa using happend
  have hdrop : name.dropWhile isNameChar = [] := by
    have happend : (name ++ []).dropWhile isNameChar = [].dropWhile isNameChar :=
      List.dropWhile_append_of_pos hname
    simpa using happend
  have hempty : name.isEmpty = false := List.isEmpty_eq_false_iff.2 hne
  rw [Reference.read]
  simp only [htrim, htake, hdrop, hempty]
  simp only [reservedStepNames, List.mem_cons, List.not_mem_nil, or_false, not_or] at hroot
  obtain ⟨hargs, henv, hpipeline, houtcome⟩ := hroot
  simp only [Bool.false_eq_true, if_false]
  rw [readSegments]
  rfl

/-- A text of one token that is a reference reads as that reference. -/
theorem Expr.ofTokens_singleton (size : Nat) (r : Reference) (offset : Nat) :
    Expr.ofTokens size [⟨.ref r, offset⟩] = .ok (.ref r) :=
  ofTokens_eq_ok_iff.2 ((Derives.ref r).weaken (by decide))

/-! ## References between braces -/

section

variable {inner : List Char} {r : Reference}

/-- What can be read between braces is read as a reference. -/
theorem Expr.readSource_of_read (hbrace : '\x7d' ∉ inner) (hread : Reference.read 2 inner = .ok r) :
    Expr.readSource ('$' :: '\x7b' :: (inner ++ ['\x7d'])) = .ok (.ref r) := by
  have hfront : Token.front 0 '$' ('\x7b' :: (inner ++ ['\x7d'])) = .ok (.ref r, []) := by
    rw [Token.front, Text.cut?_append_cons hbrace]
    simp only [Nat.zero_add, hread]
    rfl
  have hscan : Token.scan ('$' :: '\x7b' :: (inner ++ ['\x7d'])) = .ok [⟨.ref r, 0⟩] := by
    rw [Token.scan, Token.scanFrom, if_neg (by decide)]
    split
    · rename_i e heq
      rw [hfront] at heq
      cases heq
    · rename_i t rest heq
      rw [hfront] at heq
      obtain ⟨rfl, rfl⟩ := Prod.mk.inj (Except.ok.inj heq)
      simp only [Token.scanFrom]
      rfl
  rw [Expr.readSource, hscan]
  exact Expr.ofTokens_singleton _ _ _

variable {source : String} (hsource : source.toList = '$' :: '\x7b' :: (inner ++ ['\x7d']))
include hsource

theorem Expr.parseCondition_of_read (hbrace : '\x7d' ∉ inner)
    (hread : Reference.read 2 inner = .ok r) : Expr.parseCondition source = .ok (.ref r) := by
  rw [Expr.parseCondition, hsource, Expr.readSource_of_read hbrace hread]
  rfl

theorem Expr.parseMapping_of_read (hbrace : '\x7d' ∉ inner)
    (hread : Reference.read 2 inner = .ok r) : Expr.parseMapping source = .ok (.ref r) := by
  have htrim : Text.trim source.toList = source.toList := by
    rw [hsource]
    apply Text.trim_eq_self
    · intro c hc
      obtain rfl : '$' = c := by simpa using hc
      decide
    · intro c hc
      have hc' : c ∈ (('$' :: '\x7b' :: inner) ++ ['\x7d']).getLast? := hc
      rw [List.getLast?_concat] at hc'
      obtain rfl : '\x7d' = c := Option.some.inj hc'
      decide
  have hempty : source.toList.isEmpty = false := by
    rw [hsource]
    rfl
  have hsourceRead : Expr.readSource source.toList = .ok (.ref r) := by
    rw [hsource]
    exact Expr.readSource_of_read hbrace hread
  rw [Expr.parseMapping]
  simp only [htrim, hempty, hsourceRead]
  rfl

end

/-- No brace stands in a name. -/
theorem brace_not_mem_of_isNameChar {name : List Char} (hname : ∀ c ∈ name, isNameChar c = true) :
    '\x7d' ∉ name := by
  intro hmem
  have := hname _ hmem
  revert this
  decide

section

variable {source : String} {name : List Char}
variable (hsource : source.toList = '$' :: '\x7b' :: (name ++ ['\x7d'])) (hne : name ≠ [])
variable (hname : ∀ c ∈ name, isNameChar c = true) (hroot : String.ofList name ∉ reservedStepNames)
include hsource hne hname hroot

/-- A step's name between braces is read as a reference to the step. -/
theorem Expr.parseMapping_of_name :
    Expr.parseMapping source =
      .ok (.ref ⟨String.ofList name, .named (String.ofList name), []⟩) :=
  Expr.parseMapping_of_read hsource (brace_not_mem_of_isNameChar hname)
    (Reference.read_of_name hne hname hroot 2)

theorem Expr.parseCondition_of_name :
    Expr.parseCondition source =
      .ok (.ref ⟨String.ofList name, .named (String.ofList name), []⟩) :=
  Expr.parseCondition_of_read hsource (brace_not_mem_of_isNameChar hname)
    (Reference.read_of_name hne hname hroot 2)

end

end PipelineEngine
