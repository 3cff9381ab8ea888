import PipelineEngine.Identifier.Uuid
import PipelineEngine.Proofs.Text.Numerals

/-!
# Run identifiers that are written and read

`Uuid.parse?_text`: an identifier is read from its text.  The text is 32 digits with hyphens
between their groups, and no digit can be taken for the start of another form.  So different
identifiers have different texts (`Uuid.text_injective`), all of one length.
-/

namespace PipelineEngine.Uuid

variable {groups : List Nat} {s : List Char} {c : Char}

/-! ## Groups -/

/-- Hyphens that are put between groups are taken out again. -/
theorem joinGroups?_hyphenate (hgroups : groups ≠ []) (hlength : s.length = groups.foldr (· + ·) 0) :
    joinGroups? groups (hyphenate groups s) = some s := by
  induction groups generalizing s with
  | nil => exact absurd rfl hgroups
  | cons n rest ih =>
    cases rest with
    | nil =>
      rw [hyphenate, joinGroups?]
      exact if_pos (by simpa using hlength)
    | cons m more =>
      rw [List.foldr_cons] at hlength
      have htake : (s.take n).length = n := by rw [List.length_take]; omega
      have hdrop : (s.drop n).length = (m :: more).foldr (· + ·) 0 := by rw [List.length_drop]; omega
      have hfront : (s.take n ++ '-' :: hyphenate (m :: more) (s.drop n)).take n = s.take n := by
        exact List.take_left' htake
      have hback : (s.take n ++ '-' :: hyphenate (m :: more) (s.drop n)).drop n =
          '-' :: hyphenate (m :: more) (s.drop n) :=
        List.drop_left' htake
      simp only [hyphenate, joinGroups?, hback, hfront, htake, if_true]
      rw [ih (by simp) hdrop, Option.map_some, List.take_append_drop]

theorem length_hyphenate (hlength : s.length = groups.foldr (· + ·) 0) :
    (hyphenate groups s).length = s.length + (groups.length - 1) := by
  induction groups generalizing s with
  | nil => rfl
  | cons n rest ih =>
    cases rest with
    | nil => rfl
    | cons m more =>
      rw [List.foldr_cons] at hlength
      have hrest := ih (s := s.drop n) (by rw [List.length_drop]; omega)
      simp only [hyphenate, List.length_append, List.length_cons, hrest, List.length_take,
        List.length_drop]
      omega

/-! ## Identifiers -/

theorem length_digits (u : Uuid) : u.digits.length = 32 :=
  Numeral.length_padded (k := 31) (by decide) u.bits.isLt

theorem ofDigits?_digits (u : Uuid) : ofDigits? u.digits = some u := by
  have hdigits : Numeral.digits? 16 u.digits = some u.bits.toNat :=
    Numeral.digits?_padded (by decide) (by decide) 32 _
  rw [ofDigits?, if_pos u.length_digits, hdigits, Option.map_some, ofNat, BitVec.ofNat_toNat,
    BitVec.setWidth_eq]

/-- A text that does not start like another form, and is longer than its digits, has hyphens. -/
theorem digitsOf?_cons (hmark : c ≠ 'u') (hbrace : c ≠ '\x7b') (hlength : s.length ≠ 31) :
    digitsOf? (c :: s) = joinGroups? Uuid.groups (c :: s) := by
  have hdrop : Text.dropMark? "urn:uuid:".toList (c :: s) = none := by
    refine if_neg fun hprefix => hmark ?_
    obtain ⟨rest, heq⟩ := List.isPrefixOf_iff_prefix.1 hprefix
    exact (List.cons.inj heq).1.symm
  rw [digitsOf?]
  · simp only [hdrop]
    exact if_neg (by simpa using hlength)
  · rintro rest heq
    exact hbrace (List.cons.inj heq).1

theorem parse?_text (u : Uuid) : parse? u.text = some u := by
  have hlength := u.length_digits
  have hjoin : joinGroups? Uuid.groups (hyphenate Uuid.groups u.digits) = some u.digits :=
    joinGroups?_hyphenate (by decide) hlength
  obtain ⟨c, rest, hdigits⟩ := List.exists_cons_of_length_eq_add_one hlength
  have htext : hyphenate Uuid.groups u.digits = c :: (hyphenate Uuid.groups u.digits).tail := by
    rw [hdigits]
    rfl
  have htail : (hyphenate Uuid.groups u.digits).tail.length = 35 := by
    rw [List.length_tail, length_hyphenate hlength, hlength]
    rfl
  have hmem : c ∈ u.digits := hdigits ▸ List.mem_cons_self
  obtain ⟨d, hd, rfl⟩ := Numeral.exists_of_mem_padded (by decide) 32 u.bits.toNat c hmem
  have hfirst : ∀ d < 16, Numeral.digitChar d ≠ 'u' ∧ Numeral.digitChar d ≠ '\x7b' := by decide
  rw [parse?, text, String.toList_ofList, htext,
    digitsOf?_cons (hfirst d hd).1 (hfirst d hd).2 (by omega), ← htext, hjoin, Option.bind_some,
    ofDigits?_digits]

/-- Different identifiers have different texts. -/
theorem text_injective : Function.Injective text := by
  intro u v h
  have hread : some u = some v := by rw [← parse?_text u, ← parse?_text v, h]
  exact Option.some.inj hread

theorem length_text (u : Uuid) : u.text.toList.length = 36 := by
  rw [text, String.toList_ofList, length_hyphenate u.length_digits, length_digits]
  rfl

end PipelineEngine.Uuid
