import Mathlib.Data.List.Forall2
import PipelineEngine.Text.Case
import PipelineEngine.Text.Utf8

/-!
# What is read as small letters

Which texts end, once they are in lower case, with a word of the letters from `a` to `z`.  Beside
the letters of ASCII in either case one other character has such a letter as its lower case: the
Kelvin sign, whose lower case is `k`.

* `Text.getLast?_lowerChar`: the characters whose lower case ends with a small letter.
* `Text.exists_of_suffix_lower`: where the lower case of a text ends with a word of small letters,
  the text ends with characters that have these letters as their lower cases.
* `Text.size_of_lowersTo`: such characters are bytes, but for Kelvin signs.
-/

namespace PipelineEngine.Text

/-- The sign of the unit, which looks like a capital letter. -/
def kelvinSign : Char := '\u212a'

/-- The letters from `a` to `z`. -/
def IsSmall (d : Char) : Prop := 0x61 ≤ d.toNat ∧ d.toNat ≤ 0x7a

instance (d : Char) : Decidable (IsSmall d) := inferInstanceAs (Decidable (_ ∧ _))

/-- The lower case of a character is the small letter `d`. -/
def LowersTo (c d : Char) : Prop := c.toLower = d ∨ c = kelvinSign ∧ d = 'k'

variable {c d : Char} {s mark : List Char}

/-! ## One character -/

namespace Case

theorem exists_run_of_lookRuns {n m : Nat} {runs : List (Nat × Nat × Nat × Int)}
    (h : lookRuns n runs = some m) :
    ∃ run ∈ runs, run.1 ≤ n ∧ n ≤ run.2.1 ∧ m = ((n : Int) + run.2.2.2).toNat := by
  induction runs with
  | nil => cases h
  | cons run rest ih =>
    obtain ⟨first, last, step, offset⟩ := run
    rw [lookRuns] at h
    split at h
    · rename_i hrun
      exact ⟨_, List.mem_cons_self, hrun.1, hrun.2.1, (Option.some.inj h).symm⟩
    · obtain ⟨run, hmem, hspec⟩ := ih h
      exact ⟨run, List.mem_cons_of_mem _ hmem, hspec⟩

/-- The one run that leads from outside of ASCII into it is that of the Kelvin sign. -/
theorem lowerRuns_ascii : ∀ run ∈ lowerRuns,
    run.2.1 < 0x80 ∨ 0x80 ≤ (run.1 : Int) + run.2.2.2 ∨ run = (0x212a, 0x212a, 1, -8383) := by
  decide +kernel

theorem eq_of_lowerSpecial {n : Nat} {images : List Nat}
    (h : lowerSpecial.lookup n = some images) : images = [0x69, 0x307] := by
  simp only [lowerSpecial, List.lookup_cons, List.lookup_nil] at h
  split at h
  · exact (Option.some.inj h).symm
  · cases h

/-- A lower case of several characters does not end with a small letter. -/
theorem getLast?_of_lowerSpecial {n : Nat} {images : List Nat}
    (h : lowerSpecial.lookup n = some images) :
    ∀ d ∈ (images.map Char.ofNat).getLast?, ¬ IsSmall d := by
  rw [eq_of_lowerSpecial h]
  rintro d ⟨⟩
  decide

end Case

/-- No small letter comes from a number that is no code point. -/
theorem toNat_ofNat_of_isSmall {m : Nat} (h : IsSmall (Char.ofNat m)) :
    (Char.ofNat m).toNat = m := by
  by_cases hvalid : m.isValidChar
  · rw [Char.ofNat, dif_pos hvalid]
    rfl
  · rw [Char.ofNat, dif_neg hvalid] at h
    exact absurd h.1 (by decide)

theorem toLower_eq_self (h : 0x80 ≤ c.toNat) : c.toLower = c := by
  refine dif_neg ?_
  rintro ⟨-, hle⟩
  have hle' : c.toNat ≤ 0x5a := UInt32.le_iff_toNat_le.1 hle
  omega

/-- Of the characters outside of ASCII only the Kelvin sign ends with a small letter in lower
case. -/
theorem eq_kelvinSign_of_mapChar (hc : 0x80 ≤ c.toNat) (hd : IsSmall d)
    (h : d ∈ (Case.mapChar Case.lowerRuns Case.lowerSpecial c).getLast?) :
    Case.mapChar Case.lowerRuns Case.lowerSpecial c = [d] ∧ c = kelvinSign ∧ d = 'k' := by
  rw [Case.mapChar] at h ⊢
  cases hspecial : Case.lowerSpecial.lookup c.toNat with
  | some images =>
    rw [hspecial] at h
    exact (Case.getLast?_of_lowerSpecial hspecial d h hd).elim
  | none =>
    simp only [hspecial, List.getLast?_singleton, Option.mem_def, Option.some.injEq] at h ⊢
    refine ⟨by rw [h], ?_⟩
    subst h
    cases hrun : Case.lookRuns c.toNat Case.lowerRuns with
    | none =>
      rw [hrun] at hd
      exact absurd hd.2 (Nat.not_le.2 (Nat.lt_of_lt_of_le (by decide) hc))
    | some m =>
      rw [hrun] at hd
      have hm : (Char.ofNat m).toNat = m := toNat_ofNat_of_isSmall hd
      have hlt : m ≤ 0x7a := hm ▸ hd.2
      obtain ⟨run, hmem, hfirst, hlast, hvalue⟩ := Case.exists_run_of_lookRuns hrun
      rcases Case.lowerRuns_ascii run hmem with hascii | houtside | rfl
      · omega
      · omega
      · have hkelvin : c.toNat = 0x212a := Nat.le_antisymm hlast hfirst
        have hk : m = 0x6b := by rw [hvalue, hkelvin]; rfl
        subst hk
        exact ⟨Char.toNat_inj.1 hkelvin, rfl⟩

/-- A character whose lower case ends with a small letter has this letter as its lower case. -/
theorem lowersTo_of_lowerChar (hd : IsSmall d) (h : d ∈ (lowerChar c).getLast?) :
    lowerChar c = [d] ∧ LowersTo c d := by
  rw [lowerChar] at h ⊢
  split at h
  · obtain rfl := Option.some.inj h
    rename_i hc
    exact ⟨if_pos hc, .inl rfl⟩
  · rename_i hc
    rw [if_neg hc]
    obtain ⟨himage, hkelvin⟩ := eq_kelvinSign_of_mapChar (Nat.not_lt.1 hc) hd h
    exact ⟨himage, .inr hkelvin⟩

theorem lowerChar_ne_nil (c : Char) : lowerChar c ≠ [] := by
  rw [lowerChar]
  split
  · exact List.cons_ne_nil _ _
  · rw [Case.mapChar]
    cases hspecial : Case.lowerSpecial.lookup c.toNat with
    | none => exact List.cons_ne_nil _ _
    | some images =>
      rw [Case.eq_of_lowerSpecial hspecial]
      exact List.cons_ne_nil _ _

/-! ## Texts -/

/-- The lower case of a text is made of images of its characters, and only the image of a character
that is read as a small letter ends with one. -/
theorem exists_image (before : List Char) (c : Char) (rest : List Char) :
    ∃ image, lowerAfter before (c :: rest) = image ++ lowerAfter (c :: before) rest ∧ image ≠ [] ∧
      ∀ d ∈ image.getLast?, IsSmall d → image = [d] ∧ LowersTo c d := by
  refine ⟨_, rfl, ?_⟩
  split
  · rename_i hsigma
    have hsigmas : ¬ IsSmall 'ς' ∧ ¬ IsSmall 'σ' := by decide
    refine ⟨List.cons_ne_nil _ _, ?_⟩
    rintro d ⟨⟩ hd
    split at hd
    · exact (hsigmas.1 hd).elim
    · exact (hsigmas.2 hd).elim
  · exact ⟨lowerChar_ne_nil c, fun d hlast hd => lowersTo_of_lowerChar hd hlast⟩

/-- Where the lower case is a word of small letters, each is the lower case of one character. -/
theorem forall₂_of_lowerAfter {before : List Char} (h : ∀ d ∈ lowerAfter before s, IsSmall d) :
    List.Forall₂ LowersTo s (lowerAfter before s) := by
  induction s generalizing before with
  | nil => exact .nil
  | cons c rest ih =>
    obtain ⟨image, heq, hne, himage⟩ := exists_image before c rest
    rw [heq] at h ⊢
    obtain ⟨hfront, hrest⟩ := List.forall_mem_append.1 h
    have hlast := List.getLast?_eq_some_getLast hne
    obtain ⟨hsingle, hlowers⟩ := himage _ hlast (hfront _ (List.getLast_mem hne))
    rw [hsingle]
    exact .cons hlowers (ih hrest)

theorem exists_of_suffix_lowerAfter {before : List Char} (hmark : ∀ d ∈ mark, IsSmall d)
    (h : mark <:+ lowerAfter before s) :
    ∃ front last, s = front ++ last ∧ List.Forall₂ LowersTo last mark := by
  induction s generalizing before with
  | nil =>
    obtain rfl := List.suffix_nil.1 h
    exact ⟨[], [], rfl, .nil⟩
  | cons c rest ih =>
    obtain ⟨image, heq, -, himage⟩ := exists_image before c rest
    have hrest : mark <:+ lowerAfter (c :: before) rest →
        ∃ front last, c :: rest = front ++ last ∧ List.Forall₂ LowersTo last mark := by
      intro hsuffix
      obtain ⟨front, last, rfl, hlast⟩ := ih hsuffix
      exact ⟨c :: front, last, rfl, hlast⟩
    rw [heq] at h
    obtain ⟨t, ht⟩ := h
    rcases List.append_eq_append_iff.1 ht with ⟨word, rfl, rfl⟩ | ⟨skipped, -, hsuffix⟩
    · rcases List.eq_nil_or_concat word with rfl | ⟨init, d, rfl⟩
      · exact hrest ⟨[], rfl⟩
      · -- The word starts within the image of this character, which is one letter then.
        rw [List.concat_eq_append] at *
        have hd : IsSmall d := hmark d (by simp)
        obtain ⟨hsingle, hlowers⟩ := himage d (by simp) hd
        have hnil : init = [] := by
          have hlength := congrArg List.length hsingle
          simp only [List.length_append, List.length_cons, List.length_nil] at hlength
          exact List.length_eq_zero_iff.1 (by omega)
        subst hnil
        have hsmall : ∀ e ∈ lowerAfter (c :: before) rest, IsSmall e :=
          fun e he => hmark e (by simp [he])
        exact ⟨[], c :: rest, rfl, .cons hlowers (forall₂_of_lowerAfter hsmall)⟩
    · exact hrest ⟨skipped, hsuffix.symm⟩

/-- Where the lower case of a text ends with a word of small letters, characters that are read as
these letters stand at its end. -/
theorem exists_of_suffix_lower (hmark : ∀ d ∈ mark, IsSmall d) (h : mark <:+ lower s) :
    ∃ front last, s = front ++ last ∧ List.Forall₂ LowersTo last mark :=
  exists_of_suffix_lowerAfter hmark h

/-- Only a sigma looks at what stands around it. -/
theorem lowerAfter_eq_flatMap {before : List Char} (hs : 'Σ' ∉ s) :
    lowerAfter before s = s.flatMap lowerChar := by
  induction s generalizing before with
  | nil => rfl
  | cons c rest ih =>
    rw [List.mem_cons, not_or] at hs
    rw [List.flatMap_cons, lowerAfter, if_neg (Ne.symm hs.1), ih hs.2]

theorem suffix_lowerAfter_append {before last : List Char} (hlast : 'Σ' ∉ last) :
    last.flatMap lowerChar <:+ lowerAfter before (s ++ last) := by
  induction s generalizing before with
  | nil =>
    simp only [List.nil_append, lowerAfter_eq_flatMap hlast, List.suffix_refl]
  | cons c rest ih => exact ih.trans (List.suffix_append _ _)

/-- What stands at the end of a text is put into lower case by itself, but for a sigma. -/
theorem suffix_lower_append {last : List Char} (hlast : 'Σ' ∉ last) :
    last.flatMap lowerChar <:+ lower (s ++ last) :=
  suffix_lowerAfter_append hlast

/-! ## Kelvin signs -/

theorem toNat_lt_of_toLower (hd : IsSmall d) (h : c.toLower = d) : c.toNat < 0x80 := by
  by_contra hc
  rw [toLower_eq_self (by omega)] at h
  subst h
  exact absurd hd.2 (by omega)

theorem ne_kelvinSign_of_toLower (hd : IsSmall d) (h : c.toLower = d) : c ≠ kelvinSign := by
  rintro rfl
  exact absurd (toNat_lt_of_toLower hd h) (by decide)

/-- Characters that are read as small letters are bytes, and Kelvin signs are three. -/
theorem size_of_lowersTo (h : List.Forall₂ LowersTo s mark) (hmark : ∀ d ∈ mark, IsSmall d) :
    Utf8.size s = mark.length + 2 * s.count kelvinSign := by
  induction h with
  | nil => rfl
  | @cons c d s mark hc _ ih =>
    obtain ⟨hd, hmark⟩ := List.forall_mem_cons.1 hmark
    rw [Utf8.size_cons, ih hmark, List.length_cons]
    rcases hc with hc | ⟨rfl, -⟩
    · have hone : c.utf8Size = 1 := by
        rw [Char.utf8Size_eq_one_iff, UInt32.le_iff_toNat_le]
        exact Nat.le_of_lt_succ (toNat_lt_of_toLower hd hc)
      rw [hone, List.count_cons_of_ne (ne_kelvinSign_of_toLower hd hc)]
      omega
    · have hthree : kelvinSign.utf8Size = 3 := by decide
      rw [hthree, List.count_cons_self]
      omega

/-- A Kelvin sign is read as a `k`. -/
theorem count_kelvinSign_le (h : List.Forall₂ LowersTo s mark) (hmark : ∀ d ∈ mark, IsSmall d) :
    s.count kelvinSign ≤ mark.count 'k' := by
  induction h with
  | nil => exact Nat.le_refl _
  | @cons c d s mark hc _ ih =>
    obtain ⟨hd, hrest⟩ := List.forall_mem_cons.1 hmark
    rcases hc with hc | ⟨rfl, rfl⟩
    · rw [List.count_cons_of_ne (ne_kelvinSign_of_toLower hd hc)]
      exact Nat.le_trans (ih hrest) List.count_le_count_cons
    · rw [List.count_cons_self, List.count_cons_self]
      exact Nat.succ_le_succ (ih hrest)

/-- Any other character is read as a letter of the word. -/
theorem toLower_mem_of_lowersTo (h : List.Forall₂ LowersTo s mark) (hc : c ∈ s)
    (hne : c ≠ kelvinSign) : c.toLower ∈ mark := by
  induction h with
  | nil => cases hc
  | cons hhead _ ih =>
    rcases List.mem_cons.1 hc with rfl | hc
    · rcases hhead with rfl | ⟨heq, -⟩
      · exact List.mem_cons_self
      · exact (hne heq).elim
    · exact List.mem_cons_of_mem _ (ih hc)

/-- Without Kelvin signs a word is spelled in letters of ASCII. -/
theorem map_toLower_iff (h : List.Forall₂ LowersTo s mark) (hmark : ∀ d ∈ mark, IsSmall d) :
    s.map Char.toLower = mark ↔ kelvinSign ∉ s := by
  induction h with
  | nil => simp
  | @cons c d s mark hc _ ih =>
    obtain ⟨hd, hmark⟩ := List.forall_mem_cons.1 hmark
    rw [List.map_cons, List.cons.injEq, ih hmark, List.mem_cons, not_or]
    refine and_congr_left fun _ => ⟨fun hlower => (ne_kelvinSign_of_toLower hd hlower).symm, ?_⟩
    intro hne
    exact hc.resolve_right fun hkelvin => hne hkelvin.1.symm

end PipelineEngine.Text
