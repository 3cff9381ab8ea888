import Mathlib.Data.List.TakeWhile
import PipelineEngine.Text.Blank
import PipelineEngine.Text.Cut

/-!
# Trimming and cutting

What is cut off a text: a word at its front (`takeWhile_word`), the blanks around it
(`Text.trim_append`, `Text.exists_trim`), all that stands before a mark (`Text.cut?_append`) and a
mark at its front (`Text.dropMark?_eq_some_iff`).
-/

namespace PipelineEngine

/-! ## Cutting words off a text -/

section
variable {α : Type} {p : α → Bool} {word rest : List α}

/-- A word that ends where the text stops having its characters. -/
theorem takeWhile_word (hword : ∀ a ∈ word, p a = true) (hrest : ∀ a ∈ rest.head?, p a = false) :
    (word ++ rest).takeWhile p = word := by
  rw [List.takeWhile_append_of_pos hword]
  cases rest with
  | nil => simp
  | cons a rest => simp [hrest a rfl]

theorem dropWhile_word (hword : ∀ a ∈ word, p a = true) (hrest : ∀ a ∈ rest.head?, p a = false) :
    (word ++ rest).dropWhile p = rest := by
  rw [List.dropWhile_append_of_pos hword]
  cases rest with
  | nil => rfl
  | cons a rest => simp [hrest a rfl]

end

/-! ## Blanks -/

namespace Text

/-- A text is written with blanks around it. -/
def Padded (s text : List Char) : Prop :=
  ∃ leading trailing, (∀ c ∈ leading, isBlank c = true) ∧ (∀ c ∈ trailing, isBlank c = true) ∧
    text = leading ++ (s ++ trailing)

/-- A text that starts with no blank is not trimmed at its front. -/
theorem trimStart_eq_self {s : List Char} (hfirst : ∀ c ∈ s.head?, isBlank c = false) :
    trimStart s = s :=
  @dropWhile_word _ _ [] s nofun hfirst

/-- Blanks after a text are trimmed off. -/
theorem trimEnd_append {s trailing : List Char} (htrailing : ∀ c ∈ trailing, isBlank c = true)
    (hlast : ∀ c ∈ s.getLast?, isBlank c = false) : trimEnd (s ++ trailing) = s := by
  rw [trimEnd, List.reverse_append, dropWhile_word, List.reverse_reverse]
  · exact fun c hc => htrailing c (List.mem_reverse.1 hc)
  · rwa [List.head?_reverse]

/-- Blanks around a text are trimmed off. -/
theorem trim_append {leading s trailing : List Char} (hleading : ∀ c ∈ leading, isBlank c = true)
    (htrailing : ∀ c ∈ trailing, isBlank c = true) (hfirst : ∀ c ∈ s.head?, isBlank c = false)
    (hlast : ∀ c ∈ s.getLast?, isBlank c = false) : trim (leading ++ (s ++ trailing)) = s := by
  cases s with
  | nil =>
    have hall : ∀ c ∈ leading ++ trailing, isBlank c = true :=
      List.forall_mem_append.2 ⟨hleading, htrailing⟩
    rw [trim, trimStart, List.nil_append, List.dropWhile_eq_nil_iff.2 hall]
    rfl
  | cons c rest =>
    have hstart : trimStart (leading ++ (c :: rest ++ trailing)) = c :: rest ++ trailing :=
      dropWhile_word hleading hfirst
    rw [trim, hstart, trimEnd_append htrailing hlast]

/-- A text that neither starts nor ends with a blank is not trimmed. -/
theorem trim_eq_self {s : List Char} (hfirst : ∀ c ∈ s.head?, isBlank c = false)
    (hlast : ∀ c ∈ s.getLast?, isBlank c = false) : trim s = s := by
  have htrim := @trim_append [] s [] nofun nofun hfirst hlast
  rwa [List.nil_append, List.append_nil] at htrim

/-- What is trimmed stands between blanks. -/
theorem exists_trim (s : List Char) : ∃ trailing, (∀ c ∈ trailing, isBlank c = true) ∧
    s = s.takeWhile isBlank ++ (trim s ++ trailing) := by
  refine ⟨((trimStart s).reverse.takeWhile isBlank).reverse,
    fun c hc => List.mem_takeWhile_imp (List.mem_reverse.1 hc), ?_⟩
  rw [trim, trimEnd, ← List.reverse_append, List.takeWhile_append_dropWhile, List.reverse_reverse,
    trimStart, List.takeWhile_append_dropWhile]

/-- A trimmed text does not end with a blank. -/
theorem isBlank_of_mem_getLast?_trim {s : List Char} :
    ∀ c ∈ (trim s).getLast?, isBlank c = false := by
  intro c hc
  rw [trim, trimEnd, List.getLast?_reverse] at hc
  have hne := List.head?_dropWhile_not isBlank (trimStart s).reverse
  rw [Option.mem_def.1 hc] at hne
  simpa using hne

/-- A trimmed text does not start with a blank. -/
theorem isBlank_of_mem_head?_trim {s : List Char} :
    ∀ c ∈ (trim s).head?, isBlank c = false := by
  intro c hc
  obtain ⟨trailing, -, hs⟩ := exists_trim s
  have hdrop : s.dropWhile isBlank = trim s ++ trailing := by
    apply @List.append_cancel_left _ (s.takeWhile isBlank)
    rw [List.takeWhile_append_dropWhile, ← hs]
  have hhead : (s.dropWhile isBlank).head? = some c := by
    rw [hdrop, List.head?_append, hc]
    rfl
  have hne := List.head?_dropWhile_not isBlank s
  rw [hhead] at hne
  simpa using hne

theorem trim_trim (s : List Char) : trim (trim s) = trim s :=
  trim_eq_self isBlank_of_mem_head?_trim isBlank_of_mem_getLast?_trim

end Text

/-! ## Marks -/

/-- What stands before a mark is cut off whole, when the mark's first character does not occur
in it. -/
theorem Text.cut?_append {first : Char} {s : List Char} (h : first ∉ s) (mark rest : List Char) :
    Text.cut? (first :: mark) (s ++ (first :: mark ++ rest)) = some (s, rest) := by
  induction s with
  | nil =>
    have hprefix : (first :: mark).isPrefixOf (first :: (mark ++ rest)) = true :=
      List.isPrefixOf_iff_prefix.2 (List.prefix_append (first :: mark) rest)
    rw [List.nil_append, List.cons_append, Text.cut?, if_pos hprefix]
    simp
  | cons c s ih =>
    rw [List.mem_cons, not_or] at h
    simpa [Text.cut?, h.1] using ih h.2

/-- What stands before a mark that does not occur in it is cut off whole. -/
theorem Text.cut?_append_cons {mark : Char} {s : List Char} (h : mark ∉ s) (rest : List Char) :
    Text.cut? [mark] (s ++ mark :: rest) = some (s, rest) :=
  Text.cut?_append h [] rest

/-- A text without the first character of a mark is not cut. -/
theorem Text.cut?_eq_none {first : Char} {s : List Char} (h : first ∉ s) (mark : List Char) :
    Text.cut? (first :: mark) s = none := by
  induction s with
  | nil => rfl
  | cons c s ih =>
    rw [List.mem_cons, not_or] at h
    simp [Text.cut?, h.1, ih h.2]

/-- The last occurrence of a mark splits a text. -/
theorem Text.exists_last_of_mem {mark : Char} {s : List Char} (h : mark ∈ s) :
    ∃ before after, s = before ++ mark :: after ∧ mark ∉ after := by
  obtain ⟨after, before, hreverse, hafter⟩ := List.eq_append_cons_of_mem (List.mem_reverse.2 h)
  refine ⟨before.reverse, after.reverse, ?_, by simpa using hafter⟩
  rw [← List.reverse_reverse s, hreverse]
  simp

/-- What is left of a text behind a mark at its front. -/
theorem Text.dropMark?_eq_some_iff {mark s rest : List Char} :
    Text.dropMark? mark s = some rest ↔ s = mark ++ rest := by
  rw [Text.dropMark?, Option.ite_none_right_eq_some, Option.some.injEq, List.isPrefixOf_iff_prefix]
  constructor
  · rintro ⟨⟨t, rfl⟩, rfl⟩
    simp
  · rintro rfl
    exact ⟨List.prefix_append _ _, by simp⟩

/-- What stands before the first mark is the first piece. -/
theorem Text.pieces_append_cons {mark : Char} {s : List Char} (h : mark ∉ s) (rest : List Char) :
    Text.pieces mark (s ++ mark :: rest) = s :: Text.pieces mark rest := by
  induction s with
  | nil =>
    rw [List.nil_append, Text.pieces]
    split
    · exact absurd ‹_› (Text.pieces_ne_nil mark rest)
    · rename_i piece more heq
      rw [if_pos rfl, heq]
  | cons c s ih =>
    rw [List.mem_cons, not_or] at h
    rw [List.cons_append, Text.pieces, ih h.2]
    exact if_neg fun heq => h.1 heq.symm

end PipelineEngine
