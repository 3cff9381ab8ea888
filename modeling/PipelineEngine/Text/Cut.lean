/-!
# Cutting texts

First and last occurrences of a mark in a character list, and the cuts made
there.  `cut?_eq_some` and `cutLast?_eq_some` say that a cut loses nothing but the mark,
`not_infix_of_cut?` and `cutLast?_append_cons` at which mark it is made.
-/

namespace PipelineEngine.Text

/-- The parts before and after the first occurrence of `mark`. -/
def cut? (mark : List Char) : List Char → Option (List Char × List Char)
  | [] => if mark.isEmpty then some ([], []) else none
  | c :: rest =>
    if mark.isPrefixOf (c :: rest) then
      some ([], (c :: rest).drop mark.length)
    else
      (cut? mark rest).map fun (before, after) => (c :: before, after)

/-- A cut puts the text back together when the mark is written between its
two parts. -/
theorem cut?_eq_some {mark s before after : List Char}
    (h : cut? mark s = some (before, after)) : s = before ++ mark ++ after := by
  induction s generalizing before with
  | nil =>
    simp only [cut?] at h
    split at h <;> simp_all
  | cons c rest ih =>
    simp only [cut?] at h
    split at h
    · rename_i hp
      simp only [Option.some.injEq, Prod.mk.injEq] at h
      obtain ⟨rfl, rfl⟩ := h
      obtain ⟨t, ht⟩ := List.isPrefixOf_iff_prefix.1 hp
      rw [← ht]
      simp
    · obtain ⟨⟨b, a⟩, hb, heq⟩ := Option.map_eq_some_iff.1 h
      simp only [Prod.mk.injEq] at heq
      obtain ⟨rfl, rfl⟩ := heq
      rw [ih hb]
      simp

/-- A cut is made at the first mark. -/
theorem not_infix_of_cut? {mark s before after : List Char} (hne : mark ≠ [])
    (h : cut? mark s = some (before, after)) : ¬ mark <:+: before := by
  induction s generalizing before with
  | nil =>
    rw [cut?, if_neg (by simpa using hne)] at h
    cases h
  | cons c rest ih =>
    have hs := cut?_eq_some h
    rw [cut?] at h
    split at h
    · simp only [Option.some.injEq, Prod.mk.injEq] at h
      rw [← h.1, List.infix_nil]
      exact hne
    · rename_i hp
      obtain ⟨⟨b, a⟩, hb, heq⟩ := Option.map_eq_some_iff.1 h
      simp only [Prod.mk.injEq] at heq
      obtain ⟨rfl, rfl⟩ := heq
      rw [List.infix_cons_iff]
      rintro (hfront | hinfix)
      · apply hp
        rw [List.isPrefixOf_iff_prefix, hs]
        exact (hfront.trans (List.prefix_append _ _)).trans (List.prefix_append _ _)
      · exact ih hb hinfix

/-- A text that is not cut has no mark. -/
theorem not_infix_of_cut?_eq_none {mark s : List Char} (h : cut? mark s = none) :
    ¬ mark <:+: s := by
  induction s with
  | nil =>
    rw [cut?] at h
    split at h
    · cases h
    · rename_i hne
      simpa [List.infix_nil] using hne
  | cons c rest ih =>
    rw [cut?] at h
    split at h
    · cases h
    · rename_i hp
      rw [List.infix_cons_iff, ← List.isPrefixOf_iff_prefix]
      rintro (hfront | hinfix)
      · exact hp hfront
      · exact ih (Option.map_eq_none_iff.1 h) hinfix

/-- The parts before and after the last occurrence of the character `mark`. -/
def cutLast? (mark : Char) : List Char → Option (List Char × List Char)
  | [] => none
  | c :: rest =>
    match cutLast? mark rest with
    | some (before, after) => some (c :: before, after)
    | none => if c = mark then some ([], rest) else none

/-- A cut at the last mark loses nothing but the mark. -/
theorem cutLast?_eq_some {mark : Char} {s before after : List Char}
    (h : cutLast? mark s = some (before, after)) : s = before ++ mark :: after := by
  induction s generalizing before with
  | nil => simp [cutLast?] at h
  | cons c rest ih =>
    rw [cutLast?] at h
    split at h
    · rename_i before' after' hrest
      simp only [Option.some.injEq, Prod.mk.injEq] at h
      obtain ⟨rfl, rfl⟩ := h
      rw [ih hrest, List.cons_append]
    · split at h
      · rename_i hmark
        simp only [Option.some.injEq, Prod.mk.injEq] at h
        obtain ⟨rfl, rfl⟩ := h
        rw [hmark, List.nil_append]
      · cases h

theorem cutLast?_eq_none {mark : Char} {s : List Char} (h : mark ∉ s) :
    cutLast? mark s = none := by
  induction s with
  | nil => rfl
  | cons c rest ih =>
    rw [List.mem_cons, not_or] at h
    rw [cutLast?, ih h.2]
    exact if_neg fun hc => h.1 hc.symm

/-- A cut is made at the last mark. -/
theorem cutLast?_append_cons {mark : Char} {after : List Char} (h : mark ∉ after)
    (before : List Char) : cutLast? mark (before ++ mark :: after) = some (before, after) := by
  induction before with
  | nil =>
    rw [List.nil_append, cutLast?, cutLast?_eq_none h]
    exact if_pos rfl
  | cons c rest ih => rw [List.cons_append, cutLast?, ih]

/-- The pieces between the occurrences of `mark`; a text without it is one
piece. -/
def pieces (mark : Char) : List Char → List (List Char)
  | [] => [[]]
  | c :: rest =>
    match pieces mark rest with
    | [] => [[c]]
    | piece :: more => if c = mark then [] :: piece :: more else (c :: piece) :: more

theorem pieces_ne_nil (mark : Char) (s : List Char) : pieces mark s ≠ [] := by
  cases s with
  | nil => simp [pieces]
  | cons c rest =>
    simp only [pieces]
    split
    · simp
    · split <;> simp

/-- The text after `mark`, when it starts with it. -/
def dropMark? (mark s : List Char) : Option (List Char) :=
  if mark.isPrefixOf s then some (s.drop mark.length) else none

/-- Whether `mark` occurs in the text. -/
def hasMark (mark s : List Char) : Bool :=
  (cut? mark s).isSome

end PipelineEngine.Text

namespace PipelineEngine

/-- The texts before and after the first occurrence of `mark`. -/
def cutText? (mark : String) (s : String) : Option (String × String) :=
  (Text.cut? mark.toList s.toList).map fun (before, after) =>
    (String.ofList before, String.ofList after)

/-- The text after `mark`, when it starts with it. -/
def dropMarkText? (mark : String) (s : String) : Option String :=
  (Text.dropMark? mark.toList s.toList).map String.ofList

/-- The texts between the occurrences of `mark`. -/
def piecesText (mark : Char) (s : String) : List String :=
  (Text.pieces mark s.toList).map String.ofList

end PipelineEngine
