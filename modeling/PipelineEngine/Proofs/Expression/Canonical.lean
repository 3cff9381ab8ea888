import PipelineEngine.Proofs.Expression.Reference
import PipelineEngine.Proofs.Text.Numerals

/-!
# References as they are spelled

A reference is spelled as the name of its root, with fields and indices behind it and blanks
around it (`Reference.IsSpelled`).  This is a grammar beside the readers, which count offsets.

* `Reference.spellsPath_of_readSegments`, by the recursion of the reader, and
  `Reference.SpellsPath.readSegments`, by induction on the spelling: the path.
* `Reference.read_eq_ok_iff`: the reference.  Where it stands in a source makes no difference.
* `Reference.IsCanonical.read`: a reference whose text is its root and its segments, with
  nothing around them, is what its text is read as.
-/

namespace PipelineEngine

/-- A name that can be written in a reference. -/
def IsName (name : String) : Prop := name ≠ "" ∧ ∀ c ∈ name.toList, isNameChar c = true

instance (name : String) : Decidable (IsName name) :=
  decidable_of_iff (name ≠ "" ∧ name.toList.all isNameChar = true) <| by
    rw [IsName, List.all_eq_true]

/-- A root as it is written. -/
def Root.text : Root → String
  | .args => "args"
  | .env => "env"
  | .pipeline position => "pipeline[" ++ Numeral.decimal position ++ "]"
  | .outcome => "outcome"
  | .named name => name

/-- A root that can be written: positions are words, and names are those of no other root. -/
def Root.IsWritable : Root → Prop
  | .pipeline position => position < Word.bound 64
  | .named name => IsName name ∧ name ∉ reservedStepNames
  | .args | .env | .outcome => True

/-- A segment that can be written. -/
def PathSegment.IsWritable : PathSegment → Prop
  | .field name => IsName name
  | .index position => position < Word.bound 64

/-- The text of a reference is its root and its segments, one after the other. -/
structure Reference.IsCanonical (r : Reference) : Prop where
  raw_eq : r.raw = r.root.text ++ String.join (r.path.map PathSegment.text)
  root : r.root.IsWritable
  path : ∀ segment ∈ r.path, segment.IsWritable

namespace Reference

/-! ## Spelled paths -/

/-- The text spells the segments of a path, one after the other.  An index is any numeral of
its position, so zeros may stand at its front. -/
inductive SpellsPath : List PathSegment → List Char → Prop where
  | nil : SpellsPath [] []
  | field {name : String} {path : List PathSegment} {rest : List Char} (hname : IsName name)
      (h : SpellsPath path rest) : SpellsPath (.field name :: path) ('.' :: (name.toList ++ rest))
  | index {digits : List Char} {position : Nat} {path : List PathSegment} {rest : List Char}
      (hdigits : Numeral.digits? 10 digits = some position) (hposition : position < Word.bound 64)
      (h : SpellsPath path rest) :
      SpellsPath (.index position :: path) ('[' :: (digits ++ ']' :: rest))

section
variable {offset : Nat} {s : List Char} {path : List PathSegment}

/-- A path does not go on with the name before it. -/
theorem SpellsPath.head (h : SpellsPath path s) : ∀ c ∈ s.head?, isNameChar c = false := by
  cases h with
  | nil => exact nofun
  | field | index =>
    rintro c ⟨⟩
    decide

theorem exists_numeral_of_readIndex {position next : Nat}
    {r : { r : List Char // r.length < s.length }}
    (h : readIndex offset s = .ok (position, next, r)) :
    ∃ digits, s = digits ++ ']' :: r.1 ∧ Numeral.digits? 10 digits = some position ∧
      position < Word.bound 64 ∧ next = offset + digits.length + 1 := by
  rw [readIndex] at h
  split at h
  · cases h
  · split at h
    next rest hrest =>
      split at h
      next n hn =>
        split at h
        next hlt =>
          cases h
          refine ⟨s.takeWhile Numeral.isDigit, ?_, hn, hlt, rfl⟩
          rw [← hrest, List.takeWhile_append_dropWhile]
        next => cases h
      next => cases h
    next => cases h

theorem readIndex_numeral {digits : List Char} {position : Nat}
    (hdigits : Numeral.digits? 10 digits = some position) (hposition : position < Word.bound 64)
    (offset : Nat) (rest : List Char) :
    readIndex offset (digits ++ ']' :: rest) =
      .ok (position, offset + digits.length + 1, ⟨rest, by simp; omega⟩) := by
  obtain ⟨hne, hall⟩ := Numeral.isDigit_of_digits? hdigits
  have hend : ∀ c ∈ (']' :: rest).head?, Numeral.isDigit c = false := by
    rintro c ⟨⟩
    decide
  have htake := takeWhile_word hall hend
  have hdrop := dropWhile_word hall hend
  rw [readIndex]
  split
  · rename_i hempty
    rw [htake] at hempty
    exact absurd (List.isEmpty_iff.1 hempty) hne
  · split
    · rename_i rest' heq
      obtain rfl : rest' = rest := by simpa [hdrop] using heq.symm
      simp only [htake, hdigits, if_pos hposition]
    · rename_i hother
      exact absurd hdrop (hother rest)

/-- What is read as a path spells it. -/
theorem spellsPath_of_readSegments (h : readSegments offset s = .ok path) : SpellsPath path s := by
  induction offset, s using readSegments.induct generalizing path with
  | case1 offset =>
    rw [readSegments] at h
    cases h
    exact .nil
  | case2 offset rest _ =>
    rename_i hname
    rw [readSegments, dif_pos hname] at h
    cases h
  | case3 offset rest _ hname =>
    rename_i ih
    rw [readSegments, dif_neg hname] at h
    obtain ⟨more, hmore, heq⟩ := Fallible.bind_eq_ok_iff.1 h
    cases heq
    have hne : rest.takeWhile isNameChar ≠ [] := fun heq => hname (List.isEmpty_iff.2 heq)
    have hall : ∀ c ∈ rest.takeWhile isNameChar, isNameChar c = true :=
      fun c hc => List.mem_takeWhile_imp hc
    have hname : IsName (String.ofList (rest.takeWhile isNameChar)) :=
      ⟨by simpa using hne, by simpa using hall⟩
    have hfield := SpellsPath.field hname (ih hmore)
    rwa [String.toList_ofList, List.takeWhile_append_dropWhile] at hfield
  | case4 offset rest ih =>
    rw [readSegments] at h
    obtain ⟨⟨position, next, r, hr⟩, hindex, h⟩ := Fallible.bind_eq_ok_iff.1 h
    obtain ⟨more, hmore, heq⟩ := Fallible.bind_eq_ok_iff.1 h
    cases heq
    obtain ⟨digits, hrest, hdigits, hposition, -⟩ := exists_numeral_of_readIndex hindex
    rw [hrest]
    exact .index hdigits hposition (ih next r hr hmore)
  | case5 offset s hnil hdot hbracket =>
    rw [readSegments] at h
    · cases h
    · exact hnil
    · exact hdot
    · exact hbracket

theorem SpellsPath.readSegments (h : SpellsPath path s) (offset : Nat) :
    readSegments offset s = .ok path := by
  induction h generalizing offset with
  | nil => rw [Reference.readSegments]
  | @field name path rest hname hrest ih =>
    have htake := takeWhile_word hname.2 hrest.head
    have hdrop := dropWhile_word hname.2 hrest.head
    rw [Reference.readSegments]
    simp only [htake, hdrop, ih]
    rw [dif_neg (by simpa using hname.1)]
    simp [bind, Except.bind]
  | index hdigits hposition hrest ih =>
    rw [Reference.readSegments, readIndex_numeral hdigits hposition]
    simp [bind, Except.bind, ih]

end

/-- The text of some segments. -/
def pathChars (path : List PathSegment) : List Char := path.flatMap fun s => s.text.toList

theorem spellsPath_pathChars {path : List PathSegment}
    (hpath : ∀ segment ∈ path, segment.IsWritable) : SpellsPath path (pathChars path) := by
  induction path with
  | nil => exact .nil
  | cons segment rest ih =>
    obtain ⟨hsegment, hrest⟩ := List.forall_mem_cons.1 hpath
    cases segment with
    | field name =>
      have hchars : pathChars (.field name :: rest) = '.' :: (name.toList ++ pathChars rest) := by
        simp [pathChars, PathSegment.text]
      rw [hchars]
      exact .field hsegment (ih hrest)
    | index position =>
      have hchars : pathChars (.index position :: rest) =
          '[' :: (Numeral.digitChars position ++ ']' :: pathChars rest) := by
        simp [pathChars, PathSegment.text, Numeral.toList_decimal]
      rw [hchars]
      exact .index (Numeral.digits?_digitChars position) hsegment (ih hrest)

theorem isWordChar_of_isNameChar {c : Char} (h : isNameChar c = true) :
    Token.isWordChar c = true := by
  simp [Token.isWordChar, h]

theorem isNameChar_of_isDigit {c : Char} (h : Numeral.isDigit c = true) : isNameChar c = true := by
  simp only [Numeral.isDigit, Bool.and_eq_true, decide_eq_true_eq] at h
  have hdigit : c.isDigit = true := by
    simp only [Char.isDigit, Bool.and_eq_true, decide_eq_true_eq]
    exact h
  simp [isNameChar, Char.isAlphanum, hdigit]

/-- A character of a reference, dots and brackets included, is no blank. -/
theorem isBlank_of_isWordChar {c : Char} (h : Token.isWordChar c = true) :
    Text.isBlank c = false := by
  simp only [Token.isWordChar, Bool.or_eq_true, decide_eq_true_eq] at h
  obtain ((h | rfl) | rfl) | rfl := h
  · exact isBlank_of_isNameChar h
  · decide
  · decide
  · decide

theorem SpellsPath.isWordChar {path : List PathSegment} {s : List Char} (h : SpellsPath path s) :
    ∀ c ∈ s, Token.isWordChar c = true := by
  induction h with
  | nil => exact nofun
  | field hname _ ih =>
    have hfront := fun c hc => isWordChar_of_isNameChar (hname.2 c hc)
    exact List.forall_mem_cons.2 ⟨by decide, List.forall_mem_append.2 ⟨hfront, ih⟩⟩
  | index hdigits _ _ ih =>
    have hfront := fun c hc => isWordChar_of_isNameChar
      (isNameChar_of_isDigit ((Numeral.isDigit_of_digits? hdigits).2 c hc))
    exact List.forall_mem_cons.2 ⟨by decide, List.forall_mem_append.2
      ⟨hfront, List.forall_mem_cons.2 ⟨by decide, ih⟩⟩⟩

/-! ## Whole references -/

/-- A root starts with a name, and goes on with the position of a step or not at all. -/
def rootName : Root → String
  | .args => "args"
  | .env => "env"
  | .pipeline _ => "pipeline"
  | .outcome => "outcome"
  | .named name => name

def rootPosition : Root → List PathSegment
  | .pipeline position => [.index position]
  | .args | .env | .outcome | .named _ => []

theorem isName_rootName {root : Root} (h : root.IsWritable) : IsName (rootName root) := by
  cases root with
  | named name => exact h.1
  | args | env | outcome => decide
  | pipeline position =>
    show IsName "pipeline"
    decide

/-- The text spells a reference between blanks: the name of its root, and the segments behind
it. -/
structure IsSpelled (r : Reference) (text : List Char) : Prop where
  root : r.root.IsWritable
  raw : ∃ chars, r.raw.toList = (rootName r.root).toList ++ chars ∧
    SpellsPath (rootPosition r.root ++ r.path) chars
  blanks : ∃ leading trailing, (∀ c ∈ leading, Text.isBlank c = true) ∧
    (∀ c ∈ trailing, Text.isBlank c = true) ∧ text = leading ++ (r.raw.toList ++ trailing)

section
variable {r : Reference} {offset : Nat} {text : List Char}

theorem IsSpelled.isWordChar (h : r.IsSpelled text) :
    ∀ c ∈ r.raw.toList, Token.isWordChar c = true := by
  obtain ⟨chars, hraw, hchars⟩ := h.raw
  have hname := fun c hc => isWordChar_of_isNameChar ((isName_rootName h.root).2 c hc)
  rw [hraw]
  exact List.forall_mem_append.2 ⟨hname, hchars.isWordChar⟩

/-- Only blanks and the characters of references stand in such a text. -/
theorem IsSpelled.not_mem (h : r.IsSpelled text) {c : Char} (hblank : Text.isBlank c = false)
    (hword : Token.isWordChar c = false) : c ∉ text := by
  have hraw := h.isWordChar
  obtain ⟨leading, trailing, hleading, htrailing, rfl⟩ := h.blanks
  rw [List.mem_append, List.mem_append]
  rintro (hmem | hmem | hmem)
  · exact Bool.false_ne_true (hblank.symm.trans (hleading c hmem))
  · exact Bool.false_ne_true (hword.symm.trans (hraw c hmem))
  · exact Bool.false_ne_true (hblank.symm.trans (htrailing c hmem))

theorem isSpelled_of_read (h : read offset text = .ok r) : r.IsSpelled text := by
  obtain ⟨trailing, htrailing, htext⟩ := Text.exists_trim text
  rw [read] at h
  generalize offset + Utf8.size (text.takeWhile Text.isBlank) = base at h
  generalize Text.trim text = inner at h htext
  have hsplit : inner.takeWhile isNameChar ++ inner.dropWhile isNameChar = inner :=
    List.takeWhile_append_dropWhile
  have hall : ∀ c ∈ inner.takeWhile isNameChar, isNameChar c = true :=
    fun c hc => List.mem_takeWhile_imp hc
  generalize inner.takeWhile isNameChar = name at h hsplit hall
  generalize inner.dropWhile isNameChar = rest at h hsplit
  have hspelled : ∀ {root path}, root.IsWritable → name = (rootName root).toList →
      SpellsPath (rootPosition root ++ path) rest →
        IsSpelled ⟨String.ofList inner, root, path⟩ text := by
    intro root path hroot hname hrest
    refine ⟨hroot, ⟨rest, ?_, hrest⟩, text.takeWhile Text.isBlank, trailing,
      fun c hc => List.mem_takeWhile_imp hc, htrailing, ?_⟩
    · rw [String.toList_ofList, ← hname, hsplit]
    · rw [String.toList_ofList, ← htext]
  split at h
  next => cases h
  next hne =>
    dsimp only at h
    have hname : ∀ {literal}, String.ofList name = literal → name = literal.toList := by
      rintro _ rfl
      rw [String.toList_ofList]
    split at h
    case h_1 heq | h_2 heq | h_3 heq =>
      obtain ⟨path, hpath, heq'⟩ := Fallible.bind_eq_ok_iff.1 h
      cases heq'
      exact hspelled trivial (hname heq) (spellsPath_of_readSegments hpath)
    case h_4 heq =>
      split at h
      next rest =>
        obtain ⟨⟨position, next, r, hr⟩, hindex, h⟩ := Fallible.bind_eq_ok_iff.1 h
        obtain ⟨path, hpath, heq'⟩ := Fallible.bind_eq_ok_iff.1 h
        cases heq'
        obtain ⟨digits, hrest, hdigits, hposition, -⟩ := exists_numeral_of_readIndex hindex
        have hspells : SpellsPath (.index position :: path) ('[' :: rest) := by
          rw [hrest]
          exact .index hdigits hposition (spellsPath_of_readSegments hpath)
        exact hspelled hposition (hname heq) hspells
      next => cases h
    case h_5 hargs henv houtcome hpipeline =>
      obtain ⟨path, hpath, heq'⟩ := Fallible.bind_eq_ok_iff.1 h
      cases heq'
      refine hspelled ⟨⟨by simpa using hne, by simpa using hall⟩, ?_⟩ (hname rfl)
        (spellsPath_of_readSegments hpath)
      simp only [reservedStepNames, List.mem_cons, List.not_mem_nil, or_false, not_or]
      exact ⟨hargs, henv, hpipeline, houtcome⟩

theorem IsSpelled.read (h : r.IsSpelled text) (offset : Nat) : read offset text = .ok r := by
  have hblank : ∀ c ∈ r.raw.toList, Text.isBlank c = false :=
    fun c hc => isBlank_of_isWordChar (h.isWordChar c hc)
  obtain ⟨hne, hname⟩ := isName_rootName h.root
  obtain ⟨hroot, ⟨chars, hraw, hchars⟩, leading, trailing, hleading, htrailing, rfl⟩ := h
  have htrim : Text.trim (leading ++ (r.raw.toList ++ trailing)) = r.raw.toList :=
    Text.trim_append hleading htrailing (fun c hc => hblank c (List.mem_of_mem_head? hc))
      fun c hc => hblank c (List.mem_of_mem_getLast? hc)
  have htake := takeWhile_word hname hchars.head
  have hdrop := dropWhile_word hname hchars.head
  rw [← hraw] at htake hdrop
  rw [Reference.read]
  simp only [htrim, String.ofList_toList, htake, hdrop]
  rw [if_neg (by simpa using hne)]
  obtain ⟨raw, root, path⟩ := r
  cases root with
  | pipeline position =>
    cases hchars with
    | index hdigits hposition hrest =>
      simp [rootName, readIndex_numeral hdigits hposition, hrest.readSegments, bind, Except.bind,
        pure, Except.pure]
  | named name =>
    have hreserved : name ∉ reservedStepNames := hroot.2
    simp only [rootPosition, List.nil_append] at hchars
    simp only [rootName, hchars.readSegments]
    split
    · exact absurd (by decide) hreserved
    · exact absurd (by decide) hreserved
    · exact absurd (by decide) hreserved
    · exact absurd (by decide) hreserved
    · rfl
  | args | env | outcome =>
    simp only [rootPosition, List.nil_append] at hchars
    simp [rootName, hchars.readSegments, bind, Except.bind, pure, Except.pure]

/-- What is read as a reference is what spells it, wherever it stands in the source. -/
theorem read_eq_ok_iff : Reference.read offset text = .ok r ↔ r.IsSpelled text :=
  ⟨isSpelled_of_read, fun h => h.read offset⟩

/-! ## Canonical references -/

theorem toList_raw (h : r.IsCanonical) :
    r.raw.toList = (rootName r.root).toList ++ pathChars (rootPosition r.root ++ r.path) := by
  rw [h.raw_eq, String.toList_append, String.toList_join, List.flatMap_map]
  cases r.root with
  | pipeline position =>
    simp [Root.text, rootName, rootPosition, pathChars, PathSegment.text, Numeral.toList_decimal]
  | args | env | outcome | named => rfl

theorem IsCanonical.segments (h : r.IsCanonical) :
    ∀ segment ∈ rootPosition r.root ++ r.path, segment.IsWritable := by
  refine List.forall_mem_append.2 ⟨?_, h.path⟩
  have hroot := h.root
  intro segment hsegment
  cases hr : r.root with
  | pipeline position =>
    rw [hr] at hroot hsegment
    obtain rfl := List.mem_singleton.1 hsegment
    exact hroot
  | args | env | outcome | named =>
    rw [hr] at hsegment
    cases hsegment

theorem IsCanonical.isSpelled (h : r.IsCanonical) : r.IsSpelled r.raw.toList :=
  ⟨h.root, ⟨_, toList_raw h, spellsPath_pathChars h.segments⟩, [], [], nofun, nofun, by simp⟩

theorem IsCanonical.isWordChar (h : r.IsCanonical) :
    ∀ c ∈ r.raw.toList, Token.isWordChar c = true := h.isSpelled.isWordChar

theorem IsCanonical.read (h : r.IsCanonical) (offset : Nat) :
    Reference.read offset r.raw.toList = .ok r := h.isSpelled.read offset

end

end Reference

end PipelineEngine
