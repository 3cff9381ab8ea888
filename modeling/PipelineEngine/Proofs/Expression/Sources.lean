import Mathlib.Data.List.Chain
import PipelineEngine.Proofs.Expression.Evaluate
import PipelineEngine.Proofs.Expression.Spelled

/-!
# Mapping sources

A mapping source is read as an expression, or else as a template.  Two things are said about
the text that was read.

* `Mapping.target_iff`: where the source is one reference in braces, its default target is the
  name that the reference ends in, and which of the blanks in the braces go along with it.
* `Expr.parseMapping_template`, by the recursion of the reader: the segments of a template are
  its text cut up, and its value is the text with every reference replaced where it stands.
-/

namespace PipelineEngine

theorem Token.isSpace_of_scanFrom {offset : Nat} {s : List Char} (h : scanFrom offset s = .ok []) :
    ∀ c ∈ s, isSpace c = true := by
  induction offset, s using scanFrom.induct with
  | case1 => exact nofun
  | case2 offset c rest hspace ih =>
    rw [scanFrom, if_pos hspace] at h
    exact List.forall_mem_cons.2 ⟨hspace, ih h⟩
  | case3 offset c rest hspace fault hfront =>
    rw [scanFrom_cons hspace, hfront] at h
    cases h
  | case4 offset c rest hspace t r hfront _ taken ih =>
    rw [scanFrom_cons hspace, hfront] at h
    obtain ⟨ts, -, hts⟩ := Fallible.map_eq_ok_iff.1 h
    cases hts

theorem Token.isBlank_of_isSpace {c : Char} (h : isSpace c = true) : Text.isBlank c = true := by
  simp only [isSpace, Bool.or_eq_true, decide_eq_true_eq] at h
  obtain ((rfl | rfl) | rfl) | rfl := h
  all_goals decide

namespace Expr

section
variable {c : Production} {ts : List Token} {e : Expr} {r : Reference} {source : String}

theorem joinLeft_eq_ref {join : Expr → Expr → Expr} (hjoin : ∀ left right, join left right ≠ .ref r)
    {operands : List (List Token × Expr)} (h : joinLeft join e operands = .ref r) :
    operands = [] ∧ e = .ref r := by
  induction operands generalizing e with
  | nil => exact ⟨rfl, h⟩
  | cons operand operands ih => exact absurd (ih h).2 (hjoin _ _)

/-- The tokens of a reference are the reference, unless they are in parentheses. -/
theorem Derives.alone_of_ref (h : Derives c ts (.ref r)) :
    ts = [.ref r] ∨ ts.head? = some .leftParen := by
  generalize he : Expr.ref r = e at h
  induction h with
  | @or first e operands _ _ ihfirst _ | @and first e operands _ _ ihfirst _ =>
    obtain ⟨rfl, rfl⟩ := joinLeft_eq_ref (by simp) he.symm
    rw [operandTokens, List.flatMap_nil, List.append_nil]
    exact ihfirst rfl
  | comparison _ ih | primary _ ih => exact ih he
  | eq | ne | not | literal => cases he
  | parenthesised => exact .inr rfl
  | ref =>
    cases he
    exact .inl rfl

/-! ## What a source is read as -/

/-- A source is read as an expression, or else as a template. -/
theorem of_parseMapping (h : parseMapping source = .ok e) :
    readSource (Text.trim source.toList) = .ok e ∨
      (∃ fault, readSource (Text.trim source.toList) = .error fault) ∧
        ∃ segments, readTemplate 0 source.toList = .ok segments ∧ e = .template segments := by
  rw [parseMapping] at h
  dsimp only at h
  split at h
  · cases h
  · split at h
    next hread =>
      cases h
      exact .inl hread
    next fault hread =>
      split at h
      · split at h
        next segments hsegments =>
          cases h
          exact .inr ⟨⟨fault, hread⟩, segments, hsegments, rfl⟩
        next => cases h
      · cases h

theorem isPlain_of_readSource {s : List Char} (h : readSource s = .ok e) : e.IsPlain := by
  obtain ⟨ts, -, hts⟩ := Fallible.bind_eq_ok_iff.1 h
  exact (ofTokens_eq_ok_iff.1 hts).isPlain

/-- What starts with a brace and is read as a reference is one pair of braces with nothing but
spaces behind it, and what stands in them spells the reference. -/
theorem exists_inner_of_readSource {rest : List Char}
    (h : readSource (referenceMark ++ rest) = .ok (.ref r)) :
    ∃ inner after, rest = inner ++ closingMark ++ after ∧ r.IsSpelled inner ∧
      ∀ c ∈ after, Token.isSpace c = true := by
  obtain ⟨ts, hscan, hts⟩ := Fallible.bind_eq_ok_iff.1 h
  have hderives := (ofTokens_eq_ok_iff.1 hts).alone_of_ref
  rw [referenceMark, List.cons_append, List.singleton_append, Token.scan,
    Token.scanFrom_cons (by decide)] at hscan
  obtain ⟨⟨t, after⟩, hfront, hscan⟩ := Fallible.bind_eq_ok_iff.1 hscan
  obtain ⟨more, hmore, rfl⟩ := Fallible.map_eq_ok_iff.1 hscan
  rw [Token.front] at hfront
  split at hfront
  next inner after' hcut =>
    obtain ⟨r', hr', heq⟩ := Fallible.map_eq_ok_iff.1 hfront
    cases heq
    obtain hpair | hparen := hderives
    · have hpair : r' = r ∧ more = [] := by simpa using hpair
      obtain ⟨rfl, rfl⟩ := hpair
      exact ⟨inner, after, Text.cut?_eq_some hcut, Reference.read_eq_ok_iff.1 hr',
        Token.isSpace_of_scanFrom hmore⟩
    · cases hparen
  next => cases hfront

/-- A source that starts with a brace and is read as a reference is one pair of braces. -/
theorem exists_inner_of_parseMapping (h : parseMapping source = .ok (.ref r))
    (hbraces : referenceMark <+: Text.trim source.toList) :
    ∃ inner, Text.trim source.toList = '$' :: '\x7b' :: (inner ++ ['\x7d']) ∧
      r.IsSpelled inner := by
  have hread : readSource (Text.trim source.toList) = .ok (.ref r) := by
    rcases of_parseMapping h with hread | ⟨-, segments, -, heq⟩
    · exact hread
    · cases heq
  have hlast : ∀ c ∈ (Text.trim source.toList).getLast?, Text.isBlank c = false :=
    Text.isBlank_of_mem_getLast?_trim
  obtain ⟨rest, hrest⟩ := hbraces
  rw [← hrest] at hread hlast ⊢
  obtain ⟨inner, after, rfl, hspelled, hspace⟩ := exists_inner_of_readSource hread
  -- Only spaces could follow, and a trimmed text does not end with one.
  obtain rfl : after = [] := by
    by_contra hne
    have hend : (referenceMark ++ (inner ++ closingMark ++ after)).getLast? =
        some (after.getLast hne) := by
      rw [← List.append_assoc, List.getLast?_append, List.getLast?_eq_some_getLast hne]
      rfl
    have hblank := hlast _ hend
    rw [Token.isBlank_of_isSpace (hspace _ (List.getLast_mem hne))] at hblank
    cases hblank
  refine ⟨inner, ?_, hspelled⟩
  rw [List.append_nil]
  rfl

/-- A spelled reference in braces is read as the reference. -/
theorem parseMapping_of_isSpelled {inner : List Char} (h : r.IsSpelled inner)
    (hsource : source.toList = '$' :: '\x7b' :: (inner ++ ['\x7d'])) :
    parseMapping source = .ok (.ref r) :=
  parseMapping_of_read hsource (h.not_mem (by decide) (by decide)) (h.read 2)

end

end Expr

/-! ## Default targets -/

/-- The name of a segment that is a field. -/
def PathSegment.field? : PathSegment → Option String
  | .field name => some name
  | .index _ => none

namespace Reference

/-- The fields of a path, in its order. -/
def fieldNames (path : List PathSegment) : List String := path.filterMap PathSegment.field?

/-- The name that a reference ends in: that of its last field, or else that of its root. -/
def lastName (r : Reference) : String := (fieldNames r.path).getLast?.getD (rootName r.root)

/-- Whether the last of some segments is an index. -/
def lastIsIndex (path : List PathSegment) : Bool := path.getLast?.any (·.field?.isNone)

/-- Whether a reference ends in an index, which may be the position of a step. -/
def endsInIndex (r : Reference) : Bool := lastIsIndex (rootPosition r.root ++ r.path)

/-- The text has the indices that some segments end in, and nothing else. -/
structure SpellsIndices (path : List PathSegment) (s : List Char) : Prop where
  dot : '.' ∉ s
  head : ∀ c ∈ s.head?, c = '['
  eq_nil_iff : s = [] ↔ lastIsIndex path = false

variable {path : List PathSegment} {s : List Char}

theorem lastIsIndex_cons (segment : PathSegment) (hpath : path ≠ []) :
    lastIsIndex (segment :: path) = lastIsIndex path := by
  obtain ⟨first, rest, rfl⟩ := List.exists_cons_of_ne_nil hpath
  rw [lastIsIndex, List.getLast?_cons_cons]
  rfl

theorem lastIsIndex_field (name : String) :
    lastIsIndex (.field name :: path) = lastIsIndex path := by
  cases path with
  | nil => rfl
  | cons segment rest => exact lastIsIndex_cons _ (List.cons_ne_nil _ _)

theorem SpellsPath.ne_nil (h : SpellsPath path s) (hpath : path ≠ []) : s ≠ [] := by
  cases h with
  | nil => exact absurd rfl hpath
  | field | index => exact List.cons_ne_nil _ _

theorem SpellsIndices.field (h : SpellsIndices path s) (name : String) :
    SpellsIndices (.field name :: path) s :=
  ⟨h.dot, h.head, by rw [lastIsIndex_field, h.eq_nil_iff]⟩

theorem SpellsIndices.index {digits : List Char} {position : Nat}
    (hdigits : Numeral.digits? 10 digits = some position) (hpath : SpellsPath path s)
    (h : SpellsIndices path s) :
    SpellsIndices (.index position :: path) ('[' :: (digits ++ ']' :: s)) where
  dot := by
    have hnone : '.' ∉ digits :=
      fun hmem => absurd ((Numeral.isDigit_of_digits? hdigits).2 _ hmem) (by decide)
    simp [hnone, h.dot]
  head := by
    rintro c ⟨⟩
    rfl
  eq_nil_iff := by
    have hlast : lastIsIndex (.index position :: path) = true := by
      by_cases hnil : path = []
      · rw [hnil]
        rfl
      · rw [lastIsIndex_cons _ hnil, ← Bool.not_eq_false, ← h.eq_nil_iff]
        exact hpath.ne_nil hnil
    simp [hlast]

/-- A path is spelled as the indices that it ends in, and before them there is its last field,
if there is one, behind whatever precedes it. -/
theorem SpellsPath.exists_indices (h : SpellsPath path s) :
    ∃ indices, SpellsIndices path indices ∧
      ((fieldNames path = [] ∧ s = indices) ∨
        ∃ before name, (fieldNames path).getLast? = some name ∧ IsName name ∧
          s = before ++ '.' :: (name.toList ++ indices)) := by
  induction h with
  | nil => exact ⟨[], ⟨nofun, nofun, by simp [lastIsIndex]⟩, .inl ⟨rfl, rfl⟩⟩
  | @field name path rest hname _ ih =>
    obtain ⟨indices, hindices, ⟨hnone, rfl⟩ | ⟨before, last, hlast, hisName, rfl⟩⟩ := ih
    · refine ⟨rest, hindices.field name, .inr ⟨[], name, ?_, hname, rfl⟩⟩
      show (name :: fieldNames path).getLast? = _
      rw [hnone]
      rfl
    · refine ⟨indices, hindices.field name,
        .inr ⟨'.' :: (name.toList ++ before), last, ?_, hisName, by simp⟩⟩
      show (name :: fieldNames path).getLast? = _
      rw [List.getLast?_cons, hlast]
      rfl
  | @index digits position path rest hdigits _ hrest ih =>
    obtain ⟨indices, hindices, ⟨hnone, rfl⟩ | ⟨before, last, hlast, hisName, rfl⟩⟩ := ih
    · exact ⟨_, hindices.index hdigits hrest, .inl ⟨hnone, rfl⟩⟩
    · have hpath : path ≠ [] := by
        rintro rfl
        cases hlast
      have hsame : SpellsIndices (.index position :: path) indices :=
        ⟨hindices.dot, hindices.head, by rw [lastIsIndex_cons _ hpath, hindices.eq_nil_iff]⟩
      exact ⟨indices, hsame, .inr ⟨'[' :: (digits ++ ']' :: before), last, hlast, hisName, by simp⟩⟩

/-- Up to the next bracket there is a word, and also what stands behind it if no index comes
in between. -/
theorem SpellsIndices.takeWhile {word trailing : List Char} (h : SpellsIndices path s)
    (hword : '[' ∉ word) (htrailing : '[' ∉ trailing) :
    (word ++ (s ++ trailing)).takeWhile (· ≠ '[') =
      word ++ if lastIsIndex path then [] else trailing := by
  have hkeep : ∀ {t : List Char}, '[' ∉ t → ∀ c ∈ t, decide (c ≠ '[') = true :=
    fun ht c hc => decide_eq_true fun heq => ht (heq ▸ hc)
  by_cases hnil : s = []
  · rw [h.eq_nil_iff.1 hnil, hnil, List.nil_append, if_neg Bool.false_ne_true]
    exact List.takeWhile_eq_self_iff.2 (List.forall_mem_append.2 ⟨hkeep hword, hkeep htrailing⟩)
  · have hlast : lastIsIndex path = true := by
      rwa [h.eq_nil_iff, Bool.not_eq_false] at hnil
    rw [hlast, if_pos rfl, List.append_nil]
    refine takeWhile_word (hkeep hword) fun c hc => ?_
    rw [List.head?_append_of_ne_nil _ hnil] at hc
    simp [h.head c hc]

theorem fieldNames_rootPosition (root : Root) (path : List PathSegment) :
    fieldNames (rootPosition root ++ path) = fieldNames path := by
  cases root <;> rfl

/-- What stands behind the last dot, up to the next bracket. -/
theorem exists_last {r : Reference} {chars leading trailing : List Char}
    (hroot : r.root.IsWritable) (hchars : SpellsPath (rootPosition r.root ++ r.path) chars)
    (hleading : ∀ c ∈ leading, Text.isBlank c = true)
    (htrailing : ∀ c ∈ trailing, Text.isBlank c = true) {inner : List Char}
    (hinner : inner = leading ++ ((rootName r.root).toList ++ chars ++ trailing)) :
    ∃ last, (inner = last ∨ ∃ before, inner = before ++ '.' :: last) ∧ '.' ∉ last ∧
      last.takeWhile (· ≠ '[') = (if fieldNames r.path = [] then leading else []) ++
        (r.lastName.toList ++ if r.endsInIndex then [] else trailing) := by
  have hblanks : ∀ {s : List Char}, (∀ c ∈ s, Text.isBlank c = true) → '.' ∉ s ∧ '[' ∉ s := fun h =>
    ⟨fun hmem => absurd (h _ hmem) (by decide), fun hmem => absurd (h _ hmem) (by decide)⟩
  have hnames : ∀ {name}, IsName name → '.' ∉ name.toList ∧ '[' ∉ name.toList := fun h =>
    ⟨fun hmem => absurd (h.2 _ hmem) (by decide), fun hmem => absurd (h.2 _ hmem) (by decide)⟩
  have hisName := isName_rootName hroot
  obtain ⟨indices, hindices, hcases⟩ := hchars.exists_indices
  rw [fieldNames_rootPosition] at hcases
  rcases hcases with ⟨hnone, rfl⟩ | ⟨before, name, hlast, hname, rfl⟩
  · have hlastName : r.lastName = rootName r.root := by
      rw [lastName, hnone]
      rfl
    refine ⟨inner, .inl rfl, ?_, ?_⟩
    · simp [hinner, (hblanks hleading).1, (hnames hisName).1, hindices.dot, (hblanks htrailing).1]
    · have hword : '[' ∉ leading ++ (rootName r.root).toList := by
        simp [(hblanks hleading).2, (hnames hisName).2]
      have htake := hindices.takeWhile hword (hblanks htrailing).2
      rw [if_pos hnone, hlastName, hinner]
      simp only [List.append_assoc] at htake ⊢
      exact htake
  · have hlastName : r.lastName = name := by
      rw [lastName, hlast]
      rfl
    have hsome : fieldNames r.path ≠ [] := by
      intro hnone
      rw [hnone] at hlast
      cases hlast
    refine ⟨name.toList ++ (indices ++ trailing),
      .inr ⟨leading ++ ((rootName r.root).toList ++ before), ?_⟩, ?_, ?_⟩
    · simp [hinner]
    · simp [(hnames hname).1, hindices.dot, (hblanks htrailing).1]
    · rw [if_neg hsome, hlastName]
      exact hindices.takeWhile (hnames hname).2 (hblanks htrailing).2

end Reference

namespace Mapping

variable {m : Mapping} {r : Reference}

theorem ofList_append_eq_iff {before after : List Char} {name : String} :
    String.ofList (before ++ (name.toList ++ after)) = name ↔ before = [] ∧ after = [] := by
  rw [← String.toList_inj, String.toList_ofList]
  constructor
  · intro h
    have hlength := congrArg List.length h
    simp only [List.length_append] at hlength
    exact ⟨List.length_eq_zero_iff.1 (by omega), List.length_eq_zero_iff.1 (by omega)⟩
  · rintro ⟨rfl, rfl⟩
    simp

/-- The default target of a mapping from one reference in braces: the name that the reference
ends in, with the blanks before it if it is the name of the root, and with the blanks behind
it if no index follows.  So it is the name exactly where these blanks are missing. -/
theorem target_iff (hdestination : m.destination = none)
    (hread : Expr.parseMapping m.source = .ok (.ref r))
    (hbraces : Expr.referenceMark <+: Text.trim m.source.toList) :
    ∃ leading trailing, (∀ c ∈ leading, Text.isBlank c = true) ∧
      (∀ c ∈ trailing, Text.isBlank c = true) ∧
      Text.trim m.source.toList =
        '$' :: '\x7b' :: (leading ++ (r.raw.toList ++ trailing) ++ ['\x7d']) ∧
      m.target = String.ofList ((if Reference.fieldNames r.path = [] then leading else []) ++
        (r.lastName.toList ++ if r.endsInIndex then [] else trailing)) ∧
      (m.target = r.lastName ↔ (Reference.fieldNames r.path = [] → leading = []) ∧
        (r.endsInIndex = false → trailing = [])) := by
  obtain ⟨inner, hsource, hspelled⟩ := Expr.exists_inner_of_parseMapping hread hbraces
  have hopening : '$' ∉ inner.head? := fun hhead =>
    hspelled.not_mem (by decide) (by decide) (List.mem_of_mem_head? hhead)
  have hbrace : '\x7d' ∉ inner := hspelled.not_mem (by decide) (by decide)
  obtain ⟨hroot, ⟨chars, hraw, hchars⟩, leading, trailing, hleading, htrailing, hinner⟩ := hspelled
  obtain ⟨last, hlast, hdot, htake⟩ :=
    Reference.exists_last hroot hchars hleading htrailing (hraw ▸ hinner)
  have htarget := target_of_braces hdestination hsource hopening hbrace hlast hdot
  rw [htake] at htarget
  refine ⟨leading, trailing, hleading, htrailing, hinner ▸ hsource, htarget, ?_⟩
  rw [htarget, ofList_append_eq_iff]
  simp

/-- The name that a mapping is given by, where blanks and an index stand behind it. -/
theorem target_of_index :
    Expr.parseMapping "$\x7b args.rows[007] \x7d" =
        .ok (.ref ⟨"args.rows[007]", .args, [.field "rows", .index 7]⟩) ∧
      Expr.referenceMark <+: Text.trim "$\x7b args.rows[007] \x7d".toList ∧
      target ⟨"$\x7b args.rows[007] \x7d", none⟩ = "rows" := by
  have hpath : Reference.SpellsPath [.field "rows", .index 7] ".rows[007]".toList :=
    .field (by decide) (@Reference.SpellsPath.index ['0', '0', '7'] 7 [] [] rfl (by decide) .nil)
  have hblank : ∀ c ∈ [' '], Text.isBlank c = true := List.forall_mem_singleton.2 rfl
  have hspelled : Reference.IsSpelled ⟨"args.rows[007]", .args, [.field "rows", .index 7]⟩
      " args.rows[007] ".toList :=
    ⟨trivial, ⟨_, rfl, hpath⟩, [' '], [' '], hblank, hblank, rfl⟩
  have hread := Expr.parseMapping_of_isSpelled hspelled
    (show "$\x7b args.rows[007] \x7d".toList = _ from rfl)
  have hbraces : Expr.referenceMark <+: Text.trim "$\x7b args.rows[007] \x7d".toList := by decide
  obtain ⟨leading, trailing, -, -, -, -, hiff⟩ :=
    target_iff (show Mapping.destination ⟨"$\x7b args.rows[007] \x7d", none⟩ = none from rfl)
      hread hbraces
  exact ⟨hread, hbraces, hiff.2 ⟨nofun, nofun⟩⟩

/-- A blank behind the name of a field becomes part of the target. -/
theorem not_target_blank :
    ¬ ∀ (m : Mapping) (r : Reference), m.destination = none →
      Expr.parseMapping m.source = .ok (.ref r) →
        Expr.referenceMark <+: Text.trim m.source.toList → m.target = r.lastName := by
  intro h
  have hpath : Reference.SpellsPath [.field "x"] ".x".toList := .field (by decide) .nil
  have hblank : ∀ c ∈ [' '], Text.isBlank c = true := List.forall_mem_singleton.2 rfl
  have hspelled : Reference.IsSpelled ⟨"args.x", .args, [.field "x"]⟩ " args.x ".toList :=
    ⟨trivial, ⟨_, rfl, hpath⟩, [' '], [' '], hblank, hblank, rfl⟩
  have htarget := h ⟨"$\x7b args.x \x7d", none⟩ _ rfl
    (Expr.parseMapping_of_isSpelled hspelled rfl) (by decide)
  exact absurd htarget (by decide)

end Mapping

/-! ## Templates -/

namespace Segment

/-- How a segment is written: a text as it is, with no reference starting in it, and a
reference in braces. -/
inductive IsWritten : Segment → List Char → Prop
  | text {s : String} (hne : s ≠ "") (hmark : ¬ Expr.referenceMark <:+: s.toList) :
      IsWritten (.text s) s.toList
  | ref {r : Reference} {inner : List Char} (h : r.IsSpelled inner) :
      IsWritten (.ref r) ('$' :: '\x7b' :: (inner ++ ['\x7d']))

/-- What stands in the place of a segment in the end: a text as it is, and for a reference its
value, a string verbatim, null as nothing and any other value as compact JSON. -/
inductive Shows (ctx : Context) : Segment → String → Prop
  | text (s : String) : Shows ctx (.text s) s
  | string {r : Reference} {s : String} (h : r.resolve ctx = .ok (.string s)) :
      Shows ctx (.ref r) s
  | null {r : Reference} (h : r.resolve ctx = .ok .null) : Shows ctx (.ref r) ""
  | json {r : Reference} {v : Value} (h : r.resolve ctx = .ok v) (hstring : ∀ s, v ≠ .string s)
      (hnull : v ≠ .null) : Shows ctx (.ref r) v.print

theorem shows_of_render {ctx : Context} {segment : Segment} {shown : String}
    (h : segment.render ctx = .ok shown) : segment.Shows ctx shown := by
  cases segment with
  | text s =>
    cases h
    exact .text _
  | ref r =>
    obtain ⟨v, hv, rfl⟩ := Fallible.map_eq_ok_iff.1 h
    cases v with
    | string s => exact .string hv
    | null => exact .null hv
    | bool | number | array | object => exact .json hv nofun nofun

end Segment

namespace Expr

section
variable {segments : List Segment} {offset : Nat} {s : List Char} {source : String}

theorem isWritten_front {before : List Char} (h : ¬ referenceMark <:+: before) :
    ∃ parts, List.Forall₂ Segment.IsWritten
      (if before.isEmpty then [] else [.text (String.ofList before)]) parts ∧
        parts.flatten = before := by
  by_cases hempty : before.isEmpty
  · obtain rfl := List.isEmpty_iff.1 hempty
    exact ⟨[], .nil, rfl⟩
  · rw [if_neg hempty]
    have hwritten : Segment.IsWritten (.text (String.ofList before))
        (String.ofList before).toList :=
      .text (by simpa using hempty) (by rwa [String.toList_ofList])
    exact ⟨_, .cons hwritten .nil, by simp⟩

/-- The segments of a template are its text cut up. -/
theorem isWritten_of_readTemplate (h : readTemplate offset s = .ok segments) :
    ∃ parts, List.Forall₂ Segment.IsWritten segments parts ∧ parts.flatten = s := by
  fun_induction readTemplate offset s generalizing segments with
  | case1 offset s hcut =>
    cases h
    exact isWritten_front (Text.not_infix_of_cut?_eq_none hcut)
  | case2 => cases h
  | case3 offset s before after hcut start inner rest hclosing _ =>
    rename_i ih
    obtain ⟨r, hr, h⟩ := Fallible.bind_eq_ok_iff.1 h
    obtain ⟨more, hmore, heq⟩ := Fallible.bind_eq_ok_iff.1 h
    cases heq
    obtain ⟨parts, hparts, rfl⟩ := ih hmore
    obtain ⟨front, hfront, rfl⟩ := isWritten_front (Text.not_infix_of_cut? (by decide) hcut)
    refine ⟨_, List.rel_append hfront (.cons (.ref (Reference.read_eq_ok_iff.1 hr)) hparts), ?_⟩
    rw [Text.cut?_eq_some hcut, Text.cut?_eq_some hclosing]
    simp [referenceMark, closingMark]

/-- Between two texts there is a reference. -/
theorem isChain_of_readTemplate (h : readTemplate offset s = .ok segments) :
    segments.IsChain fun left right => left.ref?.isSome ∨ right.ref?.isSome := by
  fun_induction readTemplate offset s generalizing segments with
  | case1 offset s hcut =>
    cases h
    split <;> simp
  | case2 => cases h
  | case3 offset s before after hcut start inner rest hclosing _ =>
    rename_i ih
    obtain ⟨r, hr, h⟩ := Fallible.bind_eq_ok_iff.1 h
    obtain ⟨more, hmore, heq⟩ := Fallible.bind_eq_ok_iff.1 h
    cases heq
    refine List.isChain_append.2 ⟨?_, (ih hmore).cons fun _ _ => .inl rfl, ?_⟩
    · split <;> simp
    · rintro left - right ⟨⟩
      exact .inr rfl

theorem evaluate_template {ctx : Context}
    (h : ∀ r ∈ (Expr.template segments).references, ∃ v, r.resolve ctx = .ok v) :
    ∃ shown, List.Forall₂ (Segment.Shows ctx) segments shown ∧
      evaluate ctx (.template segments) = .ok (.string (String.join shown)) := by
  cases hevaluate : evaluate ctx (.template segments) with
  | error u =>
    obtain ⟨r, hr, hfails⟩ := exists_reference_of_error hevaluate
    obtain ⟨v, hv⟩ := h r hr
    rw [hv] at hfails
    cases hfails
  | ok v =>
    obtain ⟨shown, hshown, rfl⟩ := Fallible.map_eq_ok_iff.1 hevaluate
    have hall := Fallible.forall₂_of_mapM_eq_ok hshown
    exact ⟨shown, hall.imp fun _ _ => Segment.shows_of_render, rfl⟩

/-- A source that is no expression but a template is cut into texts and references: no text is
empty or has a reference starting in it, between two texts there is a reference, and written
one after the other the segments are the source with its blanks.  In a context that has every
reference, the value is the source with every reference replaced where it stands. -/
theorem parseMapping_template (h : parseMapping source = .ok (.template segments)) :
    (∃ fault, readSource (Text.trim source.toList) = .error fault) ∧
      (∃ parts, List.Forall₂ Segment.IsWritten segments parts ∧ parts.flatten = source.toList) ∧
      (segments.IsChain fun left right => left.ref?.isSome ∨ right.ref?.isSome) ∧
      ∀ ctx, (∀ r ∈ (Expr.template segments).references, ∃ v, r.resolve ctx = .ok v) →
        ∃ shown, List.Forall₂ (Segment.Shows ctx) segments shown ∧
          evaluate ctx (.template segments) = .ok (.string (String.join shown)) := by
  rcases of_parseMapping h with hread | ⟨hfault, _, hsegments, heq⟩
  · exact (isPlain_of_readSource hread).elim
  · cases heq
    exact ⟨hfault, isWritten_of_readTemplate hsegments, isChain_of_readTemplate hsegments,
      fun _ => evaluate_template⟩

/-- A note about an item, with its number and its title. -/
def noteSource : String := " #$\x7bargs.id\x7d $\x7b args.title \x7d"

def noteSegments : List Segment :=
  [.text " #", .ref ⟨"args.id", .args, [.field "id"]⟩, .text " ",
    .ref ⟨"args.title", .args, [.field "title"]⟩]

theorem parseMapping_note : parseMapping noteSource = .ok (.template noteSegments) := by
  have hgrammar : readSource (Text.trim noteSource.toList) = .error ⟨0, .unexpectedCharacter⟩ := by
    have htrim : Text.trim noteSource.toList =
        '#' :: "$\x7bargs.id\x7d $\x7b args.title \x7d".toList := by decide
    rw [htrim, readSource, Token.scan, Token.scanFrom_cons (by decide)]
    rfl
  have htemplate : readTemplate 0 noteSource.toList = .ok noteSegments := by decide +kernel
  have hmark : Text.hasMark referenceMark (Text.trim noteSource.toList) = true := by decide
  rw [parseMapping, hgrammar, htemplate, hmark]
  rfl

/-- A context with a number and a title. -/
def noteContext : Context :=
  .start (.object [("id", .int 7), ("title", .string "Lost")]) []

theorem parseMapping_template_note :
    parseMapping noteSource = .ok (.template noteSegments) ∧
      (∀ r ∈ (Expr.template noteSegments).references, ∃ v, r.resolve noteContext = .ok v) ∧
      ∃ shown, List.Forall₂ (Segment.Shows noteContext) noteSegments shown ∧
        evaluate noteContext (.template noteSegments) = .ok (.string (String.join shown)) := by
  have hresolve : ∀ r ∈ (Expr.template noteSegments).references,
      ∃ v, r.resolve noteContext = .ok v :=
    List.forall_mem_cons.2 ⟨⟨.int 7, rfl⟩, List.forall_mem_singleton.2 ⟨.string "Lost", rfl⟩⟩
  exact ⟨parseMapping_note, hresolve,
    (parseMapping_template parseMapping_note).2.2.2 noteContext hresolve⟩

end

end Expr
end PipelineEngine
