import PipelineEngine.Proofs.Text.Numerals
import PipelineEngine.Proofs.Text.Trimmed
import PipelineEngine.Value.Print
import PipelineEngine.Value.Read

/-!
# JSON texts that are written and read

Strings with any characters, null and natural numbers are read from the texts that they are
written as, and so are objects whose fields have such values.

* `Value.Json.ReadsString`: what is read up to the quote that closes a string.
* `Value.ReadsBack`: a value is read from the front of a text.
* `Value.readMembers?_printFields` is the main statement.
-/

namespace PipelineEngine.Value

namespace Json

/-! ## Strings -/

/-- The characters `cs` are read up to a closing quote, behind which `rest` stands. -/
def ReadsString (s cs rest : List Char) : Prop := ∃ h, stringTail s = some (cs, ⟨rest, h⟩)

theorem readsString_quote (rest : List Char) : ReadsString ('"' :: rest) [] rest := by
  refine ⟨by simp, ?_⟩
  rw [stringTail]

theorem ReadsString.short {s cs rest : List Char} (h : ReadsString s cs rest) {e c : Char}
    (he : shortEscape? e = some c) : ReadsString ('\\' :: e :: s) (c :: cs) rest := by
  obtain ⟨hlength, hread⟩ := h
  have hne : e ≠ 'u' := by
    rintro rfl
    cases he
  refine ⟨by simp; omega, ?_⟩
  rw [stringTail]
  · simp [he, hread]
  · rintro a b c d more heq
    exact absurd heq hne

theorem ReadsString.hex {s cs rest : List Char} (h : ReadsString s cs rest) {a b c d : Char}
    {n : Nat} (hn : hex4? a b c d = some n) (hlt : n < 0xD800) :
    ReadsString ('\\' :: 'u' :: a :: b :: c :: d :: s) (Char.ofNat n :: cs) rest := by
  obtain ⟨hlength, hread⟩ := h
  refine ⟨by simp; omega, ?_⟩
  have hhigh : ¬ (0xD800 ≤ n ∧ n ≤ 0xDBFF) := by omega
  have hlow : ¬ (0xDC00 ≤ n ∧ n ≤ 0xDFFF) := by omega
  rw [stringTail]
  simp [hn, hhigh, hlow, hread]

theorem ReadsString.plain {s cs rest : List Char} (h : ReadsString s cs rest) {c : Char}
    (hquote : c ≠ '"') (hbackslash : c ≠ '\\') (hcontrol : ¬ c.toNat < 0x20) :
    ReadsString (c :: s) (c :: cs) rest := by
  obtain ⟨hlength, hread⟩ := h
  refine ⟨by simp; omega, ?_⟩
  rw [stringTail]
  · simp [hbackslash, hcontrol, hread]
  · exact hquote
  · rintro a b d e more heq
    exact absurd heq hbackslash
  · rintro d more heq
    exact absurd heq hbackslash

/-- A character is read from its text inside of quotes. -/
theorem ReadsString.escapeChar {s cs rest : List Char} (h : ReadsString s cs rest) (c : Char) :
    ReadsString (escapeChar c ++ s) (c :: cs) rest := by
  have hshort : ∀ {e d : Char}, c = d → shortEscape? e = some d →
      ReadsString (['\\', e] ++ s) (c :: cs) rest := fun hc he => hc ▸ h.short he
  have hcode : ∀ {n : Nat} {d : Char}, c.toNat = n → d.toNat = n → c = d := fun hc hd =>
    Char.toNat_inj.1 (hc.trans hd.symm)
  unfold Value.escapeChar
  split
  · exact hshort ‹_› rfl
  split
  · exact hshort ‹_› rfl
  split
  · exact hshort ‹_› rfl
  split
  · exact hshort ‹_› rfl
  split
  · exact hshort ‹_› rfl
  split
  · exact hshort (hcode ‹_› (d := '\x08') rfl) rfl
  split
  · exact hshort (hcode ‹_› (d := '\x0c') rfl) rfl
  split
  · rename_i hcontrol
    have hlength : (Numeral.padded 16 4 c.toNat).toList.length = 4 :=
      Numeral.length_padded (k := 3) (by decide) (by omega)
    have hdigits := @Numeral.digits?_padded 16 (by decide) (by decide) 4 c.toNat
    obtain ⟨a, b, d, e, heq⟩ := List.length_eq_four.1 hlength
    rw [heq] at hdigits ⊢
    have hhex := h.hex hdigits (by omega)
    rwa [Char.ofNat_toNat] at hhex
  · exact h.plain ‹_› ‹_› ‹_›

theorem readsString_flatMap (cs rest : List Char) :
    ReadsString (cs.flatMap Value.escapeChar ++ '"' :: rest) cs rest := by
  induction cs with
  | nil => exact readsString_quote rest
  | cons c cs ih =>
    rw [List.flatMap_cons, List.append_assoc]
    exact ih.escapeChar c

/-- No line breaks are written inside of quotes. -/
theorem lineFeed_notMem_escapeChar (c : Char) : '\n' ∉ Value.escapeChar c := by
  have hdigits : '\n' ∉ (Numeral.padded 16 4 c.toNat).toList := by
    intro hmem
    obtain ⟨d, hd, heq⟩ := Numeral.exists_of_mem_padded (by decide) 4 c.toNat _ hmem
    have hall : ∀ d < 16, '\n' ≠ Numeral.digitChar d := by decide
    exact hall d hd heq
  unfold Value.escapeChar
  repeat' split
  all_goals simp_all [eq_comm]

theorem lineFeed_notMem_quoted (s : String) : '\n' ∉ (quoted s).toList := by
  simp [quoted, lineFeed_notMem_escapeChar]

theorem toList_quoted (s : String) (rest : List Char) : (quoted s).toList ++ rest =
    '"' :: (s.toList.flatMap Value.escapeChar ++ '"' :: rest) := by
  simp [quoted]

/-! ## Values -/

/-- A value that starts like neither a string nor a collection. -/
theorem value?_of_leaf {c : Char} {s rest : List Char} {v : Value} (hquote : c ≠ '"')
    (hbracket : c ≠ '[') (hbrace : c ≠ '\x7b') (hleaf : leaf? (c :: s) = some (v, rest))
    (hlength : rest.length < (c :: s).length) (depth : Nat) :
    value? depth (c :: s) = some (v, ⟨rest, hlength⟩) := by
  rw [value?]
  · simp only [hleaf, shorter?, dif_pos hlength, Option.bind_eq_bind, Option.bind_some]
  · rintro more heq
    exact hquote (List.cons.inj heq).1
  · rintro more heq
    exact hbracket (List.cons.inj heq).1
  · rintro more heq
    exact hbrace (List.cons.inj heq).1

/-- Nothing that follows a value in an object can belong to it. -/
def Ends (rest : List Char) : Prop := ∃ c more, rest = c :: more ∧ (c = ',' ∨ c = '\x7d')

end Json

open Json

/-- A value is read from the text that it is written as, whatever follows it in an object. -/
structure ReadsBack (v : Value) : Prop where
  oneLine : '\n' ∉ v.print.toList
  first : ∃ c more, v.print.toList = c :: more ∧ isSpace c = false
  reads : ∀ depth {rest : List Char}, Ends rest →
    ∃ h, value? depth (v.print.toList ++ rest) = some (v, ⟨rest, h⟩)

theorem readsBack_string (s : String) : (Value.string s).ReadsBack := by
  refine ⟨lineFeed_notMem_quoted s, ⟨'"', _, toList_quoted s [] ▸ (List.append_nil _).symm,
    by decide⟩, ?_⟩
  intro depth rest _
  obtain ⟨h, hread⟩ := readsString_flatMap s.toList rest
  rw [print, toList_quoted]
  refine ⟨by simp at h ⊢; omega, ?_⟩
  rw [value?]
  simp [hread]

theorem readsBack_null : Value.null.ReadsBack :=
  ⟨by decide, ⟨'n', _, rfl, by decide⟩, fun depth rest _ => ⟨by simp [print]; omega,
    value?_of_leaf (s := "ull".toList ++ rest) (by decide) (by decide) (by decide) rfl _ depth⟩⟩

/-- What may be left out is null where it is. -/
theorem readsBack_ofOption {α : Type} {f : α → Value} {o : Option α}
    (h : ∀ a ∈ o, (f a).ReadsBack) : (Value.ofOption (o.map f)).ReadsBack := by
  cases o with
  | none => exact readsBack_null
  | some a => exact h a rfl

/-- A numeral without point and exponent. -/
theorem numeralFront_digitChars (n : Nat) {rest : List Char} (hrest : Ends rest) :
    numeralFront (Numeral.digitChars n ++ rest) =
      some (⟨⟨Numeral.digitChars n, [], 0⟩, true⟩, rest) := by
  have hdigits := Numeral.isDigit_of_mem_digitChars n
  obtain ⟨c, more, rfl, hc⟩ := hrest
  have hfirst : ∀ d ∈ (c :: more).head?, Numeral.isDigit d = false := by
    rintro d ⟨⟩
    rcases hc with rfl | rfl <;> decide
  have hfull : (Numeral.digitChars n).isEmpty = false := by simp [Numeral.digitChars_ne_nil]
  have hzero : ((Numeral.digitChars n).head? == some '0' &&
      decide ((Numeral.digitChars n).length > 1)) = false := by
    rcases Nat.eq_zero_or_pos n with rfl | hn
    · rw [Numeral.digitChars_of_lt (by decide)]
      rfl
    · have hne : (Numeral.digitChars n).head? ≠ some '0' :=
        Numeral.head?_digitsIn_ne (by decide) (by decide) hn
      rw [beq_false_of_ne hne, Bool.false_and]
  simp only [numeralFront, takeWhile_word hdigits hfirst, dropWhile_word hdigits hfirst, hfull,
    hzero, Bool.or_self]
  rcases hc with rfl | rfl <;> rfl

theorem readsBack_nat {n : Nat} (h : n < Word.bound 64) : (Value.nat n).ReadsBack := by
  have hprint : (Value.nat n).print.toList = Numeral.digitChars n := Numeral.toList_decimal n
  obtain ⟨c, more, heq⟩ := List.exists_cons_of_ne_nil (Numeral.digitChars_ne_nil n)
  have hdigit := Numeral.isDigit_of_mem_digitChars n c (heq ▸ List.mem_cons_self)
  -- A digit starts none of the other values, and is no blank.
  have hne : ∀ d, Numeral.isDigit d = false → c ≠ d := by
    rintro d hd rfl
    rw [hdigit] at hd
    cases hd
  have hspace : isSpace c = false := by
    simp [isSpace, hne ' ' (by decide), hne '\n' (by decide), hne '\t' (by decide),
      hne '\r' (by decide)]
  have hline : '\n' ∉ (Value.nat n).print.toList := by
    rw [hprint]
    exact fun hmem => absurd (Numeral.isDigit_of_mem_digitChars n _ hmem) (by decide)
  refine ⟨hline, ⟨c, more, hprint.trans heq, hspace⟩, fun depth rest hrest => ?_⟩
  have hnumber : Numeral.number? false ⟨⟨Numeral.digitChars n, [], 0⟩, true⟩ = some (.int n) := by
    simp [Numeral.number?, Numeral.digits?_digitChars, h]
  have hleaf : leaf? (c :: (more ++ rest)) = some (.nat n, rest) := by
    have hfront := numeralFront_digitChars n hrest
    rw [heq, List.cons_append] at hfront
    rw [leaf?]
    · simp only [hfront, Option.bind_eq_bind, Option.bind_some]
      rw [← heq, hnumber]
      rfl
    all_goals
      intro tail heq'
      exact hne _ (by decide) (List.cons.inj heq').1
  rw [hprint, heq, List.cons_append]
  have hlonger : rest.length < (c :: (more ++ rest)).length := by
    simp only [List.length_cons, List.length_append]
    omega
  exact ⟨hlonger, value?_of_leaf (hne _ (by decide)) (hne _ (by decide)) (hne _ (by decide))
    hleaf _ depth⟩

/-! ## Objects -/

namespace Json

variable {depth : Nat} {s k r q a rest : List Char} {name : List Char} {v : Value}
  {more : List (String × Value)}

/-- The members of an object are read up to a closing brace, behind which `rest` stands. -/
def ReadsMembers (depth : Nat) (s : List Char) (members : List (String × Value))
    (rest : List Char) : Prop := ∃ h, members? depth s = some (members, ⟨rest, h⟩)

theorem readsMembers_iff : ReadsMembers depth s more rest ↔
    (members? depth s).map (fun p => (p.1, p.2.val)) = some (more, rest) := by
  rw [Option.map_eq_some_iff]
  constructor
  · rintro ⟨h, hread⟩
    exact ⟨_, hread, rfl⟩
  · rintro ⟨⟨members, rest', h⟩, hread, heq⟩
    cases heq
    exact ⟨h, hread⟩

/-- What is read when `s` stands behind a first member. -/
def membersAfter (depth : Nat) (first : String × Value) (s : List Char) :
    Option (List (String × Value) × List Char) :=
  match skip s with
  | ',' :: rest => (members? depth rest).map fun p => (first :: p.1, p.2.val)
  | '\x7d' :: rest => some ([first], rest)
  | _ => none

theorem members?_of_member (hs : skip s = '"' :: k) (hname : ReadsString k name r)
    (hcolon : skip r = ':' :: a) (hvalue : ∃ h, value? depth (skip a) = some (v, ⟨q, h⟩)) :
    (members? depth s).map (fun p => (p.1, p.2.val)) =
      membersAfter depth (String.ofList name, v) q := by
  obtain ⟨_, hname⟩ := hname
  obtain ⟨_, hvalue⟩ := hvalue
  rw [members?]
  split
  · rename_i k' hs'
    obtain rfl : k = k' := (List.cons.inj (hs.symm.trans hs')).2
    simp only [hname, Option.bind_eq_bind, Option.bind_some]
    split
    · rename_i a' hcolon'
      obtain rfl : a = a' := (List.cons.inj (hcolon.symm.trans hcolon')).2
      simp only [hvalue, Option.bind_some, membersAfter]
      split
      · rename_i t hcomma
        simp only [hcomma]
        cases members? depth t <;> rfl
      · rename_i t hbrace
        simp only [hbrace, Option.map_some]
      · rename_i hcomma hbrace
        split
        · exact absurd ‹_› (hcomma _)
        · exact absurd ‹_› (hbrace _)
        · rfl
    · rename_i hne
      exact absurd hcolon (hne a)
  · rename_i hne
    exact absurd hs (hne k)

end Json

open Json

variable {v : Value} {fields : List (String × Value)} {behind : List Char}

theorem ReadsBack.skip_eq (h : v.ReadsBack) (behind : List Char) :
    skip (v.print.toList ++ behind) = v.print.toList ++ behind := by
  obtain ⟨c, more, heq, hspace⟩ := h.first
  rw [heq, List.cons_append, skip, List.dropWhile_cons_of_neg (by simp [hspace])]

/-- A field is read from the text that it is written as. -/
theorem members?_field (name : String) (h : v.ReadsBack) (hbehind : Ends behind) (depth : Nat) :
    (members? depth ((quoted name).toList ++ ':' :: (v.print.toList ++ behind))).map
      (fun p => (p.1, p.2.val)) = membersAfter depth (name, v) behind := by
  have hvalue := h.reads depth hbehind
  rw [← h.skip_eq] at hvalue
  rw [toList_quoted, members?_of_member rfl (readsString_flatMap _ _) rfl hvalue,
    String.ofList_toList]

/-- The fields of an object are read from the text that they are written as. -/
theorem readsMembers_printFields (hne : fields ≠ [])
    (hfields : ∀ field ∈ fields, field.2.ReadsBack) (depth : Nat) (rest : List Char) :
    ReadsMembers depth ((printFields fields).toList ++ '\x7d' :: rest) fields rest := by
  induction fields with
  | nil => exact absurd rfl hne
  | cons field more ih =>
    obtain ⟨name, v⟩ := field
    obtain ⟨hv, hmore⟩ := List.forall_mem_cons.1 hfields
    cases more with
    | nil =>
      have htext : (printFields [(name, v)]).toList ++ '\x7d' :: rest =
          (quoted name).toList ++ ':' :: (v.print.toList ++ '\x7d' :: rest) := by
        simp [printFields]
      rw [readsMembers_iff, htext, members?_field name hv ⟨_, _, rfl, .inr rfl⟩]
      rfl
    | cons next more =>
      have htext : (printFields ((name, v) :: next :: more)).toList ++ '\x7d' :: rest =
          (quoted name).toList ++ ':' :: (v.print.toList ++
            ',' :: ((printFields (next :: more)).toList ++ '\x7d' :: rest)) := by
        simp [printFields]
      obtain ⟨_, hread⟩ := ih (by simp) hmore
      rw [readsMembers_iff, htext, members?_field name hv ⟨_, _, rfl, .inl rfl⟩]
      exact congrArg (Option.map _) hread

/-- Fields are written in one line. -/
theorem lineFeed_notMem_printFields (hfields : ∀ field ∈ fields, field.2.ReadsBack) :
    '\n' ∉ (printFields fields).toList := by
  induction fields with
  | nil => simp [printFields]
  | cons field more ih =>
    obtain ⟨name, v⟩ := field
    obtain ⟨hv, hmore⟩ := List.forall_mem_cons.1 hfields
    have hrest := ih hmore
    cases more <;> simp_all [printFields, lineFeed_notMem_quoted, hv.oneLine]

/-- Fields start with the quote of the first name. -/
theorem exists_printFields_eq_cons (hne : fields ≠ []) :
    ∃ more, (printFields fields).toList = '"' :: more := by
  cases fields with
  | nil => exact absurd rfl hne
  | cons field more =>
    obtain ⟨name, v⟩ := field
    have hfirst : (printFields ((name, v) :: more)).toList.head? = some '"' := by
      cases more <;> simp [printFields, quoted]
    exact List.head?_eq_some_iff.1 hfirst

/-- An object is read from the text that it is written as, field by field. -/
theorem readMembers?_printFields (hne : fields ≠ [])
    (hfields : ∀ field ∈ fields, field.2.ReadsBack) :
    readMembers? ("\x7b" ++ printFields fields ++ "\x7d").toList = some fields := by
  obtain ⟨_, hread⟩ := readsMembers_printFields hne hfields (maxDepth - 1) []
  obtain ⟨more, hmore⟩ := exists_printFields_eq_cons hne
  have htext : ("\x7b" ++ printFields fields ++ "\x7d").toList =
      '\x7b' :: ((printFields fields).toList ++ ['\x7d']) := by simp
  have hskip : skip ('\x7b' :: ((printFields fields).toList ++ ['\x7d'])) =
      '\x7b' :: ((printFields fields).toList ++ ['\x7d']) := rfl
  have hskip' : skip ((printFields fields).toList ++ ['\x7d']) = '"' :: (more ++ ['\x7d']) := by
    rw [hmore]
    rfl
  rw [readMembers?, htext, hskip]
  simp only [hskip', hread]
  rfl

end PipelineEngine.Value
