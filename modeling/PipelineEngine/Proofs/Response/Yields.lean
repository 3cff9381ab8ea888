import PipelineEngine.Proofs.Fallible
import PipelineEngine.Proofs.Text.Numerals
import PipelineEngine.Proofs.Text.Trimmed
import PipelineEngine.Response.Yield

/-!
# Yields as they are written

A yield is written with one bound or two, and blanks may stand around it and around its bounds
(`Yield.Spells`).

* `Yield.parse_of_spells`: a written yield is read, when its bounds can be held and do not run
  backwards.  `Yield.isSound_of_parse`: no other one is ever read.
* `Yield.apply_array`: what a yield takes from an array are the items at the indices that it
  covers, in order.
* `Yield.parse_spelled` puts the two together.
-/

namespace PipelineEngine

namespace Yield

open Text (isBlank Padded)

/-- The bounds can be held in 64 bits, and a range does not end before it starts. -/
def IsSound : Yield → Prop
  | .index n | .onward n | .until n => n < Word.bound 64
  | .range a b => a ≤ b ∧ b < Word.bound 64

/-- The decimal text of a bound, with blanks around it. -/
def SpellsBound (n : Nat) (text : List Char) : Prop := Padded (Numeral.decimal n).toList text

/-- The text of a yield, with blanks around it and around its bounds. -/
inductive Spells : Yield → List Char → Prop
  | index {n : Nat} {text : List Char} (h : SpellsBound n text) : Spells (.index n) text
  | onward {n : Nat} {start trailing : List Char} (hstart : SpellsBound n start)
      (htrailing : ∀ c ∈ trailing, isBlank c = true) :
    Spells (.onward n) (start ++ (['.', '.'] ++ trailing))
  | until {n : Nat} {leading stop : List Char} (hleading : ∀ c ∈ leading, isBlank c = true)
      (hstop : SpellsBound n stop) :
    Spells (.until n) (leading ++ (['.', '.'] ++ stop))
  | range {a b : Nat} {start stop : List Char} (hstart : SpellsBound a start)
      (hstop : SpellsBound b stop) :
    Spells (.range a b) (start ++ (['.', '.'] ++ stop))

/-! ## Bounds -/

section
variable {n : Nat} {s text : List Char}

/-- A number is written without blanks, and without the mark of a range. -/
theorem mem_decimal {c : Char} (h : c ∈ (Numeral.decimal n).toList) :
    isBlank c = false ∧ c ≠ '.' := by
  rw [Numeral.toList_decimal] at h
  have hdigit := Numeral.isDigit_of_mem_digitChars n c h
  refine ⟨Numeral.isBlank_of_isDigit hdigit, ?_⟩
  rintro rfl
  cases hdigit

theorem decimal_ne_nil (n : Nat) : (Numeral.decimal n).toList ≠ [] := by
  rw [Numeral.toList_decimal]
  exact Numeral.digitChars_ne_nil n

/-- A written bound without the blanks around it. -/
theorem SpellsBound.trim (h : SpellsBound n text) :
    Text.trim text = (Numeral.decimal n).toList := by
  obtain ⟨leading, trailing, hleading, htrailing, rfl⟩ := h
  exact Text.trim_append hleading htrailing
    (fun c hc => (mem_decimal (List.mem_of_mem_head? hc)).1)
    fun c hc => (mem_decimal (List.mem_of_mem_getLast? hc)).1

theorem SpellsBound.ne_nil (h : SpellsBound n text) : text ≠ [] := by
  rintro rfl
  exact decimal_ne_nil n (h.trim.symm.trans Text.trim_nil)

/-- The mark of a range is no part of a written bound. -/
theorem SpellsBound.not_mem (h : SpellsBound n text) : '.' ∉ text := by
  obtain ⟨leading, trailing, hleading, htrailing, rfl⟩ := h
  rw [List.mem_append, List.mem_append]
  rintro (hmem | hmem | hmem)
  · exact absurd (hleading _ hmem) (by decide)
  · exact (mem_decimal hmem).2 rfl
  · exact absurd (htrailing _ hmem) (by decide)

theorem spellsBound_decimal (n : Nat) : SpellsBound n (Numeral.decimal n).toList :=
  ⟨[], [], nofun, nofun, by simp⟩

/-- A written bound starts with its number, once the blanks before it are gone. -/
theorem SpellsBound.exists_leading (h : SpellsBound n text) : ∃ leading rest,
    (∀ c ∈ leading, isBlank c = true) ∧ text = leading ++ rest ∧ SpellsBound n rest ∧
      ∀ c ∈ rest.head?, isBlank c = false := by
  obtain ⟨leading, trailing, hleading, htrailing, rfl⟩ := h
  refine ⟨leading, _, hleading, rfl, ⟨[], trailing, nofun, htrailing, rfl⟩, ?_⟩
  intro c hc
  rw [List.head?_append_of_ne_nil _ (decimal_ne_nil n)] at hc
  exact (mem_decimal (List.mem_of_mem_head? hc)).1

/-- A written bound ends with its number, once the blanks behind it are gone. -/
theorem SpellsBound.exists_trailing (h : SpellsBound n text) : ∃ rest trailing,
    (∀ c ∈ trailing, isBlank c = true) ∧ text = rest ++ trailing ∧ SpellsBound n rest ∧
      ∀ c ∈ rest.getLast?, isBlank c = false := by
  obtain ⟨leading, trailing, hleading, htrailing, rfl⟩ := h
  refine ⟨leading ++ (Numeral.decimal n).toList, trailing, htrailing, by simp,
    ⟨leading, [], hleading, nofun, by simp⟩, ?_⟩
  intro c hc
  rw [List.getLast?_append_of_ne_nil _ (decimal_ne_nil n)] at hc
  exact (mem_decimal (List.mem_of_mem_getLast? hc)).1

theorem bound_of_spellsBound (h : SpellsBound n text) (hn : n < Word.bound 64) :
    bound text = .ok n := by
  rw [bound, h.trim, Numeral.toList_decimal, Numeral.natural?_digitChars, Option.filter_some,
    if_pos (decide_eq_true hn)]

theorem lt_of_bound (h : bound s = .ok n) : n < Word.bound 64 := by
  rw [bound] at h
  split at h
  · rename_i m hm
    obtain rfl := Except.ok.inj h
    exact of_decide_eq_true (Option.filter_eq_some_iff.1 hm).2
  · cases h

end

/-! ## Reading -/

section
variable {s start stop : List Char}

theorem read_of_cut_onward (hcut : Text.cut? ['.', '.'] s = some (start, [])) (hne : start ≠ []) :
    read s = (bound start).map .onward := by
  obtain ⟨c, rest, rfl⟩ := List.exists_cons_of_ne_nil hne
  rw [read, hcut]

theorem read_of_cut_until (hcut : Text.cut? ['.', '.'] s = some ([], stop)) (hne : stop ≠ []) :
    read s = (bound stop).map .until := by
  obtain ⟨c, rest, rfl⟩ := List.exists_cons_of_ne_nil hne
  rw [read, hcut]

theorem read_of_cut_range (hcut : Text.cut? ['.', '.'] s = some (start, stop))
    (hstart : start ≠ []) (hstop : stop ≠ []) :
    read s = (do
      let a ← bound start
      let b ← bound stop
      if b < a then .error .reversed else .ok (.range a b)) := by
  obtain ⟨c, rest, rfl⟩ := List.exists_cons_of_ne_nil hstart
  obtain ⟨d, rest', rfl⟩ := List.exists_cons_of_ne_nil hstop
  rw [read, hcut]

end

variable {y : Yield} {text : List Char}

theorem read_of_spells (h : y.Spells text) (hsound : y.IsSound) :
    read (Text.trim text) = .ok y := by
  have hmark : isBlank '.' = false := rfl
  cases h with
  | @index n text h =>
    have hself := spellsBound_decimal n
    rw [h.trim, read, Text.cut?_eq_none hself.not_mem, bound_of_spellsBound hself hsound]
    rfl
  | @onward n start trailing hstart htrailing =>
    obtain ⟨leading, start, hleading, rfl, hstart, hfirst⟩ := hstart.exists_leading
    have htrim : Text.trim (leading ++ start ++ (['.', '.'] ++ trailing)) =
        start ++ (['.', '.'] ++ []) := by
      rw [List.append_assoc, ← List.append_assoc start]
      refine Text.trim_append hleading htrailing ?_ ?_
      · rwa [List.head?_append_of_ne_nil _ hstart.ne_nil]
      · simp [hmark]
    rw [htrim, read_of_cut_onward (Text.cut?_append hstart.not_mem ['.'] []) hstart.ne_nil,
      bound_of_spellsBound hstart hsound]
    rfl
  | @«until» n leading stop hleading hstop =>
    obtain ⟨stop, trailing, htrailing, rfl, hstop, hlast⟩ := hstop.exists_trailing
    have htrim : Text.trim (leading ++ (['.', '.'] ++ (stop ++ trailing))) =
        [] ++ (['.', '.'] ++ stop) := by
      rw [← List.append_assoc _ stop]
      refine Text.trim_append hleading htrailing ?_ ?_
      · simp [hmark]
      · rwa [List.getLast?_append_of_ne_nil _ hstop.ne_nil]
    rw [htrim, read_of_cut_until (Text.cut?_append List.not_mem_nil ['.'] stop) hstop.ne_nil,
      bound_of_spellsBound hstop hsound]
    rfl
  | @range a b start stop hstart hstop =>
    obtain ⟨leading, start, hleading, rfl, hstart, hfirst⟩ := hstart.exists_leading
    obtain ⟨stop, trailing, htrailing, rfl, hstop, hlast⟩ := hstop.exists_trailing
    have htrim : Text.trim (leading ++ start ++ (['.', '.'] ++ (stop ++ trailing))) =
        start ++ (['.', '.'] ++ stop) := by
      rw [List.append_assoc, ← List.append_assoc _ stop, ← List.append_assoc start]
      refine Text.trim_append hleading htrailing ?_ ?_
      · rwa [List.head?_append_of_ne_nil _ hstart.ne_nil]
      · rwa [← List.append_assoc, List.getLast?_append_of_ne_nil _ hstop.ne_nil]
    obtain ⟨hle, hlt⟩ := hsound
    rw [htrim, read_of_cut_range (Text.cut?_append hstart.not_mem ['.'] stop) hstart.ne_nil
      hstop.ne_nil, bound_of_spellsBound hstart (Nat.lt_of_le_of_lt hle hlt),
      bound_of_spellsBound hstop hlt]
    exact if_neg (Nat.not_lt.2 hle)

theorem parse_of_spells (h : y.Spells text) (hsound : y.IsSound) :
    parse (String.ofList text) = .ok y := by
  rw [parse, String.toList_ofList, read_of_spells h hsound]
  rfl

/-- Whatever is read is sound. -/
theorem isSound_of_read {s : List Char} (h : read s = .ok y) : y.IsSound := by
  rw [read] at h
  split at h
  · obtain ⟨n, hn, rfl⟩ := Fallible.map_eq_ok_iff.1 h
    exact lt_of_bound hn
  · cases h
  · obtain ⟨n, hn, rfl⟩ := Fallible.map_eq_ok_iff.1 h
    exact lt_of_bound hn
  · obtain ⟨n, hn, rfl⟩ := Fallible.map_eq_ok_iff.1 h
    exact lt_of_bound hn
  · obtain ⟨a, -, h⟩ := Fallible.bind_eq_ok_iff.1 h
    obtain ⟨b, hb, h⟩ := Fallible.bind_eq_ok_iff.1 h
    split at h
    · cases h
    · rename_i hle
      obtain rfl := Except.ok.inj h
      exact ⟨Nat.not_lt.1 hle, lt_of_bound hb⟩

theorem isSound_of_parse {spec : String} (h : parse spec = .ok y) : y.IsSound :=
  isSound_of_read (Fallible.mapError_eq_ok_iff.1 h)

/-! ## Taking items -/

/-- The indices that a yield covers. -/
def covers : Yield → Nat → Bool
  | .index n, i => i = n
  | .onward n, i => n ≤ i
  | .until n, i => i < n
  | .range a b, i => a ≤ i && i < b

/-- The items whose indices, counted from a number, pass a test, in order. -/
def itemsFrom (first : Nat) (test : Nat → Bool) (items : List Value) : List Value :=
  ((items.zipIdx first).filter fun (_, i) => test i).map (·.1)

/-- What a yield takes from an array: the item at an index, null where there is none, or the items
at the indices of a range. -/
def selection (y : Yield) (items : List Value) : Value :=
  match y with
  | .index n => if h : n < items.length then items[n] else .null
  | y => .array (itemsFrom 0 y.covers items)

section
variable {first : Nat} {test : Nat → Bool} {items : List Value}

theorem itemsFrom_append (xs ys : List Value) :
    itemsFrom first test (xs ++ ys) =
      itemsFrom first test xs ++ itemsFrom (first + xs.length) test ys := by
  rw [itemsFrom, List.zipIdx_append, List.filter_append, List.map_append]
  rfl

theorem itemsFrom_eq_self (h : ∀ i, first ≤ i → i < first + items.length → test i = true) :
    itemsFrom first test items = items := by
  have hall : ∀ x ∈ items.zipIdx first, test x.2 = true := fun x hx =>
    h x.2 (List.le_snd_of_mem_zipIdx hx) (List.snd_lt_add_of_mem_zipIdx hx)
  rw [itemsFrom, List.filter_eq_self.2 hall]
  exact List.zipIdx_map_fst first items

theorem itemsFrom_eq_nil (h : ∀ i, first ≤ i → i < first + items.length → test i = false) :
    itemsFrom first test items = [] := by
  have hnone : ∀ x ∈ items.zipIdx first, ¬ test x.2 = true := fun x hx =>
    Bool.eq_false_iff.1
      (h x.2 (List.le_snd_of_mem_zipIdx hx) (List.snd_lt_add_of_mem_zipIdx hx))
  rw [itemsFrom, List.filter_eq_nil_iff.2 hnone, List.map_nil]

end

/-- The items at the indices of an interval are what its start leaves, up to its end. -/
theorem itemsFrom_interval (test : Nat → Bool) (items : List Value) (a b : Nat)
    (h : ∀ i < items.length, (test i = true ↔ a ≤ i ∧ i < b)) :
    itemsFrom 0 test items = (items.drop a).take (b - a) := by
  have hfalse : ∀ i < items.length, ¬ (a ≤ i ∧ i < b) → test i = false := fun i hi hout =>
    Bool.eq_false_iff.2 (mt (h i hi).1 hout)
  -- Before the interval, in it and behind it.
  have hsplit : items =
      items.take a ++ ((items.drop a).take (b - a) ++ (items.drop a).drop (b - a)) := by
    rw [List.take_append_drop, List.take_append_drop]
  have hlength := congrArg List.length hsplit
  simp only [List.length_append] at hlength
  have hbefore : (items.take a).length = min a items.length := List.length_take
  have hwithin : ((items.drop a).take (b - a)).length = min (b - a) (items.length - a) := by
    rw [List.length_take, List.length_drop]
  conv_lhs => rw [hsplit]
  rw [itemsFrom_append, itemsFrom_append, itemsFrom_eq_nil, itemsFrom_eq_self, itemsFrom_eq_nil,
    List.nil_append, List.append_nil]
  · intro i hlow hhigh
    exact hfalse i (by omega) (by omega)
  · intro i hlow hhigh
    exact (h i (by omega)).2 (by omega)
  · intro i hlow hhigh
    exact hfalse i (by omega) (by omega)

theorem apply_array (y : Yield) (items : List Value) :
    y.apply (.array items) = y.selection items := by
  cases y with
  | index n =>
    by_cases h : n < items.length
    · simp [apply, selection, Yield.items, h]
    · simp [apply, selection, Yield.items, h]
  | onward n =>
    have hitems := itemsFrom_interval (covers (.onward n)) items n items.length
      fun i hi => by simp [covers, hi]
    have htake : (items.drop n).take (items.length - n) = items.drop n :=
      List.take_of_length_le (by simp)
    show Value.array (items.drop n) = .array _
    rw [hitems, htake]
  | «until» n =>
    have hitems := itemsFrom_interval (covers (.until n)) items 0 n
      fun i _ => by simp [covers]
    show Value.array (items.take n) = .array _
    rw [hitems, List.drop_zero, Nat.sub_zero]
  | range a b =>
    have hitems := itemsFrom_interval (covers (.range a b)) items a b
      fun i _ => by simp [covers]
    show Value.array ((items.drop a).take (b - a)) = .array _
    rw [hitems]

/-- What is no array counts as one item. -/
theorem apply_of_not_array (y : Yield) {v : Value} (hnull : v ≠ .null)
    (harray : ∀ items, v ≠ .array items) : y.apply v = y.apply (.array [v]) := by
  have hitems : Yield.items v = [v] := by
    cases v with
    | null => exact absurd rfl hnull
    | array items => exact absurd rfl (harray items)
    | bool | number | string | object => rfl
  cases y <;> simp only [apply, hitems] <;> rfl

/-- A yield that is written with sound bounds is read, and takes from an array the item at its
index or the items at the indices that it covers, in order.  What is no array counts as one item and
null as none, and no text at all is read as a range that ends before it starts. -/
theorem parse_spelled {y : Yield} {text : List Char} (htext : y.Spells text)
    (hsound : y.IsSound) :
    parse (String.ofList text) = .ok y ∧ (∀ items, y.apply (.array items) = y.selection items) ∧
      (∀ v, v ≠ .null → (∀ items, v ≠ .array items) → y.apply v = y.selection [v]) ∧
      y.apply .null = y.selection [] ∧ ∀ spec a b, parse spec = .ok (.range a b) → a ≤ b := by
  refine ⟨parse_of_spells htext hsound, y.apply_array, ?_, ?_, ?_⟩
  · intro v hnull harray
    rw [y.apply_of_not_array hnull harray, y.apply_array]
  · rw [← y.apply_array]
    cases y <;> rfl
  · intro spec a b h
    exact (isSound_of_parse h).1

/-- The second and the third of four items, with blanks wherever they may stand. -/
theorem parse_spelled_middle :
    Spells (.range 1 3) ([' ', '1', '\t'] ++ (['.', '.'] ++ ['\n', '3', ' '])) ∧
      IsSound (.range 1 3) ∧ parse " 1\t..\n3 " = .ok (.range 1 3) ∧
      apply (.range 1 3) (.array [.int 6, .int 7, .int 8, .int 9]) = .array [.int 7, .int 8] := by
  have hspace : ∀ c ∈ [' '], isBlank c = true := List.forall_mem_singleton.2 rfl
  have htab : ∀ c ∈ ['\t'], isBlank c = true := List.forall_mem_singleton.2 rfl
  have hline : ∀ c ∈ ['\n'], isBlank c = true := List.forall_mem_singleton.2 rfl
  have hone : SpellsBound 1 [' ', '1', '\t'] :=
    ⟨[' '], ['\t'], hspace, htab, by
      rw [Numeral.toList_decimal, Numeral.digitChars_of_lt (by decide)]
      rfl⟩
  have hthree : SpellsBound 3 ['\n', '3', ' '] :=
    ⟨['\n'], [' '], hline, hspace, by
      rw [Numeral.toList_decimal, Numeral.digitChars_of_lt (by decide)]
      rfl⟩
  have hspells : Spells (.range 1 3) ([' ', '1', '\t'] ++ (['.', '.'] ++ ['\n', '3', ' '])) :=
    .range hone hthree
  have hsound : IsSound (.range 1 3) := ⟨by decide, by decide⟩
  obtain ⟨hparse, harray, -⟩ := parse_spelled hspells hsound
  exact ⟨hspells, hsound, hparse, harray _⟩

end Yield

end PipelineEngine
