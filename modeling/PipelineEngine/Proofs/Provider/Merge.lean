import PipelineEngine.Proofs.Value.Equality
import PipelineEngine.Provider.Builtin

/-!
# Merging the fields of an object

A merge writes the fields of an object in the order of their names: an object-valued field
stands for the fields inside it, any other field for itself.  Of all fields that give a value to
a name the last one decides, so a plain field loses its name to an object that comes after it.

* `Builtin.get?_mergeFields`: what the result holds, by recursion on the fields.
* `Builtin.get?_merged_iff`: the same in terms of the last field that gives a value.
* `Builtin.call_merge` is the main statement.
-/

namespace PipelineEngine.Builtin

variable {fields : Fields Value} {key key' name : String} {v w : Value}

/-! ## What a field gives -/

/-- The field is no object. -/
def IsPlain (fields : Fields Value) (name : String) (v : Value) : Prop :=
  fields.get? name = some v ∧ v.object? = none

/-- The field `outer` is an object with an inner field of the name. -/
def Holds (fields : Fields Value) (outer name : String) (v : Value) : Prop :=
  ∃ inner : Fields Value, fields.get? outer = some (.object inner) ∧ inner.get? name = some v

/-- The last of the object-valued fields that have an inner field of the name. -/
def LastHolds (fields : Fields Value) (outer name : String) (v : Value) : Prop :=
  Holds fields outer name v ∧ ∀ later w, outer < later → ¬ Holds fields later name w

/-- A field gives a value to a name: its own value to its own name, or that of an inner field. -/
def Gives (fields : Fields Value) (key name : String) (v : Value) : Prop :=
  key = name ∧ IsPlain fields name v ∨ Holds fields key name v

/-- The value that a field gives to a name, if any. -/
def given (name : String) : String × Value → Option Value
  | (_, .object inner) => Fields.get? inner name
  | (key, v) => if name = key then some v else none

theorem IsPlain.unique (h : IsPlain fields name v) (h' : IsPlain fields name w) : v = w :=
  Option.some.inj (h.1.symm.trans h'.1)

theorem IsPlain.not_holds (h : IsPlain fields name v) (other : String) :
    ¬ Holds fields name other w := by
  rintro ⟨inner, hinner, -⟩
  obtain rfl := Option.some.inj (h.1.symm.trans hinner)
  exact Option.some_ne_none _ h.2

theorem Holds.unique (h : Holds fields key name v) (h' : Holds fields key name w) : v = w := by
  obtain ⟨inner, hinner, hv⟩ := h
  obtain ⟨inner', hinner', hw⟩ := h'
  obtain rfl := Value.object.inj (Option.some.inj (hinner.symm.trans hinner'))
  exact Option.some.inj (hv.symm.trans hw)

theorem Gives.unique (h : Gives fields key name v) (h' : Gives fields key name w) : v = w := by
  rcases h with ⟨rfl, hv⟩ | hv
  · exact h'.elim (fun hw => hv.unique hw.2) fun hw => (hv.not_holds _ hw).elim
  · rcases h' with ⟨rfl, hw⟩ | hw
    · exact (hw.not_holds _ hv).elim
    · exact hv.unique hw

theorem Gives.exists_field (h : Gives fields key name v) : ∃ u, fields.get? key = some u := by
  rcases h with ⟨rfl, hplain⟩ | ⟨inner, hinner, -⟩
  · exact ⟨v, hplain.1⟩
  · exact ⟨_, hinner⟩

/-- What a field gives depends on its value alone. -/
theorem given_eq_some_iff (h : fields.get? key = some v) :
    given name (key, v) = some w ↔ Gives fields key name w := by
  cases v with
  | object inner =>
    constructor
    · exact fun hw => .inr ⟨inner, h, hw⟩
    · rintro (⟨rfl, hplain⟩ | ⟨inner', hinner', hw⟩)
      · obtain rfl := Option.some.inj (h.symm.trans hplain.1)
        exact (Option.some_ne_none _ hplain.2).elim
      · obtain rfl := Value.object.inj (Option.some.inj (h.symm.trans hinner'))
        exact hw
  | _ =>
    rw [given, Option.ite_none_right_eq_some]
    · constructor
      · rintro ⟨rfl, hw⟩
        exact .inl ⟨rfl, h.trans hw, Option.some.inj hw ▸ rfl⟩
      · rintro (⟨rfl, hplain⟩ | ⟨inner, hinner, -⟩)
        · exact ⟨rfl, h.symm.trans hplain.1⟩
        · cases h.symm.trans hinner
    · exact nofun

/-! ## The last field decides -/

/-- One field after another is written, so the last one that gives a value is looked for first. -/
theorem get?_mergeFields (hinner : ∀ key inner, (key, .object inner) ∈ fields → Fields.Sorted inner)
    (acc : Fields Value) :
    (fields.foldl (fun acc (key, v) => mergeField acc key v) acc).get? name =
      (fields.reverse.findSome? (given name)).or (acc.get? name) := by
  induction fields generalizing acc with
  | nil => rfl
  | cons field rest ih =>
    obtain ⟨key, v⟩ := field
    have hfield : (mergeField acc key v).get? name = (given name (key, v)).or (acc.get? name) := by
      cases v with
      | object inner => exact Fields.get?_extend_of_sorted acc (hinner key inner (by simp)) name
      | _ =>
        rw [mergeField, Fields.get?_insert, given]
        · split <;> rfl
        · exact nofun
        · exact nofun
    rw [List.foldl_cons, ih fun k inner hk => hinner k inner (List.mem_cons_of_mem _ hk), hfield,
      List.reverse_cons, List.findSome?_append, List.findSome?_singleton, Option.or_assoc]

/-- The fields of a merged object. -/
def merged (fields : Fields Value) : Fields Value :=
  fields.foldl (fun acc (key, v) => mergeField acc key v) []

theorem isSorted_inner (h : (Value.object fields).IsJson) {inner : Fields Value}
    (hmem : (key, Value.object inner) ∈ fields) : inner.Sorted := by
  cases h with
  | object hsorted hfields =>
    cases hfields _ _ (Fields.get?_of_mem hsorted hmem) with
    | object hinner _ => exact hinner

theorem exists_of_get?_merged (h : (Value.object fields).IsJson)
    (hget : (merged fields).get? name = some v) :
    ∃ key, Gives fields key name v ∧ ∀ later w, key < later → ¬ Gives fields later name w := by
  have hsorted : fields.Sorted := by
    cases h with
    | object hsorted _ => exact hsorted
  rw [merged, get?_mergeFields fun _ _ => isSorted_inner h, Fields.get?_nil, Option.or_none,
    List.findSome?_eq_some_iff] at hget
  obtain ⟨after, ⟨key, u⟩, before, hfields, hgiven, hafter⟩ := hget
  have hmem : ∀ {field}, field ∈ after ++ (key, u) :: before → field ∈ fields := by
    intro field hfield
    rwa [← hfields, List.mem_reverse] at hfield
  have hkey : fields.get? key = some u := Fields.get?_of_mem hsorted (hmem (by simp))
  have horder : ∀ field ∈ before, field.1 < key := by
    have hpairwise := List.pairwise_reverse.2 (show fields.Pairwise _ from hsorted)
    rw [hfields, List.pairwise_append, List.pairwise_cons] at hpairwise
    exact hpairwise.2.1.1
  refine ⟨key, (given_eq_some_iff hkey).1 hgiven, fun later w hlater hgives => ?_⟩
  obtain ⟨u', hu'⟩ := hgives.exists_field
  -- What comes later by name was written later.
  have hplace : (later, u') ∈ after ++ (key, u) :: before := by
    rw [← hfields, List.mem_reverse]
    exact Fields.mem_of_get? hu'
  rcases List.mem_append.1 hplace with hlast | hplace
  · have hnone := hafter _ hlast
    rw [(given_eq_some_iff hu').2 hgives] at hnone
    cases hnone
  · rcases List.mem_cons.1 hplace with heq | hbefore
    · exact String.lt_irrefl key ((Prod.mk.inj heq).1 ▸ hlater)
    · exact String.lt_asymm hlater (horder _ hbefore)

theorem exists_get?_merged (h : (Value.object fields).IsJson) (hgives : Gives fields key name v) :
    ∃ w, (merged fields).get? name = some w := by
  obtain ⟨u, hu⟩ := hgives.exists_field
  rw [merged, get?_mergeFields fun _ _ => isSorted_inner h, Fields.get?_nil, Option.or_none,
    ← Option.isSome_iff_exists, List.findSome?_isSome_iff]
  exact ⟨(key, u), List.mem_reverse.2 (Fields.mem_of_get? hu),
    Option.isSome_of_eq_some ((given_eq_some_iff hu).2 hgives)⟩

/-- The last field that gives a value to a name decides what stands under it. -/
theorem get?_merged_iff (h : (Value.object fields).IsJson) :
    (merged fields).get? name = some v ↔
      ∃ key, Gives fields key name v ∧ ∀ later w, key < later → ¬ Gives fields later name w := by
  refine ⟨exists_of_get?_merged h, ?_⟩
  rintro ⟨key, hgives, hlast⟩
  obtain ⟨w, hw⟩ := exists_get?_merged h hgives
  obtain ⟨key', hgives', hlast'⟩ := exists_of_get?_merged h hw
  have hkey : key = key' := by
    by_contra hne
    have hle : ¬ key' < key := fun hlt => hlast' _ _ hlt hgives
    exact hlast _ _ (Std.lt_of_le_of_ne hle hne) hgives'
  rw [hw, hgives.unique (hkey ▸ hgives')]

/-- A plain field loses its name to the last object with the name, when that stands behind it. -/
theorem get?_merged_of_lastHolds (h : (Value.object fields).IsJson)
    (hholds : LastHolds fields key name w) (hlt : name < key) :
    (merged fields).get? name = some w := by
  refine (get?_merged_iff h).2 ⟨key, .inr hholds.1, ?_⟩
  rintro later u hlater (⟨rfl, -⟩ | hu)
  · exact String.lt_asymm hlt hlater
  · exact hholds.2 later u hlater hu

/-- A plain field is kept when no object behind it takes its name away. -/
theorem get?_merged_plain_iff (h : (Value.object fields).IsJson) (hplain : IsPlain fields name v) :
    (merged fields).get? name = some v ↔
      ∀ outer w, LastHolds fields outer name w → name < outer → w = v := by
  constructor
  · intro hget outer w hholds hlt
    exact Option.some.inj ((get?_merged_of_lastHolds h hholds hlt).symm.trans hget)
  · intro hkept
    obtain ⟨w, hw⟩ := exists_get?_merged h (.inl ⟨rfl, hplain⟩)
    obtain ⟨key, hgives, hlast⟩ := exists_of_get?_merged h hw
    rcases hgives with ⟨rfl, hplain'⟩ | hholds
    · rw [hw, hplain.unique hplain']
    · have hne : name ≠ key := by
        rintro rfl
        exact hplain.not_holds name hholds
      have hle : ¬ key < name := fun hlt => hlast _ _ hlt (.inl ⟨rfl, hplain⟩)
      rw [hw, hkept key w ⟨hholds, fun later u hlater hu => hlast later u hlater (.inr hu)⟩
        (Std.lt_of_le_of_ne hle hne)]

/-- Under any other name stands what the last object that has it holds. -/
theorem get?_merged_inner_iff (h : (Value.object fields).IsJson)
    (hplain : ∀ v, ¬ IsPlain fields name v) :
    (merged fields).get? name = some w ↔ ∃ outer, LastHolds fields outer name w := by
  have hgives : ∀ key v, Gives fields key name v ↔ Holds fields key name v :=
    fun key v => or_iff_right fun hown => hplain v hown.2
  simp only [get?_merged_iff h, hgives, LastHolds]

/-- The merge of an object is an object.  A plain field is kept under its name exactly when no
object-valued field behind it has the name, or the last of them holds the same value; otherwise the
value that this one holds stands there.  Every other name has the value that the last of the
object-valued fields with it holds, and no name is there without one. -/
theorem call_merge (h : (Value.object fields).IsJson) (now step : String) :
    ∃ out : Fields Value,
      call now step "merge" (.parsed (.object fields)) = .ok (.parsed (.object out)) ∧
      (∀ name v, IsPlain fields name v →
        (out.get? name = some v ↔
          ∀ outer w, LastHolds fields outer name w → name < outer → w = v) ∧
        ∀ outer w, LastHolds fields outer name w → name < outer → out.get? name = some w) ∧
      ∀ name, (∀ v, ¬ IsPlain fields name v) →
        ∀ w, out.get? name = some w ↔ ∃ outer, LastHolds fields outer name w :=
  ⟨merged fields, rfl,
    fun _ _ hplain => ⟨get?_merged_plain_iff h hplain, fun _ _ => get?_merged_of_lastHolds h⟩,
    fun _ hplain _ => get?_merged_inner_iff h hplain⟩

theorem isJson_of_names (hnames : fields.names.Pairwise (· < ·))
    (h : ∀ field ∈ fields, field.2.IsJson) : (Value.object fields).IsJson :=
  .object (Fields.sorted_iff_names.2 hnames) fun _ _ hget => h _ (Fields.mem_of_get? hget)

theorem isJson_digit {n : Nat} (h : n < 10) : (Value.int n).IsJson :=
  .number (Number.inRange_iff.2 (by omega))

/-- Two objects with an inner field of the same name, and a plain field behind them. -/
theorem call_merge_layers :
    let fields : Fields Value := [("base", .object [("size", .int 1)]),
      ("over", .object [("size", .int 2)]), ("rest", .int 3)]
    (Value.object fields).IsJson ∧
      ∃ out : Fields Value,
        call "" "mix" "merge" (.parsed (.object fields)) = .ok (.parsed (.object out)) ∧
        out.get? "size" = some (.int 2) ∧ out.get? "rest" = some (.int 3) := by
  intro fields
  have hinner : ∀ n : Nat, n < 10 → (Value.object [("size", .int n)]).IsJson := fun n hn =>
    isJson_of_names (by simp [Fields.names]) (List.forall_mem_singleton.2 (isJson_digit hn))
  have hjson : (Value.object fields).IsJson :=
    isJson_of_names (by decide) (List.forall_mem_cons.2 ⟨hinner 1 (by decide),
      List.forall_mem_cons.2 ⟨hinner 2 (by decide),
        List.forall_mem_singleton.2 (isJson_digit (by decide))⟩⟩)
  obtain ⟨out, hcall, hplain, hother⟩ := call_merge hjson "" "mix"
  -- No field behind "over" is an object.
  have hlast : ∀ later name w, "over" < later → ¬ Holds fields later name w := by
    rintro later name w hlt ⟨inner, hget, -⟩
    by_cases hbase : later = "base"
    · exact absurd hlt (by rw [hbase]; decide)
    · by_cases hover : later = "over"
      · exact absurd hlt (by rw [hover]; decide)
      · simp [fields, Fields.get?, hbase, hover, Value.int] at hget
  refine ⟨hjson, out, hcall, ?_, ?_⟩
  · exact (hother "size" (fun v hv => Option.some_ne_none v hv.1.symm) _).2
      ⟨"over", ⟨_, rfl, rfl⟩, fun later w hlt => hlast later _ w hlt⟩
  · refine (hplain "rest" _ ⟨rfl, rfl⟩).1.2 fun outer w hholds hlt => ?_
    exact (hlast outer _ w (String.lt_trans (by decide) hlt) hholds.1).elim

/-- A plain field is lost to an object behind it that has its name. -/
theorem not_keeps_plain :
    ¬ ∀ fields : Fields Value, (Value.object fields).IsJson → ∃ out : Fields Value,
      call "" "mix" "merge" (.parsed (.object fields)) = .ok (.parsed (.object out)) ∧
      ∀ name v, IsPlain fields name v → out.get? name = some v := by
  intro h
  have hinner : (Value.object [("a", .int 2)]).IsJson :=
    isJson_of_names (by decide) (List.forall_mem_singleton.2 (isJson_digit (by decide)))
  have hjson : (Value.object [("a", .int 1), ("b", .object [("a", .int 2)])]).IsJson :=
    isJson_of_names (by decide) (List.forall_mem_cons.2 ⟨isJson_digit (by decide),
      List.forall_mem_singleton.2 hinner⟩)
  obtain ⟨out, hcall, hkept⟩ := h _ hjson
  have hout : [("a", .int 2)] = out :=
    Value.object.inj (Payload.parsed.inj (Except.ok.inj hcall))
  have ha := hkept "a" (.int 1) ⟨rfl, rfl⟩
  rw [← hout] at ha
  cases ha

end PipelineEngine.Builtin
