import Mathlib.Data.List.Nodup
import PipelineEngine.Proofs.Store.History
import PipelineEngine.Proofs.Store.Overlays

/-!
# What an update does

`Store.Rewrites` says what an update that succeeds does to a store: which rows it counts and
what becomes of each row of each table.  `Store.update_spec` is the main statement: an update
that succeeds rewrites the rows in this way; if it fails, nothing has changed and nothing is
reported.

* `Tables.rewritten`: the row that an update makes of a row, from the tables before it alone.
* `ForeignKey.extend_carried`: what is written through a key is what the key's columns follow.
* `Tables.cascades_eq_ok`: what an update carries on, key by key and row by row.
* `Store.update_cases_of_run` follows the dialogue of an update in any surroundings.
-/

namespace PipelineEngine

open Dialogue

/-! ## The rows after an update -/

/-- The row with the new values of a row that it pointed at: each local column of the key gets
what the changes write into the column that it is linked to. -/
def ForeignKey.follow (k : ForeignKey) (changes row : Row) : Row :=
  k.columns.foldl (fun row (localColumn, target) =>
    match changes.get? target with
    | some v => row.insert localColumn v
    | none => row) row

namespace Tables

/-- Whether a row points through the key at a row that an update matches and moves. -/
def isCarriedTo (d : Tables) (filter changes : Row) (k : ForeignKey) (row : Row) : Bool :=
  (d.rows k.target).any fun old =>
    old.matchesAll filter && k.isMoved old changes && k.points row old

/-- The keys through which an update of a table carries its changes on to a row, in the order
in which they are declared. -/
def carriers (d : Tables) (m : Model) (table : String) (filter changes : Row) (name : String)
    (row : Row) : List ForeignKey :=
  (m.keysTo table).filter fun k =>
    k.table = name && k.onUpdate = .cascade && d.isCarriedTo filter changes k row

/-- What an update of a table makes of a row of the table `name`: the changes are written over
it if it matches, and then it follows each key that carries to it. -/
def rewritten (d : Tables) (m : Model) (table : String) (filter changes : Row) (name : String)
    (row : Row) : Row :=
  (d.carriers m table filter changes name row).foldl (fun row k => k.follow changes row)
    (if name = table ∧ row.matchesAll filter = true then row.extend changes else row)

end Tables

/-- What an update of a table does to a store. -/
structure Store.Rewrites (s s' : Store) (m : Model) (table : String) (filter changes : Row)
    (n : Nat) : Prop where
  /-- The rows that match are counted. -/
  counts : n = (s.tables.rows table).countP (·.matchesAll filter)
  /-- Each row of each table is rewritten where it stands. -/
  rows : ∀ name, s'.tables.rows name =
    (s.tables.rows name).map (s.tables.rewritten m table filter changes name)
  /-- No row that matches and is moved had a row that depended on it through a key that
  restricts updates. -/
  free : ∀ k ∈ m.foreignKeys, k.target = table → k.onUpdate = .restrict →
    ∀ row ∈ s.tables.rows k.table, s.tables.isCarriedTo filter changes k row = false
  ids : s'.ids = s.ids

/-! ## What an update carries on -/

namespace ForeignKey

variable {k : ForeignKey} {d : Tables} {changes old : Row}

/-- What is carried through a key, written over a row, lets the row follow the key. -/
theorem extend_carried (k : ForeignKey) (changes row : Row) :
    row.extend (k.carried changes) = k.follow changes row := by
  rw [carried, Fields.extend_ofList, Fields.extend, List.foldl_filterMap]
  refine List.foldl_ext _ _ _ fun row link _ => ?_
  cases hget : Fields.get? changes link.2 <;> simp [hget]

/-- The overlays of a cascade from one row. -/
def cascade (k : ForeignKey) (d : Tables) (changes old : Row) : List Overlay :=
  if k.isMoved old changes then (k.dependents d old).map fun i => ⟨⟨k.table, i⟩, k.carried changes⟩
  else []

theorem mem_cascade_iff {o : Overlay} :
    o ∈ k.cascade d changes old ↔ k.isMoved old changes = true ∧
      ∃ i row, d.row? ⟨k.table, i⟩ = some row ∧ k.points row old = true ∧
        o = ⟨⟨k.table, i⟩, k.carried changes⟩ := by
  unfold cascade
  split
  · rename_i hmoved
    simp only [List.mem_map, mem_dependents_iff, hmoved, true_and]
    constructor
    · rintro ⟨i, ⟨row, hrow, hpoints⟩, rfl⟩
      exact ⟨i, row, hrow, hpoints, rfl⟩
    · rintro ⟨i, row, hrow, hpoints, rfl⟩
      exact ⟨i, ⟨row, hrow, hpoints⟩, rfl⟩
  · rename_i hmoved
    simp [hmoved]

/-- An update that a key does not restrict cascades through it. -/
theorem of_updateOverlays_eq_ok {overlays : List Overlay}
    (h : k.updateOverlays d changes old = .ok overlays) :
    overlays = k.cascade d changes old ∧
      (k.onUpdate = .restrict → k.cascade d changes old = []) := by
  unfold updateOverlays at h
  unfold cascade
  split at h
  · rename_i hmoved
    rw [if_pos hmoved]
    simp only at h
    split at h
    · rename_i hempty
      cases h
      simp [List.isEmpty_iff.1 hempty]
    · split at h
      · cases h
      · rename_i hcascade
        cases h
        exact ⟨rfl, fun hrestrict => by rw [hrestrict] at hcascade; cases hcascade⟩
  · rename_i hmoved
    cases h
    simp [hmoved]

end ForeignKey

namespace Tables

variable {d : Tables} {m : Model} {t : Table} {filter changes row : Row} {name : String} {i : Nat}

/-- An accepted update carries on, for each key that points at its table and for each row that
it matches, the cascade from that row, and none for a key that restricts. -/
theorem cascades_eq_ok {matched : List Nat} {carried : List Overlay}
    (h : d.cascades m t changes matched = .ok carried) :
    carried = (m.keysTo t.name).flatMap (fun k => matched.flatMap fun i =>
        k.cascade d changes ((d.row? ⟨t.name, i⟩).getD [])) ∧
      ∀ k ∈ m.keysTo t.name, k.onUpdate = .restrict → ∀ i ∈ matched,
        k.cascade d changes ((d.row? ⟨t.name, i⟩).getD []) = [] := by
  rw [cascades, Fallible.bind_eq_ok_iff] at h
  obtain ⟨found, hfound, h⟩ := h
  obtain rfl : found.flatten.flatten = carried := Except.ok.inj h
  constructor
  · have hkeys := Fallible.eq_map_of_mapM_eq_ok hfound fun k _ perKey hperKey =>
      Fallible.eq_map_of_mapM_eq_ok hperKey fun i _ overlays hoverlays =>
        (ForeignKey.of_updateOverlays_eq_ok hoverlays).1
    rw [hkeys, List.flatten_flatten, List.map_map]
    rfl
  · intro k hk hrestrict i hi
    obtain ⟨perKey, -, hperKey⟩ := (Fallible.of_mapM_eq_ok hfound).1 k hk
    obtain ⟨overlays, -, hoverlays⟩ := (Fallible.of_mapM_eq_ok hperKey).1 i hi
    exact (ForeignKey.of_updateOverlays_eq_ok hoverlays).2 hrestrict

/-- A cascade from one of the rows that an update matches writes over a row exactly when the
key carries to it. -/
theorem isCarriedTo_iff (filter changes : Row) (k : ForeignKey)
    (hrow : d.row? ⟨name, i⟩ = some row) :
    (∃ o ∈ (d.matching k.target filter).flatMap fun j =>
        k.cascade d changes ((d.row? ⟨k.target, j⟩).getD []), o.position = ⟨name, i⟩) ↔
      k.table = name ∧ d.isCarriedTo filter changes k row = true := by
  simp only [List.mem_flatMap, ForeignKey.mem_cascade_iff, mem_matching_iff, isCarriedTo,
    List.any_eq_true, Bool.and_eq_true]
  constructor
  · rintro ⟨o, ⟨j, ⟨old, hold, hmatches⟩, hmoved, i', row', hrow', hpoints, rfl⟩, hpos⟩
    obtain ⟨rfl, rfl⟩ := Position.mk.inj hpos
    rw [hold, Option.getD_some] at hmoved hpoints
    obtain rfl : row' = row := Option.some.inj (hrow'.symm.trans hrow)
    exact ⟨rfl, old, mem_rows_iff.2 ⟨j, hold⟩, ⟨hmatches, hmoved⟩, hpoints⟩
  · rintro ⟨rfl, old, hmem, ⟨hmatches, hmoved⟩, hpoints⟩
    obtain ⟨j, hold⟩ := mem_rows_iff.1 hmem
    refine ⟨⟨⟨k.table, i⟩, k.carried changes⟩, ⟨j, ⟨old, hold, hmatches⟩, ?_⟩, rfl⟩
    rw [hold, Option.getD_some]
    exact ⟨hmoved, i, row, hrow, hpoints, rfl⟩

/-- All that a key carries on, written over a row, lets the row follow the key once. -/
theorem overlaid_cascade (filter changes current : Row) (k : ForeignKey)
    (hrow : d.row? ⟨name, i⟩ = some row) :
    overlaid ⟨name, i⟩ ((d.matching k.target filter).flatMap fun j =>
        k.cascade d changes ((d.row? ⟨k.target, j⟩).getD [])) current =
      if k.table = name ∧ d.isCarriedTo filter changes k row = true then k.follow changes current
      else current := by
  have hiff := isCarriedTo_iff filter changes k hrow
  split
  · rename_i hcarries
    rw [← ForeignKey.extend_carried]
    refine overlaid_of_values ?_ (k.sorted_carried changes) (hiff.2 hcarries)
    intro o ho
    obtain ⟨j, -, ho⟩ := List.mem_flatMap.1 ho
    obtain ⟨-, i', row', -, -, rfl⟩ := ForeignKey.mem_cascade_iff.1 ho
    rfl
  · rename_i hcarries
    exact overlaid_of_not_mem fun o ho hpos => hcarries (hiff.1 ⟨o, ho, hpos⟩)

/-- The changes are written over the rows that match, once over each. -/
theorem overlaid_own {table : String} (hrow : d.row? ⟨name, i⟩ = some row) :
    overlaid ⟨name, i⟩ ((d.matching table filter).map fun j => ⟨⟨table, j⟩, changes⟩) row =
      if name = table ∧ row.matchesAll filter = true then row.extend changes else row := by
  split
  · rename_i hmatches
    obtain ⟨rfl, hmatches⟩ := hmatches
    have hnodup : (((d.matching name filter).map fun j =>
        (⟨⟨name, j⟩, changes⟩ : Overlay)).map (·.position)).Nodup := by
      rw [List.map_map]
      refine List.Nodup.map ?_ (nodup_matching d name filter)
      intro j j' heq
      exact (Position.mk.inj heq).2
    refine overlaid_of_nodup hnodup (o := ⟨⟨name, i⟩, changes⟩) (List.mem_map.2 ⟨i, ?_, rfl⟩)
    exact mem_matching_iff.2 ⟨row, hrow, hmatches⟩
  · rename_i hmatches
    refine overlaid_of_not_mem fun o ho hpos => hmatches ?_
    obtain ⟨j, hj, rfl⟩ := List.mem_map.1 ho
    obtain ⟨rfl, rfl⟩ := Position.mk.inj hpos
    obtain ⟨row', hrow', hmatches'⟩ := mem_matching_iff.1 hj
    obtain rfl : row' = row := Option.some.inj (hrow'.symm.trans hrow)
    exact ⟨rfl, hmatches'⟩

/-- What an accepted update does to the tables. -/
theorem rewrites_of_updateRows {effect : Effect}
    (h : d.updateRows m t filter changes = .ok effect) (ids : SnowflakeSource) :
    Store.Rewrites ⟨d, ids⟩ ⟨effect.tables, ids⟩ m t.name filter changes effect.count := by
  rw [updateRows, Fallible.bind_eq_ok_iff] at h
  obtain ⟨⟨⟩, -, h⟩ := h
  rw [Fallible.bind_eq_ok_iff] at h
  obtain ⟨carried, hcarried, h⟩ := h
  obtain ⟨hcascades, hfree⟩ := cascades_eq_ok hcarried
  have heffect := Except.ok.inj h
  have hkeys : ∀ k ∈ m.keysTo t.name, k.target = t.name := fun k hk =>
    (Model.mem_keysTo_iff.1 hk).2
  -- No row is carried to through a key that restricts.
  have hrestricted : ∀ k ∈ m.keysTo t.name, k.onUpdate = .restrict →
      ∀ row ∈ d.rows k.table, d.isCarriedTo filter changes k row = false := by
    intro k hk hrestrict row hmem
    obtain ⟨i, hrow⟩ := mem_rows_iff.1 hmem
    rw [Bool.eq_false_iff]
    intro hcarries
    obtain ⟨o, ho, -⟩ := (isCarriedTo_iff filter changes k hrow).2 ⟨rfl, hcarries⟩
    obtain ⟨j, hj, ho⟩ := List.mem_flatMap.1 ho
    rw [hkeys k hk] at hj ho
    rw [hfree k hk hrestrict j hj] at ho
    cases ho
  refine ⟨?_, fun name => ?_, ?_, rfl⟩
  · rw [← heffect]
    exact length_matching d t.name filter
  · rw [← heffect, overlayAll_fst]
    refine rows_written fun i row hrow => ?_
    rw [overlaid_append, overlaid_own hrow, hcascades, overlaid_flatMap, rewritten, carriers,
      List.foldl_filter]
    refine List.foldl_ext _ _ _ fun current k hk => ?_
    have hcascade := overlaid_cascade filter changes current k hrow
    rw [hkeys k hk] at hcascade
    rw [hcascade]
    cases haction : k.onUpdate with
    | cascade => simp
    | restrict =>
      refine (if_neg ?_).trans (if_neg ?_).symm
      · rintro ⟨rfl, hcarries⟩
        rw [hrestricted k hk haction row (mem_rows_iff.2 ⟨i, hrow⟩)] at hcarries
        cases hcarries
      · simp
  · intro k hk htarget hrestrict
    exact hrestricted k (Model.mem_keysTo_iff.2 ⟨hk, htarget⟩) hrestrict

end Tables

/-! ## The dialogue of an update -/

namespace Store

variable {σ : Type} (answer : (r : Request) → σ → r.Answer × σ)

/-- An update fails and does nothing, or its predicate and its changes are transformed and it
makes and reports the change of the tables that they ask for. -/
theorem update_cases_of_run (s : Store) (c : Rules) (table : String) (filter changes : Row)
    (user : Option String) (x : σ) :
    (∃ e, ((s.update c table filter changes user).runWith answer x).1 = (s, .error e) ∧
      (s.update c table filter changes user).events answer x = []) ∨
    ∃ t filter' changes' effect x', c.tableFor table [filter, changes] = .ok t ∧
      (c.transform t .args filter).runWith answer x = (.ok filter', x') ∧
      ((c.transform t .write changes).runWith answer x').1 = .ok changes' ∧
      s.tables.updateRows c.model t filter' changes' = .ok effect ∧
      ((s.update c table filter changes user).runWith answer x).1 =
        ({ s with tables := effect.tables }, .ok effect.count) ∧
      ∃ y, (s.update c table filter changes user).events answer x =
        (report user effect.changes).events answer y := by
  unfold update
  cases ht : c.tableFor table [filter, changes] with
  | error e => exact Or.inl ⟨e, rfl, rfl⟩
  | ok t =>
    have hquiet := fun phase row => (c.quiet_transform t phase row).events_eq_nil answer
    simp only [runWith_seq, events_seq, hquiet, List.nil_append]
    rcases hfilter : (c.transform t .args filter).runWith answer x with ⟨e | filter', x'⟩
    · exact Or.inl ⟨e, rfl, rfl⟩
    · simp only [runWith_seq, events_seq, hquiet, List.nil_append]
      cases hchanges : ((c.transform t .write changes).runWith answer x').1 with
      | error e => exact Or.inl ⟨e, rfl, rfl⟩
      | ok changes' =>
        simp only
        cases haccepted : (do
            t.checkChanges changes'
            s.tables.updateRows c.model t filter' changes') with
        | error e => exact Or.inl ⟨e, rfl, rfl⟩
        | ok effect =>
          obtain ⟨⟨⟩, -, heffect⟩ := Fallible.bind_eq_ok_iff.1 haccepted
          exact Or.inr ⟨t, filter', changes', effect, x', rfl, hfilter, hchanges, heffect,
            runWith_commit_ok answer s user effect _, _, events_commit_ok answer s user effect _⟩

/-- When an update succeeds, it answers with the number of the rows that match, and has
rewritten the rows.  When it fails, it has done nothing. -/
theorem update_spec (s : Store) (c : Rules) (table : String) (filter changes : Row)
    (user : Option String) {σ : Type} (answer : (r : Request) → σ → r.Answer × σ) (x : σ) :
    match ((s.update c table filter changes user).runWith answer x).1 with
    | (s', .ok n) => ∃ t filter' changes' x', c.model.table? table = some t ∧
        (c.transform t .args filter).runWith answer x = (.ok filter', x') ∧
        ((c.transform t .write changes).runWith answer x').1 = .ok changes' ∧
        s.Rewrites s' c.model table filter' changes' n
    | (s', .error _) =>
        s' = s ∧ (s.update c table filter changes user).events answer x = [] := by
  rcases update_cases_of_run answer s c table filter changes user x with
    ⟨e, hrun, hevents⟩ |
      ⟨t, filter', changes', effect, x', ht, hfilter, hchanges, heffect, hrun, -⟩
  · rw [hrun]
    exact ⟨rfl, hevents⟩
  · obtain ⟨hdeclared, -⟩ := Rules.tableFor_eq_ok ht
    obtain rfl : t.name = table := Rules.name_of_tableFor ht
    rw [hrun]
    exact ⟨t, filter', changes', x', hdeclared, hfilter, hchanges,
      Tables.rewrites_of_updateRows heffect s.ids⟩

-- The first node points at itself: it gets its new number and follows it.
example :
    let m := (Rules.ofTables [⟨"node", [.ofNumbers "id" true true, .ofNumbers "parent" false true],
      [.reference "tree" "parent" "node.id" .cascade], none⟩]).model
    let d : Tables := [("node",
      [[("id", .int 1), ("parent", .int 1)], [("id", .int 2), ("parent", .int 1)]])]
    (d.rows "node").map (d.rewritten m "node" [("id", .int 1)] [("id", .int 3)] "node") =
      [[("id", .int 3), ("parent", .int 3)], [("id", .int 2), ("parent", .int 3)]] := by
  rfl

end Store

end PipelineEngine
