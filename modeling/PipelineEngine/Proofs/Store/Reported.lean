import Mathlib.Algebra.GroupWithZero.Nat
import Mathlib.Data.List.Perm.Subperm
import PipelineEngine.Proofs.Store.Update

/-!
# What an update reports

An update reports every time that it writes over a row, with the key that the row has then.  So
its events are those of the rows that it leaves exactly when it writes over no row twice.

* `Tables.writes`: how often an update writes over a row, from the tables before it alone.
* `Tables.count_overlays`: the overlays of an accepted update lie as often over each row.
* `Tables.overlayAll_snd_of_nodup`: what is reported where no row is written over twice.
* `Store.update_reports_iff` is the main statement.
-/

namespace PipelineEngine

open Dialogue

namespace Tables

/-- How often an update of a table writes over the row at a position: once if the row matches, and
once for each key that points at the table and each row that matches, is moved and has this row
depend on it.  An update that is accepted carries nothing on through a key that restricts. -/
def writes (d : Tables) (m : Model) (table : String) (filter changes : Row) (p : Position) : Nat :=
  match d.row? p with
  | none => 0
  | some row =>
    (if p.table = table ∧ row.matchesAll filter = true then 1 else 0) +
      ((m.keysTo table).map fun k =>
        if k.table = p.table then
          (d.rows table).countP fun old =>
            old.matchesAll filter && k.isMoved old changes && k.points row old
        else 0).sum

end Tables

/-- The events of an update are those of the rows that it writes over, in some order, one for each
row and with the key of the row as it is stored then. -/
def Store.Reports (s s' : Store) (m : Model) (table : String) (filter changes : Row)
    (user : Option String) (events : List TableEvent) : Prop :=
  ∃ places : List Position, places.Nodup ∧
    (∀ p, p ∈ places ↔ 0 < s.tables.writes m table filter changes p) ∧
    List.Forall₂ (fun p event => ∃ row time, s'.tables.row? p = some row ∧
      event = RowChange.event ⟨.update, p.table, m.keyOf p.table row⟩ time user) places events

/-! ## How often overlays lie over a row -/

namespace Tables

variable {d : Tables} {m : Model} {t : Table} {filter changes row : Row} {p : Position}

/-- Only rows that there are are written over. -/
theorem exists_row_of_writes_pos {table : String} (h : 0 < d.writes m table filter changes p) :
    ∃ row, d.row? p = some row := by
  cases hrow : d.row? p with
  | none =>
    rw [writes, hrow] at h
    cases h
  | some row => exact ⟨row, rfl⟩

/-- The rows that match, in their order. -/
theorem map_matching (d : Tables) (table : String) (filter : Row) :
    (d.matching table filter).map (fun i => (d.row? ⟨table, i⟩).getD []) =
      (d.rows table).filter (·.matchesAll filter) := by
  have hfilter := List.filter_map (p := fun row : Row => row.matchesAll filter) (f := Prod.fst)
    (l := (d.rows table).zipIdx)
  rw [List.zipIdx_map_fst] at hfilter
  rw [matching, indices_eq_map, List.map_map, hfilter]
  refine List.map_congr_left fun entry hentry => ?_
  have hrow : d.row? ⟨table, entry.2⟩ = some entry.1 :=
    List.mem_zipIdx_iff_getElem?.1 (List.mem_filter.1 hentry).1
  show (d.row? ⟨table, entry.2⟩).getD [] = entry.1
  rw [hrow, Option.getD_some]

/-- A list of places of one table holds each position once if at all. -/
theorem count_places {table : String} {places : List Nat} (hplaces : places.Nodup) :
    (places.map (⟨table, ·⟩)).count p = if p.table = table ∧ p.index ∈ places then 1 else 0 := by
  have hnodup : (places.map fun i => (⟨table, i⟩ : Position)).Nodup :=
    hplaces.map fun i j heq => (Position.mk.inj heq).2
  rw [hnodup.count]
  refine if_congr ?_ rfl rfl
  obtain ⟨table', index⟩ := p
  simp [and_comm, eq_comm]

theorem count_cascade (k : ForeignKey) (changes old : Row) (hrow : d.row? p = some row) :
    ((k.cascade d changes old).map (·.position)).count p =
      if k.table = p.table ∧ k.isMoved old changes = true ∧ k.points row old = true then 1
      else 0 := by
  have hdepends : p.table = k.table → (p.index ∈ k.dependents d old ↔ k.points row old = true) := by
    intro htable
    rw [ForeignKey.mem_dependents_iff, ← htable]
    show (∃ row', d.row? p = some row' ∧ _) ↔ _
    simp [hrow]
  rw [ForeignKey.cascade]
  by_cases hmoved : k.isMoved old changes = true
  · rw [if_pos hmoved, List.map_map]
    refine (count_places (nodup_indices _ _)).trans (if_congr ?_ rfl rfl)
    constructor
    · rintro ⟨htable, hmem⟩
      exact ⟨htable.symm, hmoved, (hdepends htable).1 hmem⟩
    · rintro ⟨htable, -, hpoints⟩
      exact ⟨htable.symm, (hdepends htable.symm).2 hpoints⟩
  · rw [if_neg hmoved, if_neg fun h => hmoved h.2.1]
    rfl

/-- The cascades from some rows through one key. -/
theorem count_cascades (k : ForeignKey) (changes : Row) (hrow : d.row? p = some row)
    (olds : List Row) :
    ((olds.flatMap fun old => k.cascade d changes old).map (·.position)).count p =
      if k.table = p.table then olds.countP fun old => k.isMoved old changes && k.points row old
      else 0 := by
  induction olds with
  | nil => simp
  | cons old olds ih =>
    rw [List.flatMap_cons, List.map_append, List.count_append, ih, count_cascade k changes old hrow,
      List.countP_cons]
    by_cases htable : k.table = p.table
    · simp only [htable, true_and, if_true, Bool.and_eq_true]
      omega
    · simp only [htable, false_and, if_false]

section
variable {carried : List Overlay}
variable (h : d.cascades m t changes (d.matching t.name filter) = .ok carried)
include h

/-- What is carried on, from the rows that match. -/
theorem carried_eq :
    carried = (m.keysTo t.name).flatMap fun k =>
      ((d.rows t.name).filter (·.matchesAll filter)).flatMap (k.cascade d changes) := by
  rw [(cascades_eq_ok h).1, ← map_matching]
  simp only [List.flatMap_map]

/-- Overlays lie over rows that there are. -/
theorem isSome_row?_of_mem {o : Overlay}
    (ho : o ∈ ((d.matching t.name filter).map fun i => ⟨⟨t.name, i⟩, changes⟩) ++ carried) :
    (d.row? o.position).isSome := by
  rcases List.mem_append.1 ho with ho | ho
  · obtain ⟨i, hi, rfl⟩ := List.mem_map.1 ho
    obtain ⟨row, hrow, -⟩ := mem_matching_iff.1 hi
    exact Option.isSome_of_eq_some hrow
  · rw [carried_eq h] at ho
    obtain ⟨k, -, ho⟩ := List.mem_flatMap.1 ho
    obtain ⟨old, -, ho⟩ := List.mem_flatMap.1 ho
    obtain ⟨-, i, row, hrow, -, rfl⟩ := ForeignKey.mem_cascade_iff.1 ho
    exact Option.isSome_of_eq_some hrow

/-- The overlays of an accepted update lie as often over a row as the update writes over it. -/
theorem count_overlays (p : Position) :
    ((((d.matching t.name filter).map fun i => (⟨⟨t.name, i⟩, changes⟩ : Overlay)) ++
        carried).map (·.position)).count p = d.writes m t.name filter changes p := by
  rw [writes]
  cases hrow : d.row? p with
  | none =>
    refine List.count_eq_zero.2 fun hmem => ?_
    obtain ⟨o, ho, rfl⟩ := List.mem_map.1 hmem
    have hsome := isSome_row?_of_mem h ho
    rw [hrow] at hsome
    cases hsome
  | some row =>
    have hmatches : p.table = t.name ∧ p.index ∈ d.matching t.name filter ↔
        p.table = t.name ∧ row.matchesAll filter = true := by
      refine and_congr_right fun htable => ?_
      rw [mem_matching_iff, ← htable]
      show (∃ row', d.row? p = some row' ∧ _) ↔ _
      simp [hrow]
    have hkey : ∀ k ∈ m.keysTo t.name,
        ((((d.rows t.name).filter (·.matchesAll filter)).flatMap (k.cascade d changes)).map
            (·.position)).count p =
          if k.table = p.table then
            (d.rows t.name).countP fun old =>
              old.matchesAll filter && k.isMoved old changes && k.points row old
          else 0 := by
      intro k _
      rw [count_cascades k changes hrow, List.countP_filter]
      refine if_congr Iff.rfl (List.countP_congr fun old _ => ?_) rfl
      simp only [Bool.and_eq_true]
      exact ⟨fun ⟨⟨hmoved, hpoints⟩, hold⟩ => ⟨⟨hold, hmoved⟩, hpoints⟩,
        fun ⟨⟨hold, hmoved⟩, hpoints⟩ => ⟨⟨hmoved, hpoints⟩, hold⟩⟩
    rw [List.map_append, List.count_append, List.map_map, carried_eq h, List.map_flatMap,
      List.count_flatMap]
    congr 1
    · exact (count_places (nodup_matching d t.name filter)).trans (if_congr hmatches rfl rfl)
    · exact congrArg List.sum (List.map_congr_left hkey)

end

/-! ## What is reported -/

/-- The change of a row that is reported with the key that the row has in some tables. -/
def reported (d : Tables) (m : Model) (p : Position) : RowChange :=
  ⟨.update, p.table, m.keyOf p.table ((d.row? p).getD [])⟩

theorem length_overlayAll (m : Model) (overlays : List Overlay) (d : Tables) :
    (overlayAll m overlays d).2.length = overlays.length := by
  induction overlays generalizing d with
  | nil => rfl
  | cons o rest ih => exact congrArg (· + 1) (ih _)

/-- Where no row is written over twice, a row is as it is reported when all is done. -/
theorem overlayAll_snd_of_nodup {overlays : List Overlay}
    (hnodup : (overlays.map (·.position)).Nodup) :
    (overlayAll m overlays d).2 =
      (overlays.map (·.position)).map ((d.written overlays).reported m) := by
  induction overlays generalizing d with
  | nil => rfl
  | cons o rest ih =>
    obtain ⟨hlater, hrest⟩ := List.nodup_cons.1 hnodup
    have hkept : ∀ d : Tables, (d.written rest).row? o.position = d.row? o.position := by
      intro d
      have hnone : ∀ o' ∈ rest, o'.position ≠ o.position := fun o' ho' heq =>
        hlater (List.mem_map.2 ⟨o', ho', heq⟩)
      rw [row?_written]
      cases d.row? o.position with
      | none => rfl
      | some row => exact congrArg some (overlaid_of_not_mem hnone)
    show reported _ m o.position :: (overlayAll m rest _).2 = _
    rw [ih hrest, List.map_cons, List.map_cons, written_cons]
    congr 1
    rw [reported, reported, hkept]

/-- The events of an accepted update are those of the rows that it leaves exactly when it writes
over no row twice. -/
theorem reports_iff_of_updateRows {effect : Effect} {user : Option String}
    {events : List TableEvent} (h : d.updateRows m t filter changes = .ok effect)
    (ids : SnowflakeSource)
    (hevents : List.Forall₂ (fun change event => ∃ time, event = change.event time user)
      effect.changes events) :
    Store.Reports ⟨d, ids⟩ ⟨effect.tables, ids⟩ m t.name filter changes user events ↔
      ∀ p, d.writes m t.name filter changes p ≤ 1 := by
  rw [updateRows, Fallible.bind_eq_ok_iff] at h
  obtain ⟨⟨⟩, -, h⟩ := h
  rw [Fallible.bind_eq_ok_iff] at h
  obtain ⟨carried, hcarried, h⟩ := h
  obtain rfl := Except.ok.inj h
  have hcount := count_overlays hcarried
  have hrows := fun o => isSome_row?_of_mem hcarried (o := o)
  dsimp only at hevents ⊢
  generalize ((d.matching t.name filter).map fun i => (⟨⟨t.name, i⟩, changes⟩ : Overlay)) ++
    carried = overlays at *
  constructor
  · rintro ⟨places, hnodup, hmem, hplaces⟩ p
    have hlength : places.length = (overlays.map (·.position)).length := by
      rw [hplaces.length_eq, ← hevents.length_eq, length_overlayAll, List.length_map]
    have hsubset : places ⊆ overlays.map (·.position) := fun q hq => by
      rw [← List.count_pos_iff, hcount]
      exact (hmem q).1 hq
    have hperm := (hnodup.subperm hsubset).perm_of_length_le (Nat.le_of_eq hlength.symm)
    rw [← hcount]
    exact List.nodup_iff_count_le_one.1 (hperm.nodup_iff.1 hnodup) p
  · intro hwrites
    have hnodup : (overlays.map (·.position)).Nodup :=
      List.nodup_iff_count_le_one.2 fun p => (hcount p).symm ▸ hwrites p
    refine ⟨overlays.map (·.position), hnodup, fun p => ?_, ?_⟩
    · rw [← hcount, List.count_pos_iff]
    · have hstored : ∀ p ∈ overlays.map (·.position), ((d.written overlays).row? p).isSome := by
        intro p hp
        obtain ⟨o, ho, rfl⟩ := List.mem_map.1 hp
        rw [isSome_row?_written]
        exact hrows o ho
      rw [overlayAll_snd_of_nodup hnodup, List.forall₂_map_left_iff] at hevents
      rw [overlayAll_fst]
      refine ((List.forall₂_and_left _ _).2 ⟨hstored, hevents⟩).imp ?_
      rintro p event ⟨hsome, time, rfl⟩
      obtain ⟨row, hrow⟩ := Option.isSome_iff_exists.1 hsome
      exact ⟨row, time, hrow, by rw [reported, hrow, Option.getD_some]⟩

end Tables

namespace Store

/-- For an update that succeeds: its events are those of the rows that it has written, one for each
and with the key that the row now has, exactly when it writes over no row twice, be it by two
keys, for two rows that match, or for a row that matches and depends on one that does. -/
theorem update_reports_iff (s : Store) (c : Rules) (table : String) (filter changes : Row)
    (user : Option String) {σ : Type} (answer : (r : Request) → σ → r.Answer × σ) (x : σ)
    {s' : Store} {n : Nat}
    (h : ((s.update c table filter changes user).runWith answer x).1 = (s', .ok n)) :
    ∃ t filter' changes' x', c.model.table? table = some t ∧
      (c.transform t .args filter).runWith answer x = (.ok filter', x') ∧
      ((c.transform t .write changes).runWith answer x').1 = .ok changes' ∧
      (s.Reports s' c.model table filter' changes' user
          ((s.update c table filter changes user).events answer x) ↔
        ∀ p, s.tables.writes c.model table filter' changes' p ≤ 1) := by
  rcases update_cases_of_run answer s c table filter changes user x with
    ⟨e, hrun, -⟩ |
      ⟨t, filter', changes', effect, x', ht, hfilter, hchanges, heffect, hrun, y, hevents⟩
  · rw [hrun] at h
    cases h
  · obtain ⟨hdeclared, -⟩ := Rules.tableFor_eq_ok ht
    obtain rfl : t.name = table := Rules.name_of_tableFor ht
    rw [hrun] at h
    obtain ⟨rfl, -⟩ := Prod.mk.inj h
    rw [hevents]
    exact ⟨t, filter', changes', x', hdeclared, hfilter, hchanges,
      Tables.reports_iff_of_updateRows heffect s.ids (events_report answer user effect.changes y)⟩

/-! ### A stop by rail and by road -/

/-- Towns with a number for each way to them, and stops that follow both numbers. -/
def junctions : List Table := [
  ⟨"town", [.ofNumbers "id" true true, .ofNumbers "rail" false true, .ofNumbers "road" false true],
    [], none⟩,
  ⟨"stop", [.ofNumbers "rail" true true, .ofNumbers "road" true true],
    [.reference "by_rail" "rail" "town.rail" .cascade,
      .reference "by_road" "road" "town.road" .cascade], none⟩]

/-- A town with a stop. -/
def junction (rail road : Int) : Store :=
  ⟨[("stop", [[("rail", .int rail), ("road", .int road)]]),
    ("town", [[("id", .int 1), ("rail", .int rail), ("road", .int road)]])], default⟩

/-- Makes the town and the stop. -/
def junctionSetup : List Operation := [
  .insert "town" [("id", .int 1), ("rail", .int 1), ("road", .int 1)] none,
  .insert "stop" [("rail", .int 1), ("road", .int 1)] none]

/-- There is one town and one stop. -/
theorem place_of_junction {rail road : Int} {p : Position} {row : Row}
    (h : (junction rail road).tables.row? p = some row) : p = ⟨"stop", 0⟩ ∨ p = ⟨"town", 0⟩ := by
  obtain ⟨table, i⟩ := p
  by_cases hstop : table = "stop"
  · subst hstop
    cases i with
    | zero => exact Or.inl rfl
    | succ i => cases h
  · by_cases htown : table = "town"
    · subst htown
      cases i with
      | zero => exact Or.inr rfl
      | succ i => cases h
    · have hnone : (junction rail road).tables.rows table = [] := by
        simp [junction, Tables.rows, Fields.get?, hstop, htown]
      have hrow : ((junction rail road).tables.rows table)[i]? = some row := h
      rw [hnone] at hrow
      cases hrow

/-- Where one of the numbers changes, the town and the stop are reported once each. -/
theorem reports_of_junction :
    ((junction 1 1).update (.ofTables junctions) "town" [("id", .int 1)] [("rail", .int 2)]
        none).runWith Dialogue.still () = ((junction 2 1, .ok 1), ()) ∧
      (junction 1 1).Reports (junction 2 1) (Rules.ofTables junctions).model "town"
        [("id", .int 1)] [("rail", .int 2)] none
        (((junction 1 1).update (.ofTables junctions) "town" [("id", .int 1)] [("rail", .int 2)]
          none).events Dialogue.still ()) := by
  have hrun : ((junction 1 1).update (.ofTables junctions) "town" [("id", .int 1)]
      [("rail", .int 2)] none).runWith Dialogue.still () = ((junction 2 1, .ok 1), ()) := by rfl
  obtain ⟨t, filter', changes', x', ht, hfilter, hchanges, hiff⟩ :=
    update_reports_iff (junction 1 1) (.ofTables junctions) "town" [("id", .int 1)]
      [("rail", .int 2)] none Dialogue.still () (congrArg Prod.fst hrun)
  obtain rfl : junctions[0] = t := Option.some.inj ht
  obtain rfl : [("id", .int 1)] = filter' := Except.ok.inj (Prod.mk.inj hfilter).1
  obtain rfl : [("rail", .int 2)] = changes' := Except.ok.inj hchanges
  refine ⟨hrun, hiff.2 ?_⟩
  intro p
  rcases Nat.eq_zero_or_pos ((junction 1 1).tables.writes (Rules.ofTables junctions).model "town"
    [("id", .int 1)] [("rail", .int 2)] p) with hzero | hpos
  · exact hzero ▸ Nat.zero_le 1
  · obtain ⟨row, hrow⟩ := Tables.exists_row_of_writes_pos hpos
    rcases place_of_junction hrow with rfl | rfl
    · decide
    · decide

/-- Where both change, the stop is reported twice, the first time with a key that no row ever
has. -/
theorem not_reports_of_junction :
    (Document.ofTables junctions).link 0 = .ok (Rules.ofTables junctions).model ∧
      (∃ past, History (.ofTables junctions) (junction 1 1 :: past)) ∧
      ((junction 1 1).update (.ofTables junctions) "town" [("id", .int 1)]
        [("rail", .int 2), ("road", .int 2)] none).runWith Dialogue.still () =
          ((junction 2 2, .ok 1), ()) ∧
      ¬ (junction 1 1).Reports (junction 2 2) (Rules.ofTables junctions).model "town"
        [("id", .int 1)] [("rail", .int 2), ("road", .int 2)] none
        (((junction 1 1).update (.ofTables junctions) "town" [("id", .int 1)]
          [("rail", .int 2), ("road", .int 2)] none).events Dialogue.still ()) := by
  have hhistory : History (.ofTables junctions) (statesOf junctions junctionSetup) :=
    history_statesOf (by decide)
  refine ⟨rfl, ⟨_, hhistory⟩, rfl, ?_⟩
  rintro ⟨places, hnodup, hmem, hevents⟩
  -- There are three events for two rows.
  have hlength : places.length = 3 := hevents.length_eq
  have hsubset : places ⊆ [⟨"stop", 0⟩, ⟨"town", 0⟩] := by
    intro p hp
    obtain ⟨row, hrow⟩ := Tables.exists_row_of_writes_pos ((hmem p).1 hp)
    rcases place_of_junction hrow with rfl | rfl
    · exact List.mem_cons_self
    · exact List.mem_cons_of_mem _ List.mem_cons_self
  have hle := (hnodup.subperm hsubset).length_le
  rw [hlength] at hle
  exact absurd hle (by decide)

end Store

end PipelineEngine
