import PipelineEngine.Proofs.Store.History

/-!
# When an insertion fails

An insertion answers with its row as the row is fetched, so the columns' transforms run once
more after the row was stored and reported.  Until then a failure leaves no trace; from then on
it leaves the row and its event behind.

* `Store.Stores`: the part of an insertion up to the row that passes its checks.
* `Store.insert_of_stores`, `Store.refused_or_stores`: an insertion that stores a row, and one
  that does not.
* `Store.insert_traceless_iff` is the main statement: an insertion that fails leaves no trace
  exactly when no row that it stores fails to be fetched.
-/

namespace PipelineEngine.Store

open Dialogue

/-- Fetches a row after its insertion, if that was accepted. -/
def Rules.fetchInserted (c : Rules) (t : Table) (stored : Row) :
    Store × Except StoreError Nat → Dialogue (Store × Except StoreError Row)
  | (s, .error e) => return (s, .error e)
  | (s, .ok _) => do return (s, ← c.transform t .read stored)

section
variable {σ : Type} (answer : (r : Request) → σ → r.Answer × σ)

/-- An insertion into a table stores a row: it is what the transforms and the generated values
make of the row that is given, and it is accepted.  It is then fetched in the last of the
surroundings. -/
structure Stores (s : Store) (c : Rules) (table : String) (row : Row) (user : Option String)
    (x : σ) (t : Table) (stored : Row) (x' : σ) : Prop where
  fits : c.tableFor table [row] = .ok t
  /-- The row is transformed and completed, and the insertion is put in force. -/
  prepared : ∃ written x₁ ids x₂,
    (c.transform t .write row).runWith answer x = (.ok written, x₁) ∧
      (t.completeRow c.shortener s.ids written).runWith answer x₁ = ((ids, .ok stored), x₂) ∧
      x' = ((commit { s with ids } user (s.tables.insertRow c.model t stored)).runWith answer x₂).2
  accepted : ∃ effect, s.tables.insertRow c.model t stored = .ok effect

variable (s : Store) (c : Rules) (table : String) (row : Row) (user : Option String) (x : σ)

/-- Once a row is transformed and completed, the insertion puts it in force and fetches it.
Nothing is delivered before. -/
theorem insert_of_completed {t : Table} (hfits : c.tableFor table [row] = .ok t)
    {written stored : Row} {ids : SnowflakeSource} {x₁ x₂ : σ}
    (hwritten : (c.transform t .write row).runWith answer x = (.ok written, x₁))
    (hcompleted : (t.completeRow c.shortener s.ids written).runWith answer x₁ =
      ((ids, .ok stored), x₂)) :
    let settled := commit { s with ids } user (s.tables.insertRow c.model t stored) >>=
      c.fetchInserted t stored
    (s.insert c table row user).runWith answer x = settled.runWith answer x₂ ∧
      (s.insert c table row user).events answer x = settled.events answer x₂ := by
  constructor
  · simp only [insert, hfits]
    rw [runWith_seq, hwritten, runWith_seq, hcompleted]
    rfl
  · simp only [insert, hfits]
    rw [events_seq, hwritten, (c.quiet_transform t .write row).events_eq_nil, events_seq,
      hcompleted, (t.quiet_completeRow c.shortener s.ids written).events_eq_nil]
    rfl

/-- What becomes of a row that is stored: it stands at the end of its table, its insertion is
the one event, and the answer is what fetching it comes to. -/
theorem insert_of_stores {t : Table} {stored : Row} {x' : σ}
    (h : s.Stores answer c table row user x t stored x') :
    (∃ ids, ((s.insert c table row user).runWith answer x).1 =
      (⟨s.tables.push t.name stored, ids⟩, ((c.transform t .read stored).runWith answer x').1)) ∧
      ∃ time, (s.insert c table row user).events answer x =
        [RowChange.event ⟨.insert, t.name, t.keyOf stored⟩ time user] := by
  obtain ⟨hfits, ⟨written, x₁, ids, x₂, hwritten, hcompleted, rfl⟩, effect, haccepted⟩ := h
  obtain ⟨-, -, rfl⟩ := Tables.insertRow_eq_ok_iff.1 haccepted
  obtain ⟨hrun, hevents⟩ :=
    insert_of_completed answer s c table row user x hfits hwritten hcompleted
  rw [haccepted] at hrun hevents ⊢
  have hcommit := runWith_commit_ok answer { s with ids } user
    ⟨s.tables.push t.name stored, [⟨.insert, t.name, t.keyOf stored⟩], 1⟩ x₂
  constructor
  · refine ⟨ids, ?_⟩
    rw [hrun, runWith_seq, hcommit, Rules.fetchInserted, runWith_seq]
    rfl
  · refine ⟨(answer .now x₂).1, ?_⟩
    rw [hevents, events_seq, hcommit, events_commit_ok, Rules.fetchInserted, events_seq,
      (c.quiet_transform t .read stored).events_eq_nil]
    rfl

/-- An insertion that stores no row is refused and leaves no trace. -/
theorem refused_or_stores :
    (∃ ids e, ((s.insert c table row user).runWith answer x).1 = ({ s with ids }, .error e) ∧
      (s.insert c table row user).events answer x = []) ∨
    ∃ t stored x', s.Stores answer c table row user x t stored x' := by
  cases hfits : c.tableFor table [row] with
  | error e =>
    simp only [insert, hfits]
    exact Or.inl ⟨s.ids, e, rfl, rfl⟩
  | ok t =>
    rcases hwritten : (c.transform t .write row).runWith answer x with ⟨e | written, x₁⟩
    · simp only [insert, hfits, runWith_seq, events_seq, hwritten,
        (c.quiet_transform t .write row).events_eq_nil]
      exact Or.inl ⟨s.ids, e, rfl, rfl⟩
    · rcases hcompleted : (t.completeRow c.shortener s.ids written).runWith answer x₁ with
        ⟨⟨ids, e | stored⟩, x₂⟩
      · simp only [insert, hfits, runWith_seq, events_seq, hwritten, hcompleted,
          (c.quiet_transform t .write row).events_eq_nil,
          (t.quiet_completeRow c.shortener s.ids written).events_eq_nil]
        exact Or.inl ⟨ids, e, rfl, rfl⟩
      · cases haccepted : s.tables.insertRow c.model t stored with
        | error e =>
          obtain ⟨hrun, hevents⟩ :=
            insert_of_completed answer s c table row user x hfits hwritten hcompleted
          rw [haccepted] at hrun hevents
          refine Or.inl ⟨ids, e, ?_, hevents⟩
          rw [hrun]
          rfl
        | ok effect =>
          exact Or.inr ⟨t, stored, _, hfits, ⟨written, x₁, ids, x₂, hwritten, hcompleted, rfl⟩,
            effect, haccepted⟩

/-- A failed insertion leaves the tables as they were and reports nothing exactly when every
row that it stores can be fetched.  A row that is stored is there whether it can be fetched or
not, and so is its event. -/
theorem insert_traceless_iff :
    ((∀ s' e, ((s.insert c table row user).runWith answer x).1 = (s', .error e) →
        s'.tables = s.tables ∧ (s.insert c table row user).events answer x = []) ↔
      ∀ t stored x', s.Stores answer c table row user x t stored x' →
        ∃ fetched, ((c.transform t .read stored).runWith answer x').1 = .ok fetched) ∧
    ∀ t stored x', s.Stores answer c table row user x t stored x' →
      (∃ ids, ((s.insert c table row user).runWith answer x).1 =
        (⟨s.tables.push t.name stored, ids⟩, ((c.transform t .read stored).runWith answer x').1)) ∧
        ∃ time, (s.insert c table row user).events answer x =
          [RowChange.event ⟨.insert, t.name, t.keyOf stored⟩ time user] := by
  refine ⟨⟨?_, ?_⟩, fun t stored x' h => insert_of_stores answer s c table row user x h⟩
  · intro htraceless t stored x' h
    obtain ⟨⟨ids, hrun⟩, time, hevents⟩ := insert_of_stores answer s c table row user x h
    cases hfetched : ((c.transform t .read stored).runWith answer x').1 with
    | ok fetched => exact ⟨fetched, rfl⟩
    | error e =>
      rw [hfetched] at hrun
      rw [(htraceless _ e hrun).2] at hevents
      cases hevents
  · intro hfetched s' e hrun
    rcases refused_or_stores answer s c table row user x with
      ⟨ids, e', hrefused, hevents⟩ | ⟨t, stored, x', h⟩
    · rw [hrefused] at hrun
      obtain ⟨rfl, -⟩ := Prod.mk.inj hrun
      exact ⟨rfl, hevents⟩
    · obtain ⟨⟨ids, hstored⟩, -⟩ := insert_of_stores answer s c table row user x h
      obtain ⟨fetched, hok⟩ := hfetched t stored x' h
      rw [hstored, hok] at hrun
      cases (Prod.mk.inj hrun).2

end

/-! ## A note that cannot be read -/

/-- A table whose texts cannot be fetched: the only step that reads them fails. -/
def sealed : List Table := [
  ⟨"note", [.ofNumbers "id" true true,
    ⟨"text", .text, true, false, none,
      some ⟨[], [], [⟨"open", "builtin:fail", [], none, none⟩]⟩⟩], [], none⟩]

/-- The insertion of a note fails, and the note and its event are there. -/
theorem not_traceless_sealed :
    (Document.ofTables sealed).link 0 = .ok (Rules.ofTables sealed).model ∧
      History (.ofTables sealed) [.empty default] ∧
      ((Store.empty default).insert (.ofTables sealed) "note"
          [("id", .int 1), ("text", .string "x")] none).runWith prompt () =
        ((⟨[("note", [[("id", .int 1), ("text", .string "x")]])], default⟩,
          .error (.transform (.failed "note" "text" .read "open"
            "Step 'open' failed: explicit failure"))), ()) ∧
      ((Store.empty default).insert (.ofTables sealed) "note"
          [("id", .int 1), ("text", .string "x")] none).events prompt () =
        [.ofChange "note" [("id", .int 1)] default none .insert] :=
  ⟨rfl, .start default, rfl, rfl⟩

end PipelineEngine.Store
