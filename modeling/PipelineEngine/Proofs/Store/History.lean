import Mathlib.Data.List.Forall2
import PipelineEngine.Proofs.Store.Accepted
import PipelineEngine.Proofs.Store.Prepared

/-!
# Histories of a store

The states that a store goes through when inserts, updates and deletes are asked for, in
any order, with any rows and in any surroundings.

* `Store.perform_cases`: an operation leaves the tables alone, or it makes one accepted
  change of them.
* `Store.History.forall_iff`: when insertions and deletions keep a property, and an
  update keeps it exactly under some condition, all states of a history have the property
  exactly when all updates in it meet the condition.
-/

namespace PipelineEngine

/-- A change of a store that a caller asks for. -/
inductive Operation where
  | insert (table : String) (row : Row) (user : Option String)
  | update (table : String) (filter changes : Row) (user : Option String)
  | delete (table : String) (filter : Row) (user : Option String)

/-- The rows of an operation are maps: their names stand in increasing order. -/
def Operation.WellFormed : Operation → Prop
  | .insert _ row _ => Fields.Sorted row
  | .update _ filter changes _ => Fields.Sorted filter ∧ Fields.Sorted changes
  | .delete _ filter _ => Fields.Sorted filter

namespace Store

/-- What an operation makes of a store, whether it succeeds or not. -/
def perform (s : Store) (c : Rules) : Operation → Dialogue Store
  | .insert table row user => do return (← s.insert c table row user).1
  | .update table filter changes user => do return (← s.update c table filter changes user).1
  | .delete table filter user => do return (← s.delete c table filter user).1

/-- The states that a store went through under the rules, the latest first. -/
inductive History (c : Rules) : List Store → Prop
  | start (ids : SnowflakeSource) : History c [Store.empty ids]
  | step {s s' : Store} {past : List Store} (op : Operation) (h : History c (s :: past))
      (hop : op.WellFormed) (hs : (s.perform c op).MayReturn s') : History c (s' :: s :: past)

/-! ## What one operation does -/

/-- A table fits rows that have no names but those of its columns. -/
theorem Rules.tableFor_eq_ok_iff {c : Rules} {table : String} {rows : List Row} {t : Table} :
    c.tableFor table rows = .ok t ↔ c.model.table? table = some t ∧
      ∀ row ∈ rows, ∀ name ∈ Fields.names row, (t.column? name).isSome := by
  simp only [← Table.checkColumns_eq_ok_iff]
  rw [tableFor]
  cases c.model.table? table with
  | none => exact ⟨nofun, nofun⟩
  | some t' =>
    show (rows.forM t'.checkColumns >>= fun _ => pure t') = .ok t ↔ _
    rw [Fallible.bind_eq_ok_iff, Option.some.injEq]
    constructor
    · rintro ⟨⟨⟩, hrows, heq⟩
      obtain rfl := Except.ok.inj heq
      exact ⟨rfl, Fallible.forM_eq_ok_iff.1 hrows⟩
    · rintro ⟨rfl, hrows⟩
      exact ⟨(), Fallible.forM_eq_ok_iff.2 hrows, rfl⟩

/-- The table that fits some rows has the name that was asked for. -/
theorem Rules.name_of_tableFor {c : Rules} {table : String} {rows : List Row} {t : Table}
    (h : c.tableFor table rows = .ok t) : t.name = table := by
  simpa using List.find?_some (tableFor_eq_ok_iff.1 h).1

/-- A table that fits some rows is declared under the name that was asked for, and
declares the columns of the rows. -/
theorem Rules.tableFor_eq_ok {c : Rules} {table : String} {rows : List Row} {t : Table}
    (h : c.tableFor table rows = .ok t) :
    c.model.table? t.name = some t ∧
      ∀ row ∈ rows, ∀ name ∈ Fields.names row, (t.column? name).isSome := by
  rw [name_of_tableFor h]
  exact tableFor_eq_ok_iff.1 h

/-- An operation that comes to a store at once has the tables of that store. -/
theorem tables_of_pure {α : Type} {s s' : Store} {given result : Except StoreError α}
    (h : (pure (s, given) : Dialogue _).MayReturn (s', result)) : s'.tables = s.tables := by
  rw [Dialogue.mayReturn_pure_iff] at h
  exact congrArg (fun answer : Store × Except StoreError α => answer.1.tables) h

/-- Putting the result of a change in force leaves the tables alone when there is
none. -/
theorem tables_of_commit {s s' : Store} {user : Option String} {result : Except StoreError Effect}
    {answer : Except StoreError Nat} (h : (commit s user result).MayReturn (s', answer)) :
    s'.tables = s.tables ∨ ∃ effect, result = .ok effect ∧ s'.tables = effect.tables := by
  cases result with
  | error e => exact Or.inl (tables_of_pure h)
  | ok effect =>
    simp only [commit] at h
    rw [Dialogue.mayReturn_bind_iff] at h
    obtain ⟨⟨⟩, -, h⟩ := h
    simp only [Dialogue.mayReturn_pure_iff, Prod.mk.injEq] at h
    exact Or.inr ⟨effect, rfl, congrArg Store.tables h.1⟩

variable {s s' : Store} {c : Rules} {table : String} {user : Option String}

theorem insert_cases {row : Row} {answer : Except StoreError Row}
    (h : (s.insert c table row user).MayReturn (s', answer)) :
    s'.tables = s.tables ∨
      ∃ i : Insertion c.model, i.before = s.tables ∧ s'.tables = i.after := by
  unfold insert at h
  cases htable : c.tableFor table [row] with
  | error e =>
    simp only [htable] at h
    exact Or.inl (tables_of_pure h)
  | ok t =>
    obtain ⟨hdeclared, hcolumns⟩ := Rules.tableFor_eq_ok htable
    simp only [htable] at h
    rw [Dialogue.mayReturn_bind_iff] at h
    obtain ⟨written, hwritten, h⟩ := h
    cases written with
    | error e => exact Or.inl (tables_of_pure h)
    | ok row₁ =>
      simp only at h
      rw [Dialogue.mayReturn_bind_iff] at h
      obtain ⟨⟨ids, completed⟩, hcompleted, h⟩ := h
      cases completed with
      | error e =>
        have hrefused : s'.tables = (⟨s.tables, ids⟩ : Store).tables := tables_of_pure h
        exact Or.inl hrefused
      | ok row₂ =>
        have hspec := Table.completeRow_spec hcompleted
        have hnames := Rules.names_of_transform hwritten
        simp only at h
        rw [Dialogue.mayReturn_bind_iff] at h
        obtain ⟨⟨s₁, committed⟩, hcommit, h⟩ := h
        -- Fetching the row afterwards changes nothing any more.
        have hs' : s'.tables = s₁.tables := by
          cases committed with
          | error e => exact tables_of_pure h
          | ok count =>
            simp only at h
            rw [Dialogue.mayReturn_bind_iff] at h
            obtain ⟨fetched, -, h⟩ := h
            exact tables_of_pure h
        rw [hs']
        rcases tables_of_commit hcommit with hsame | ⟨effect, haccepted, htables⟩
        · exact Or.inl hsame
        · refine Or.inr ⟨⟨s.tables, t, row₂, effect, hdeclared, ?_, hspec.filled, haccepted⟩, rfl,
            htables⟩
          intro name hname
          rcases hspec.names name hname with hname | ⟨column, hcolumn, rfl⟩
          · rw [hnames] at hname
            exact hcolumns row List.mem_cons_self name hname
          · rw [Table.column?, List.find?_isSome]
            exact ⟨column, hcolumn, by simp⟩

theorem update_cases {filter changes : Row} {answer : Except StoreError Nat}
    (hchanges : Fields.Sorted changes)
    (h : (s.update c table filter changes user).MayReturn (s', answer)) :
    s'.tables = s.tables ∨
      ∃ u : Update c.model, u.before = s.tables ∧ s'.tables = u.after := by
  unfold update at h
  cases htable : c.tableFor table [filter, changes] with
  | error e =>
    simp only [htable] at h
    exact Or.inl (tables_of_pure h)
  | ok t =>
    obtain ⟨hdeclared, hcolumns⟩ := Rules.tableFor_eq_ok htable
    simp only [htable] at h
    rw [Dialogue.mayReturn_bind_iff] at h
    obtain ⟨searched, -, h⟩ := h
    cases searched with
    | error e => exact Or.inl (tables_of_pure h)
    | ok filter' =>
      simp only at h
      rw [Dialogue.mayReturn_bind_iff] at h
      obtain ⟨written, hwritten, h⟩ := h
      cases written with
      | error e => exact Or.inl (tables_of_pure h)
      | ok changes' =>
        have hnames := Rules.names_of_transform hwritten
        rcases tables_of_commit h with hsame | ⟨effect, haccepted, htables⟩
        · exact Or.inl hsame
        · rw [Fallible.bind_eq_ok_iff] at haccepted
          obtain ⟨⟨⟩, hallowed, haccepted⟩ := haccepted
          refine Or.inr ⟨⟨s.tables, t, filter', changes', effect, hdeclared, ?_, ?_, hallowed,
            haccepted⟩, rfl, htables⟩
          · intro name hname
            rw [hnames] at hname
            exact hcolumns changes (by simp) name hname
          · rw [Fields.sorted_iff_names, hnames, ← Fields.sorted_iff_names]
            exact hchanges

theorem delete_cases {filter : Row} {answer : Except StoreError Nat}
    (h : (s.delete c table filter user).MayReturn (s', answer)) :
    s'.tables = s.tables ∨
      ∃ x : Deletion c.model, x.before = s.tables ∧ s'.tables = x.after := by
  unfold delete at h
  cases htable : c.tableFor table [filter] with
  | error e =>
    simp only [htable] at h
    exact Or.inl (tables_of_pure h)
  | ok t =>
    obtain ⟨hdeclared, -⟩ := Rules.tableFor_eq_ok htable
    simp only [htable] at h
    rw [Dialogue.mayReturn_bind_iff] at h
    obtain ⟨searched, -, h⟩ := h
    cases searched with
    | error e => exact Or.inl (tables_of_pure h)
    | ok filter' =>
      rcases tables_of_commit h with hsame | ⟨effect, haccepted, htables⟩
      · exact Or.inl hsame
      · exact Or.inr ⟨⟨s.tables, t, filter', effect, hdeclared, haccepted⟩, rfl, htables⟩

/-- An operation leaves the tables alone or makes one accepted change of them. -/
theorem perform_cases {op : Operation} (hop : op.WellFormed)
    (h : (s.perform c op).MayReturn s') :
    s'.tables = s.tables ∨
      (∃ i : Insertion c.model, i.before = s.tables ∧ s'.tables = i.after) ∨
      (∃ u : Update c.model, u.before = s.tables ∧ s'.tables = u.after) ∨
      ∃ x : Deletion c.model, x.before = s.tables ∧ s'.tables = x.after := by
  cases op with
  | insert table row user =>
    rw [perform, Dialogue.mayReturn_bind_iff] at h
    obtain ⟨⟨s₁, answer⟩, hinsert, h⟩ := h
    obtain rfl : s' = s₁ := Dialogue.mayReturn_pure_iff.1 h
    rcases insert_cases hinsert with hsame | hi
    · exact Or.inl hsame
    · exact Or.inr (Or.inl hi)
  | update table filter changes user =>
    rw [perform, Dialogue.mayReturn_bind_iff] at h
    obtain ⟨⟨s₁, answer⟩, hupdate, h⟩ := h
    obtain rfl : s' = s₁ := Dialogue.mayReturn_pure_iff.1 h
    rcases update_cases hop.2 hupdate with hsame | hu
    · exact Or.inl hsame
    · exact Or.inr (Or.inr (Or.inl hu))
  | delete table filter user =>
    rw [perform, Dialogue.mayReturn_bind_iff] at h
    obtain ⟨⟨s₁, answer⟩, hdelete, h⟩ := h
    obtain rfl : s' = s₁ := Dialogue.mayReturn_pure_iff.1 h
    rcases delete_cases hdelete with hsame | hx
    · exact Or.inl hsame
    · exact Or.inr (Or.inr (Or.inr hx))

end Store

/-! ## Whole histories -/

/-- The update took the tables of one of the states to those of the next. -/
def Update.Within {m : Model} (u : Update m) (states : List Store) : Prop :=
  ∃ s s', [s', s] <:+: states ∧ s.tables = u.before ∧ s'.tables = u.after

/-- A property that empty tables have, that insertions and deletions keep, and that an
update keeps under a condition and not without it: all states of a history have the
property exactly when all its updates meet the condition. -/
theorem Store.History.forall_iff {c : Rules} {I : Tables → Prop} {P : Update c.model → Prop}
    (hempty : I []) (hinsert : ∀ i : Insertion c.model, I i.before → I i.after)
    (hdelete : ∀ x : Deletion c.model, I x.before → I x.after)
    (hupdate : ∀ u : Update c.model, I u.before → (I u.after ↔ P u)) {states : List Store}
    (h : History c states) :
    (∀ s ∈ states, I s.tables) ↔ ∀ u : Update c.model, u.Within states → P u := by
  constructor
  · rintro hall u ⟨s, s', hpair, hbefore, hafter⟩
    have hs : I u.before := hbefore ▸ hall s (hpair.subset (by simp))
    exact (hupdate u hs).1 (hafter ▸ hall s' (hpair.subset (by simp)))
  · intro hall
    induction h with
    | start ids =>
      intro s hs
      rw [List.mem_singleton.1 hs]
      exact hempty
    | @step s s' past op h hop hs ih =>
      have hpast : ∀ s₁ ∈ s :: past, I s₁.tables := by
        refine ih fun u hu => hall u ?_
        obtain ⟨s₁, s₂, hpair, htables⟩ := hu
        exact ⟨s₁, s₂, List.infix_cons hpair, htables⟩
      have hbefore : I s.tables := hpast s List.mem_cons_self
      have hlast : I s'.tables := by
        rcases perform_cases hop hs with hsame | ⟨i, hi, hafter⟩ | ⟨u, hu, hafter⟩ | ⟨x, hx, hafter⟩
        · rw [hsame]
          exact hbefore
        · rw [hafter]
          exact hinsert i (hi ▸ hbefore)
        · rw [hafter]
          have hwithin : u.Within (s' :: s :: past) :=
            ⟨s, s', ⟨[], past, rfl⟩, hu.symm, hafter⟩
          exact (hupdate u (hu ▸ hbefore)).2 (hall u hwithin)
        · rw [hafter]
          exact hdelete x (hx ▸ hbefore)
      intro s₁ hs₁
      rcases List.mem_cons.1 hs₁ with rfl | hs₁
      · exact hlast
      · exact hpast s₁ hs₁

/-! ## Replays -/

instance (op : Operation) : Decidable op.WellFormed :=
  match op with
  | .insert _ row _ => inferInstanceAs (Decidable (row.Pairwise fun a b => a.1 < b.1))
  | .update _ filter changes _ =>
    inferInstanceAs (Decidable (filter.Pairwise (fun a b => a.1 < b.1) ∧
      changes.Pairwise fun a b => a.1 < b.1))
  | .delete _ filter _ => inferInstanceAs (Decidable (filter.Pairwise fun a b => a.1 < b.1))

/-- The states that operations lead to in surroundings that answer every request at once,
the latest first. -/
def Store.replay {σ : Type} (answer : (r : Request) → σ → r.Answer × σ) (c : Rules) :
    List Operation → (s : Store) → (past : List Store) → σ → List Store
  | [], s, past, _ => s :: past
  | op :: rest, s, past, x =>
    let (s', x') := (s.perform c op).runWith answer x
    replay answer c rest s' (s :: past) x'

theorem Store.History.replay {σ : Type} (answer : (r : Request) → σ → r.Answer × σ) {c : Rules}
    {ops : List Operation} (hops : ∀ op ∈ ops, op.WellFormed) {s : Store} {past : List Store}
    (h : History c (s :: past)) (x : σ) : History c (Store.replay answer c ops s past x) := by
  induction ops generalizing s past x with
  | nil => exact h
  | cons op rest ih =>
    refine ih (fun op' hop' => hops op' (List.mem_cons_of_mem _ hop')) ?_ _
    exact .step op h (hops op List.mem_cons_self) (Dialogue.mayReturn_runWith answer _ x)

/-- A document that declares some tables and nothing else. -/
def Document.ofTables (tables : List Table) : Document :=
  ⟨[], [], [⟨"store", .mekaDb, none, none, none, none, none, none, [⟨none, tables⟩]⟩], .empty, []⟩

/-- The rules of such a document. -/
def Store.Rules.ofTables (tables : List Table) : Store.Rules :=
  ⟨(Document.ofTables tables).linked 0, .standard .builtinOnly⟩

/-- The states of a store with such rules while some operations are carried out. -/
def Store.statesOf (tables : List Table) (ops : List Operation) : List Store :=
  replay Dialogue.still (.ofTables tables) ops (.empty default) [] ()

theorem Store.history_statesOf {tables : List Table} {ops : List Operation}
    (hops : ∀ op ∈ ops, op.WellFormed) : History (.ofTables tables) (statesOf tables ops) :=
  .replay Dialogue.still hops (.start default) ()

/-- A column of numbers, a key of its table or not, that may be null or not. -/
def Column.ofNumbers (name : String) (primaryKey nullable : Bool) : Column :=
  ⟨name, .bigint, nullable, primaryKey, none, none⟩

/-- A foreign key of one column. -/
def Constraint.reference (name column target : String) (onUpdate : ReferentialAction) :
    Constraint :=
  ⟨some name, .foreignKey, [], [⟨column, some target⟩], none, some onUpdate⟩

/-! ## Changes put in force

What the operations of the store have in common: they look their table up, make one change
of the tables or none, and report what the change did.

* `Store.events_report` says what is delivered for a list of changes.
* `Store.runWith_commit_ok`, `events_commit_ok`: a change that was accepted is in force, and
  nothing but it is reported.
-/

namespace Store

open Dialogue

variable {σ : Type} (answer : (r : Request) → σ → r.Answer × σ)

/-- An event is delivered for each change, in order. -/
theorem events_report (user : Option String) (changes : List RowChange) (x : σ) :
    List.Forall₂ (fun change event => ∃ time, event = change.event time user) changes
      ((report user changes).events answer x) := by
  induction changes generalizing x with
  | nil => exact .nil
  | cons change rest ih =>
    show List.Forall₂ _ _ (change.event (answer .now x).1 user :: (report user rest).events _ _)
    exact .cons ⟨_, rfl⟩ (ih _)

theorem runWith_commit_ok (s : Store) (user : Option String) (effect : Effect) (x : σ) :
    ((commit s user (.ok effect)).runWith answer x).1 =
      ({ s with tables := effect.tables }, .ok effect.count) := by
  rw [commit, runWith_seq, runWith_pure]

theorem events_commit_ok (s : Store) (user : Option String) (effect : Effect) (x : σ) :
    (commit s user (.ok effect)).events answer x =
      (report user effect.changes).events answer x := by
  rw [commit, events_seq, events_pure, List.append_nil]

end Store

end PipelineEngine
