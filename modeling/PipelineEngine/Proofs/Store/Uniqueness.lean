import PipelineEngine.Proofs.Model.Linked
import PipelineEngine.Proofs.Store.History
import PipelineEngine.Proofs.Value.Compare

/-!
# Uniqueness

No two rows of a table have equal values, none of them null, in all columns of a key.
Insertions compare the new row with all others and deletions only remove rows, so both
keep this.

An update compares each row that it matches with all others, but before it carries
anything on.  So the property survives it exactly when the rows into whose key columns
values are carried clash with no other row (`Update.KeepsKeysApart`).

* `Update.isKeyed_iff`: what one update does to the property.
* `Store.History.forall_isKeyed_iff`: what this means for all states of a store.
-/

namespace PipelineEngine

/-! ## Clashes -/

/-- A value that equals a value that is not null is not null. -/
theorem Value.isNull_of_equal {v w : Value} (h : v.equal w = true) (hw : w.isNull = false) :
    v.isNull = false := by
  cases v with
  | null =>
    cases w with
    | null => cases hw
    | _ => cases h
  | _ => rfl

/-- Clashing does not depend on which row is looked at first. -/
theorem Table.clashes_comm (key : List String) (row other : Row) :
    clashes key row other = clashes key other row := by
  have hforth : ∀ a b : Row, clashes key a b = true → clashes key b a = true := by
    intro a b h
    rw [clashes_iff] at h ⊢
    intro name hname
    obtain ⟨v, o, hv, ho, hnull, hequal⟩ := h name hname
    exact ⟨o, v, ho, hv, Value.isNull_of_equal hequal hnull, Value.equal_comm o v ▸ hequal⟩
  rw [Bool.eq_iff_iff]
  exact ⟨hforth row other, hforth other row⟩

/-- No two rows of a list clash in the key. -/
def Table.Apart (key : List String) (rows : List Row) : Prop :=
  rows.Pairwise fun row other => clashes key row other = false

instance (key : List String) (rows : List Row) : Decidable (Table.Apart key rows) :=
  inferInstanceAs (Decidable (rows.Pairwise _))

theorem Table.apart_iff {key : List String} {rows : List Row} :
    Apart key rows ↔ ∀ (i j : Nat) row other, i ≠ j → rows[i]? = some row →
      rows[j]? = some other → clashes key row other = false := by
  rw [Apart, List.pairwise_iff_getElem]
  constructor
  · intro h i j row other hne hrow hother
    obtain ⟨hi, rfl⟩ := List.getElem?_eq_some_iff.1 hrow
    obtain ⟨hj, rfl⟩ := List.getElem?_eq_some_iff.1 hother
    rcases Nat.lt_or_gt_of_ne hne with hlt | hgt
    · exact h i j hi hj hlt
    · rw [clashes_comm]
      exact h j i hj hi hgt
  · intro h i j hi hj hlt
    exact h i j _ _ (Nat.ne_of_lt hlt) (List.getElem?_eq_getElem hi) (List.getElem?_eq_getElem hj)

/-! ## The property, and the changes that keep it -/

/-- In each table no two rows clash in the primary key or in a uniqueness constraint. -/
def Model.IsKeyed (m : Model) (d : Tables) : Prop :=
  ∀ t ∈ m.document.tables, ∀ key ∈ t.uniqueKeys, Table.Apart key (d.rows t.name)

instance (m : Model) (d : Tables) : Decidable (m.IsKeyed d) :=
  inferInstanceAs (Decidable (∀ t ∈ m.document.tables, ∀ key ∈ t.uniqueKeys,
    Table.Apart key (d.rows t.name)))

theorem Model.isKeyed_nil (m : Model) : m.IsKeyed [] := by
  intro t _ key _
  exact List.Pairwise.nil

section

variable {d : Document} {epoch : Nat} {m : Model}

theorem Insertion.isKeyed (hm : d.link epoch = .ok m) (i : Insertion m)
    (h : m.IsKeyed i.before) : m.IsKeyed i.after := by
  intro t ht key hkey
  rw [i.rows_after]
  split
  · rename_i hname
    have hdeclared := i.declared
    rw [← hname, Document.table?_of_mem hm ht] at hdeclared
    obtain rfl : t = i.table := Option.some.inj hdeclared
    refine List.pairwise_append.2 ⟨h _ ht key hkey, List.pairwise_singleton _ _, ?_⟩
    intro other hother row hrow
    rw [List.mem_singleton.1 hrow, Table.clashes_comm]
    exact Table.checkUnique_eq_ok_iff.1 i.checked.2.1 key hkey other hother
  · exact h t ht key hkey

theorem Deletion.isKeyed (x : Deletion m) (h : m.IsKeyed x.before) : m.IsKeyed x.after := by
  intro t ht key hkey
  exact (h t ht key hkey).sublist (x.sublist_rows_after t.name)

namespace Update

variable (u : Update m)

/-- Each row into whose key columns something was carried clashes with no other row. -/
def KeepsKeysApart : Prop :=
  ∀ t ∈ m.document.tables, ∀ key ∈ t.uniqueKeys, ∀ p q row other,
    p.table = t.name → q.table = t.name → p ≠ q → u.after.row? p = some row →
      u.after.row? q = some other → u.CarriesInto key p → Table.clashes key row other = false

/-- Two rows into whose key columns nothing is carried do not clash after an update. -/
theorem not_clashes_of_not_carriesInto (hm : d.link epoch = .ok m) (h : m.IsKeyed u.before)
    {t : Table} (ht : t ∈ m.document.tables) {key : List String} (hkey : key ∈ t.uniqueKeys)
    {p q : Position} {row other : Row} (hp : p.table = t.name) (hq : q.table = t.name)
    (hne : p ≠ q) (hrow : u.after.row? p = some row) (hother : u.after.row? q = some other)
    (hpkey : ¬ u.CarriesInto key p) (hqkey : ¬ u.CarriesInto key q) :
    Table.clashes key row other = false := by
  obtain ⟨row', hrow', hsame⟩ := u.exists_checked_of_not_carriesInto hrow hpkey
  obtain ⟨other', hother', hsame'⟩ := u.exists_checked_of_not_carriesInto hother hqkey
  rw [Table.clashes_congr hsame hsame']
  -- One of the two was matched and so compared with the other, or both are old rows.
  have hmatched : ∀ {p}, p.table = t.name → u.Matches p → key ∈ u.table.uniqueKeys := by
    intro p hp hmatches
    have hdeclared := u.declared
    rw [← hmatches.1, hp, Document.table?_of_mem hm ht] at hdeclared
    obtain rfl := Option.some.inj hdeclared
    exact hkey
  by_cases hpm : u.Matches p
  · exact u.distinct_of_matches hpm hrow' hother' (hq.trans hp.symm) (Ne.symm hne)
      (hmatched hp hpm)
  · by_cases hqm : u.Matches q
    · rw [Table.clashes_comm]
      exact u.distinct_of_matches hqm hother' hrow' (hp.trans hq.symm) hne (hmatched hq hqm)
    · obtain ⟨old, hold, hrowOld⟩ := u.exists_before_of_not_matches hrow' hpm
      obtain ⟨oldOther, holdOther, hotherOld⟩ := u.exists_before_of_not_matches hother' hqm
      rw [Table.clashes_congr (fun column _ => hrowOld column) fun column _ => hotherOld column]
      obtain ⟨table, i⟩ := p
      obtain ⟨table', j⟩ := q
      obtain rfl : table = t.name := hp
      obtain rfl : table' = t.name := hq
      have hij : i ≠ j := by
        intro hij
        exact hne (by rw [hij])
      exact Table.apart_iff.1 (h t ht key hkey) i j old oldOther hij hold holdOther

/-- An update keeps keys unique exactly when the rows into whose key columns it carried
something clash with no other row. -/
theorem isKeyed_iff (hm : d.link epoch = .ok m) (h : m.IsKeyed u.before) :
    m.IsKeyed u.after ↔ u.KeepsKeysApart := by
  constructor
  · intro hafter t ht key hkey p q row other hp hq hne hrow hother _
    obtain ⟨table, i⟩ := p
    obtain ⟨table', j⟩ := q
    obtain rfl : table = t.name := hp
    obtain rfl : table' = t.name := hq
    have hij : i ≠ j := by
      intro hij
      exact hne (by rw [hij])
    exact Table.apart_iff.1 (hafter t ht key hkey) i j row other hij hrow hother
  · intro hkeeps t ht key hkey
    rw [Table.apart_iff]
    intro i j row other hij hrow hother
    have hne : (⟨t.name, i⟩ : Position) ≠ ⟨t.name, j⟩ := by
      intro heq
      exact hij (congrArg Position.index heq)
    by_cases hi : u.CarriesInto key ⟨t.name, i⟩
    · exact hkeeps t ht key hkey ⟨t.name, i⟩ ⟨t.name, j⟩ row other rfl rfl hne hrow hother hi
    · by_cases hj : u.CarriesInto key ⟨t.name, j⟩
      · rw [Table.clashes_comm]
        exact hkeeps t ht key hkey ⟨t.name, j⟩ ⟨t.name, i⟩ other row rfl rfl (Ne.symm hne)
          hother hrow hj
      · exact u.not_clashes_of_not_carriesInto hm h ht hkey rfl rfl hne hrow hother hi hj

end Update

end

namespace Store

/-- In all states of a store keys are unique exactly when each update kept the rows apart
into whose key columns it carried something. -/
theorem History.forall_isKeyed_iff {d : Document} {epoch : Nat} {c : Rules}
    (hm : d.link epoch = .ok c.model) {states : List Store} (h : History c states) :
    (∀ s ∈ states, c.model.IsKeyed s.tables) ↔
      ∀ u : Update c.model, u.Within states → u.KeepsKeysApart :=
  h.forall_iff c.model.isKeyed_nil (fun i => i.isKeyed hm) (fun x => x.isKeyed)
    fun u => u.isKeyed_iff hm

/-! ### One child of two parents, and two children of one -/

/-- Owners under a number that is not their key, and things that follow it. -/
def estates : List Table := [
  ⟨"owner", [.ofNumbers "id" true true, .ofNumbers "house" false true], [], none⟩,
  ⟨"thing", [.ofNumbers "house" true true],
    [.reference "home" "house" "owner.house" .cascade], none⟩]

/-- Two owners with one thing each. -/
def estateSetup : List Operation := [
  .insert "owner" [("house", .int 1), ("id", .int 1)] none,
  .insert "owner" [("house", .int 2), ("id", .int 2)] none,
  .insert "thing" [("house", .int 1)] none,
  .insert "thing" [("house", .int 2)] none]

/-- One owner moves, and the thing with it. -/
def estateMove : List Operation :=
  estateSetup ++ [.update "owner" [("id", .int 1)] [("house", .int 3)] none]

/-- Both owners move into one house.  Their numbers stay different, and nobody looks at
the things. -/
def estateMerge : List Operation := estateSetup ++ [.update "owner" [] [("house", .int 3)] none]

theorem keepsKeysApart_of_estateMove :
    (Document.ofTables estates).link 0 = .ok (Rules.ofTables estates).model ∧
      History (.ofTables estates) (statesOf estates estateMove) ∧
        ∀ u : Update (Rules.ofTables estates).model,
          u.Within (statesOf estates estateMove) → u.KeepsKeysApart := by
  have hm : (Document.ofTables estates).link 0 = .ok (Rules.ofTables estates).model := rfl
  have h : History (.ofTables estates) (statesOf estates estateMove) :=
    history_statesOf (by decide)
  exact ⟨hm, h, (History.forall_isKeyed_iff hm h).1 (by decide)⟩

theorem not_isKeyed_of_estateMerge :
    (Document.ofTables estates).link 0 = .ok (Rules.ofTables estates).model ∧
      History (.ofTables estates) (statesOf estates estateMerge) ∧
        ∃ s ∈ statesOf estates estateMerge, ¬ (Rules.ofTables estates).model.IsKeyed s.tables := by
  refine ⟨rfl, history_statesOf ?_, ?_⟩
  · decide
  · decide

end Store

end PipelineEngine
