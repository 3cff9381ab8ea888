import PipelineEngine.Proofs.Store.Delete
import PipelineEngine.Proofs.Store.References

/-!
# When a deletion is refused

A key that restricts forbids a deletion when a row that stays depends through it on a row
that goes (`Tables.Pinned`).  A row that goes as well but has not been looked at yet forbids
it just as much: then a deletion overtakes it (`Tables.Overtakes`).

* `Tables.visits` is the order in which the rows that go are looked at while no key
  forbids it.
* `Tables.doomedFrom_eq_error_iff` says of a worklist in any state when a key forbids what is
  left to do.
* `Store.delete_restricted_iff` is the main statement: a deletion is refused exactly when a
  row is pinned or overtaken, so whether only the pinned rows matter depends on the order of
  the visits.
-/

namespace PipelineEngine

/-- The model with those of its keys that cascade when a row is deleted. -/
def Model.cascading (m : Model) : Model :=
  { m with foreignKeys := m.foreignKeys.filter (·.onDelete = .cascade) }

theorem Model.mem_cascading_iff {m : Model} {k : ForeignKey} :
    k ∈ m.cascading.foreignKeys ↔ k ∈ m.foreignKeys ∧ k.onDelete = .cascade := by
  simp [Model.cascading]

theorem Model.keysTo_cascading (m : Model) (table : String) :
    m.cascading.keysTo table = (m.keysTo table).filter (·.onDelete = .cascade) := by
  simp only [Model.keysTo, Model.cascading, List.filter_filter]
  exact List.filter_congr fun k _ => Bool.and_comm _ _

namespace ForeignKey

variable {k : ForeignKey} {d : Tables} {doomed pending : List Position} {row : Row}

/-- A key that cascades forbids nothing. -/
theorem exists_deleteDependents_of_cascade (h : k.onDelete = .cascade) :
    ∃ pending, k.deleteDependents d doomed row = .ok pending := by
  simp only [deleteDependents, h]
  split
  · exact ⟨_, rfl⟩
  · exact ⟨_, rfl⟩

/-- With a row that a key lets go, no row goes that depends on it through a restricting
key. -/
theorem eq_nil_of_restrict (hpending : k.deleteDependents d doomed row = .ok pending)
    (h : k.onDelete ≠ .cascade) : pending = [] := by
  refine List.eq_nil_iff_forall_not_mem.2 fun p hp => ?_
  exact h ((k.mem_deleteDependents_iff hpending).1 hp).1

end ForeignKey

namespace Tables

variable {d : Tables} {m : Model} {table : String} {filter : Row}

/-! ## The rounds without restrictions -/

/-- What goes with a row when no key forbids it. -/
theorem exists_dependentsOf_cascading (d : Tables) (m : Model) (doomed : List Position)
    (table : String) (row : Row) :
    ∃ pending, d.dependentsOf m.cascading doomed table row = .ok pending := by
  cases h : d.dependentsOf m.cascading doomed table row with
  | ok pending => exact ⟨pending, rfl⟩
  | error e =>
    obtain ⟨k, hk, hkey⟩ := Fallible.exists_of_mapM_eq_error (Fallible.map_eq_error_iff.1 h)
    have hcascade := (Model.mem_cascading_iff.1 (Model.mem_keysTo_iff.1 hk).1).2
    obtain ⟨pending, hok⟩ : ∃ pending, k.deleteDependents d doomed row = .ok pending :=
      k.exists_deleteDependents_of_cascade hcascade
    rw [hok] at hkey
    cases hkey

/-- When no key forbids it, the keys that restrict make no difference. -/
theorem dependentsOf_cascading {doomed pending : List Position} {row : Row}
    (h : d.dependentsOf m doomed table row = .ok pending) :
    d.dependentsOf m.cascading doomed table row = .ok pending := by
  have hkeys : ∀ {keys : List ForeignKey} {found : List (List Position)},
      (keys.mapM fun k => k.deleteDependents d doomed row) = .ok found →
      (List.flatten <$> (keys.filter (·.onDelete = .cascade)).mapM fun k =>
        k.deleteDependents d doomed row) = .ok found.flatten := by
    intro keys
    induction keys with
    | nil =>
      intro found hfound
      cases hfound
      rfl
    | cons k rest ih =>
      intro found hfound
      rw [List.mapM_cons, Fallible.bind_eq_ok_iff] at hfound
      obtain ⟨here, hhere, hfound⟩ := hfound
      rw [Fallible.bind_eq_ok_iff] at hfound
      obtain ⟨others, hothers, hfound⟩ := hfound
      obtain rfl : here :: others = found := Except.ok.inj hfound
      have hrest := ih hothers
      obtain ⟨found', hfound', hflat⟩ := Fallible.map_eq_ok_iff.1 hrest
      by_cases hk : k.onDelete = .cascade
      · rw [List.filter_cons_of_pos (by simpa using hk), List.mapM_cons, hhere, hfound',
          List.flatten_cons, ← hflat]
        rfl
      · rw [List.filter_cons_of_neg (by simpa using hk), List.flatten_cons,
          k.eq_nil_of_restrict hhere hk]
        exact hrest
  obtain ⟨found, hfound, rfl⟩ := Fallible.map_eq_ok_iff.1 h
  rw [dependentsOf, Model.keysTo_cascading]
  exact hkeys hfound

/-- Without restrictions every deletion is let through. -/
theorem exists_doomedFrom_cascading (d : Tables) (m : Model) (stack doomed : List Position) :
    ∃ all, d.doomedFrom m.cascading stack doomed = .ok all := by
  obtain ⟨w, -, ⟨-, hok⟩ | ⟨e, hrefuses, -⟩⟩ := Worklist.exists_rounds d m.cascading ⟨stack, doomed⟩
  · exact ⟨_, hok⟩
  · obtain ⟨p, rest, row, -, -, -, herror⟩ := hrefuses
    obtain ⟨pending, hok⟩ := exists_dependentsOf_cascading d m (p :: w.doomed) p.table row
    rw [hok] at herror
    cases herror

/-! ## What forbids one round -/

/-- A key that lets a row go and restricts has found its dependents among the doomed. -/
theorem mem_doomed_of_restrict {doomed pending : List Position} {q : Position} {target : Row}
    (h : d.dependentsOf m doomed q.table target = .ok pending) (hq : d.row? q = some target)
    {k : ForeignKey} (hk : k ∈ m.foreignKeys) (hrestrict : k.onDelete = .restrict) {p : Position}
    (hdepends : d.Depends k p q) : p ∈ doomed := by
  obtain ⟨table, i⟩ := p
  obtain ⟨rfl, htarget, row, target', hrow, htarget', hpoints⟩ := hdepends
  obtain rfl : target = target' := Option.some.inj (hq.symm.trans htarget')
  obtain ⟨found, hfound, -⟩ := Fallible.map_eq_ok_iff.1 h
  obtain ⟨here, -, hkey⟩ :=
    (Fallible.of_mapM_eq_ok hfound).1 k (Model.mem_keysTo_iff.2 ⟨hk, htarget.symm⟩)
  have hi : i ∈ k.dependents d target := ForeignKey.mem_dependents_iff.2 ⟨row, hrow, hpoints⟩
  rcases k.mem_of_deleteDependents hkey hi with hmem | hmem
  · exact hmem
  · rw [k.eq_nil_of_restrict hkey (by simp [hrestrict])] at hmem
    cases hmem

/-- A row that may not go has a dependent that is not doomed. -/
theorem exists_restrict_of_error {doomed : List Position} {q : Position} {target : Row}
    {e : StoreError} (h : d.dependentsOf m doomed q.table target = .error e)
    (hq : d.row? q = some target) :
    ∃ k ∈ m.foreignKeys, k.onDelete = .restrict ∧ (∃ p, d.Depends k p q ∧ p ∉ doomed) ∧
      ∃ count, e = .restricted k.table k.name count := by
  obtain ⟨k, hk, hkey⟩ := Fallible.exists_of_mapM_eq_error (Fallible.map_eq_error_iff.1 h)
  obtain ⟨hforeign, htarget⟩ := Model.mem_keysTo_iff.1 hk
  obtain ⟨hrestrict, ⟨i, hi, hdoomed⟩, hcount⟩ := k.of_deleteDependents_eq_error hkey
  obtain ⟨row, hrow, hpoints⟩ := ForeignKey.mem_dependents_iff.1 hi
  exact ⟨k, hforeign, hrestrict,
    ⟨⟨k.table, i⟩, ⟨rfl, htarget.symm, row, target, hrow, hq, hpoints⟩, hdoomed⟩, hcount⟩

/-! ## What forbids a deletion -/

/-- A key forbids what is left to do when a row is still to be looked at before a row that
depends on it through the key. -/
theorem doomedFrom_eq_error_iff {stack doomed all : List Position}
    (hall : d.doomedFrom m.cascading stack doomed = .ok all) :
    (∃ e, d.doomedFrom m stack doomed = .error e) ↔
      ∃ k ∈ m.foreignKeys, k.onDelete = .restrict ∧ ∃ p q earlier, d.Depends k p q ∧
        doomed <:+ earlier ∧ q :: earlier <:+ all ∧ p ∉ q :: earlier := by
  induction stack, doomed using Tables.doomedFrom.induct d m.cascading with
  | case1 doomed =>
    rw [Tables.doomedFrom] at hall ⊢
    cases hall
    constructor
    · rintro ⟨e, he⟩
      cases he
    · rintro ⟨k, -, -, p, q, earlier, -, hearlier, hq, -⟩
      have hle := hearlier.length_le
      have hlt := hq.length_le
      rw [List.length_cons] at hlt
      omega
  | case2 p stack doomed hp ih =>
    rw [doomedFrom_of_mem hp] at hall ⊢
    exact ih hall
  | case3 p stack doomed hp hrow ih =>
    rw [doomedFrom_of_none hp hrow] at hall ⊢
    exact ih hall
  | case4 p stack doomed hp row hrow e herror =>
    rw [doomedFrom_of_some hp hrow, herror] at hall
    cases hall
  | case5 q stack doomed hq row hrow pending hpending ih =>
    rw [doomedFrom_of_some hq hrow, hpending] at hall
    have hsuffix : q :: doomed <:+ all := (Worklist.rounds_of_ok hall).suffix
    rw [doomedFrom_of_some hq hrow]
    cases hfirst : d.dependentsOf m (q :: doomed) q.table row with
    | error e =>
      obtain ⟨k, hk, hrestrict, ⟨p, hdepends, hp⟩, -⟩ := exists_restrict_of_error hfirst hrow
      exact iff_of_true ⟨e, rfl⟩
        ⟨k, hk, hrestrict, p, q, doomed, hdepends, List.suffix_refl _, hsuffix, hp⟩
    | ok pending' =>
      obtain rfl : pending' = pending :=
        Except.ok.inj ((dependentsOf_cascading hfirst).symm.trans hpending)
      refine Iff.trans (ih hall) ?_
      constructor
      · rintro ⟨k, hk, hrestrict, p, q', earlier, hdepends, hearlier, hvisit, hp⟩
        exact ⟨k, hk, hrestrict, p, q', earlier, hdepends,
          (List.suffix_cons q doomed).trans hearlier, hvisit, hp⟩
      · rintro ⟨k, hk, hrestrict, p, q', earlier, hdepends, hearlier, hvisit, hp⟩
        have hlength : (q :: doomed).length ≤ (q' :: earlier).length :=
          Nat.succ_le_succ hearlier.length_le
        rcases List.suffix_cons_iff.1 (List.suffix_of_suffix_length_le hsuffix hvisit hlength) with
          heq | hlater
        · -- This row itself: its restricting keys have let it go.
          obtain ⟨rfl, rfl⟩ := List.cons.inj heq
          exact absurd (mem_doomed_of_restrict hfirst hrow hk hrestrict hdepends) hp
        · exact ⟨k, hk, hrestrict, p, q', earlier, hdepends, hlater, hvisit, hp⟩

/-- The rows that go, in the order in which they are looked at while no key forbids it. -/
def visits (d : Tables) (m : Model) (table : String) (filter : Row) : List Position :=
  ((d.doomedFrom m.cascading (d.start table filter) []).toOption.getD []).reverse

/-- What does not depend on the keys that restrict: which rows go. -/
theorem goes_cascading_iff {p : Position} :
    d.Goes m.cascading table filter p ↔ d.Goes m table filter p := by
  constructor
  · intro h
    induction h with
    | matched htable hrow h => exact .matched htable hrow h
    | cascade hk hcascade _ hdepends ih =>
      exact .cascade (Model.mem_cascading_iff.1 hk).1 hcascade ih hdepends
  · intro h
    induction h with
    | matched htable hrow h => exact .matched htable hrow h
    | cascade hk hcascade _ hdepends ih =>
      exact .cascade (Model.mem_cascading_iff.2 ⟨hk, hcascade⟩) hcascade ih hdepends

/-- All rows that go are looked at, and no others. -/
theorem mem_visits_iff {p : Position} :
    p ∈ d.visits m table filter ↔ d.Goes m table filter p := by
  obtain ⟨all, hall⟩ := exists_doomedFrom_cascading d m (d.start table filter) []
  rw [visits, hall, List.mem_reverse, ← goes_cascading_iff, ← mem_doomed_iff hall]
  rfl

/-- No row is looked at twice. -/
theorem nodup_visits (d : Tables) (m : Model) (table : String) (filter : Row) :
    (d.visits m table filter).Nodup := by
  obtain ⟨all, hall⟩ := exists_doomedFrom_cascading d m (d.start table filter) []
  rw [visits, hall]
  exact List.nodup_reverse.2 (nodup_doomed hall)

/-- A row that stays depends through a restricting key on a row that goes. -/
def Pinned (d : Tables) (m : Model) (table : String) (filter : Row) : Prop :=
  ∃ k ∈ m.foreignKeys, k.onDelete = .restrict ∧ ∃ p q, d.Depends k p q ∧
    d.Goes m table filter q ∧ ¬ d.Goes m table filter p

/-- A row is looked at before a row that goes as well and depends on it through a
restricting key. -/
def Overtakes (d : Tables) (m : Model) (table : String) (filter : Row) : Prop :=
  ∃ k ∈ m.foreignKeys, k.onDelete = .restrict ∧ ∃ p q, d.Depends k p q ∧
    [q, p].Sublist (d.visits m table filter)

/-- A key forbids a deletion when a row is pinned or overtaken. -/
theorem doomedFrom_start_eq_error_iff :
    (∃ e, d.doomedFrom m (d.start table filter) [] = .error e) ↔
      d.Pinned m table filter ∨ d.Overtakes m table filter := by
  obtain ⟨all, hall⟩ := exists_doomedFrom_cascading d m (d.start table filter) []
  have hvisits : d.visits m table filter = all.reverse := by
    rw [visits, hall]
    rfl
  have hmem : ∀ p, p ∈ all ↔ d.Goes m table filter p := by
    intro p
    rw [← mem_visits_iff, hvisits, List.mem_reverse]
  have hnodup : all.Nodup := List.nodup_reverse.1 (hvisits ▸ nodup_visits d m table filter)
  rw [doomedFrom_eq_error_iff hall]
  constructor
  · rintro ⟨k, hk, hrestrict, p, q, earlier, hdepends, -, hvisit, hp⟩
    by_cases hgoes : d.Goes m table filter p
    · -- It is looked at later than the row that it depends on.
      obtain ⟨later, rfl⟩ := hvisit
      have hlater : p ∈ later := (List.mem_append.1 ((hmem p).2 hgoes)).resolve_right hp
      refine Or.inr ⟨k, hk, hrestrict, p, q, hdepends, ?_⟩
      rw [hvisits]
      refine List.reverse_sublist.1 ?_
      rw [List.reverse_reverse]
      exact (List.singleton_sublist.2 hlater).append (List.singleton_sublist.2 List.mem_cons_self)
    · have hq : q ∈ all := hvisit.mem List.mem_cons_self
      exact Or.inl ⟨k, hk, hrestrict, p, q, hdepends, (hmem q).1 hq, hgoes⟩
  · rintro (⟨k, hk, hrestrict, p, q, hdepends, hq, hp⟩ | ⟨k, hk, hrestrict, p, q, hdepends, hvisit⟩)
    · obtain ⟨later, earlier, heq⟩ := List.append_of_mem ((hmem q).2 hq)
      have hvisit : q :: earlier <:+ all := ⟨later, heq.symm⟩
      exact ⟨k, hk, hrestrict, p, q, earlier, hdepends, List.nil_suffix, hvisit,
        fun hearlier => hp ((hmem p).1 (hvisit.mem hearlier))⟩
    · rw [hvisits, ← List.reverse_sublist, List.reverse_reverse] at hvisit
      obtain ⟨later, rest, rfl, hp, hq⟩ := List.cons_sublist_iff.1 hvisit
      obtain ⟨between, earlier, rfl⟩ := List.append_of_mem (List.singleton_sublist.1 hq)
      refine ⟨k, hk, hrestrict, p, q, earlier, hdepends, List.nil_suffix,
        ⟨later ++ between, List.append_assoc _ _ _⟩, fun hearlier => ?_⟩
      exact List.disjoint_of_nodup_append hnodup hp (List.mem_append_right between hearlier)

/-- A deletion that a key forbids names the key. -/
theorem restricted_of_doomedFrom {stack doomed : List Position} {e : StoreError}
    (h : d.doomedFrom m stack doomed = .error e) :
    ∃ k ∈ m.foreignKeys, ∃ count, e = .restricted k.table k.name count := by
  obtain ⟨w, -, ⟨-, hok⟩ | ⟨e', ⟨q, rest, row, -, -, hrow, hfirst⟩, herror⟩⟩ :=
    Worklist.exists_rounds d m ⟨stack, doomed⟩
  · rw [h] at hok
    cases hok
  · obtain rfl : e = e' := Except.error.inj (h.symm.trans herror)
    obtain ⟨k, hk, -, -, hcount⟩ := exists_restrict_of_error hfirst hrow
    exact ⟨k, hk, hcount⟩

end Tables

namespace Store

/-- The answer says that a key forbids the deletion. -/
def IsRestricted (answer : Except StoreError Nat) : Prop :=
  ∃ table constraint count, answer = .error (.restricted table constraint count)

/-- A deletion whose predicate is transformed is refused exactly when a row is pinned or
overtaken.  So only the pinned rows decide about it exactly when a row is overtaken in no
other case. -/
theorem delete_restricted_iff {c : Rules} {table : String} {t : Table} {filter filter' : Row}
    (ht : c.tableFor table [filter] = .ok t) {σ : Type}
    {answer : (r : Request) → σ → r.Answer × σ} {x : σ}
    (hfilter : ((c.transform t .args filter).runWith answer x).1 = .ok filter') (s : Store)
    (user : Option String) :
    (IsRestricted ((s.delete c table filter user).runWith answer x).1.2 ↔
        s.tables.Pinned c.model table filter' ∨ s.tables.Overtakes c.model table filter') ∧
      ((IsRestricted ((s.delete c table filter user).runWith answer x).1.2 ↔
          s.tables.Pinned c.model table filter') ↔
        (s.tables.Overtakes c.model table filter' → s.tables.Pinned c.model table filter')) := by
  have hiff : IsRestricted ((s.delete c table filter user).runWith answer x).1.2 ↔
      s.tables.Pinned c.model table filter' ∨ s.tables.Overtakes c.model table filter' := by
    obtain rfl : t.name = table := Rules.name_of_tableFor ht
    rw [answer_of_transform answer s user ht hfilter, ← Tables.doomedFrom_start_eq_error_iff]
    show IsRestricted (((s.tables.doomedFrom c.model (s.tables.start t.name filter') []).map
      (s.tables.removeAll c.model)).map (·.count)) ↔ _
    cases h : s.tables.doomedFrom c.model (s.tables.start t.name filter') [] with
    | ok doomed =>
      refine iff_of_false ?_ (by rintro ⟨e, he⟩; cases he)
      rintro ⟨table, constraint, count, hcount⟩
      cases hcount
    | error e =>
      obtain ⟨k, -, count, rfl⟩ := Tables.restricted_of_doomedFrom h
      exact iff_of_true ⟨k.table, k.name, count, rfl⟩ ⟨_, rfl⟩
  refine ⟨hiff, ?_⟩
  rw [hiff]
  exact ⟨fun h hlater => h.1 (Or.inr hlater), fun h => ⟨fun hor => hor.elim id h, Or.inl⟩⟩

/-! ## The order of rows -/

/-- A node and, behind it, the node that it points at. -/
def childFirst : Store :=
  ⟨[("node", [[("id", .int 1), ("parent", .int 2)], [("id", .int 2)]])], default⟩

/-- The same nodes in the other order. -/
def parentFirst : Store :=
  ⟨[("node", [[("id", .int 2)], [("id", .int 1), ("parent", .int 2)]])], default⟩

theorem foreignKeys_nodes :
    (Rules.ofTables nodes).model.foreignKeys =
      [⟨"node", "tree", "node", [("parent", "id")], .restrict, .restrict⟩] := rfl

/-- The node that is pointed at may not go alone. -/
theorem restricted_of_pinned :
    (Rules.ofTables nodes).tableFor "node" [[("id", .int 2)]] = .ok nodes[0] ∧
      (((Rules.ofTables nodes).transform nodes[0] .args [("id", .int 2)]).runWith Dialogue.still
        ()).1 = .ok [("id", .int 2)] ∧
      childFirst.tables.Pinned (Rules.ofTables nodes).model "node" [("id", .int 2)] ∧
      IsRestricted ((childFirst.delete (.ofTables nodes) "node" [("id", .int 2)] none).runWith
        Dialogue.still ()).1.2 := by
  have htable : (Rules.ofTables nodes).tableFor "node" [[("id", .int 2)]] = .ok nodes[0] := rfl
  have hfilter : (((Rules.ofTables nodes).transform nodes[0] .args [("id", .int 2)]).runWith
      Dialogue.still ()).1 = .ok [("id", .int 2)] := rfl
  have hstays : ¬ childFirst.tables.Goes (Rules.ofTables nodes).model "node" [("id", .int 2)]
      ⟨"node", 0⟩ := by
    intro hgoes
    have honly : (⟨"node", 0⟩ : Position) ∈ childFirst.tables.start "node" [("id", .int 2)] := by
      refine Tables.Goes.least (fun p hp => hp) ?_ hgoes
      intro k hk hcascade
      rw [foreignKeys_nodes] at hk
      rw [List.mem_singleton.1 hk] at hcascade
      cases hcascade
    revert honly
    decide
  have hpinned : childFirst.tables.Pinned (Rules.ofTables nodes).model "node"
      [("id", .int 2)] :=
    ⟨_, List.mem_singleton.2 rfl, rfl, ⟨"node", 0⟩, ⟨"node", 1⟩,
      ⟨rfl, rfl, _, _, rfl, rfl, rfl⟩, .matched rfl rfl rfl, hstays⟩
  exact ⟨htable, hfilter, hpinned,
    (delete_restricted_iff htable hfilter childFirst none).1.2 (Or.inl hpinned)⟩

/-- Makes two nodes and lets the first of them point at the second. -/
def raising : List Operation := [
  .insert "node" [("id", .int 1)] none,
  .insert "node" [("id", .int 2)] none,
  .update "node" [("id", .int 1)] [("parent", .int 2)] none]

/-- Makes a node and one that points at it. -/
def growing : List Operation := [
  .insert "node" [("id", .int 2)] none,
  .insert "node" [("id", .int 1), ("parent", .int 2)] none]

/-- Both nodes are to go, so nothing that stays depends on them.  But the node that is
pointed at is looked at first, and it may not go before the other.  In the other order they
both go. -/
theorem restricted_of_not_pinned :
    (Document.ofTables nodes).link 0 = .ok (Rules.ofTables nodes).model ∧
      (∃ past, History (.ofTables nodes) (childFirst :: past)) ∧
      ((childFirst.delete (.ofTables nodes) "node" [] none).runWith Dialogue.still ()).1.2 =
        .error (.restricted "node" "tree" 1) ∧
      ¬ childFirst.tables.Pinned (Rules.ofTables nodes).model "node" [] ∧
      (∃ past, History (.ofTables nodes) (parentFirst :: past)) ∧
      ((parentFirst.delete (.ofTables nodes) "node" [] none).runWith Dialogue.still ()).1.2 =
        .ok 2 := by
  have hraising : History (.ofTables nodes) (statesOf nodes raising) :=
    history_statesOf (by decide)
  have hgrowing : History (.ofTables nodes) (statesOf nodes growing) :=
    history_statesOf (by decide)
  have htable : (Rules.ofTables nodes).tableFor "node" [[]] = .ok nodes[0] := rfl
  have hfilter : (((Rules.ofTables nodes).transform nodes[0] .args []).runWith Dialogue.still
      ()).1 = .ok [] := rfl
  refine ⟨rfl, ⟨_, hraising⟩, ?_, ?_, ⟨_, hgrowing⟩, ?_⟩
  · rw [answer_of_transform Dialogue.still childFirst none htable hfilter]
    show ((Tables.doomedFrom _ _ [⟨"node", 1⟩, ⟨"node", 0⟩] []).map _).map _ = _
    rw [Tables.doomedFrom_of_some (by decide) rfl]
    rfl
  · rintro ⟨k, hk, -, p, q, ⟨hp, -, row, -, hrow, -⟩, -, hstays⟩
    rw [foreignKeys_nodes] at hk
    rw [List.mem_singleton.1 hk] at hp
    exact hstays (.matched hp hrow rfl)
  · rw [answer_of_transform Dialogue.still parentFirst none htable hfilter]
    show ((Tables.doomedFrom _ _ [⟨"node", 1⟩, ⟨"node", 0⟩] []).map _).map _ = _
    rw [Tables.doomedFrom_of_some (by decide) rfl]
    show ((Tables.doomedFrom _ _ [⟨"node", 0⟩] _).map _).map _ = _
    rw [Tables.doomedFrom_of_some (by decide) rfl]
    show ((Tables.doomedFrom _ _ [] _).map _).map _ = _
    rw [Tables.doomedFrom]
    rfl

end Store

end PipelineEngine
