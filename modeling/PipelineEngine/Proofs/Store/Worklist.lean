import Mathlib.Logic.Relation
import PipelineEngine.Proofs.Store.Doomed

/-!
# The worklist of a deletion

A deletion looks at one row after the other.  `Worklist.Round` is what it does with one
row, and what a deletion comes to is where its rounds lead (`Worklist.exists_rounds`):
either the stack is empty in the end or a key forbids the deletion.

* `Worklist.wellFounded_round`: no sequence of rounds goes on for ever, whatever the keys
  are.
* `Tables.Goes`: the rows that a deletion takes along, said without the worklist.
* `Tables.mem_doomed_iff`: the worklist dooms these rows and no others.

What holds between the rounds, `Worklist.Follows`, is shown for one round and carried along
all of them by `Rounds.invariant`.
-/

namespace PipelineEngine

/-- The state of a deletion between two rows. -/
structure Worklist where
  /-- The rows still to be looked at, the next one first. -/
  stack : List Position
  /-- The rows that go, the last one that was looked at first. -/
  doomed : List Position

namespace Worklist

variable {d : Tables} {m : Model}

/-- One round: a row that needs no look is taken off the stack, or a row goes and what goes
with it is put on the stack. -/
inductive Round (d : Tables) (m : Model) : Worklist → Worklist → Prop where
  | skip {p : Position} {stack doomed : List Position} (h : p ∈ doomed ∨ d.row? p = none) :
      Round d m ⟨p :: stack, doomed⟩ ⟨stack, doomed⟩
  | doom {p : Position} {stack doomed pending : List Position} {row : Row} (hp : p ∉ doomed)
      (hrow : d.row? p = some row)
      (hpending : d.dependentsOf m (p :: doomed) p.table row = .ok pending) :
      Round d m ⟨p :: stack, doomed⟩ ⟨pending.reverse ++ stack, p :: doomed⟩

/-- Some rounds, one after the other. -/
abbrev Rounds (d : Tables) (m : Model) : Worklist → Worklist → Prop :=
  Relation.ReflTransGen (Round d m)

/-- The next row is one that a key does not let go. -/
def Refuses (w : Worklist) (d : Tables) (m : Model) (e : StoreError) : Prop :=
  ∃ p stack row, w.stack = p :: stack ∧ p ∉ w.doomed ∧ d.row? p = some row ∧
    d.dependentsOf m (p :: w.doomed) p.table row = .error e

/-- Each round makes the rows that are left fewer or the stack shorter, so every sequence of
rounds ends. -/
theorem wellFounded_round (d : Tables) (m : Model) :
    WellFounded fun w' w => Round d m w w' := by
  have hmeasure : ∀ w' w, Round d m w w' → Prod.Lex (· < ·) (· < ·)
      ((d.spared w'.doomed).length, w'.stack.length)
      ((d.spared w.doomed).length, w.stack.length) := by
    intro w' w h
    cases h with
    | skip h => exact Prod.Lex.right _ (by simp)
    | doom hp hrow hpending =>
      exact Prod.Lex.left _ _ (Tables.length_spared_lt (Tables.mem_positions_of_row? hrow) hp)
  have hlex : WellFounded (Prod.Lex (· < ·) (· < ·) : Nat × Nat → Nat × Nat → Prop) :=
    (Prod.lex Nat.lt_wfRel Nat.lt_wfRel).wf
  exact Subrelation.wf (fun h => hmeasure _ _ h) (InvImage.wf _ hlex)

/-- A deletion comes to what its rounds lead to. -/
theorem exists_rounds (d : Tables) (m : Model) (w : Worklist) :
    ∃ w', Rounds d m w w' ∧
      (w'.stack = [] ∧ d.doomedFrom m w.stack w.doomed = .ok w'.doomed ∨
        ∃ e, w'.Refuses d m e ∧ d.doomedFrom m w.stack w.doomed = .error e) := by
  obtain ⟨stack, doomed⟩ := w
  induction stack, doomed using Tables.doomedFrom.induct d m with
  | case1 doomed => exact ⟨⟨[], doomed⟩, .refl, Or.inl ⟨rfl, by rw [Tables.doomedFrom]⟩⟩
  | case2 p stack doomed hp ih =>
    obtain ⟨w', hrounds, hends⟩ := ih
    refine ⟨w', .head (.skip (Or.inl hp)) hrounds, ?_⟩
    rw [Tables.doomedFrom_of_mem hp]
    exact hends
  | case3 p stack doomed hp hrow ih =>
    obtain ⟨w', hrounds, hends⟩ := ih
    refine ⟨w', .head (.skip (Or.inr hrow)) hrounds, ?_⟩
    rw [Tables.doomedFrom_of_none hp hrow]
    exact hends
  | case4 p stack doomed hp row hrow e herror =>
    refine ⟨⟨p :: stack, doomed⟩, .refl, Or.inr ⟨e, ⟨p, stack, row, rfl, hp, hrow, herror⟩, ?_⟩⟩
    rw [Tables.doomedFrom_of_some hp hrow, herror]
    rfl
  | case5 p stack doomed hp row hrow pending hpending ih =>
    obtain ⟨w', hrounds, hends⟩ := ih
    refine ⟨w', .head (.doom hp hrow hpending) hrounds, ?_⟩
    rw [Tables.doomedFrom_of_some hp hrow, hpending]
    exact hends

/-- Every sequence of rounds comes to an end, and what the deletion comes to is where its own
rounds lead: it lets the rows go that are doomed when the stack is empty, or it is refused
by a key. -/
def Ends (w : Worklist) (d : Tables) (m : Model) : Prop :=
  Acc (fun after before => Round d m before after) w ∧
    ∃ w', Rounds d m w w' ∧
      (w'.stack = [] ∧ d.doomedFrom m w.stack w.doomed = .ok w'.doomed ∨
        ∃ e, w'.Refuses d m e ∧ d.doomedFrom m w.stack w.doomed = .error e)

theorem ends (w : Worklist) (d : Tables) (m : Model) : w.Ends d m :=
  ⟨(wellFounded_round d m).apply w, exists_rounds d m w⟩

/-- A deletion that is let through has rounds that empty the stack. -/
theorem rounds_of_ok {stack doomed all : List Position}
    (h : d.doomedFrom m stack doomed = .ok all) : Rounds d m ⟨stack, doomed⟩ ⟨[], all⟩ := by
  obtain ⟨⟨stack', all'⟩, hrounds, ⟨hempty, hok⟩ | ⟨e, -, herror⟩⟩ :=
    exists_rounds d m ⟨stack, doomed⟩
  · obtain rfl : stack' = [] := hempty
    rw [h] at hok
    cases hok
    exact hrounds
  · rw [h] at herror
    cases herror

/-- What one round keeps, all rounds keep. -/
theorem Rounds.invariant {I : Worklist → Prop} (hround : ∀ w w', Round d m w w' → I w → I w')
    {w w' : Worklist} (h : Rounds d m w w') (hw : I w) : I w' := by
  induction h with
  | refl => exact hw
  | tail _ hlast ih => exact hround _ _ hlast ih

/-- A row that goes stays among those that go. -/
theorem Round.suffix {w w' : Worklist} (h : Round d m w w') : w.doomed <:+ w'.doomed := by
  cases h with
  | skip h => exact List.suffix_refl _
  | doom hp hrow hpending => exact List.suffix_cons _ _

theorem Rounds.suffix {w w' : Worklist} (h : Rounds d m w w') : w.doomed <:+ w'.doomed :=
  h.invariant (I := fun x => w.doomed <:+ x.doomed) (fun _ _ hround hw => hw.trans hround.suffix)
    (List.suffix_refl _)

end Worklist

/-! ## The rows that go -/

namespace ForeignKey

variable {k : ForeignKey} {d : Tables} {doomed pending : List Position} {row : Row}

/-- What a key puts on the stack: the dependents that are not doomed yet when it cascades,
and nothing when it restricts. -/
theorem mem_deleteDependents_iff (h : k.deleteDependents d doomed row = .ok pending)
    {p : Position} : p ∈ pending ↔
      k.onDelete = .cascade ∧ p.table = k.table ∧ p.index ∈ k.dependents d row ∧ p ∉ doomed := by
  have hmem : p ∈ ((k.dependents d row).map (⟨k.table, ·⟩ : Nat → Position)).filter (· ∉ doomed) ↔
      p.table = k.table ∧ p.index ∈ k.dependents d row ∧ p ∉ doomed := by
    obtain ⟨table, i⟩ := p
    simp only [List.mem_filter, List.mem_map, Position.mk.injEq, decide_eq_true_eq]
    constructor
    · rintro ⟨⟨j, hj, rfl, rfl⟩, hp⟩
      exact ⟨rfl, hj, hp⟩
    · rintro ⟨rfl, hi, hp⟩
      exact ⟨⟨i, hi, rfl, rfl⟩, hp⟩
  simp only [deleteDependents] at h
  split at h
  · rename_i hempty
    cases h
    rw [List.isEmpty_iff.1 hempty] at hmem
    rw [← hmem]
    simp
  · split at h
    · cases h
    · rename_i haction
      cases h
      rw [hmem, haction]
      simp

/-- A key refuses only when it restricts and a dependent is not doomed. -/
theorem of_deleteDependents_eq_error {e : StoreError}
    (h : k.deleteDependents d doomed row = .error e) :
    k.onDelete = .restrict ∧ (∃ i ∈ k.dependents d row, ⟨k.table, i⟩ ∉ doomed) ∧
      ∃ count, e = .restricted k.table k.name count := by
  simp only [deleteDependents] at h
  split at h
  · cases h
  · rename_i hne
    split at h
    · rename_i haction
      cases h
      refine ⟨haction, ?_, _, rfl⟩
      obtain ⟨p, hp⟩ := List.exists_mem_of_ne_nil _ (mt List.isEmpty_iff.2 hne)
      obtain ⟨hmem, hdoomed⟩ := List.mem_filter.1 hp
      obtain ⟨i, hi, rfl⟩ := List.mem_map.1 hmem
      exact ⟨i, hi, by simpa using hdoomed⟩
    · cases h

end ForeignKey

namespace Tables

variable {d : Tables} {m : Model} {table : String} {filter : Row}

/-- The rows that a deletion takes along: those of the table that match the predicate, and
with a row each row that depends on it through a cascading key. -/
inductive Goes (d : Tables) (m : Model) (table : String) (filter : Row) : Position → Prop where
  | matched {p : Position} {row : Row} (htable : p.table = table) (hrow : d.row? p = some row)
      (h : row.matchesAll filter = true) : Goes d m table filter p
  | cascade {k : ForeignKey} {p q : Position} (hk : k ∈ m.foreignKeys)
      (hcascade : k.onDelete = .cascade) (hq : Goes d m table filter q) (h : d.Depends k p q) :
      Goes d m table filter p

theorem Goes.isSome_row? {p : Position} (h : d.Goes m table filter p) : (d.row? p).isSome := by
  cases h with
  | matched htable hrow h =>
    rw [hrow]
    rfl
  | cascade hk hcascade hq h =>
    obtain ⟨-, -, row, -, hrow, -⟩ := h
    rw [hrow]
    rfl

/-- The rows that a deletion looks at first, the last one of the table before the others. -/
def start (d : Tables) (table : String) (filter : Row) : List Position :=
  ((d.matching table filter).map (⟨table, ·⟩)).reverse

theorem mem_start_iff {p : Position} :
    p ∈ d.start table filter ↔
      p.table = table ∧ ∃ row, d.row? p = some row ∧ row.matchesAll filter = true := by
  obtain ⟨name, i⟩ := p
  simp only [start, List.mem_reverse, List.mem_map, mem_matching_iff, Position.mk.injEq]
  constructor
  · rintro ⟨j, hj, rfl, rfl⟩
    exact ⟨rfl, hj⟩
  · rintro ⟨rfl, hi⟩
    exact ⟨i, hi, rfl, rfl⟩

/-- What is put on the stack beside a row are rows that depend on it through a cascading
key. -/
theorem exists_cascade_of_mem {doomed pending : List Position} {q : Position} {target : Row}
    (h : d.dependentsOf m doomed q.table target = .ok pending) (hq : d.row? q = some target)
    {p : Position} (hp : p ∈ pending) :
    ∃ k ∈ m.foreignKeys, k.onDelete = .cascade ∧ d.Depends k p q := by
  obtain ⟨found, hfound, hflat⟩ := Fallible.map_eq_ok_iff.1 h
  obtain ⟨here, hhere, hmem⟩ := List.mem_flatten.1 (hflat ▸ hp)
  obtain ⟨k, hk, hkey⟩ := (Fallible.of_mapM_eq_ok hfound).2 here hhere
  obtain ⟨hcascade, htable, hdependent, -⟩ := (k.mem_deleteDependents_iff hkey).1 hmem
  obtain ⟨hforeign, htarget⟩ := Model.mem_keysTo_iff.1 hk
  obtain ⟨row, hrow, hpoints⟩ := ForeignKey.mem_dependents_iff.1 hdependent
  rw [← htable] at hrow
  exact ⟨k, hforeign, hcascade, htable, htarget.symm, row, target, hrow, hq, hpoints⟩

/-- With a row goes every row that depends on it through a cascading key, so the least set
of rows that does this is that of the rows that go. -/
theorem Goes.least {S : Position → Prop}
    (hmatched : ∀ p ∈ d.start table filter, S p)
    (hclosed : ∀ k ∈ m.foreignKeys, k.onDelete = .cascade → ∀ p q, S q → d.Depends k p q → S p)
    {p : Position} (h : d.Goes m table filter p) : S p := by
  induction h with
  | matched htable hrow hmatches => exact hmatched _ (mem_start_iff.2 ⟨htable, _, hrow, hmatches⟩)
  | cascade hk hcascade _ hdepends ih => exact hclosed _ hk hcascade _ _ ih hdepends

end Tables

/-! ## What the worklist dooms -/

namespace Worklist

variable {d : Tables} {m : Model} {table : String} {filter : Row} {w w' : Worklist}

/-- What holds between the rounds of a deletion: no row goes twice, only rows that go are
looked at, and none of those that it started with is lost. -/
structure Follows (w : Worklist) (d : Tables) (m : Model) (table : String) (filter : Row) :
    Prop where
  nodup : w.doomed.Nodup
  goes : ∀ p, p ∈ w.doomed ∨ p ∈ w.stack → d.Goes m table filter p
  keeps : ∀ p ∈ d.start table filter, p ∈ w.doomed ∨ p ∈ w.stack

theorem follows_start : Follows ⟨d.start table filter, []⟩ d m table filter where
  nodup := List.nodup_nil
  goes := by
    intro p hp
    rcases hp with hp | hp
    · cases hp
    · obtain ⟨htable, row, hrow, hmatches⟩ := Tables.mem_start_iff.1 hp
      exact .matched htable hrow hmatches
  keeps := fun p hp => Or.inr hp

theorem Round.follows (h : Round d m w w') (hw : w.Follows d m table filter) :
    w'.Follows d m table filter := by
  cases h with
  | @skip p stack doomed hp =>
    refine ⟨hw.nodup, fun q hq => hw.goes q (hq.imp_right (List.mem_cons_of_mem _)), ?_⟩
    intro q hq
    rcases hw.keeps q hq with hdoomed | hstack
    · exact Or.inl hdoomed
    · rcases List.mem_cons.1 hstack with rfl | hstack
      · -- There is a row at each place that is to be looked at.
        have hrow := (hw.goes q (Or.inr List.mem_cons_self)).isSome_row?
        rcases hp with hp | hp
        · exact Or.inl hp
        · rw [hp] at hrow
          cases hrow
      · exact Or.inr hstack
  | @doom p stack doomed pending row hp hrow hpending =>
    have hgoes : d.Goes m table filter p := hw.goes p (Or.inr List.mem_cons_self)
    refine ⟨List.nodup_cons.2 ⟨hp, hw.nodup⟩, ?_, ?_⟩
    · intro q hq
      rcases hq with hq | hq
      · rcases List.mem_cons.1 hq with rfl | hq
        · exact hgoes
        · exact hw.goes q (Or.inl hq)
      · rcases List.mem_append.1 hq with hq | hq
        · obtain ⟨k, hk, hcascade, hdepends⟩ :=
            Tables.exists_cascade_of_mem hpending hrow (List.mem_reverse.1 hq)
          exact .cascade hk hcascade hgoes hdepends
        · exact hw.goes q (Or.inr (List.mem_cons_of_mem _ hq))
    · intro q hq
      rcases hw.keeps q hq with hdoomed | hstack
      · exact Or.inl (List.mem_cons_of_mem _ hdoomed)
      · rcases List.mem_cons.1 hstack with rfl | hstack
        · exact Or.inl List.mem_cons_self
        · exact Or.inr (List.mem_append.2 (Or.inr hstack))

theorem Rounds.follows (h : Rounds d m ⟨d.start table filter, []⟩ w) :
    w.Follows d m table filter :=
  h.invariant (fun _ _ hround => hround.follows) follows_start

end Worklist

namespace Tables

variable {d : Tables} {m : Model} {table : String} {filter : Row} {doomed : List Position}

/-- A deletion that is let through dooms the rows that go and no others, none of them
twice. -/
theorem mem_doomed_iff (h : d.doomedFrom m (d.start table filter) [] = .ok doomed)
    {p : Position} : p ∈ doomed ↔ d.Goes m table filter p := by
  have hfollows := (Worklist.rounds_of_ok h).follows
  constructor
  · intro hp
    exact hfollows.goes p (Or.inl hp)
  · refine Goes.least ?_ ?_
    · intro q hq
      rcases hfollows.keeps q hq with hq | hq
      · exact hq
      · cases hq
    · intro k hk _ q q' hq' hdepends
      exact dependent_mem_doomed h hk hq' hdepends

theorem nodup_doomed (h : d.doomedFrom m (d.start table filter) [] = .ok doomed) :
    doomed.Nodup :=
  (Worklist.rounds_of_ok h).follows.nodup

end Tables

end PipelineEngine
