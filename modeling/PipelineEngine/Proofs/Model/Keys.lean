import Mathlib.Data.List.Forall2
import PipelineEngine.Proofs.Model.Linked

/-!
# The foreign keys of a linked document

A foreign key of a model belongs to one constraint of the document, and both its ends
exist (`ForeignKey.Resolves`).

* `Constraint.of_linkTarget_eq_ok` and `Constraint.exists_target_of_linkFaults`: what one
  link points at, and that all links of a constraint without faults point at one table.
* `Document.forall₂_foreignKeys`: the constraints of a linked document and the foreign keys
  of its model, one by one.

The lemmas of the first section compare a list of declarations with what became of them.
-/

namespace PipelineEngine

/-! ## Declarations one by one -/

section
variable {α β γ : Type} {R : α → β → Prop}

/-- What a check looks up is there when the check does not end in what it gives for a
missing one. -/
theorem isSome_of_ite_isNone {found : Option α} {missing otherwise result : β}
    (h : (if found.isNone then missing else otherwise) = result) (hne : missing ≠ result) :
    found.isSome ∧ otherwise = result := by
  cases found with
  | none => exact absurd h hne
  | some a => exact ⟨rfl, h⟩

/-- Members that all give a value, and the values that they give. -/
theorem exists_mapM_eq_some {l : List α} {f : α → Option β}
    (h : ∀ a ∈ l, ∃ b, f a = some b ∧ R a b) : ∃ r, l.mapM f = some r ∧ List.Forall₂ R l r := by
  induction l with
  | nil => exact ⟨[], rfl, .nil⟩
  | cons a rest ih =>
    obtain ⟨b, hb, hR⟩ := h a List.mem_cons_self
    obtain ⟨bs, hbs, hrest⟩ := ih fun a' ha' => h a' (List.mem_cons_of_mem _ ha')
    refine ⟨b :: bs, ?_, .cons hR hrest⟩
    rw [List.mapM_cons, hb, hbs]
    rfl

/-- Members that give a value when they pass a test and none otherwise. -/
theorem forall₂_filterMap {l : List α} {test : α → Bool} {f : α → Option β}
    (hpass : ∀ a ∈ l, test a = true → ∃ b, f a = some b ∧ R a b)
    (hfail : ∀ a ∈ l, test a = false → f a = none) :
    List.Forall₂ R (l.filter test) (l.filterMap f) := by
  induction l with
  | nil => exact .nil
  | cons a rest ih =>
    have hrest := ih (fun a' ha' => hpass a' (List.mem_cons_of_mem _ ha'))
      fun a' ha' => hfail a' (List.mem_cons_of_mem _ ha')
    cases htest : test a with
    | true =>
      obtain ⟨b, hb, hR⟩ := hpass a List.mem_cons_self htest
      rw [List.filter_cons_of_pos htest, List.filterMap_cons_some hb]
      exact .cons hR hrest
    | false =>
      rw [List.filter_cons_of_neg (by simp [htest]),
        List.filterMap_cons_none (hfail a List.mem_cons_self htest)]
      exact hrest

/-- Members that each give lists that correspond. -/
theorem forall₂_flatMap {l : List γ} {f : γ → List α} {g : γ → List β}
    (h : ∀ c ∈ l, List.Forall₂ R (f c) (g c)) :
    List.Forall₂ R (l.flatMap f) (l.flatMap g) := by
  have hsame : List.Forall₂ (fun c c' => c = c' ∧ c ∈ l) l l :=
    List.forall₂_same.2 fun c hc => ⟨rfl, hc⟩
  refine List.rel_flatMap hsame ?_
  rintro c c' ⟨rfl, hc⟩
  exact h c hc

end

/-! ## Foreign keys -/

/-- A foreign key is what a constraint of a table declares, and both its ends exist. -/
structure ForeignKey.Resolves (k : ForeignKey) (m : Model) (t : Table) (c : Constraint)
    (index : Nat) : Prop where
  /-- The table is the one that holds the constraint. -/
  declared : k.table = t.name ∧ m.table? k.table = some t
  name : k.name = c.label t.name index
  nonempty : k.columns ≠ []
  /-- Each link of the constraint names a column of the table and one of the target. -/
  columns : ∃ target, m.table? k.target = some target ∧
    List.Forall₂ (fun (mapping : Mapping) link => link.1 = mapping.source ∧
      (t.column? link.1).isSome ∧ mapping.destination = some (k.target ++ "." ++ link.2) ∧
      (target.column? link.2).isSome) c.mappings k.columns
  onDelete : k.onDelete = c.onDelete.getD .restrict
  onUpdate : k.onUpdate = c.onUpdate.getD .restrict

namespace Constraint

variable {d : Document} {t : Table} {c : Constraint}

/-- What a link points at exists and is what it names. -/
theorem of_linkTarget_eq_ok {m : Mapping} {target column : String}
    (h : linkTarget d m = .ok (target, column)) :
    m.destination = some (target ++ "." ++ column) ∧
      ∃ t, d.table? target = some t ∧ (t.column? column).isSome := by
  unfold linkTarget at h
  cases hdestination : m.destination with
  | none => simp [hdestination] at h
  | some text =>
    cases hcut : Text.cutLast? '.' text.toList with
    | none => simp [hdestination, hcut] at h
    | some parts =>
      obtain ⟨before, after⟩ := parts
      simp only [hdestination, hcut] at h
      cases htable : d.table? (String.ofList before) with
      | none => simp [htable] at h
      | some t =>
        simp only [htable] at h
        obtain ⟨hcolumn, h⟩ := isSome_of_ite_isNone h (by simp)
        obtain ⟨rfl, rfl⟩ := Prod.mk.inj (Except.ok.inj h)
        have htext := congrArg String.ofList (Text.cutLast?_eq_some hcut)
        rw [String.ofList_toList] at htext
        refine ⟨congrArg some ?_, t, htable, hcolumn⟩
        rw [htext, ← String.toList_inj]
        simp

/-- The links of a constraint without faults point at one table. -/
theorem exists_target_of_linkFaults {label : String} {target : Option String}
    {mappings : List Mapping} (h : linkFaults d t label target mappings = []) :
    ∃ name, (∀ other, target = some other → name = other) ∧
      ∀ m ∈ mappings, ∃ column, linkTarget d m = .ok (name, column) := by
  induction mappings generalizing target with
  | nil => exact ⟨target.getD "", by rintro _ rfl; rfl, by simp⟩
  | cons m rest ih =>
    rw [linkFaults] at h
    cases hlink : linkTarget d m with
    | error reason =>
      simp [hlink] at h
    | ok link =>
      obtain ⟨table, column⟩ := link
      simp only [hlink] at h
      cases target with
      | none =>
        obtain ⟨name, hname, hrest⟩ := ih (List.append_eq_nil_iff.1 h).2
        obtain rfl : name = table := hname table rfl
        exact ⟨name, by simp, List.forall_mem_cons.2 ⟨⟨column, hlink⟩, hrest⟩⟩
      | some other =>
        simp only at h
        split at h
        · rename_i hsame
          obtain ⟨name, hname, hrest⟩ := ih (List.append_eq_nil_iff.1 h).2
          obtain rfl : name = other := hname other rfl
          exact ⟨name, hname, List.forall_mem_cons.2 ⟨⟨column, hsame ▸ hlink⟩, hrest⟩⟩
        · simp at h

/-- What a link of a foreign key comes to: its target, its source and the column of the
target. -/
def link? (d : Document) (m : Mapping) : Option (String × String × String) :=
  (linkTarget d m).toOption.map fun target => (target.1, m.source, target.2)

theorem foreignKey?_of_links {index : Nat} {link : String × String × String}
    {rest : List (String × String × String)} (hkind : c.kind = .foreignKey)
    (hlinks : c.mappings.mapM (link? d) = some (link :: rest)) :
    c.foreignKey? d t index = some {
      table := t.name
      name := c.label t.name index
      target := link.1
      columns := (link :: rest).map (·.2)
      onDelete := c.onDelete.getD .restrict
      onUpdate := c.onUpdate.getD .restrict } := by
  unfold foreignKey?
  rw [hkind]
  refine Option.bind_eq_some_iff.2 ⟨link :: rest, ?_, rfl⟩
  rw [← hlinks]
  refine congrArg (fun read => c.mappings.mapM read) (funext fun m => ?_)
  rw [link?]
  cases (linkTarget d m).toOption <;> rfl

/-- A constraint without faults declares a foreign key whose ends exist. -/
theorem exists_foreignKey_of_faults {epoch index : Nat} (h : c.faults d t index = [])
    (hkind : c.kind = .foreignKey) (ht : d.table? t.name = some t) :
    ∃ k, c.foreignKey? d t index = some k ∧ k.Resolves (d.linked epoch) t c index := by
  simp only [faults, hkind] at h
  split at h
  · cases h
  · rename_i hmappings
    have hsources := isSome_column?_of_linkFaults h
    obtain ⟨target, -, htargets⟩ := exists_target_of_linkFaults h
    obtain ⟨links, hlinks, hpairs⟩ := exists_mapM_eq_some (f := link? d)
      (R := fun m link => link.1 = target ∧ link.2.1 = m.source ∧
        linkTarget d m = .ok (target, link.2.2)) fun m hm => by
          obtain ⟨column, hlink⟩ := htargets m hm
          exact ⟨(target, m.source, column), by rw [link?, hlink]; rfl, rfl, rfl, hlink⟩
    cases links with
    | nil =>
      exact absurd (List.isEmpty_iff.2 (List.forall₂_nil_right_iff.1 hpairs)) hmappings
    | cons link rest =>
      obtain ⟨m, -, ⟨htarget, -, hlink⟩, -, -⟩ := List.forall₂_cons_right_iff.1 hpairs
      obtain ⟨-, table, htable, -⟩ := of_linkTarget_eq_ok hlink
      refine ⟨_, foreignKey?_of_links hkind hlinks, ⟨rfl, ht⟩, rfl, by simp,
        ⟨table, htarget ▸ htable, ?_⟩, rfl, rfl⟩
      refine List.forall₂_map_right_iff.2
        (((List.forall₂_and_left _ _).2 ⟨hsources, hpairs⟩).imp ?_)
      rintro m' link' ⟨hsource, -, hfrom, hlink'⟩
      obtain ⟨hdestination, table', htable', hcolumn⟩ := of_linkTarget_eq_ok hlink'
      obtain rfl : table' = table := Option.some.inj (htable'.symm.trans htable)
      exact ⟨hfrom, hfrom ▸ hsource, htarget ▸ hdestination, hcolumn⟩

end Constraint

namespace Document

/-- The constraints of a document that declare foreign keys, each with its table and its
number there. -/
def references (d : Document) : List (Table × Constraint × Nat) :=
  d.tables.flatMap fun t =>
    (t.constraints.zipIdx.filter fun entry => entry.1.kind = .foreignKey).map fun entry =>
      (t, entry.1, entry.2)

/-- The foreign keys of a linked document are those that its constraints declare, one for
each. -/
theorem forall₂_foreignKeys {d : Document} {epoch : Nat} {m : Model}
    (h : d.link epoch = .ok m) :
    List.Forall₂ (fun (entry : Table × Constraint × Nat) k =>
      k.Resolves m entry.1 entry.2.1 entry.2.2) d.references m.foreignKeys := by
  have htables := (tableFaults_of_link h).2
  have hfind := fun t => table?_of_mem h (t := t)
  obtain rfl := (link_eq_ok_iff.1 h).2
  refine forall₂_flatMap fun t ht => ?_
  refine List.forall₂_map_left_iff.2 (forall₂_filterMap ?_ ?_)
  · rintro ⟨c, index⟩ hc hkind
    exact Constraint.exists_foreignKey_of_faults ((htables t ht).constraints c index hc) (of_decide_eq_true hkind)
      (hfind t ht)
  · rintro ⟨c, index⟩ - hkind
    have hunique : c.kind = .unique := by
      cases hc : c.kind with
      | unique => rfl
      | foreignKey => simp [hc] at hkind
    simp [Constraint.foreignKey?, hunique]

end Document

end PipelineEngine
