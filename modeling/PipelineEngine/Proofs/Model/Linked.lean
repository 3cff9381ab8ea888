import PipelineEngine.Model.Basic
import PipelineEngine.Proofs.Fallible

/-!
# What linking makes sure of

A document becomes a model only when nothing is wrong with it.  The faults are collected
in one list, so that list is empty and so is each part of it.

* `isFaultless_of_link`: no pass over the document finds a fault.  `Table.IsFaultless` and
  `Pipeline.IsFaultless` say what this comes to for one table and for one pipeline.
* `repeatedNames_eq_nil_iff`: no name is reported when no name occurs twice.
* `table?_of_mem`, `pipeline?_of_mem`: a table or a pipeline is found under its name.
* `exists_table_of_mem_foreignKeys`: a foreign key belongs to a table that declares its
  columns.
-/

namespace PipelineEngine

/-! ## Names -/

/-- Among members with different names each is found under its own. -/
theorem find?_name_of_nodup {α : Type} {name : α → String} {l : List α} (h : (l.map name).Nodup)
    {a : α} (ha : a ∈ l) : l.find? (fun b => decide (name b = name a)) = some a := by
  induction l with
  | nil => cases ha
  | cons first rest ih =>
    rw [List.map_cons, List.nodup_cons] at h
    rcases List.mem_cons.1 ha with rfl | hrest
    · simp
    · have hne : name first ≠ name a := by
        intro heq
        exact h.1 (heq ▸ List.mem_map.2 ⟨a, hrest, rfl⟩)
      rw [List.find?_cons_of_neg (by simpa using hne)]
      exact ih h.2 hrest

namespace ConfigFault

theorem repeatedNames.go_eq_nil_iff {seen names : List String} (hseen : seen.Nodup) :
    repeatedNames.go seen names = [] ↔ names.Nodup ∧ ∀ name ∈ names, name ∉ seen := by
  induction names generalizing seen with
  | nil => simp [repeatedNames.go]
  | cons name rest ih =>
    rw [repeatedNames.go]
    by_cases hmem : name ∈ seen
    · have hcount : seen.count name = 1 := by
        rw [hseen.count, if_pos hmem]
      simp [hcount, hmem]
    · have hcount : seen.count name ≠ 1 := by
        rw [hseen.count, if_neg hmem]
        decide
      rw [if_neg hcount, ih (List.nodup_cons.2 ⟨hmem, hseen⟩), List.nodup_cons]
      constructor
      · rintro ⟨hrest, hnew⟩
        have hname : name ∉ rest := fun h => hnew name h List.mem_cons_self
        refine ⟨⟨hname, hrest⟩, ?_⟩
        intro other hother
        rcases List.mem_cons.1 hother with rfl | hother
        · exact hmem
        · exact fun h => hnew other hother (List.mem_cons_of_mem _ h)
      · rintro ⟨⟨hname, hrest⟩, hnew⟩
        refine ⟨hrest, ?_⟩
        intro other hother hseen'
        rcases List.mem_cons.1 hseen' with rfl | hseen'
        · exact hname hother
        · exact hnew other (List.mem_cons_of_mem _ hother) hseen'

/-- No name is reported exactly when no name occurs twice. -/
theorem repeatedNames_eq_nil_iff {names : List String} :
    repeatedNames names = [] ↔ names.Nodup := by
  rw [repeatedNames, repeatedNames.go_eq_nil_iff List.nodup_nil]
  simp

theorem ofNames_eq_nil_iff {kind scope : String} {names : List String} :
    ofNames kind scope names = [] ↔ names.Nodup := by
  rw [ofNames, List.map_eq_nil_iff, repeatedNames_eq_nil_iff]

end ConfigFault

/-! ## Documents without faults -/

/-- The columns of a table have different names, and nothing is wrong with any column or
constraint. -/
structure Table.IsFaultless (t : Table) (d : Document) : Prop where
  names : (t.columns.map (·.name)).Nodup
  columns : ∀ c ∈ t.columns, Column.faults d t c = []
  constraints : ∀ c index, (c, index) ∈ t.constraints.zipIdx → c.faults d t index = []

theorem Table.isFaultless_of_faults {d : Document} {t : Table} (h : t.faults d = []) :
    t.IsFaultless d := by
  simp only [faults, List.append_eq_nil_iff, List.flatMap_eq_nil_iff] at h
  obtain ⟨⟨⟨hnames, hcolumns⟩, hconstraints⟩, -⟩ := h
  exact ⟨ConfigFault.ofNames_eq_nil_iff.1 hnames, hcolumns,
    fun c index hc => hconstraints (c, index) hc⟩

/-- No step of a pipeline has the name of a hook, and nothing is wrong with its plan or its
parser. -/
structure Pipeline.IsFaultless (p : Pipeline) (d : Document) : Prop where
  names : ∀ s ∈ p.steps, s.name ∉ d.hooks.steps.map (·.name)
  plan : ∃ scope, Plan.faults d scope (d.hooks.plan p.steps) false = []
  parser : ∀ s, p.parser = some s → ∃ scope, Plan.faults d scope (Plan.ofSteps [s]) true = []

theorem Pipeline.isFaultless_of_fault {d : Document} {p : Pipeline} (h : d.pipelineFault p = []) :
    p.IsFaultless d := by
  simp only [Document.pipelineFault, List.append_eq_nil_iff, List.map_eq_nil_iff,
    List.filter_eq_nil_iff] at h
  obtain ⟨⟨hnames, hplan⟩, hparser⟩ := h
  refine ⟨fun s hs hmem => hnames s hs (decide_eq_true hmem), ⟨_, hplan⟩, ?_⟩
  intro s hs
  rw [hs] at hparser
  exact ⟨_, hparser⟩

namespace Document

variable {d : Document} {epoch : Nat} {m : Model}

theorem link_eq_ok_iff : d.link epoch = .ok m ↔ d.faults = [] ∧ d.linked epoch = m := by
  rw [link]
  split
  · rename_i hempty
    simp [List.isEmpty_iff.1 hempty]
  · rename_i hempty
    simp only [reduceCtorEq, false_iff, not_and]
    intro hfaults
    simp [hfaults] at hempty

/-- None of the passes over a document finds a fault. -/
structure IsFaultless (d : Document) : Prop where
  builders : d.builderFaults = []
  tables : d.tableFaults = []
  options : d.optionFaults = []
  pipelines : d.pipelineFaults = []
  endpoints : d.endpointFaults = []
  jobs : d.jobFaults = []

theorem faults_eq_nil_iff : d.faults = [] ↔ d.IsFaultless := by
  simp only [faults, List.append_eq_nil_iff]
  constructor
  · rintro ⟨⟨⟨⟨⟨hbuilders, htables⟩, hoptions⟩, hpipelines⟩, hendpoints⟩, hjobs⟩
    exact ⟨hbuilders, htables, hoptions, hpipelines, hendpoints, hjobs⟩
  · rintro ⟨hbuilders, htables, hoptions, hpipelines, hendpoints, hjobs⟩
    exact ⟨⟨⟨⟨⟨hbuilders, htables⟩, hoptions⟩, hpipelines⟩, hendpoints⟩, hjobs⟩

theorem isFaultless_of_link (h : d.link epoch = .ok m) : d.IsFaultless :=
  faults_eq_nil_iff.1 (link_eq_ok_iff.1 h).1

/-- The tables of a document without faults have different names, and nothing is wrong
with any of them. -/
theorem tableFaults_of_link (h : d.link epoch = .ok m) :
    (d.tables.map (·.name)).Nodup ∧ ∀ t ∈ d.tables, t.IsFaultless d := by
  have htables := (isFaultless_of_link h).tables
  rw [tableFaults, List.append_eq_nil_iff, ConfigFault.ofNames_eq_nil_iff,
    List.flatMap_eq_nil_iff] at htables
  exact ⟨htables.1, fun t ht => Table.isFaultless_of_faults (htables.2 t ht)⟩

/-- Nothing is wrong with the steps of any phase of a column. -/
theorem phaseFaults_of_link (h : d.link epoch = .ok m) {t : Table} (ht : t ∈ d.tables)
    {c : Column} (hc : c ∈ t.columns) (phase : ColumnPhase) :
    Column.phaseFaults d t c phase = [] := by
  have hcolumn : Column.faults d t c = [] := ((tableFaults_of_link h).2 t ht).columns c hc
  rw [Column.faults, List.append_eq_nil_iff, List.flatMap_eq_nil_iff] at hcolumn
  exact hcolumn.2 phase (by cases phase <;> simp)

/-- The pipelines of a document without faults have different names, and nothing is wrong
with any of them. -/
theorem pipelineFaults_of_link (h : d.link epoch = .ok m) :
    (d.pipelines.map (·.name)).Nodup ∧ ∀ p ∈ d.pipelines, p.IsFaultless d := by
  have hpipelines := (isFaultless_of_link h).pipelines
  rw [pipelineFaults, List.append_eq_nil_iff, ConfigFault.ofNames_eq_nil_iff,
    List.flatMap_eq_nil_iff] at hpipelines
  exact ⟨hpipelines.1, fun p hp => Pipeline.isFaultless_of_fault (hpipelines.2 p hp)⟩

/-- Nothing is wrong with the hooks. -/
theorem hookFaults_of_link (h : d.link epoch = .ok m) :
    Plan.faults d "global hooks" (d.hooks.steps.map fun s => ⟨s, true⟩) true = [] := by
  have hoptions := (isFaultless_of_link h).options
  rw [optionFaults, List.append_eq_nil_iff] at hoptions
  exact hoptions.2

/-- A pipeline is found under its name. -/
theorem pipeline?_of_mem (h : d.link epoch = .ok m) {p : Pipeline}
    (hp : p ∈ m.document.pipelines) : m.pipeline? p.name = some p := by
  have hnames := (pipelineFaults_of_link h).1
  obtain rfl := (link_eq_ok_iff.1 h).2
  exact find?_name_of_nodup hnames hp

/-- A table is found under its name. -/
theorem table?_of_mem (h : d.link epoch = .ok m) {t : Table} (ht : t ∈ m.document.tables) :
    m.table? t.name = some t := by
  have hnames := (tableFaults_of_link h).1
  obtain rfl := (link_eq_ok_iff.1 h).2
  exact find?_name_of_nodup hnames ht

/-- A column of a declared table is found under its name. -/
theorem column?_of_mem (h : d.link epoch = .ok m) {t : Table} {name : String}
    (ht : m.table? name = some t) {c : Column} (hc : c ∈ t.columns) :
    t.column? c.name = some c := by
  have htables := (tableFaults_of_link h).2
  obtain rfl := (link_eq_ok_iff.1 h).2
  exact find?_name_of_nodup (htables t (List.mem_of_find?_eq_some ht)).names hc

end Document

/-! ## Foreign keys -/

/-- A constraint without faults links only columns that its table declares. -/
theorem Constraint.isSome_column?_of_linkFaults {d : Document} {t : Table} {label : String}
    {target : Option String} {mappings : List Mapping}
    (h : linkFaults d t label target mappings = []) :
    ∀ m ∈ mappings, (t.column? m.source).isSome := by
  induction mappings generalizing target with
  | nil =>
    intro m hm
    cases hm
  | cons m rest ih =>
    have hparts : (t.column? m.source).isSome ∧
        ∃ target', linkFaults d t label target' rest = [] := by
      rw [linkFaults] at h
      cases hcolumn : t.column? m.source with
      | none =>
        simp only [hcolumn] at h
        split at h
        · cases h
        · split at h
          · cases h
          · split at h <;> cases h
      | some c =>
        refine ⟨rfl, ?_⟩
        simp only [hcolumn] at h
        split at h
        · cases h
        · split at h
          · exact ⟨_, h⟩
          · split at h
            · exact ⟨_, h⟩
            · cases h
    intro m' hm'
    rcases List.mem_cons.1 hm' with rfl | hm'
    · exact hparts.1
    · obtain ⟨target', hrest⟩ := hparts.2
      exact ih hrest m' hm'

/-- The local columns of a foreign key are the sources of the links of its constraint. -/
theorem Constraint.exists_mapping_of_foreignKey? {d : Document} {t : Table} {index : Nat}
    {c : Constraint} {k : ForeignKey} (h : c.foreignKey? d t index = some k) :
    c.kind = .foreignKey ∧ k.table = t.name ∧
      ∀ link ∈ k.columns, ∃ m ∈ c.mappings, m.source = link.1 := by
  unfold foreignKey? at h
  cases hkind : c.kind with
  | unique => simp [hkind] at h
  | foreignKey =>
    simp only [hkind] at h
    rw [Option.bind_eq_bind, Option.bind_eq_some_iff] at h
    obtain ⟨links, hlinks, h⟩ := h
    rw [Option.bind_eq_bind, Option.bind_eq_some_iff] at h
    obtain ⟨first, -, h⟩ := h
    cases h
    refine ⟨rfl, rfl, ?_⟩
    intro link hlink
    obtain ⟨⟨target, source, column⟩, hmem, rfl⟩ := List.mem_map.1 hlink
    obtain ⟨m, hm, hsource⟩ := Fallible.of_mapM_eq_some hlinks _ hmem
    rw [Option.bind_eq_bind, Option.bind_eq_some_iff] at hsource
    obtain ⟨⟨table, column'⟩, -, hsource⟩ := hsource
    cases hsource
    exact ⟨m, hm, rfl⟩

/-- A foreign key belongs to a table that declares its local columns. -/
theorem Document.exists_table_of_mem_foreignKeys {d : Document} {epoch : Nat} {m : Model}
    (h : d.link epoch = .ok m) {k : ForeignKey} (hk : k ∈ m.foreignKeys) :
    ∃ t, m.table? k.table = some t ∧ ∀ link ∈ k.columns, (t.column? link.1).isSome := by
  have htables := (tableFaults_of_link h).2
  have hfind := fun t => table?_of_mem h (t := t)
  obtain rfl := (link_eq_ok_iff.1 h).2
  obtain ⟨t, ht, hkey⟩ := List.mem_flatMap.1 hk
  obtain ⟨⟨c, index⟩, hc, hforeign⟩ := List.mem_filterMap.1 hkey
  obtain ⟨hkind, htable, hsources⟩ := Constraint.exists_mapping_of_foreignKey? hforeign
  refine ⟨t, htable ▸ hfind t ht, ?_⟩
  have hconstraint : c.faults d t index = [] := (htables t ht).constraints c index hc
  simp only [Constraint.faults, hkind] at hconstraint
  split at hconstraint
  · cases hconstraint
  · intro link hlink
    obtain ⟨mapping, hmapping, hsource⟩ := hsources link hlink
    rw [← hsource]
    exact Constraint.isSome_column?_of_linkFaults hconstraint mapping hmapping

end PipelineEngine
