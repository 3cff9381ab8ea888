import PipelineEngine.Proofs.Model.Linked

/-!
# Plans without faults

What it means for the steps of a plan that nothing was found wrong with it: their names
are different, what their mappings refer to by name stands before them
(`Plan.exists_earlier_of_faults`), and so do as many explicit steps as it takes to reach
a position that they refer to (`Plan.lt_countP_of_faults`).
-/

namespace PipelineEngine

/-- The references of a mapping; a source that cannot be read has none. -/
def Mapping.references (m : Mapping) : List Reference :=
  match Expr.parseMapping m.source with
  | .ok e => e.references
  | .error _ => []

/-- The references of the mappings of a step. -/
def Step.references (s : Step) : List Reference := s.mappings.flatMap Mapping.references

/-- The step names to which the mappings of a step refer. -/
def Step.referencedNames (s : Step) : List String := s.references.filterMap Reference.stepName?

theorem Step.mem_referencedNames_iff {s : Step} {name : String} :
    name ∈ s.referencedNames ↔ ∃ r ∈ s.references, r.root = .named name := by
  unfold referencedNames
  rw [List.mem_filterMap]
  constructor
  · rintro ⟨r, hr, hname⟩
    refine ⟨r, hr, ?_⟩
    cases hroot : r.root <;> simp_all [Reference.stepName?]
  · rintro ⟨r, hr, hroot⟩
    exact ⟨r, hr, by simp [Reference.stepName?, hroot]⟩

namespace Plan

variable {d : Document} {scope : String} {plan : List PlannedStep} {withHooks : Bool}

/-- The names of the steps that are looked at are different. -/
theorem nodup_of_faults (h : faults d scope plan true = []) :
    (plan.map (·.step.name)).Nodup := by
  rw [faults, List.append_eq_nil_iff, ConfigFault.ofNames_eq_nil_iff] at h
  have hnames : ((plan.zipIdx.filter fun p => true || !p.1.hook).map fun p =>
      p.1.step.name).Nodup := h.1
  have hall : plan.zipIdx.filter (fun p => true || !p.1.hook) = plan.zipIdx := by
    rw [List.filter_eq_self]
    intro entry _
    rfl
  have hmap : plan.zipIdx.map (fun p => p.1.step.name) = plan.map (·.step.name) := by
    show plan.zipIdx.map ((fun p : PlannedStep => p.step.name) ∘ Prod.fst) = _
    rw [← List.map_map, List.zipIdx_map_fst]
  rw [hall, hmap] at hnames
  exact hnames

/-- The names of the explicit steps are different when only they are looked at. -/
theorem nodup_explicit_of_faults (h : faults d scope plan false = []) :
    ((plan.filter fun e => !e.hook).map (·.step.name)).Nodup := by
  rw [faults, List.append_eq_nil_iff, ConfigFault.ofNames_eq_nil_iff] at h
  have hnames : ((plan.zipIdx.filter fun p => false || !p.1.hook).map fun p =>
      p.1.step.name).Nodup := h.1
  have hexplicit : plan.filter (fun e => !e.hook) =
      (plan.zipIdx.filter fun p => false || !p.1.hook).map (·.1) := by
    have hfilter := List.filter_map (p := fun e : PlannedStep => !e.hook) (f := Prod.fst)
      (l := plan.zipIdx)
    rw [List.zipIdx_map_fst] at hfilter
    exact hfilter
  rw [hexplicit, List.map_map]
  exact hnames

variable {front back : List PlannedStep} {entry : PlannedStep}

/-- Nothing is wrong with a step of a plan without faults. -/
theorem stepFaults_of_faults (h : faults d scope plan withHooks = []) (hmem : entry ∈ plan)
    (hentry : withHooks = true ∨ entry.hook = false) :
    ∃ index, stepFaults d scope plan index entry = [] := by
  rw [faults, List.append_eq_nil_iff, List.flatMap_eq_nil_iff] at h
  obtain ⟨index, hindex⟩ := List.mem_iff_getElem?.1 hmem
  refine ⟨index, h.2 (entry, index) (List.mem_filter.2 ⟨?_, ?_⟩)⟩
  · exact List.mem_zipIdx_iff_getElem?.2 hindex
  · rcases hentry with hentry | hentry <;> simp [hentry]

/-- Nothing is wrong with the references of a mapping without faults. -/
theorem referenceFault?_of_mappingFaults {location : String} {index : Nat} {m : Mapping}
    (h : mappingFaults location plan index entry m = []) {r : Reference} (hr : r ∈ m.references) :
    referenceFault? location plan index entry r = none := by
  rw [mappingFaults] at h
  rw [Mapping.references] at hr
  cases hparse : Expr.parseMapping m.source with
  | error e => simp [hparse] at hr
  | ok e =>
    simp only [hparse] at hr h
    exact List.filterMap_eq_nil_iff.1 h r hr

/-- Nothing is wrong with the references of a step of a plan without faults. -/
theorem referenceFault?_of_faults (h : faults d scope plan withHooks = [])
    (hplan : plan = front ++ entry :: back) (hentry : withHooks = true ∨ entry.hook = false)
    {r : Reference} (hr : r ∈ entry.step.references) :
    ∃ location, referenceFault? location plan front.length entry r = none := by
  rw [faults, List.append_eq_nil_iff, List.flatMap_eq_nil_iff] at h
  have hindex : (entry, front.length) ∈ plan.zipIdx := by
    rw [List.mem_zipIdx_iff_getElem?, hplan]
    simp
  have hchecked : (entry, front.length) ∈
      plan.zipIdx.filter fun p => withHooks || !p.1.hook := by
    refine List.mem_filter.2 ⟨hindex, ?_⟩
    rcases hentry with hentry | hentry <;> simp [hentry]
  have hfaults := h.2 (entry, front.length) hchecked
  simp only [stepFaults, List.append_eq_nil_iff, List.flatMap_eq_nil_iff] at hfaults
  obtain ⟨m, hm, hr⟩ := List.mem_flatMap.1 hr
  exact ⟨_, referenceFault?_of_mappingFaults (hfaults.2 m hm) hr⟩

/-- A name to which a step of a plan without faults refers is that of an earlier step. -/
theorem exists_earlier_of_faults (h : faults d scope plan withHooks = [])
    (hplan : plan = front ++ entry :: back) (hentry : withHooks = true ∨ entry.hook = false)
    {name : String} (hname : name ∈ entry.step.referencedNames) :
    ∃ e ∈ front, e.step.name = name := by
  obtain ⟨r, hr, hroot⟩ := Step.mem_referencedNames_iff.1 hname
  obtain ⟨location, hnone⟩ := referenceFault?_of_faults h hplan hentry hr
  simp only [referenceFault?, hroot] at hnone
  split at hnone
  · rename_i position hfind
    split at hnone
    · rename_i hlt
      obtain ⟨hlength, hnamed, -⟩ := List.findIdx?_eq_some_iff_getElem.1 hfind
      refine ⟨plan[position], ?_, by simpa using hnamed⟩
      subst hplan
      rw [List.getElem_append_left hlt]
      exact List.getElem_mem hlt
    · cases hnone
  · cases hnone

/-- A position to which a step of a plan without faults refers is taken by an earlier
explicit step. -/
theorem lt_countP_of_faults (h : faults d scope plan withHooks = [])
    (hplan : plan = front ++ entry :: back) (hentry : withHooks = true ∨ entry.hook = false)
    {r : Reference} (hr : r ∈ entry.step.references) {position : Nat}
    (hroot : r.root = .pipeline position) : position < front.countP (fun e => !e.hook) := by
  obtain ⟨location, hnone⟩ := referenceFault?_of_faults h hplan hentry hr
  have htake : plan.take front.length = front := by
    rw [hplan, List.take_left]
  simp only [referenceFault?, hroot, htake] at hnone
  split at hnone
  · cases hnone
  · split at hnone
    · assumption
    · cases hnone

end Plan

end PipelineEngine
