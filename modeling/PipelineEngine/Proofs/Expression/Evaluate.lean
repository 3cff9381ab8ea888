import PipelineEngine.Proofs.Expression.Reference
import PipelineEngine.Proofs.Fallible
import PipelineEngine.Proofs.Model.Plan
import PipelineEngine.Run.Input

/-!
# Why evaluations fail, and what they depend on

An expression has no value only because one of its references has none, and the input of
a step cannot be built only because a reference of its mappings has none or a source
cannot be read.  Nothing but references makes a value depend on its context.

* `Expr.exists_reference_of_error`, `Step.exists_reference_of_unresolved`: the reference
  that is to blame.
* `Expr.evaluate_congr`, `Step.buildInput_congr`: contexts that agree about all references.
* `Expr.evaluate_of_references`: both for one expression, and what linking has to do with it.
-/

namespace PipelineEngine

/-- An expression fails with the error of one of its references. -/
theorem Expr.exists_reference_of_error {e : Expr} {ctx : Context} {u : UnresolvedReference}
    (h : e.evaluate ctx = .error u) : ∃ r ∈ e.references, r.resolve ctx = .error u := by
  induction e with
  | literal v => cases h
  | ref r => exact ⟨r, List.mem_singleton_self r, h⟩
  | template segments =>
    rw [evaluate, Fallible.map_eq_error_iff] at h
    obtain ⟨segment, hmem, hsegment⟩ := Fallible.exists_of_mapM_eq_error h
    cases segment with
    | text s => cases hsegment
    | ref r =>
      rw [Segment.render, Fallible.map_eq_error_iff] at hsegment
      exact ⟨r, List.mem_filterMap.2 ⟨.ref r, hmem, rfl⟩, hsegment⟩
  | not inner ih =>
    rw [evaluate, Fallible.map_eq_error_iff] at h
    exact ih h
  | eq left right ihl ihr | ne left right ihl ihr =>
    rw [evaluate, Fallible.bind_eq_error_iff] at h
    rcases h with hleft | ⟨l, -, hright⟩
    · obtain ⟨r, hr, hfails⟩ := ihl hleft
      exact ⟨r, List.mem_append_left _ hr, hfails⟩
    · obtain ⟨r, hr, hfails⟩ := ihr (Fallible.bind_pure_eq_error_iff.1 hright)
      exact ⟨r, List.mem_append_right _ hr, hfails⟩
  | and left right ihl ihr =>
    rw [evaluate, Fallible.bind_eq_error_iff] at h
    rcases h with hleft | ⟨l, -, h⟩
    · obtain ⟨r, hr, hfails⟩ := ihl hleft
      exact ⟨r, List.mem_append_left _ hr, hfails⟩
    · split at h
      · obtain ⟨r, hr, hfails⟩ := ihr (Fallible.bind_pure_eq_error_iff.1 h)
        exact ⟨r, List.mem_append_right _ hr, hfails⟩
      · cases h
  | or left right ihl ihr =>
    rw [evaluate, Fallible.bind_eq_error_iff] at h
    rcases h with hleft | ⟨l, -, h⟩
    · obtain ⟨r, hr, hfails⟩ := ihl hleft
      exact ⟨r, List.mem_append_left _ hr, hfails⟩
    · split at h
      · cases h
      · obtain ⟨r, hr, hfails⟩ := ihr (Fallible.bind_pure_eq_error_iff.1 h)
        exact ⟨r, List.mem_append_right _ hr, hfails⟩

/-- A source that cannot be read is malformed. -/
theorem Expr.parseMapping_ne_unresolved (source : String) (u : UnresolvedReference) :
    Expr.parseMapping source ≠ .error (.unresolved u) := by
  rw [parseMapping]
  split
  · simp
  · split
    · simp
    · split
      · split <;> simp
      · simp

/-- The value of a mapping is missing only for want of one of its references. -/
theorem Mapping.exists_reference_of_unresolved {m : Mapping} {ctx : Context}
    {u : UnresolvedReference} (h : m.evaluate ctx = .error (.unresolved u)) :
    ∃ r ∈ m.references, r.resolve ctx = .error u := by
  rw [evaluate, Fallible.bind_eq_error_iff] at h
  rcases h with hparse | ⟨e, hparse, h⟩
  · exact absurd hparse (Expr.parseMapping_ne_unresolved m.source u)
  · obtain ⟨u', hfails, hu⟩ := Fallible.mapError_eq_error_iff.1 h
    cases hu
    rw [references, hparse]
    exact Expr.exists_reference_of_error hfails

theorem Mapping.exists_reference_of_writeAll {ctx : Context} {mappings : List Mapping}
    {fields : Fields Value} {u : UnresolvedReference}
    (h : writeAll ctx mappings fields = .error (.unresolved u)) :
    ∃ m ∈ mappings, ∃ r ∈ m.references, r.resolve ctx = .error u := by
  induction mappings generalizing fields with
  | nil => cases h
  | cons m rest ih =>
    rw [writeAll, Fallible.bind_eq_error_iff] at h
    rcases h with hm | ⟨v, -, h⟩
    · exact ⟨m, List.mem_cons_self, exists_reference_of_unresolved hm⟩
    · obtain ⟨m', hm', href⟩ := ih h
      exact ⟨m', List.mem_cons_of_mem _ hm', href⟩

/-- Mappings that can all be read fail only for want of a reference. -/
theorem Mapping.exists_unresolved_of_writeAll {ctx : Context} {mappings : List Mapping}
    {fields : Fields Value} {error : ExpressionError}
    (hread : ∀ m ∈ mappings, ∃ e, Expr.parseMapping m.source = .ok e)
    (h : writeAll ctx mappings fields = .error error) : ∃ u, error = .unresolved u := by
  induction mappings generalizing fields with
  | nil => cases h
  | cons m rest ih =>
    obtain ⟨⟨e, he⟩, hrest⟩ := List.forall_mem_cons.1 hread
    rw [writeAll, Fallible.bind_eq_error_iff] at h
    rcases h with hm | ⟨v, -, h⟩
    · rw [evaluate, he] at hm
      obtain ⟨u, -, rfl⟩ := Fallible.mapError_eq_error_iff.1 hm
      exact ⟨u, rfl⟩
    · exact ih hrest h

/-- The input of a step cannot be built for want of one of the references of its
mappings. -/
theorem Step.exists_reference_of_unresolved {s : Step} {ctx : Context} {initial : Payload}
    {u : UnresolvedReference} (h : s.buildInput ctx initial = .error (.unresolved u)) :
    ∃ r ∈ s.references, r.resolve ctx = .error u := by
  rw [buildInput] at h
  split at h
  · cases h
  · rw [Fallible.map_eq_error_iff] at h
    obtain ⟨m, hm, r, hr, hfails⟩ := Mapping.exists_reference_of_writeAll h
    exact ⟨r, List.mem_flatMap.2 ⟨m, hm, hr⟩, hfails⟩

/-! ## What evaluations depend on -/

/-- An expression has one value in contexts that agree about its references. -/
theorem Expr.evaluate_congr {e : Expr} {ctx ctx' : Context}
    (h : ∀ r ∈ e.references, r.resolve ctx = r.resolve ctx') :
    e.evaluate ctx = e.evaluate ctx' := by
  induction e with
  | literal v => rfl
  | ref r => exact h r (List.mem_singleton_self r)
  | template segments =>
    have hrender : ∀ segment ∈ segments, segment.render ctx = segment.render ctx' := by
      intro segment hmem
      cases segment with
      | text s => rfl
      | ref r =>
        rw [Segment.render, Segment.render, h r (List.mem_filterMap.2 ⟨.ref r, hmem, rfl⟩)]
    rw [evaluate, evaluate, Fallible.mapM_congr hrender]
  | not inner ih => rw [evaluate, evaluate, ih h]
  | eq left right ihl ihr | ne left right ihl ihr | and left right ihl ihr
  | or left right ihl ihr =>
    obtain ⟨hleft, hright⟩ := List.forall_mem_append.1 h
    rw [evaluate, evaluate, ihl hleft, ihr hright]

theorem Mapping.evaluate_congr {m : Mapping} {ctx ctx' : Context}
    (h : ∀ r ∈ m.references, r.resolve ctx = r.resolve ctx') :
    m.evaluate ctx = m.evaluate ctx' := by
  rw [evaluate, evaluate]
  rw [references] at h
  cases hparse : Expr.parseMapping m.source with
  | error e => rfl
  | ok e =>
    rw [hparse] at h
    show (e.evaluate ctx).mapError _ = (e.evaluate ctx').mapError _
    rw [Expr.evaluate_congr h]

theorem Mapping.writeAll_congr {mappings : List Mapping} {ctx ctx' : Context}
    (h : ∀ m ∈ mappings, ∀ r ∈ m.references, r.resolve ctx = r.resolve ctx')
    (fields : Fields Value) : writeAll ctx mappings fields = writeAll ctx' mappings fields := by
  induction mappings generalizing fields with
  | nil => rfl
  | cons m rest ih =>
    obtain ⟨hm, hrest⟩ := List.forall_mem_cons.1 h
    simp only [writeAll, evaluate_congr hm, ih hrest]

/-- The input of a step depends on the references of its mappings and on the latest output. -/
theorem Step.buildInput_congr {s : Step} {ctx ctx' : Context}
    (h : ∀ r ∈ s.references, r.resolve ctx = r.resolve ctx')
    (hlast : ctx.lastOutput? = ctx'.lastOutput?) (initial : Payload) :
    s.buildInput ctx initial = s.buildInput ctx' initial := by
  have hmappings : ∀ m ∈ s.mappings, ∀ r ∈ m.references, r.resolve ctx = r.resolve ctx' :=
    fun m hm r hr => h r (List.mem_flatMap.2 ⟨m, hm, hr⟩)
  rw [buildInput, buildInput, hlast, Mapping.writeAll_congr hmappings]

/-- An expression depends on its context through its references alone: what they come to settles
what the expression comes to, and it fails only with a failure of theirs.  Where linking finds no
fault with a mapping, they are all references with which linking finds no fault at that place. -/
theorem Expr.evaluate_of_references (e : Expr) :
    (∀ ctx ctx' : Context, (∀ r ∈ e.references, r.resolve ctx = r.resolve ctx') →
        e.evaluate ctx = e.evaluate ctx') ∧
      (∀ (ctx : Context) (u : UnresolvedReference), e.evaluate ctx = .error u →
        ∃ r ∈ e.references, r.resolve ctx = .error u) ∧
      ∀ (m : Mapping) (location : String) (plan : List PlannedStep) (index : Nat)
        (step : PlannedStep), Expr.parseMapping m.source = .ok e →
        Plan.mappingFaults location plan index step m = [] →
        ∀ ctx ctx' : Context, (∀ r, Plan.referenceFault? location plan index step r = none →
          r.resolve ctx = r.resolve ctx') → e.evaluate ctx = e.evaluate ctx' := by
  refine ⟨fun _ _ => evaluate_congr, fun _ _ => exists_reference_of_error, ?_⟩
  intro m location plan index step hparse hfaults ctx ctx' hagree
  have hreferences : m.references = e.references := by rw [Mapping.references, hparse]
  refine evaluate_congr fun r hr => hagree r ?_
  exact Plan.referenceFault?_of_mappingFaults hfaults (hreferences ▸ hr)

/-! ### A hook that nothing refers to -/

/-- The reference to a step by its name alone. -/
def Reference.toStep (name : String) : Reference := ⟨name, .named name, []⟩

/-- Whether a check has passed and what is not there yet is true. -/
def Expr.passedAndLate : Expr :=
  .and (.ref (.toStep "check")) (.eq (.ref (.toStep "late")) (.literal (.bool true)))

/-- A context in which the check has passed. -/
def checked : Context := (Context.start .null []).record "check" (.parsed (.bool true)) false

/-- The same with the output of a hook. -/
def checkedAndTraced : Context := checked.record "trace" (.parsed (.string "check")) true

/-- A plan of the check and a step after it. -/
def checkPlan : List PlannedStep :=
  Plan.ofSteps [⟨"check", "builtin:identity", [], none, none⟩,
    ⟨"use", "builtin:identity", [⟨"$\x7bcheck\x7d", none⟩], none, none⟩]

theorem Expr.parse_check :
    Expr.parseMapping "$\x7bcheck\x7d" = .ok (.ref (.toStep "check")) := by
  have hparse : Expr.parseMapping "$\x7bcheck\x7d" =
      .ok (.ref ⟨String.ofList ['c', 'h', 'e', 'c', 'k'],
        .named (String.ofList ['c', 'h', 'e', 'c', 'k']), []⟩) :=
    Expr.parseMapping_of_name rfl (by decide) (List.all_eq_true.1 rfl) (by decide)
  exact hparse

/-- What the second step may refer to, the hook leaves as it is. -/
theorem resolve_checkedAndTraced {r : Reference}
    (h : Plan.referenceFault? "p" checkPlan 1 checkPlan[1] r = none) :
    r.resolve checked = r.resolve checkedAndTraced := by
  obtain ⟨raw, root, path⟩ := r
  cases root with
  | args | env => rfl
  | outcome => cases h
  | pipeline position =>
    have hposition : position < 1 := by
      by_contra hnot
      rw [Plan.referenceFault?] at h
      exact absurd h (by simp [checkPlan, Plan.ofSteps, hnot])
    obtain rfl : position = 0 := by omega
    rfl
  | named name =>
    by_cases hname : name = "check"
    · subst hname
      rfl
    · have hcheck : ¬ "check" = name := fun heq => hname heq.symm
      by_cases huse : "use" = name <;>
        simp [Plan.referenceFault?, checkPlan, Plan.ofSteps, List.findIdx?_cons, hcheck, huse] at h

/-- Nothing refers to the hook, so its output makes no difference. -/
theorem Expr.evaluate_of_references_traced :
    (∀ r ∈ passedAndLate.references, r.resolve checked = r.resolve checkedAndTraced) ∧
      passedAndLate.evaluate checked = .error ⟨"late", "no prior step named 'late'"⟩ ∧
      passedAndLate.evaluate checkedAndTraced = passedAndLate.evaluate checked ∧
      (∃ r ∈ passedAndLate.references,
        r.resolve checked = .error ⟨"late", "no prior step named 'late'"⟩) ∧
      Plan.mappingFaults "p" checkPlan 1 checkPlan[1] ⟨"$\x7bcheck\x7d", none⟩ = [] ∧
      (Expr.ref (.toStep "check")).evaluate checked =
        (Expr.ref (.toStep "check")).evaluate checkedAndTraced := by
  have hagree : ∀ r ∈ passedAndLate.references,
      r.resolve checked = r.resolve checkedAndTraced := by
    simp only [passedAndLate, references, List.cons_append, List.nil_append, List.forall_mem_cons]
    exact ⟨rfl, rfl, List.forall_mem_nil _⟩
  have hfails : passedAndLate.evaluate checked =
      .error ⟨"late", "no prior step named 'late'"⟩ := rfl
  have hfaults :
      Plan.mappingFaults "p" checkPlan 1 checkPlan[1] ⟨"$\x7bcheck\x7d", none⟩ = [] := by
    rw [Plan.mappingFaults, parse_check]
    rfl
  obtain ⟨hcongr, hblame, -⟩ := evaluate_of_references passedAndLate
  obtain ⟨-, -, hlinked⟩ := evaluate_of_references (.ref (.toStep "check"))
  exact ⟨hagree, hfails, (hcongr _ _ hagree).symm, hblame _ _ hfails, hfaults,
    hlinked _ _ _ _ _ parse_check hfaults _ _ fun _ => resolve_checkedAndTraced⟩

end PipelineEngine
