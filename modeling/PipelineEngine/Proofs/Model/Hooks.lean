import PipelineEngine.Proofs.Model.Plan

/-!
# Hooks in the plans of pipelines

A hook may refer to the hooks that are declared before it.  Linking looks at the hooks in
that order only, but a plan puts them around the steps of a pipeline by their positions,
so a hook can come before one that is declared before it, or without it.

* `Plan.RefersBack`: in a plan each hook comes after the steps to which it refers.
* `Hooks.Ready`: what the positions of hooks must be for that, by the number of steps.
* `Document.refersBack_iff_ready`: the two say the same of a pipeline of a linked
  document.
-/

namespace PipelineEngine

/-! ## Plans in which hooks refer back -/

namespace Plan

/-- Each name to which a hook of the plan refers is that of an entry before it. -/
def RefersBack (plan : List PlannedStep) : Prop :=
  ∀ front entry back, plan = front ++ entry :: back → entry.hook = true →
    ∀ name ∈ entry.step.referencedNames, ∃ e ∈ front, e.step.name = name

/-- The names of the entries of a plan. -/
def names (plan : List PlannedStep) : List String := plan.map (·.step.name)

/-- The hooks of a plan refer to names that were seen before it or to entries before
them. -/
def RefersBackFrom (seen : List String) : List PlannedStep → Prop
  | [] => True
  | entry :: rest =>
    (entry.hook = true → ∀ name ∈ entry.step.referencedNames, name ∈ seen) ∧
      RefersBackFrom (seen ++ [entry.step.name]) rest

theorem refersBackFrom_append {seen : List String} {front back : List PlannedStep} :
    RefersBackFrom seen (front ++ back) ↔
      RefersBackFrom seen front ∧ RefersBackFrom (seen ++ names front) back := by
  induction front generalizing seen with
  | nil => simp [RefersBackFrom, names]
  | cons entry rest ih =>
    rw [List.cons_append, RefersBackFrom, RefersBackFrom, ih, and_assoc]
    simp [names]

/-- The hooks of a plan one by one: what each refers to was seen before the plan, or
comes before the hook in it. -/
theorem refersBackFrom_iff {seen : List String} {plan : List PlannedStep} :
    RefersBackFrom seen plan ↔ ∀ front entry back, plan = front ++ entry :: back →
      entry.hook = true → ∀ name ∈ entry.step.referencedNames,
        name ∈ seen ∨ ∃ e ∈ front, e.step.name = name := by
  induction plan generalizing seen with
  | nil => simp [RefersBackFrom]
  | cons first rest ih =>
    rw [RefersBackFrom, ih]
    constructor
    · rintro ⟨hfirst, hrest⟩ front entry back hsplit hhook name hname
      cases front with
      | nil =>
        obtain ⟨rfl, -⟩ := List.cons.inj hsplit
        exact Or.inl (hfirst hhook name hname)
      | cons first' front =>
        obtain ⟨rfl, htail⟩ := List.cons.inj hsplit
        rcases hrest front entry back htail hhook name hname with hseen | ⟨e, he, hnamed⟩
        · rcases List.mem_append.1 hseen with hseen | hseen
          · exact Or.inl hseen
          · exact Or.inr ⟨first, List.mem_cons_self, (List.mem_singleton.1 hseen).symm⟩
        · exact Or.inr ⟨e, List.mem_cons_of_mem _ he, hnamed⟩
    · intro hall
      constructor
      · intro hhook name hname
        rcases hall [] first rest rfl hhook name hname with hseen | ⟨e, he, -⟩
        · exact hseen
        · cases he
      · intro front entry back hsplit hhook name hname
        have hplan : first :: rest = (first :: front) ++ entry :: back := by
          rw [hsplit]
          rfl
        rcases hall (first :: front) entry back hplan hhook name hname with hseen | ⟨e, he, hnamed⟩
        · exact Or.inl (List.mem_append.2 (Or.inl hseen))
        · rcases List.mem_cons.1 he with rfl | he
          · refine Or.inl (List.mem_append.2 (Or.inr ?_))
            rw [hnamed]
            exact List.mem_cons_self
          · exact Or.inr ⟨e, he, hnamed⟩

theorem refersBack_iff {plan : List PlannedStep} : RefersBack plan ↔ RefersBackFrom [] plan := by
  rw [refersBackFrom_iff]
  simp [RefersBack]

end Plan

/-! ## Hooks and their positions -/

namespace Hooks

/-- The steps of all hooks with the positions that they have, in declaration order. -/
def attached (h : Hooks) : List (Step × HookPosition) :=
  h.before.map (fun hook => (hook.step, hook.position.getD .first)) ++
    h.after.map fun hook => (hook.step, hook.position.getD .last)

theorem attached_map_fst (h : Hooks) : h.attached.map (·.1) = h.steps := by
  simp [attached, steps, Function.comp_def]

/-- A hook refers to no hook that comes later or not at all: in a plan without steps none
that wraps each step, and among several steps none that waits for the last. -/
def Ready (h : Hooks) (count : Nat) : Prop :=
  ∀ x ∈ h.attached, ∀ g ∈ h.attached, g.1.name ∈ x.1.referencedNames →
    (count = 0 → g.2 = .each → x.2 = .each) ∧ (2 ≤ count → g.2 = .last → x.2 = .last)

/-- The entries of the hooks whose positions pass a test. -/
def entries (test : HookPosition → Bool) (hooks : List (Step × HookPosition)) :
    List PlannedStep :=
  (hooks.filter fun x => test x.2).map fun x => ⟨x.1, true⟩

theorem mem_names_entries_iff {test : HookPosition → Bool} {hooks : List (Step × HookPosition)}
    {name : String} :
    name ∈ Plan.names (entries test hooks) ↔ ∃ g ∈ hooks, test g.2 = true ∧ g.1.name = name := by
  simp [Plan.names, entries, and_assoc]

theorem around_eq_entries (hooks : List Hook) (default : HookPosition) (index count : Nat) :
    around hooks default index count = entries (·.covers index count)
      (hooks.map fun hook => (hook.step, hook.position.getD default)) := by
  simp [around, entries, List.filter_map, Function.comp_def]

theorem plan_nil_eq_entries (h : Hooks) :
    h.plan [] = entries (fun position => decide (position ≠ .each)) h.attached := by
  have hposition : ∀ (hook : Hook) (default : HookPosition), default ≠ .each →
      decide (hook.position ≠ some .each) = decide (hook.position.getD default ≠ .each) := by
    intro hook default hdefault
    cases hook.position with
    | none => simp [hdefault]
    | some position => simp
  simp only [plan, List.isEmpty_nil, if_true, entries, attached, List.filter_append,
    List.filter_map, List.map_append, List.map_map, Function.comp_def]
  congr 2
  · exact List.filter_congr fun hook _ => hposition hook .first (by decide)
  · exact List.filter_congr fun hook _ => hposition hook .last (by decide)

/-! ## The hooks around one step -/

/-- The hooks have different names, and each refers only to hooks that are declared before
it. -/
structure Ordered (h : Hooks) : Prop where
  nodup : (h.attached.map (·.1.name)).Nodup
  earlier : ∀ front x back, h.attached = front ++ x :: back →
    ∀ name ∈ x.1.referencedNames, ∃ g ∈ front, g.1.name = name

/-- Hooks of one name are the same. -/
theorem Ordered.eq_of_name {h : Hooks} (hordered : h.Ordered) {g g' : Step × HookPosition}
    (hg : g ∈ h.attached) (hg' : g' ∈ h.attached) (hname : g'.1.name = g.1.name) : g' = g := by
  have hfind := find?_name_of_nodup hordered.nodup hg
  have hfind' := find?_name_of_nodup hordered.nodup hg'
  rw [hname, hfind] at hfind'
  exact (Option.some.inj hfind').symm

/-- Hooks that pass a test refer back when what they refer to passes it too or was seen
already. -/
theorem Ordered.refersBackFrom_entries {h : Hooks} (hordered : h.Ordered)
    {test : HookPosition → Bool} {seen : List String}
    (hpass : ∀ x ∈ h.attached, test x.2 = true → ∀ g ∈ h.attached,
      g.1.name ∈ x.1.referencedNames → test g.2 = true ∨ g.1.name ∈ seen)
    {front hooks back : List (Step × HookPosition)} (hsplit : h.attached = front ++ (hooks ++ back))
    (hseen : ∀ g ∈ front, test g.2 = true → g.1.name ∈ seen) :
    Plan.RefersBackFrom seen (entries test hooks) := by
  induction hooks generalizing front seen with
  | nil => trivial
  | cons x rest ih =>
    have hnext : h.attached = (front ++ [x]) ++ (rest ++ back) := by
      simp [hsplit]
    cases htest : test x.2 with
    | false =>
      have hentries : entries test (x :: rest) = entries test rest := by
        simp [entries, htest]
      rw [hentries]
      refine ih hpass hnext ?_
      intro g hg hgtest
      rcases List.mem_append.1 hg with hg | hg
      · exact hseen g hg hgtest
      · rw [List.mem_singleton.1 hg, htest] at hgtest
        cases hgtest
    | true =>
      have hentries : entries test (x :: rest) = ⟨x.1, true⟩ :: entries test rest := by
        simp [entries, htest]
      rw [hentries]
      refine ⟨?_, ih ?_ hnext ?_⟩
      · intro _ name hname
        obtain ⟨g, hg, rfl⟩ := hordered.earlier front x (rest ++ back) hsplit name hname
        have hmem : g ∈ h.attached := hsplit ▸ List.mem_append.2 (Or.inl hg)
        have hx : x ∈ h.attached := hsplit ▸ by simp
        rcases hpass x hx htest g hmem hname with hgtest | hgseen
        · exact hseen g hg hgtest
        · exact hgseen
      · intro y hy hytest g hg hname
        rcases hpass y hy hytest g hg hname with hgtest | hgseen
        · exact Or.inl hgtest
        · exact Or.inr (List.mem_append.2 (Or.inl hgseen))
      · intro g hg hgtest
        rcases List.mem_append.1 hg with hg | hg
        · exact List.mem_append.2 (Or.inl (hseen g hg hgtest))
        · rw [List.mem_singleton.1 hg]
          exact List.mem_append.2 (Or.inr List.mem_cons_self)

/-- What a hook refers to was seen before the hooks around a step or is one of them that
comes before it. -/
theorem seen_or_exists_of_refersBackFrom {test : HookPosition → Bool} {seen : List String}
    {front back : List (Step × HookPosition)} {x : Step × HookPosition}
    (h : Plan.RefersBackFrom seen (entries test (front ++ x :: back))) (hx : test x.2 = true)
    {name : String} (hname : name ∈ x.1.referencedNames) :
    name ∈ seen ∨ ∃ g ∈ front, test g.2 = true ∧ g.1.name = name := by
  have hentries : entries test (front ++ x :: back) =
      entries test front ++ ⟨x.1, true⟩ :: entries test back := by
    simp [entries, hx]
  rcases Plan.refersBackFrom_iff.1 h _ _ _ hentries rfl name hname with hseen | hmem
  · exact Or.inl hseen
  · exact Or.inr (mem_names_entries_iff.1 (List.mem_map.2 hmem))

/-! ## Whole plans -/

/-- The hooks before the steps and those after them. -/
theorem planFrom_cons_eq (h : Hooks) (count index : Nat) (step : Step) (rest : List Step) :
    ∃ before after, h.attached = before ++ after ∧
      h.planFrom count index (step :: rest) =
        entries (·.covers index count) before ++ ⟨step, false⟩ ::
          (entries (·.covers index count) after ++ h.planFrom count (index + 1) rest) := by
  refine ⟨_, _, rfl, ?_⟩
  rw [planFrom, around_eq_entries, around_eq_entries]

/-- Around one of several steps, a hook of a ready list refers only to hooks around this
step or around an earlier one. -/
theorem Ready.covers {h : Hooks} {count : Nat} (hready : h.Ready count) {x g : Step × HookPosition}
    (hx : x ∈ h.attached) (hg : g ∈ h.attached) (hname : g.1.name ∈ x.1.referencedNames)
    {index : Nat} (hlt : index < count) (hcovers : x.2.covers index count = true) :
    g.2.covers index count = true ∨ ∃ j, j < index ∧ g.2.covers j count = true := by
  cases hposition : g.2 with
  | each => exact Or.inl rfl
  | first =>
    by_cases hzero : index = 0
    · exact Or.inl (by simp [HookPosition.covers, hzero])
    · exact Or.inr ⟨0, by omega, by simp [HookPosition.covers]⟩
  | last =>
    refine Or.inl ?_
    by_cases hmany : 2 ≤ count
    · have hlast := (hready x hx g hg hname).2 hmany hposition
      rw [hlast] at hcovers
      exact hcovers
    · have hend : index + 1 = count := by omega
      simp [HookPosition.covers, hend]

theorem Ordered.refersBackFrom_planFrom {h : Hooks} (hordered : h.Ordered) {count : Nat}
    (hready : h.Ready count) {steps : List Step} {index : Nat} {seen : List String}
    (hlength : index + steps.length = count)
    (hseen : ∀ g ∈ h.attached, ∀ j < index, g.2.covers j count = true → g.1.name ∈ seen) :
    Plan.RefersBackFrom seen (h.planFrom count index steps) := by
  induction steps generalizing index seen with
  | nil => trivial
  | cons step rest ih =>
    rw [List.length_cons] at hlength
    obtain ⟨before, after, hattached, hplan⟩ := h.planFrom_cons_eq count index step rest
    have hpass : ∀ x ∈ h.attached, x.2.covers index count = true → ∀ g ∈ h.attached,
        g.1.name ∈ x.1.referencedNames → g.2.covers index count = true ∨ g.1.name ∈ seen := by
      intro x hx hcovers g hg hname
      rcases hready.covers hx hg hname (by omega) hcovers with hnow | ⟨j, hj, hearlier⟩
      · exact Or.inl hnow
      · exact Or.inr (hseen g hg j hj hearlier)
    rw [hplan, Plan.refersBackFrom_append]
    refine ⟨?_, ?_, ?_⟩
    · have hsplit : h.attached = [] ++ (before ++ after) := hattached
      exact hordered.refersBackFrom_entries hpass hsplit (by simp)
    · intro hhook
      cases hhook
    · rw [Plan.refersBackFrom_append]
      constructor
      · have hsplit : h.attached = before ++ (after ++ []) := by
          rw [hattached, List.append_nil]
        refine hordered.refersBackFrom_entries ?_ hsplit ?_
        · intro x hx hcovers g hg hname
          rcases hpass x hx hcovers g hg hname with hnow | hgseen
          · exact Or.inl hnow
          · exact Or.inr (by simp [hgseen])
        · intro g hg hcovers
          have hname : g.1.name ∈ Plan.names (entries (·.covers index count) before) :=
            mem_names_entries_iff.2 ⟨g, hg, hcovers, rfl⟩
          simp [hname]
      · refine ih (by omega) ?_
        intro g hg j hj hcovers
        by_cases hearlier : j < index
        · simp [hseen g hg j hearlier hcovers]
        · obtain rfl : j = index := by omega
          rw [hattached] at hg
          rcases List.mem_append.1 hg with hg | hg
          · have hname : g.1.name ∈ Plan.names (entries (·.covers j count) before) :=
              mem_names_entries_iff.2 ⟨g, hg, hcovers, rfl⟩
            simp [hname]
          · have hname : g.1.name ∈ Plan.names (entries (·.covers j count) after) :=
              mem_names_entries_iff.2 ⟨g, hg, hcovers, rfl⟩
            simp [hname]

/-- The hooks of a ready list refer back in every plan of so many steps. -/
theorem Ordered.refersBack_of_ready {h : Hooks} (hordered : h.Ordered) {steps : List Step}
    (hready : h.Ready steps.length) : Plan.RefersBack (h.plan steps) := by
  rw [Plan.refersBack_iff]
  cases steps with
  | nil =>
    rw [plan_nil_eq_entries]
    have hsplit : h.attached = [] ++ (h.attached ++ []) := (List.append_nil h.attached).symm
    refine hordered.refersBackFrom_entries ?_ hsplit (by simp)
    intro x hx hxtest g hg hname
    refine Or.inl ?_
    rw [decide_eq_true_iff] at hxtest ⊢
    exact fun hposition => hxtest ((hready x hx g hg hname).1 rfl hposition)
  | cons step rest =>
    exact hordered.refersBackFrom_planFrom hready (Nat.zero_add _) (by simp)

/-- In a plan without steps, a hook to which another one of the plan refers is in it. -/
theorem Ordered.each_of_refersBack {h : Hooks} (hordered : h.Ordered)
    (hback : Plan.RefersBack (h.plan [])) {x g : Step × HookPosition} (hx : x ∈ h.attached)
    (hg : g ∈ h.attached) (hname : g.1.name ∈ x.1.referencedNames) (hposition : g.2 = .each) :
    x.2 = .each := by
  rw [Plan.refersBack_iff, plan_nil_eq_entries] at hback
  obtain ⟨front, back, hsplit⟩ := List.append_of_mem hx
  rw [hsplit] at hback
  by_cases hxposition : x.2 = .each
  · exact hxposition
  · rcases seen_or_exists_of_refersBackFrom hback (decide_eq_true hxposition) hname with
      hseen | ⟨g', hg', htest, hg'name⟩
    · cases hseen
    · have hmem : g' ∈ h.attached := hsplit ▸ List.mem_append.2 (Or.inl hg')
      obtain rfl := hordered.eq_of_name hg hmem hg'name
      exact absurd hposition (of_decide_eq_true htest)

/-- A hook around the first of some steps refers only to hooks around that step. -/
theorem covers_first_of_refersBack {h : Hooks} {step : Step} {rest : List Step}
    (hstep : step.name ∉ h.attached.map (·.1.name))
    (hback : Plan.RefersBack (h.plan (step :: rest))) {x : Step × HookPosition}
    (hx : x ∈ h.attached) (hcovers : x.2.covers 0 (step :: rest).length = true)
    {name : String} (hname : name ∈ x.1.referencedNames)
    (hhook : name ∈ h.attached.map (·.1.name)) :
    ∃ g ∈ h.attached, g.2.covers 0 (step :: rest).length = true ∧ g.1.name = name := by
  obtain ⟨before, after, hattached, hplan⟩ := h.planFrom_cons_eq (step :: rest).length 0 step rest
  have hfrom : Plan.RefersBackFrom [] (h.planFrom (step :: rest).length 0 (step :: rest)) :=
    Plan.refersBack_iff.1 hback
  rw [hplan, Plan.refersBackFrom_append, Plan.RefersBackFrom, Plan.refersBackFrom_append] at hfrom
  obtain ⟨hbefore, -, hafter, -⟩ := hfrom
  rw [hattached] at hx hhook ⊢
  rcases List.mem_append.1 hx with hx | hx
  · obtain ⟨front, back, rfl⟩ := List.append_of_mem hx
    rcases seen_or_exists_of_refersBackFrom hbefore hcovers hname with
      hseen | ⟨g, hg, hgcovers, hgname⟩
    · cases hseen
    · exact ⟨g, by simp [hg], hgcovers, hgname⟩
  · obtain ⟨front, back, rfl⟩ := List.append_of_mem hx
    rcases seen_or_exists_of_refersBackFrom hafter hcovers hname with
      hseen | ⟨g, hg, hgcovers, hgname⟩
    · -- It was seen among the hooks before the step, for it is not the step itself.
      rw [List.nil_append] at hseen
      rcases List.mem_append.1 hseen with hseen | hseen
      · obtain ⟨g, hg, hgcovers, hgname⟩ := mem_names_entries_iff.1 hseen
        exact ⟨g, by simp [hg], hgcovers, hgname⟩
      · rw [List.mem_singleton.1 hseen, ← hattached] at hhook
        exact absurd hhook hstep
    · exact ⟨g, by simp [hg], hgcovers, hgname⟩

/-- Among several steps, a hook that refers to one that waits for the last step waits for
it too. -/
theorem Ordered.last_of_refersBack {h : Hooks} (hordered : h.Ordered) {step : Step}
    {rest : List Step} (hstep : step.name ∉ h.attached.map (·.1.name))
    (hback : Plan.RefersBack (h.plan (step :: rest))) (hmany : 2 ≤ (step :: rest).length)
    {x g : Step × HookPosition} (hx : x ∈ h.attached) (hg : g ∈ h.attached)
    (hname : g.1.name ∈ x.1.referencedNames) (hposition : g.2 = .last) : x.2 = .last := by
  by_cases hxposition : x.2 = .last
  · exact hxposition
  · have hcovers : x.2.covers 0 (step :: rest).length = true := by
      cases hcase : x.2 with
      | first => rfl
      | each => rfl
      | last => exact absurd hcase hxposition
    obtain ⟨g', hg', hg'covers, hg'name⟩ :=
      covers_first_of_refersBack hstep hback hx hcovers hname (List.mem_map.2 ⟨g, hg, rfl⟩)
    obtain rfl := hordered.eq_of_name hg hg' hg'name
    rw [hposition, HookPosition.covers, decide_eq_true_iff] at hg'covers
    omega

/-- Hooks that refer back in a plan are ready for its number of steps. -/
theorem Ordered.ready_of_refersBack {h : Hooks} (hordered : h.Ordered) {steps : List Step}
    (hsteps : ∀ s ∈ steps, s.name ∉ h.attached.map (·.1.name))
    (hback : Plan.RefersBack (h.plan steps)) : h.Ready steps.length := by
  intro x hx g hg hname
  cases steps with
  | nil =>
    refine ⟨fun _ hposition => ?_, fun hmany => absurd hmany (by simp)⟩
    exact hordered.each_of_refersBack hback hx hg hname hposition
  | cons step rest =>
    refine ⟨fun hzero => absurd hzero (by simp), fun hmany hposition => ?_⟩
    exact hordered.last_of_refersBack (hsteps step List.mem_cons_self) hback hmany hx hg hname
      hposition

end Hooks

/-! ## Linked documents -/

/-- Linking sees to it that the hooks are in order. -/
theorem Document.ordered_of_link {d : Document} {epoch : Nat} {m : Model}
    (h : d.link epoch = .ok m) : m.hooks.Ordered := by
  have hplan := hookFaults_of_link h
  obtain rfl := (link_eq_ok_iff.1 h).2
  have hsteps : d.hooks.steps = d.hooks.attached.map (·.1) := d.hooks.attached_map_fst.symm
  constructor
  · have hnodup := Plan.nodup_of_faults hplan
    rw [hsteps, List.map_map, List.map_map] at hnodup
    exact hnodup
  · intro front x back hsplit name hname
    have hsplit' : d.hooks.steps.map (fun s => (⟨s, true⟩ : PlannedStep)) =
        (front.map fun y => ⟨y.1, true⟩) ++ ⟨x.1, true⟩ :: back.map fun y => ⟨y.1, true⟩ := by
      have hattached : d.hooks.attached = front ++ x :: back := hsplit
      rw [hsteps, hattached, List.map_map, List.map_append, List.map_cons]
      rfl
    obtain ⟨e, he, hnamed⟩ := Plan.exists_earlier_of_faults hplan hsplit' (Or.inl rfl) hname
    obtain ⟨g, hg, rfl⟩ := List.mem_map.1 he
    exact ⟨g, hg, hnamed⟩

/-- No step of a pipeline has the name of a hook. -/
theorem Document.name_not_mem_hooks {d : Document} {epoch : Nat} {m : Model}
    (h : d.link epoch = .ok m) {p : Pipeline} (hp : p ∈ m.document.pipelines) :
    ∀ s ∈ p.steps, s.name ∉ m.hooks.attached.map (·.1.name) := by
  have hfaults := (pipelineFaults_of_link h).2
  obtain rfl := (link_eq_ok_iff.1 h).2
  intro s hs hmem
  refine (hfaults p hp).names s hs ?_
  rw [← d.hooks.attached_map_fst, List.map_map]
  exact hmem

/-- In the plan of a pipeline of a linked document each hook comes after what it refers to
exactly when the positions of the hooks are ready for its number of steps. -/
theorem Document.refersBack_iff_ready {d : Document} {epoch : Nat} {m : Model}
    (h : d.link epoch = .ok m) {p : Pipeline} (hp : p ∈ m.document.pipelines) :
    Plan.RefersBack (m.hooks.plan p.steps) ↔ m.hooks.Ready p.steps.length :=
  ⟨(ordered_of_link h).ready_of_refersBack (name_not_mem_hooks h hp),
    (ordered_of_link h).refersBack_of_ready⟩

end PipelineEngine
