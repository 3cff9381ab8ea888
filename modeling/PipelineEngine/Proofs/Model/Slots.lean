import PipelineEngine.Proofs.Model.Hooks

/-!
# The slots of a plan

A plan has a slot for every explicit step, and around the steps slots for the hooks.  Two hooks
may be alike, so a slot names the hook by its number in its list: `Slot` says at which step it
is and whose it is.

* `Hooks.Arranges`: which slots a plan has and in which order.
* `Hooks.mem_slotsFrom_iff`, `Hooks.pairwise_slotsFrom`, `Hooks.entries_slotsFrom`, by induction
  on the steps.
* `Hooks.arranges_slots`: every plan is arranged like this.
-/

namespace PipelineEngine

/-- Whose slot it is: that of a step, or that of the hook of a number before or after steps. -/
inductive SlotKind where
  | before (number : Nat)
  | step
  | after (number : Nat)
deriving DecidableEq

/-- A slot of a plan, at one of the explicit steps. -/
structure Slot where
  index : Nat
  kind : SlotKind
deriving DecidableEq

/-- At one step the hooks before it come first, then the step and then the hooks after it, hooks
in the order of their numbers. -/
def SlotKind.Precedes : SlotKind → SlotKind → Prop
  | .before number, .before number' => number < number'
  | .before _, .step | .before _, .after _ | .step, .after _ => True
  | .after number, .after number' => number < number'
  | _, _ => False

/-- One slot comes before another. -/
def Slot.Precedes (slot slot' : Slot) : Prop :=
  slot.index < slot'.index ∨ slot.index = slot'.index ∧ slot.kind.Precedes slot'.kind

theorem SlotKind.not_precedes_self (kind : SlotKind) : ¬ kind.Precedes kind := by
  cases kind with
  | before number => exact Nat.lt_irrefl number
  | step => exact id
  | after number => exact Nat.lt_irrefl number

/-- The steps, of so many, at which a hook stands by its position.  In a plan without steps the
first one and the last one are the place where the steps would be. -/
def HookPosition.indices (position : HookPosition) (count : Nat) : List Nat :=
  match position with
  | .first => [0]
  | .each => List.range count
  | .last => [count - 1]

/-- A hook wraps a step exactly when it stands at it. -/
theorem HookPosition.covers_iff {position : HookPosition} {index count : Nat} (h : index < count) :
    position.covers index count = true ↔ index ∈ position.indices count := by
  cases position with
  | first => simp [covers, indices]
  | each => simp [covers, indices, h]
  | last =>
    simp only [covers, indices, decide_eq_true_eq, List.mem_singleton]
    omega

theorem HookPosition.lt_of_mem_indices {position : HookPosition} {index count : Nat}
    (hcount : 0 < count) (h : index ∈ position.indices count) : index < count := by
  cases position with
  | first => exact (List.mem_singleton.1 h) ▸ hcount
  | each => exact List.mem_range.1 h
  | last =>
    obtain rfl := List.mem_singleton.1 h
    omega

theorem HookPosition.pairwise_indices (position : HookPosition) (count : Nat) :
    (position.indices count).Pairwise (· < ·) := by
  cases position with
  | first => exact List.pairwise_singleton _ _
  | each => exact List.pairwise_lt_range
  | last => exact List.pairwise_singleton _ _

namespace Hooks

/-! ## What a slot is for -/

/-- The entry of a hook of a list. -/
def hookAt? (hooks : List Hook) (number : Nat) : Option PlannedStep :=
  hooks[number]?.map fun hook => ⟨hook.step, true⟩

/-- The entry for which a slot is. -/
def plannedAt? (h : Hooks) (steps : List Step) (slot : Slot) : Option PlannedStep :=
  match slot.kind with
  | .before number => hookAt? h.before number
  | .step => steps[slot.index]?.map fun step => ⟨step, false⟩
  | .after number => hookAt? h.after number

/-- The steps at which a kind of slot stands, in the order of the slots. -/
def indicesOf (kind : SlotKind) (slots : List Slot) : List Nat :=
  (slots.filter fun slot => slot.kind = kind).map (·.index)

/-- The slots of a plan: in their order, each explicit step once, and each hook at the steps that
its position says, where hooks before steps stand at the first one if they do not say, and hooks
after steps at the last one. -/
structure Arranges (h : Hooks) (steps : List Step) (slots : List Slot) : Prop where
  entries : slots.map (h.plannedAt? steps) = (h.plan steps).map some
  increasing : slots.Pairwise Slot.Precedes
  step : indicesOf .step slots = List.range steps.length
  before : ∀ (number : Nat) (hook : Hook), h.before[number]? = some hook →
    indicesOf (.before number) slots = (hook.position.getD .first).indices steps.length
  after : ∀ (number : Nat) (hook : Hook), h.after[number]? = some hook →
    indicesOf (.after number) slots = (hook.position.getD .last).indices steps.length

/-! ## The hooks at one step -/

/-- The numbers of the hooks whose positions pass a test. -/
def numbers (hooks : List Hook) (default : HookPosition) (test : HookPosition → Bool) : List Nat :=
  (hooks.zipIdx.filter fun hook => test (hook.1.position.getD default)).map (·.2)

section
variable {hooks : List Hook} {default : HookPosition} {test : HookPosition → Bool}

theorem mem_numbers_iff {number : Nat} :
    number ∈ numbers hooks default test ↔
      ∃ hook, hooks[number]? = some hook ∧ test (hook.position.getD default) = true := by
  simp [numbers, List.mem_zipIdx_iff_getElem?]

theorem pairwise_numbers : (numbers hooks default test).Pairwise (· < ·) := by
  have hsublist : (numbers hooks default test).Sublist (hooks.zipIdx.map (·.2)) :=
    List.filter_sublist.map _
  rw [List.zipIdx_map_snd] at hsublist
  exact (List.pairwise_lt_range').sublist hsublist

theorem entries_numbers :
    (numbers hooks default test).map (hookAt? hooks) =
      (entries test (hooks.map fun hook => (hook.step, hook.position.getD default))).map some := by
  have hentry : ∀ hook ∈ hooks.zipIdx.filter fun hook => test (hook.1.position.getD default),
      (hookAt? hooks ∘ Prod.snd) hook = some ⟨hook.1.step, true⟩ := by
    intro hook hmem
    show hookAt? hooks hook.2 = _
    rw [hookAt?, List.mem_zipIdx_iff_getElem?.1 (List.mem_filter.1 hmem).1, Option.map_some]
  have hfilter : hooks.filter (fun hook => test (hook.position.getD default)) =
      (hooks.zipIdx.filter fun hook => test (hook.1.position.getD default)).map Prod.fst := by
    have hmap := List.filter_map (p := fun hook : Hook => test (hook.position.getD default))
      (f := Prod.fst) (l := hooks.zipIdx)
    rwa [List.zipIdx_map_fst] at hmap
  show ((hooks.zipIdx.filter fun hook => test (hook.1.position.getD default)).map
    Prod.snd).map _ = _
  rw [List.map_map, List.map_congr_left hentry, entries, List.filter_map]
  show _ = List.map some (List.map _ (List.map _
    (hooks.filter fun hook => test (hook.position.getD default))))
  rw [hfilter]
  simp only [List.map_map, Function.comp_def]

end

/-- The slots at one place: those of the hooks before it whose positions pass a test, that of the
step if there is one, and those of the hooks after it. -/
def slotsAt (h : Hooks) (index : Nat) (step : Bool) (test : HookPosition → Bool) : List Slot :=
  (numbers h.before .first test).map (fun number => ⟨index, .before number⟩) ++
    ((if step then [⟨index, .step⟩] else []) ++
      (numbers h.after .last test).map fun number => ⟨index, .after number⟩)

/-- There is a slot of the kind at such a place. -/
def Stands (h : Hooks) (step : Bool) (test : HookPosition → Bool) : SlotKind → Prop
  | .before number => number ∈ numbers h.before .first test
  | .step => step = true
  | .after number => number ∈ numbers h.after .last test

section
variable {h : Hooks} {index : Nat} {step : Bool} {test : HookPosition → Bool} {slot : Slot}

theorem mem_slotsAt_iff :
    slot ∈ h.slotsAt index step test ↔ slot.index = index ∧ h.Stands step test slot.kind := by
  obtain ⟨index', kind⟩ := slot
  rw [eq_comm]
  cases kind with
  | before number => simp [slotsAt, Stands, and_left_comm]
  | step => cases step <;> simp [slotsAt, Stands, eq_comm]
  | after number => simp [slotsAt, Stands, and_left_comm]

theorem pairwise_slotsAt : (h.slotsAt index step test).Pairwise Slot.Precedes := by
  rw [slotsAt, List.pairwise_append, List.pairwise_append, List.pairwise_map, List.pairwise_map]
  refine ⟨?_, ⟨?_, ?_, ?_⟩, ?_⟩
  · exact pairwise_numbers.imp fun hlt => Or.inr ⟨rfl, hlt⟩
  · cases step <;> simp
  · exact pairwise_numbers.imp fun hlt => Or.inr ⟨rfl, hlt⟩
  · cases step <;> simp [Slot.Precedes, SlotKind.Precedes]
  · cases step <;> simp [Slot.Precedes, SlotKind.Precedes, or_imp, forall_and]

theorem entries_slotsAt {steps : List Step} :
    (h.slotsAt index step test).map (h.plannedAt? steps) =
      (entries test (h.before.map fun hook => (hook.step, hook.position.getD .first))).map some ++
        ((if step then [steps[index]?.map fun step => ⟨step, false⟩] else []) ++
          (entries test (h.after.map fun hook =>
            (hook.step, hook.position.getD .last))).map some) := by
  rw [slotsAt, List.map_append, List.map_append, List.map_map, List.map_map, ← entries_numbers,
    ← entries_numbers]
  cases step <;> rfl

end

/-! ## All slots -/

/-- The slots from step number `index` on, of `count` in all. -/
def slotsFrom (h : Hooks) (count : Nat) : Nat → List Step → List Slot
  | _, [] => []
  | index, _ :: rest =>
    h.slotsAt index true (·.covers index count) ++ slotsFrom h count (index + 1) rest

/-- The slots of a plan. -/
def slots (h : Hooks) (steps : List Step) : List Slot :=
  if steps.isEmpty then h.slotsAt 0 false fun position => decide (position ≠ .each)
  else h.slotsFrom steps.length 0 steps

section
variable {h : Hooks} {count index : Nat} {steps rest : List Step} {slot : Slot}

theorem mem_slotsFrom_iff :
    slot ∈ h.slotsFrom count index rest ↔
      (index ≤ slot.index ∧ slot.index < index + rest.length) ∧
        h.Stands true (·.covers slot.index count) slot.kind := by
  induction rest generalizing index with
  | nil =>
    simp only [slotsFrom, List.not_mem_nil, List.length_nil, false_iff]
    omega
  | cons step rest ih =>
    rw [slotsFrom, List.mem_append, mem_slotsAt_iff, ih, List.length_cons]
    constructor
    · rintro (⟨rfl, hstands⟩ | ⟨hrange, hstands⟩)
      · exact ⟨by omega, hstands⟩
      · exact ⟨by omega, hstands⟩
    · rintro ⟨hrange, hstands⟩
      by_cases hhere : slot.index = index
      · exact Or.inl ⟨hhere, hhere ▸ hstands⟩
      · exact Or.inr ⟨by omega, hstands⟩

theorem pairwise_slotsFrom : (h.slotsFrom count index rest).Pairwise Slot.Precedes := by
  induction rest generalizing index with
  | nil => exact List.Pairwise.nil
  | cons step rest ih =>
    refine List.pairwise_append.2 ⟨pairwise_slotsAt, ih, fun slot hslot slot' hslot' => Or.inl ?_⟩
    obtain ⟨rfl, -⟩ := mem_slotsAt_iff.1 hslot
    exact (mem_slotsFrom_iff.1 hslot').1.1

theorem entries_slotsFrom (hdrop : steps.drop index = rest) :
    (h.slotsFrom count index rest).map (h.plannedAt? steps) =
      (h.planFrom count index rest).map some := by
  induction rest generalizing index with
  | nil => rfl
  | cons step rest ih =>
    have hstep : steps[index]? = some step := by
      rw [← List.head?_drop, hdrop, List.head?_cons]
    have hrest : steps.drop (index + 1) = rest := by
      rw [← List.tail_drop, hdrop, List.tail_cons]
    rw [slotsFrom, List.map_append, entries_slotsAt, ih hrest, hstep, planFrom,
      ← around_eq_entries, ← around_eq_entries]
    simp

/-- The slots of one kind stand at the steps that have one. -/
theorem indicesOf_eq {kind : SlotKind} {slots : List Slot} {indices : List Nat}
    (hslots : slots.Pairwise Slot.Precedes) (hindices : indices.Pairwise (· < ·))
    (hmem : ∀ index, ⟨index, kind⟩ ∈ slots ↔ index ∈ indices) :
    indicesOf kind slots = indices := by
  have hincreasing : (indicesOf kind slots).Pairwise (· < ·) := by
    rw [indicesOf, List.pairwise_map]
    refine (hslots.filter _).imp_of_mem fun {slot slot'} hslot hslot' hprecedes => ?_
    have hkind := of_decide_eq_true (List.mem_filter.1 hslot).2
    have hkind' := of_decide_eq_true (List.mem_filter.1 hslot').2
    rcases hprecedes with hlt | ⟨-, hsame⟩
    · exact hlt
    · rw [hkind, hkind'] at hsame
      exact absurd hsame kind.not_precedes_self
  have hsame : ∀ index, index ∈ indicesOf kind slots ↔ index ∈ indices := by
    intro index
    rw [← hmem, indicesOf, List.mem_map]
    constructor
    · rintro ⟨⟨index', kind'⟩, hslot, rfl⟩
      obtain ⟨hslot, hkind⟩ := List.mem_filter.1 hslot
      exact of_decide_eq_true hkind ▸ hslot
    · intro hslot
      exact ⟨_, List.mem_filter.2 ⟨hslot, decide_eq_true rfl⟩, rfl⟩
  have hperm := (List.perm_ext_iff_of_nodup (hincreasing.imp Nat.ne_of_lt)
    (hindices.imp Nat.ne_of_lt)).2 hsame
  exact hperm.eq_of_pairwise (fun a b _ _ hab hba => absurd hab (Nat.lt_asymm hba)) hincreasing
    hindices

/-- Where there are steps, a slot of a kind stands at a step when the hooks around the step
include its own. -/
theorem mem_slots_cons_iff {index : Nat} {kind : SlotKind} {step : Step} :
    ⟨index, kind⟩ ∈ h.slots (step :: rest) ↔
      index < (step :: rest).length ∧
        h.Stands true (·.covers index (step :: rest).length) kind := by
  rw [slots, if_neg (by simp), mem_slotsFrom_iff]
  simp

theorem mem_slots_nil_iff {index : Nat} {kind : SlotKind} :
    ⟨index, kind⟩ ∈ h.slots [] ↔
      index = 0 ∧ h.Stands false (fun position => decide (position ≠ .each)) kind := by
  rw [slots, List.isEmpty_nil, if_pos rfl, mem_slotsAt_iff]

theorem pairwise_slots : (h.slots steps).Pairwise Slot.Precedes := by
  rw [slots]
  split
  · exact pairwise_slotsAt
  · exact pairwise_slotsFrom

theorem entries_slots : (h.slots steps).map (h.plannedAt? steps) = (h.plan steps).map some := by
  cases steps with
  | nil =>
    rw [plan_nil_eq_entries, slots, List.isEmpty_nil, if_pos rfl, entries_slotsAt, attached,
      entries, entries, entries, List.filter_append]
    simp
  | cons step rest =>
    rw [slots, plan, if_neg (by simp), if_neg (by simp)]
    exact entries_slotsFrom (List.drop_zero)

end

section
variable {hooks : List Hook} {default : HookPosition} {number index count : Nat} {hook : Hook}
variable (hhook : hooks[number]? = some hook)
include hhook

/-- A hook is around the steps that its position says. -/
theorem mem_numbers_covers_iff (hcount : 0 < count) :
    index < count ∧ number ∈ numbers hooks default (·.covers index count) ↔
      index ∈ (hook.position.getD default).indices count := by
  simp only [mem_numbers_iff, hhook, Option.some.injEq, exists_eq_left']
  constructor
  · rintro ⟨hlt, hcovers⟩
    exact (HookPosition.covers_iff hlt).1 hcovers
  · intro hmem
    have hlt := HookPosition.lt_of_mem_indices hcount hmem
    exact ⟨hlt, (HookPosition.covers_iff hlt).2 hmem⟩

/-- Without steps it is in the plan unless it wraps each of them. -/
theorem mem_numbers_nil_iff :
    index = 0 ∧ number ∈ numbers hooks default (fun position => decide (position ≠ .each)) ↔
      index ∈ (hook.position.getD default).indices 0 := by
  simp only [mem_numbers_iff, hhook, Option.some.injEq, exists_eq_left', decide_eq_true_eq]
  cases hook.position.getD default <;> simp [HookPosition.indices]

end

/-- The slots of a hook of a list stand where its position says. -/
theorem indicesOf_hook {h : Hooks} {steps : List Step} {hooks : List Hook} {default : HookPosition}
    {number : Nat} {hook : Hook} {kind : SlotKind}
    (hstands : ∀ step test, h.Stands step test kind ↔ number ∈ numbers hooks default test)
    (hhook : hooks[number]? = some hook) :
    indicesOf kind (h.slots steps) = (hook.position.getD default).indices steps.length := by
  refine indicesOf_eq pairwise_slots (HookPosition.pairwise_indices _ _) fun index => ?_
  cases steps with
  | nil => rw [mem_slots_nil_iff, hstands, mem_numbers_nil_iff hhook, List.length_nil]
  | cons step rest =>
    rw [mem_slots_cons_iff, hstands]
    exact mem_numbers_covers_iff hhook (Nat.succ_pos _)

/-- Every plan is arranged like this. -/
theorem arranges_slots (h : Hooks) (steps : List Step) : h.Arranges steps (h.slots steps) where
  entries := entries_slots
  increasing := pairwise_slots
  step := by
    refine indicesOf_eq pairwise_slots List.pairwise_lt_range fun index => ?_
    cases steps with
    | nil => simp [mem_slots_nil_iff, Stands]
    | cons step rest => rw [mem_slots_cons_iff, List.mem_range, Stands, and_iff_left rfl]
  before _ _ hhook := indicesOf_hook (fun _ _ => Iff.rfl) hhook
  after _ _ hhook := indicesOf_hook (fun _ _ => Iff.rfl) hhook

end Hooks

end PipelineEngine
