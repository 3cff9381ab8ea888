import PipelineEngine.Proofs.Fallible
import PipelineEngine.Proofs.Value.Paths
import PipelineEngine.Response.Select

/-!
# What mappings build

The input of a step and the body of a response are objects into which mappings write one
after another.  Where their targets are apart, the order is of no account and each value is
found where it was written.

* `Mapping.writeAll_perm`, by induction on the permutation: from two writes that change places
  to any order.
* `Mapping.fills_writeAll`, by induction on the mappings: what every path reads in the end.
* `Fields.write_spec`: the laws of one write, of two, and of inputs and bodies.
-/

namespace PipelineEngine

theorem PathsApart.append_right {p q rest : List String} (h : PathsApart p q) :
    PathsApart p (q ++ rest) := by
  refine ⟨fun hp => ?_, fun hq => h.2 ((List.prefix_append q rest).trans hq)⟩
  rcases List.prefix_or_prefix_of_prefix hp (List.prefix_append q rest) with hpq | hqp
  · exact h.1 hpq
  · exact h.2 hqp

namespace Mapping

/-- The components of the path at which a mapping writes. -/
def components (m : Mapping) : List String := pathComponents m.target

/-- Every target has a component, and no two of them lie on one path. -/
structure WriteApart (mappings : List Mapping) : Prop where
  written : ∀ m ∈ mappings, m.components ≠ []
  apart : mappings.Pairwise fun m n => PathsApart m.components n.components

/-- The fields hold the value of every mapping at its target and nothing else. -/
structure Fills (ctx : Context) (mappings : List Mapping) (fields : Fields Value) : Prop where
  /-- From a target on, the value of its mapping is read. -/
  at_target : ∀ m ∈ mappings, ∃ v, m.evaluate ctx = .ok v ∧
    ∀ rest, (Value.object fields).readAt? (m.components ++ rest) = v.readAt? rest
  /-- On the way to a target, objects are read. -/
  on_way : ∀ m ∈ mappings, ∀ path rest, m.components = path ++ rest → rest ≠ [] →
    ∃ inner, (Value.object fields).readAt? path = some (.object inner)
  /-- Off these paths nothing is read. -/
  nothing_else : ∀ path ≠ [], (∀ m ∈ mappings, PathsApart m.components path) →
    (Value.object fields).readAt? path = none

/-- A payload is built from mappings, by writing their values. -/
structure Builds (ctx : Context) (mappings : List Mapping)
    (build : List Mapping → Option Payload) : Prop where
  /-- It is built exactly when every mapping has a value. -/
  isSome_iff : (build mappings).isSome ↔ ∀ m ∈ mappings, ∃ v, m.evaluate ctx = .ok v
  /-- It is an object that holds these values and nothing else. -/
  fills : ∀ payload, build mappings = some payload →
    ∃ fields, payload = .parsed (.object fields) ∧ Fills ctx mappings fields
  /-- It is the same in any order of the mappings. -/
  perm : ∀ others, others.Perm mappings → build others = build mappings

variable {ctx : Context} {m : Mapping} {mappings others : List Mapping}
variable {fields result : Fields Value} {path : List String}

theorem writeAll_cons_eq_ok_iff :
    writeAll ctx (m :: mappings) fields = .ok result ↔
      ∃ v, m.evaluate ctx = .ok v ∧
        writeAll ctx mappings (fields.write m.target v) = .ok result := by
  rw [writeAll]
  exact Fallible.bind_eq_ok_iff

theorem exists_writeAll_iff :
    (∃ result, writeAll ctx mappings fields = .ok result) ↔
      ∀ m ∈ mappings, ∃ v, m.evaluate ctx = .ok v := by
  induction mappings generalizing fields with
  | nil => simp [writeAll]
  | cons m rest ih =>
    simp only [writeAll_cons_eq_ok_iff, List.forall_mem_cons]
    constructor
    · rintro ⟨result, v, hv, hrest⟩
      exact ⟨⟨v, hv⟩, ih.1 ⟨result, hrest⟩⟩
    · rintro ⟨⟨v, hv⟩, hrest⟩
      obtain ⟨result, hresult⟩ := ih.2 hrest
      exact ⟨result, v, hv, hresult⟩

/-! ## The order of mappings -/

theorem WriteApart.tail (h : WriteApart (m :: mappings)) : WriteApart mappings :=
  ⟨fun n hn => h.written n (List.mem_cons_of_mem _ hn), (List.pairwise_cons.1 h.apart).2⟩

theorem WriteApart.of_perm (h : WriteApart mappings) (hperm : mappings.Perm others) :
    WriteApart others :=
  ⟨fun m hm => h.written m (hperm.mem_iff.2 hm),
    (hperm.pairwise_iff fun hmn => hmn.symm).1 h.apart⟩

theorem writeAll_perm (hperm : mappings.Perm others) (h : WriteApart mappings) :
    writeAll ctx mappings fields = .ok result ↔ writeAll ctx others fields = .ok result := by
  induction hperm generalizing fields with
  | nil => exact Iff.rfl
  | cons m _ ih =>
    simp only [writeAll_cons_eq_ok_iff]
    exact exists_congr fun v => and_congr_right fun _ => ih h.tail
  | swap m n rest =>
    have hapart : PathsApart n.components m.components :=
      (List.pairwise_cons.1 h.apart).1 m List.mem_cons_self
    have hcomm : ∀ v w, (fields.write n.target v).write m.target w =
        (fields.write m.target w).write n.target v :=
      fun v w => Fields.writeAt_comm hapart.symm w v fields
    simp only [writeAll_cons_eq_ok_iff]
    constructor
    · rintro ⟨v, hv, w, hw, hrest⟩
      exact ⟨w, hw, v, hv, hcomm v w ▸ hrest⟩
    · rintro ⟨w, hw, v, hv, hrest⟩
      exact ⟨v, hv, w, hw, (hcomm v w).symm ▸ hrest⟩
  | trans hfirst _ ihfirst ihsecond => exact (ihfirst h).trans (ihsecond (h.of_perm hfirst))

/-! ## What is read in the end -/

theorem readAt?_writeAll_of_apart (h : writeAll ctx mappings fields = .ok result)
    (hapart : ∀ m ∈ mappings, PathsApart m.components path) :
    (Value.object result).readAt? path = (Value.object fields).readAt? path := by
  induction mappings generalizing fields with
  | nil =>
    cases h
    rfl
  | cons m rest ih =>
    obtain ⟨v, -, hrest⟩ := writeAll_cons_eq_ok_iff.1 h
    obtain ⟨hm, hothers⟩ := List.forall_mem_cons.1 hapart
    rw [ih hrest hothers]
    exact Value.readAt?_writeAt_of_apart hm

/-- A write never takes an object away unless it writes there or above. -/
theorem readAt?_writeAll_object (h : writeAll ctx mappings fields = .ok result)
    (habove : ∀ m ∈ mappings, ¬ m.components <+: path)
    (hobject : ∃ inner, (Value.object fields).readAt? path = some (.object inner)) :
    ∃ inner, (Value.object result).readAt? path = some (.object inner) := by
  induction mappings generalizing fields with
  | nil =>
    cases h
    exact hobject
  | cons m rest ih =>
    obtain ⟨v, -, hrest⟩ := writeAll_cons_eq_ok_iff.1 h
    obtain ⟨hm, hothers⟩ := List.forall_mem_cons.1 habove
    refine ih hrest hothers ?_
    show ∃ inner, (Value.object (Fields.writeAt v m.components fields)).readAt? path = _
    by_cases hway : path <+: m.components
    · obtain ⟨more, heq⟩ := hway
      have hmore : more ≠ [] := by
        rintro rfl
        rw [List.append_nil] at heq
        exact hm (heq ▸ List.prefix_refl path)
      rw [← heq]
      exact Value.readAt?_writeAt_prefix hmore
    · rw [Value.readAt?_writeAt_of_apart ⟨hm, hway⟩]
      exact hobject

theorem fills_writeAll (h : writeAll ctx mappings fields = .ok result)
    (hwrite : WriteApart mappings) :
    (∀ m ∈ mappings, ∃ v, m.evaluate ctx = .ok v ∧
      ∀ rest, (Value.object result).readAt? (m.components ++ rest) = v.readAt? rest) ∧
    ∀ m ∈ mappings, ∀ path rest, m.components = path ++ rest → rest ≠ [] →
      ∃ inner, (Value.object result).readAt? path = some (.object inner) := by
  induction mappings generalizing fields with
  | nil => simp
  | cons m others ih =>
    obtain ⟨v, hv, hothers⟩ := writeAll_cons_eq_ok_iff.1 h
    obtain ⟨hvalues, hobjects⟩ := ih hothers hwrite.tail
    have hapart := (List.pairwise_cons.1 hwrite.apart).1
    constructor
    · refine List.forall_mem_cons.2 ⟨⟨v, hv, fun rest => ?_⟩, hvalues⟩
      have hlater : ∀ n ∈ others, PathsApart n.components (m.components ++ rest) :=
        fun n hn => (hapart n hn).symm.append_right
      rw [readAt?_writeAll_of_apart hothers hlater]
      exact Value.readAt?_writeAt_append (hwrite.written m List.mem_cons_self)
    · refine List.forall_mem_cons.2 ⟨fun path rest heq hrest => ?_, hobjects⟩
      have hlater : ∀ n ∈ others, ¬ n.components <+: path := fun n hn hn' =>
        (hapart n hn).2 (hn'.trans (heq ▸ List.prefix_append path rest))
      refine readAt?_writeAll_object hothers hlater ?_
      show ∃ inner, (Value.object (Fields.writeAt v m.components fields)).readAt? path = _
      rw [heq]
      exact Value.readAt?_writeAt_prefix hrest

/-- Writing from the empty object on builds an object from the mappings. -/
theorem builds_writeAll (h : WriteApart mappings) :
    Builds ctx mappings fun ms => (writeAll ctx ms []).toOption.map fun fields =>
      .parsed (.object fields) where
  isSome_iff := by
    have hwritten : (∃ result, writeAll ctx mappings [] = .ok result) ↔ _ := exists_writeAll_iff
    rw [← hwritten]
    cases writeAll ctx mappings [] <;> simp [Except.toOption]
  fills := by
    intro payload hpayload
    obtain ⟨fields, hfields, rfl⟩ := Option.map_eq_some_iff.1 hpayload
    have hok : writeAll ctx mappings [] = .ok fields := by
      cases hwritten : writeAll ctx mappings [] with
      | error e => simp [hwritten, Except.toOption] at hfields
      | ok written => simpa [hwritten, Except.toOption] using hfields
    obtain ⟨hvalues, hobjects⟩ := fills_writeAll hok h
    refine ⟨fields, rfl, hvalues, hobjects, fun path hpath hapart => ?_⟩
    obtain ⟨name, rest, rfl⟩ := List.exists_cons_of_ne_nil hpath
    rw [readAt?_writeAll_of_apart hok hapart]
    rfl
  perm := by
    intro others hperm
    have hsame : ∀ result, writeAll ctx mappings [] = .ok result ↔
        writeAll ctx others [] = .ok result := fun _ => writeAll_perm hperm.symm h
    congr 1
    cases hwritten : writeAll ctx mappings [] with
    | ok result => rw [(hsame result).1 hwritten]
    | error e =>
      cases hothers : writeAll ctx others [] with
      | ok result =>
        rw [(hsame result).2 hothers] at hwritten
        cases hwritten
      | error e' => rfl

/-- Builders that agree on mappings build alike. -/
theorem Builds.congr {build build' : List Mapping → Option Payload}
    (h : Builds ctx mappings build) (hne : mappings ≠ [])
    (hbuild : ∀ ms ≠ [], build' ms = build ms) : Builds ctx mappings build' where
  isSome_iff := by
    rw [hbuild mappings hne]
    exact h.isSome_iff
  fills := by
    rw [hbuild mappings hne]
    exact h.fills
  perm := by
    intro others hperm
    have hothers : others ≠ [] := by
      rintro rfl
      exact hne hperm.nil_eq.symm
    rw [hbuild mappings hne, hbuild others hothers]
    exact h.perm others hperm

end Mapping

/-! ## Inputs and bodies -/

theorem Step.builds_buildInput {s : Step} {ctx : Context} {initial : Payload}
    (hne : s.mappings ≠ []) (h : Mapping.WriteApart s.mappings) :
    Mapping.Builds ctx s.mappings fun ms =>
      (Step.buildInput { s with mappings := ms } ctx initial).toOption := by
  refine (Mapping.builds_writeAll h).congr hne fun ms hms => ?_
  have hempty : ms.isEmpty = false := List.isEmpty_eq_false_iff.2 hms
  rw [buildInput, hempty]
  cases Mapping.writeAll ctx ms [] <;> rfl

namespace ResponseRule

/-- The context that the mappings of a rule see, none where its selection cannot be read. -/
def view? (r : ResponseRule) (o : Outcome) (ctx : Context) : Option Context :=
  match r.selection with
  | none => some ctx
  | some spec =>
    (Yield.parse spec).toOption.map fun y => ctx.withBody (y.apply o.value) o.success

/-- A rule whose selection can be read answers with its status, and with an object where it
has mappings. -/
theorem shape_of_view? {r : ResponseRule} {endpoint : String} {o : Outcome} {ctx view : Context}
    (hview : r.view? o ctx = some view) :
    ∃ body, r.shape endpoint o ctx =
      if r.mappings.isEmpty then .ok ⟨r.status, body⟩
      else match Mapping.writeAll view r.mappings [] with
        | .ok fields => .ok ⟨r.status, .parsed (.object fields)⟩
        | .error e => .error (.expression endpoint r.status e) := by
  rw [view?] at hview
  rw [shape]
  cases hselection : r.selection with
  | none =>
    rw [hselection] at hview
    obtain rfl := Option.some.inj hview
    exact ⟨o.body, rfl⟩
  | some spec =>
    rw [hselection] at hview
    obtain ⟨y, hy, rfl⟩ := Option.map_eq_some_iff.1 hview
    cases hyield : Yield.parse spec with
    | error e =>
      rw [hyield] at hy
      cases hy
    | ok y' =>
      rw [hyield] at hy
      cases hy
      simp only [hyield]
      exact ⟨.parsed (y.apply o.value), rfl⟩

theorem builds_shape {r : ResponseRule} {endpoint : String} {o : Outcome} {ctx view : Context}
    (hview : r.view? o ctx = some view) (hne : r.mappings ≠ [])
    (h : Mapping.WriteApart r.mappings) :
    Mapping.Builds view r.mappings fun ms =>
      (shape endpoint { r with mappings := ms } o ctx).toOption.map (·.body) := by
  refine (Mapping.builds_writeAll h).congr hne fun ms hms => ?_
  have hempty : ms.isEmpty = false := List.isEmpty_eq_false_iff.2 hms
  have hsame : ResponseRule.view? { r with mappings := ms } o ctx = some view := hview
  obtain ⟨body, hshape⟩ : ∃ body, shape endpoint { r with mappings := ms } o ctx = _ :=
    shape_of_view? hsame
  rw [hshape, hempty, if_neg Bool.false_ne_true]
  cases Mapping.writeAll view ms [] <;> rfl

end ResponseRule

/-- After a value was written at a path, the value is read below the path, an object above it,
and elsewhere what was read before.  Writes at paths that are apart change places, and so do
mappings whose targets are apart: the input or the body that they build holds each of their
values at its target and nothing else. -/
theorem Fields.write_spec :
    (∀ (fields : Fields Value) (p q : String) (v : Value), pathComponents p ≠ [] →
      (∀ rest, pathComponents q = pathComponents p ++ rest →
        (fields.write p v).read? q = v.readAt? rest) ∧
      (∀ rest, pathComponents p = pathComponents q ++ rest → rest ≠ [] →
        ∃ inner, (fields.write p v).read? q = some (.object inner)) ∧
      (PathsApart (pathComponents p) (pathComponents q) →
        (fields.write p v).read? q = fields.read? q)) ∧
    (∀ (fields : Fields Value) (p q : String) (v w : Value),
      PathsApart (pathComponents p) (pathComponents q) →
      (fields.write p v).write q w = (fields.write q w).write p v) ∧
    (∀ (s : Step) (ctx : Context) (initial : Payload),
      s.mappings ≠ [] → Mapping.WriteApart s.mappings →
      Mapping.Builds ctx s.mappings fun ms =>
        (Step.buildInput { s with mappings := ms } ctx initial).toOption) ∧
    ∀ (endpoint : String) (r : ResponseRule) (o : Outcome) (ctx view : Context),
      r.view? o ctx = some view → r.mappings ≠ [] → Mapping.WriteApart r.mappings →
      Mapping.Builds view r.mappings fun ms =>
        (ResponseRule.shape endpoint { r with mappings := ms } o ctx).toOption.map (·.body) := by
  refine ⟨?reads, ?commutes, fun s ctx initial => Step.builds_buildInput,
    fun endpoint r o ctx view => ResponseRule.builds_shape⟩
  case reads =>
    intro fields p q v hp
    refine ⟨fun rest heq => ?_, fun rest heq hrest => ?_, Value.readAt?_writeAt_of_apart⟩
    · rw [read?, heq]
      exact Value.readAt?_writeAt_append hp
    · rw [read?, write, heq]
      exact Value.readAt?_writeAt_prefix hrest
  case commutes =>
    intro fields p q v w hapart
    exact writeAt_comm hapart.symm w v fields

/-- Mappings into a team, one of them along a path with empty components. -/
def teamMappings : List Mapping :=
  [⟨"$\x7bargs.owner\x7d", some "team.owner"⟩, ⟨"$\x7bargs.size\x7d", some ".team..size"⟩]

theorem writeApart_team : Mapping.WriteApart teamMappings := by
  constructor
  · decide
  · decide

/-- Where a name stood, a team is written. -/
theorem Fields.write_spec_team :
    pathComponents "team.owner" ≠ [] ∧
    (Fields.write [("team", .string "ada")] "team.owner" (.object [("id", .int 7)])).read?
      "team..owner.id" = some (.int 7) ∧
    (∃ inner, (Fields.write [("team", .string "ada")] "team.owner" .null).read? "team" =
      some (.object inner)) ∧
    PathsApart (pathComponents "team.owner") (pathComponents ".team..size") ∧
    (Fields.write [("team", .string "ada")] "team.owner" .null).read? ".team..size" = none ∧
    (Fields.write [] "team.owner" (.int 7)).write ".team..size" (.int 3) =
      (Fields.write [] ".team..size" (.int 3)).write "team.owner" (.int 7) ∧
    Mapping.WriteApart teamMappings ∧ teamMappings ≠ [] ∧
    Mapping.Builds (Context.start .null []) teamMappings (fun ms =>
      (Step.buildInput ⟨"join", "builtin:identity", ms, none, none⟩ (Context.start .null [])
        .empty).toOption) ∧
    (ResponseRule.mk 200 none none teamMappings).view? ⟨true, .empty, none, none⟩
      (Context.start .null []) = some (Context.start .null []) ∧
    Mapping.Builds (Context.start .null []) teamMappings (fun ms =>
      (ResponseRule.shape "teams" ⟨200, none, none, ms⟩ ⟨true, .empty, none, none⟩
        (Context.start .null [])).toOption.map (·.body)) := by
  obtain ⟨reads, commutes, inputs, bodies⟩ := Fields.write_spec
  have hp : pathComponents "team.owner" ≠ [] := by decide
  have hapart : PathsApart (pathComponents "team.owner") (pathComponents ".team..size") := by
    decide
  have hne : teamMappings ≠ [] := by decide
  refine ⟨hp, (reads _ _ _ _ hp).1 ["id"] (by decide),
    (reads _ _ _ _ hp).2.1 ["owner"] (by decide) (by decide), hapart,
    (reads _ _ _ _ hp).2.2 hapart, commutes [] _ _ _ _ hapart, writeApart_team, hne,
    inputs ⟨"join", "builtin:identity", teamMappings, none, none⟩ _ _ hne writeApart_team, rfl,
    bodies "teams" ⟨200, none, none, teamMappings⟩ _ _ _ rfl hne writeApart_team⟩

end PipelineEngine
