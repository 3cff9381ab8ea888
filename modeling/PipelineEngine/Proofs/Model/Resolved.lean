import PipelineEngine.Proofs.Expression.Reference
import PipelineEngine.Proofs.Model.Hooks
import PipelineEngine.Proofs.Model.Keys
import PipelineEngine.Proofs.Schedule.Declared

/-!
# What a linked model can be relied on for

The store, the router, the jobs and the runs use a model without looking again whether what
it names exists.  `Model.IsResolved` says what they rely on: its names are different, what
it refers to by name is there, and its texts can be read.

* `Document.isResolved_of_link` is the main statement: linking makes sure of all this.
* `Step.resolves_of_faults` says it of the steps of one plan, and `Model.HasStep` lists the
  places where a model has steps.
-/

namespace PipelineEngine

/-! ## Models whose references lead somewhere -/

/-- The provider and the mappings of a step can be read, and a builder that it names
exists. -/
structure Step.Resolves (s : Step) (m : Model) : Prop where
  provider : ∃ ref, ProviderRef.parse s.provider = .ok ref ∧
    ∀ builder path, ref = .custom builder path → (m.document.stepBuilder? builder).isSome
  mappings : ∀ mapping ∈ s.mappings, ∃ e, Expr.parseMapping mapping.source = .ok e

/-- The texts of a response rule can be read. -/
structure ResponseRule.Parses (r : ResponseRule) : Prop where
  condition : ∀ text, r.condition = some text → ∃ e, Expr.parseCondition text = .ok e
  selection : ∀ text, r.selection = some text → ∃ y, Yield.parse text = .ok y
  mappings : ∀ mapping ∈ r.mappings, ∃ e, Expr.parseMapping mapping.source = .ok e

/-- A binding is that of an endpoint that subscribes, and what it names exists. -/
structure SubscriptionBinding.Resolves (b : SubscriptionBinding) (m : Model) (e : Endpoint) :
    Prop where
  endpoint : m.endpoint? b.endpoint = some e
  pipeline : e.pipeline = some b.pipeline ∧ (m.pipeline? b.pipeline).isSome
  /-- Its sources are those that the endpoint declares, and their tables exist. -/
  sources : ∃ s, e.subscription = some s ∧
    List.Forall₂ (fun text source => SubscriptionSource.parse text = .ok source ∧
      ∀ table kind, source = .table table kind → (m.table? table).isSome) s.sources b.sources

namespace Model

/-- The steps of a model: its hooks, the steps and parsers of its pipelines, and those of
its columns. -/
inductive HasStep (m : Model) : Step → Prop where
  | hook {s : Step} (hs : s ∈ m.hooks.steps) : HasStep m s
  | explicit {p : Pipeline} {s : Step} (hp : p ∈ m.document.pipelines) (hs : s ∈ p.steps) :
      HasStep m s
  | parser {p : Pipeline} {s : Step} (hp : p ∈ m.document.pipelines) (hs : p.parser = some s) :
      HasStep m s
  | column {t : Table} {c : Column} {phase : ColumnPhase} {s : Step}
      (ht : t ∈ m.document.tables) (hc : c ∈ t.columns) (hs : s ∈ c.phaseSteps phase) : HasStep m s

/-- No two declarations of a kind have one name. -/
structure HasDifferentNames (m : Model) : Prop where
  tables : (m.document.tables.map (·.name)).Nodup
  columns : ∀ t ∈ m.document.tables, (t.columns.map (·.name)).Nodup
  pipelines : (m.document.pipelines.map (·.name)).Nodup
  /-- The steps of a pipeline and the hooks around them. -/
  steps : ∀ p ∈ m.document.pipelines, ((m.hooks.steps ++ p.steps).map (·.name)).Nodup
  endpoints : (m.document.endpoints.map Endpoint.key).Nodup
  jobs : (m.document.jobs.map (·.name)).Nodup
  builders : (m.document.stepBuilders.map (·.name)).Nodup

/-- What a model names exists, and what it writes can be read. -/
structure IsResolved (m : Model) : Prop where
  names : m.HasDifferentNames
  /-- One foreign key for each constraint that declares one. -/
  foreignKeys : List.Forall₂ (fun (entry : Table × Constraint × Nat) k =>
    k.Resolves m entry.1 entry.2.1 entry.2.2) m.document.references m.foreignKeys
  /-- One binding for each endpoint that subscribes. -/
  subscriptions : List.Forall₂ (fun e b => b.Resolves m e)
    (m.document.endpoints.filter (·.isSubscription)) m.subscriptions
  /-- Each job has the schedule that it declares, and its pipeline exists. -/
  jobs : ∀ j ∈ m.document.jobs, (m.pipeline? j.pipeline).isSome ∧
    ∃ s, Schedule.ofJob j = .ok s ∧ m.schedule? j.name = some s
  endpoints : ∀ e ∈ m.document.endpoints, ∀ name, e.pipeline = some name →
    (m.pipeline? name).isSome
  steps : ∀ s, m.HasStep s → s.Resolves m
  rules : ∀ e ∈ m.document.endpoints, ∀ r ∈ e.responses, r.Parses

end Model

/-! ## Steps -/

/-- The explicit steps of the plan of some steps are these steps. -/
theorem Hooks.explicit_plan (h : Hooks) (steps : List Step) :
    (h.plan steps).filter (fun e => !e.hook) = Plan.ofSteps steps := by
  have haround : ∀ hooks default index count,
      (around hooks default index count).filter (fun e => !e.hook) = [] := by
    intro hooks default index count
    refine List.filter_eq_nil_iff.2 fun e he => ?_
    obtain ⟨hook, -, rfl⟩ := List.mem_map.1 he
    simp
  have hfrom : ∀ count index, (h.planFrom count index steps).filter (fun e => !e.hook) =
      Plan.ofSteps steps := by
    intro count
    induction steps with
    | nil => exact fun _ => rfl
    | cons step rest ih =>
      intro index
      rw [planFrom, List.filter_append, haround, List.nil_append, List.filter_cons_of_pos rfl,
        List.filter_append, haround, List.nil_append, ih]
      rfl
  cases steps with
  | nil =>
    refine List.filter_eq_nil_iff.2 fun e he => ?_
    obtain ⟨hook, -, rfl⟩ := List.mem_map.1 he
    simp
  | cons step rest => exact hfrom _ _

/-- The steps that are looked at in a plan without faults are resolved. -/
theorem Step.resolves_of_faults {d : Document} {epoch : Nat} {scope : String}
    {plan : List PlannedStep} {withHooks : Bool} (h : Plan.faults d scope plan withHooks = [])
    {entry : PlannedStep} (hmem : entry ∈ plan) (hentry : withHooks = true ∨ entry.hook = false) :
    entry.step.Resolves (d.linked epoch) := by
  obtain ⟨index, hfaults⟩ := Plan.stepFaults_of_faults h hmem hentry
  simp only [Plan.stepFaults, List.append_eq_nil_iff, List.flatMap_eq_nil_iff] at hfaults
  obtain ⟨⟨-, hprovider⟩, hmappings⟩ := hfaults
  constructor
  · rw [Plan.providerFaults] at hprovider
    cases hparse : ProviderRef.parse entry.step.provider with
    | error e => simp [hparse] at hprovider
    | ok ref =>
      refine ⟨ref, rfl, ?_⟩
      rintro builder path rfl
      simp only [hparse] at hprovider
      exact (isSome_of_ite_isNone hprovider (by simp)).1
  · intro mapping hmapping
    have hfaults := hmappings mapping hmapping
    rw [Plan.mappingFaults] at hfaults
    cases hparse : Expr.parseMapping mapping.source with
    | error e => simp [hparse] at hfaults
    | ok e => exact ⟨e, rfl⟩

/-- Nothing is wrong with a response rule exactly when its texts can be read. -/
theorem ResponseRule.faults_eq_nil_iff {r : ResponseRule} {location : String} :
    r.faults location = [] ↔ r.Parses := by
  simp only [faults, List.append_eq_nil_iff, List.filterMap_eq_nil_iff]
  constructor
  · rintro ⟨⟨hcondition, hselection⟩, hmappings⟩
    refine ⟨?_, ?_, ?_⟩
    · intro text htext
      cases hparse : Expr.parseCondition text with
      | error e => simp [htext, hparse] at hcondition
      | ok e => exact ⟨e, rfl⟩
    · intro text htext
      cases hparse : Yield.parse text with
      | error e => simp [htext, hparse] at hselection
      | ok y => exact ⟨y, rfl⟩
    · intro mapping hmapping
      have hnone := hmappings mapping hmapping
      cases hparse : Expr.parseMapping mapping.source with
      | error e => simp [hparse] at hnone
      | ok e => exact ⟨e, rfl⟩
  · intro h
    refine ⟨⟨?_, ?_⟩, fun mapping hmapping => ?_⟩
    · cases htext : r.condition with
      | none => rfl
      | some text =>
        obtain ⟨e, he⟩ := h.condition text htext
        simp [he]
    · cases htext : r.selection with
      | none => rfl
      | some text =>
        obtain ⟨y, hy⟩ := h.selection text htext
        simp [hy]
    · obtain ⟨e, he⟩ := h.mappings mapping hmapping
      rw [he]

namespace Document

variable {d : Document} {epoch : Nat} {m : Model}

/-- The endpoints of a document without faults have different keys, and nothing is wrong
with any of them. -/
theorem endpointFaults_of_link (h : d.link epoch = .ok m) :
    (d.endpoints.map Endpoint.key).Nodup ∧ ∀ e ∈ d.endpoints, e.faults d = [] := by
  have hendpoints := (isFaultless_of_link h).endpoints
  rw [endpointFaults, List.append_eq_nil_iff, ConfigFault.ofNames_eq_nil_iff,
    List.flatMap_eq_nil_iff] at hendpoints
  exact hendpoints

theorem nodup_builders_of_link (h : d.link epoch = .ok m) :
    (d.stepBuilders.map (·.name)).Nodup := by
  have hbuilders := (isFaultless_of_link h).builders
  rw [builderFaults, List.append_eq_nil_iff, ConfigFault.ofNames_eq_nil_iff] at hbuilders
  exact hbuilders.1

/-- Every step of a linked model is resolved. -/
theorem resolves_of_hasStep (h : d.link epoch = .ok m) {s : Step} (hs : m.HasStep s) :
    s.Resolves m := by
  have hpipelines := (pipelineFaults_of_link h).2
  have hhooks := hookFaults_of_link h
  have hphase := fun t c ht hc phase => phaseFaults_of_link h (t := t) (c := c) ht hc phase
  obtain rfl := (link_eq_ok_iff.1 h).2
  cases hs with
  | hook hs =>
    exact Step.resolves_of_faults hhooks (List.mem_map.2 ⟨s, hs, rfl⟩) (Or.inl rfl)
  | @explicit p _ hp hs =>
    obtain ⟨scope, hplan⟩ := (hpipelines p hp).plan
    have hmem : (⟨s, false⟩ : PlannedStep) ∈ (d.hooks.plan p.steps).filter fun e => !e.hook := by
      rw [Hooks.explicit_plan]
      exact List.mem_map.2 ⟨s, hs, rfl⟩
    exact Step.resolves_of_faults hplan (List.mem_filter.1 hmem).1 (Or.inr rfl)
  | @parser p _ hp hs =>
    obtain ⟨scope, hparser⟩ := (hpipelines p hp).parser _ hs
    exact Step.resolves_of_faults hparser (List.mem_singleton.2 rfl) (Or.inl rfl)
  | @column t c phase _ ht hc hs =>
    exact Step.resolves_of_faults (hphase t c ht hc phase) (List.mem_map.2 ⟨s, hs, rfl⟩)
      (Or.inl rfl)

/-! ## Names -/

/-- The steps of a pipeline and the hooks around them have different names. -/
theorem nodup_steps_of_link (h : d.link epoch = .ok m) {p : Pipeline}
    (hp : p ∈ m.document.pipelines) : ((m.hooks.steps ++ p.steps).map (·.name)).Nodup := by
  have hhooks : (m.hooks.steps.map (·.name)).Nodup := by
    have hnodup := (ordered_of_link h).nodup
    rw [← m.hooks.attached_map_fst, List.map_map]
    exact hnodup
  have hapart := name_not_mem_hooks h hp
  have hpipelines := (pipelineFaults_of_link h).2
  obtain rfl := (link_eq_ok_iff.1 h).2
  have hsteps : (p.steps.map (·.name)).Nodup := by
    obtain ⟨scope, hplan⟩ := (hpipelines p hp).plan
    have hnodup := Plan.nodup_explicit_of_faults hplan
    rw [Hooks.explicit_plan, Plan.ofSteps, List.map_map] at hnodup
    exact hnodup
  rw [List.map_append]
  refine List.nodup_append.2 ⟨hhooks, hsteps, ?_⟩
  rintro name hname _ hother rfl
  obtain ⟨s, hs, rfl⟩ := List.mem_map.1 hother
  refine hapart s hs ?_
  rw [← Hooks.attached_map_fst, List.map_map] at hname
  exact hname

theorem hasDifferentNames_of_link (h : d.link epoch = .ok m) : m.HasDifferentNames := by
  have htables := tableFaults_of_link h
  have hpipelines := (pipelineFaults_of_link h).1
  have hsteps := fun p hp => nodup_steps_of_link h (p := p) hp
  have hendpoints := (endpointFaults_of_link h).1
  have hjobs := (jobFaults_of_link h).1
  have hbuilders := nodup_builders_of_link h
  obtain rfl := (link_eq_ok_iff.1 h).2
  exact ⟨htables.1, fun t ht => (htables.2 t ht).names, hpipelines, hsteps, hendpoints, hjobs,
    hbuilders⟩

/-! ## Endpoints -/

/-- An endpoint is found under its key. -/
theorem endpoint?_of_mem (h : d.link epoch = .ok m) {e : Endpoint} (he : e ∈ m.document.endpoints) :
    m.endpoint? e.key = some e := by
  have hkeys := (endpointFaults_of_link h).1
  obtain rfl := (link_eq_ok_iff.1 h).2
  exact find?_name_of_nodup hkeys he

/-- The pipeline that an endpoint names exists. -/
theorem pipeline?_of_endpoint (h : d.link epoch = .ok m) {e : Endpoint}
    (he : e ∈ m.document.endpoints) {name : String} (hname : e.pipeline = some name) :
    (m.pipeline? name).isSome := by
  have hfaults := (endpointFaults_of_link h).2
  obtain rfl := (link_eq_ok_iff.1 h).2
  have hendpoint := hfaults e he
  simp only [Endpoint.faults, hname, List.append_eq_nil_iff] at hendpoint
  exact (isSome_of_ite_isNone hendpoint.1.1 (by simp)).1

/-- The texts of the response rules of an endpoint can be read. -/
theorem parses_of_link (h : d.link epoch = .ok m) {e : Endpoint} (he : e ∈ m.document.endpoints)
    {r : ResponseRule} (hr : r ∈ e.responses) : r.Parses := by
  have hfaults := (endpointFaults_of_link h).2
  obtain rfl := (link_eq_ok_iff.1 h).2
  have hendpoint := hfaults e he
  simp only [Endpoint.faults, List.append_eq_nil_iff, List.flatMap_eq_nil_iff] at hendpoint
  obtain ⟨index, hindex⟩ := List.mem_iff_getElem?.1 hr
  exact ResponseRule.faults_eq_nil_iff.1
    (hendpoint.1.2 (r, index) (List.mem_zipIdx_iff_getElem?.2 hindex))

/-- A source without a fault can be read, and its table exists. -/
theorem of_sourceFault?_eq_none {owner text : String}
    (h : Endpoint.sourceFault? d owner text = none) :
    ∃ source, SubscriptionSource.parse text = .ok source ∧
      ∀ table kind, source = .table table kind → (d.table? table).isSome := by
  rw [Endpoint.sourceFault?] at h
  cases hparse : SubscriptionSource.parse text with
  | error e => simp [hparse] at h
  | ok source =>
    refine ⟨source, rfl, ?_⟩
    rintro table kind rfl
    simp only [hparse] at h
    exact (isSome_of_ite_isNone h (by simp)).1

/-- An endpoint that subscribes has a binding. -/
theorem exists_binding_of_link (h : d.link epoch = .ok m) {e : Endpoint}
    (he : e ∈ m.document.endpoints) (hsubscription : e.isSubscription = true) :
    ∃ b, e.binding? = some b ∧ b.Resolves m e := by
  have hkey := endpoint?_of_mem h he
  have hpipeline : ∀ name, e.pipeline = some name → (m.pipeline? name).isSome :=
    fun _ hname => pipeline?_of_endpoint h he hname
  have hfaults := (endpointFaults_of_link h).2
  obtain rfl := (link_eq_ok_iff.1 h).2
  have hendpoint := hfaults e he
  obtain ⟨s, hs⟩ := Option.isSome_iff_exists.1 hsubscription
  simp only [Endpoint.faults, hs, List.append_eq_nil_iff] at hendpoint
  have hsources := hendpoint.2
  rw [Endpoint.subscriptionFaults] at hsources
  cases hname : e.pipeline with
  | none => simp [hname] at hsources
  | some name =>
    simp only [hname] at hsources
    rw [List.filterMap_eq_nil_iff] at hsources
    obtain ⟨sources, hparsed, hpairs⟩ := exists_mapM_eq_some
      (f := fun text => (SubscriptionSource.parse text).toOption)
      (R := fun text source => SubscriptionSource.parse text = .ok source ∧
        ∀ table kind, source = .table table kind → (d.table? table).isSome) fun text htext => by
          obtain ⟨source, hparse, htable⟩ := of_sourceFault?_eq_none (hsources text htext)
          exact ⟨source, by rw [hparse]; rfl, hparse, htable⟩
    refine ⟨⟨e.key, name, sources⟩, ?_, hkey, ⟨hname, hpipeline name hname⟩,
      ⟨s, hs, hpairs⟩⟩
    simp only [Endpoint.binding?, hs, hname, hparsed, Option.bind_eq_bind, Option.bind_some,
      Option.pure_def]

/-! ## The model -/

/-- Linking makes sure that everything that a model names exists and that everything that
is written in it can be read. -/
theorem isResolved_of_link (h : d.link epoch = .ok m) : m.document = d ∧ m.IsResolved := by
  have hforeignKeys := forall₂_foreignKeys h
  have hbindings := fun e he hsubscription =>
    exists_binding_of_link h (e := e) he hsubscription
  have hjob : ∀ j ∈ m.document.jobs, (m.pipeline? j.pipeline).isSome := by
    have hfaults := (jobFaults_of_link h).2
    obtain rfl := (link_eq_ok_iff.1 h).2
    intro j hj
    have hfaults := hfaults j hj
    rw [Job.faults, List.append_eq_nil_iff] at hfaults
    exact (isSome_of_ite_isNone hfaults.1 (by simp)).1
  refine ⟨by rw [← (link_eq_ok_iff.1 h).2]; rfl, hasDifferentNames_of_link h, ?_, ?_,
    fun j hj => ⟨hjob j hj, schedule?_of_mem h hj⟩,
    fun e he name hname => pipeline?_of_endpoint h he hname, fun s hs => resolves_of_hasStep h hs,
    fun e he r hr => parses_of_link h he hr⟩
  · obtain rfl := (link_eq_ok_iff.1 h).2
    exact hforeignKeys
  · obtain rfl := (link_eq_ok_iff.1 h).2
    refine forall₂_filterMap hbindings ?_
    intro e _ hsubscription
    have hnone : e.subscription = none :=
      Option.isNone_iff_eq_none.1 (Option.isSome_eq_false_iff.1 hsubscription)
    rw [Endpoint.binding?, hnone]
    rfl

end Document

/-! ## A shop -/

/-- A rule for the orders that succeed. -/
def accepted : ResponseRule := ⟨200, some "$\x7bsuccess\x7d", some "0..", [⟨"$\x7bstamp\x7d", none⟩]⟩

/-- A step whose image a builder makes, and which is given what a hook left. -/
def making : Step := ⟨"make", "maker:parts", [⟨"$\x7bstamp\x7d", some "stamp"⟩], none, none⟩

/-- A document with something of each kind: a foreign key, a column that is transformed, a
hook, a parser, a builder, an endpoint of each sort and a job. -/
def shop : Document where
  info := []
  env := []
  databases := [
    ⟨"people", .mekaDb, none, none, none, none, none, none, [⟨none, [
      ⟨"owner", [⟨"id", .bigint, true, true, none, none⟩], [], none⟩]⟩]⟩,
    ⟨"goods", .mekaDb, none, none, none, none, none, none, [⟨none, [
      ⟨"thing", [
        ⟨"label", .text, true, false, none,
          some ⟨[], [⟨"lower", "builtin:lowercase", [], none, none⟩], []⟩⟩,
        ⟨"owner", .bigint, true, false, none, none⟩],
        [⟨some "home", .foreignKey, [], [⟨"owner", some "owner.id"⟩], some .cascade, none⟩],
        none⟩]⟩]⟩]
  apis := {
    globalOptions := ⟨["owner"], [],
      ⟨[⟨⟨"stamp", "builtin:identity", [], none, none⟩, some .each⟩], []⟩⟩
    rest := some ⟨none, [
      ⟨some "order", none, .post, none, none, some "work", [accepted], none⟩,
      ⟨some "feed", none, .get, none, none, some "work", [],
        some ⟨["thing:insert", "custom:sale"]⟩⟩]⟩
    graphql := none
    pipelines := [⟨"work", [making], some ⟨"read", "builtin:identity", [], none, none⟩⟩]
    jobs := [⟨"sweep", "work", true, true, "2024-01-01T00:00:00Z", none, "hour", none⟩] }
  stepBuilders := [⟨"maker", "image"⟩]

theorem faults_shop : shop.faults = [] := by
  have hsuccess : Expr.parseCondition "$\x7bsuccess\x7d" =
      .ok (.ref ⟨String.ofList ['s', 'u', 'c', 'c', 'e', 's', 's'],
        .named (String.ofList ['s', 'u', 'c', 'c', 'e', 's', 's']), []⟩) :=
    Expr.parseCondition_of_name rfl (by decide) (List.all_eq_true.1 rfl) (by decide)
  have hstamp : Expr.parseMapping "$\x7bstamp\x7d" =
      .ok (.ref ⟨String.ofList ['s', 't', 'a', 'm', 'p'],
        .named (String.ofList ['s', 't', 'a', 'm', 'p']), []⟩) :=
    Expr.parseMapping_of_name rfl (by decide) (List.all_eq_true.1 rfl) (by decide)
  have hstep : ∀ scope, Plan.stepFaults shop scope (shop.hooks.plan [making]) 1
      ⟨making, false⟩ = [] := by
    intro scope
    rw [Plan.stepFaults]
    simp only [making, List.flatMap_cons, Plan.mappingFaults, hstamp]
    rfl
  have hrule : ∀ location, accepted.faults location = [] := by
    intro location
    simp only [ResponseRule.faults, accepted, Option.map_some, hsuccess, List.filterMap_cons,
      hstamp]
    rfl
  have hpipelines : shop.pipelineFaults = [] := by
    show ((Plan.stepFaults _ _ (shop.hooks.plan [making]) 1 _ ++ []) ++ []) ++ [] = []
    rw [hstep]
    rfl
  have hendpoints : shop.endpointFaults = [] := by
    show (((accepted.faults _ ++ []) ++ []) ++ []) = []
    rw [hrule]
    rfl
  rw [Document.faults, hpipelines, hendpoints]
  rfl

theorem isResolved_shop :
    shop.link 0 = .ok (shop.linked 0) ∧ (shop.linked 0).IsResolved := by
  have hm : shop.link 0 = .ok (shop.linked 0) := Document.link_eq_ok_iff.2 ⟨faults_shop, rfl⟩
  exact ⟨hm, (Document.isResolved_of_link hm).2⟩

end PipelineEngine
