import PipelineEngine.Proofs.Model.Resolved

/-!
# The order of declarations

Documents whose databases, schemas, tables, pipelines, endpoints, jobs and builders stand in
another order (`Document.Reordered`) declare the same, and linking makes the same of them.

* `Document.Agrees` says what two such documents have in common.
* `Document.Agrees.sameLookups`: as the names of a linked document are different, lookups
  by name do not depend on the order, and the faults of a declaration depend on the rest of
  the document only through these lookups (`SameLookups.tableFaults` and its like).
* `Document.link_reordered` is the main statement: both documents are linked or none is, and
  their models find the same under every name.
-/

namespace PipelineEngine

/-! ## Lookups by name -/

section
variable {α : Type} {name : α → String} {l l' : List α}

theorem find?_name_iff (h : (l.map name).Nodup) {x : String} {a : α} :
    l.find? (fun b => decide (name b = x)) = some a ↔ a ∈ l ∧ name a = x := by
  constructor
  · intro hfind
    exact ⟨List.mem_of_find?_eq_some hfind, by simpa using List.find?_some hfind⟩
  · rintro ⟨ha, rfl⟩
    exact find?_name_of_nodup h ha

/-- Among members with different names the order does not decide which one is found. -/
theorem find?_name_of_perm (hperm : l.Perm l') (h : (l.map name).Nodup) (x : String) :
    l.find? (fun b => decide (name b = x)) = l'.find? fun b => decide (name b = x) := by
  have h' : (l'.map name).Nodup := (hperm.map name).nodup_iff.1 h
  refine Option.ext fun a => ?_
  rw [find?_name_iff h, find?_name_iff h', hperm.mem_iff]

end

/-! ## Documents in another order -/

/-- A list that consists of the members of another one, in any order, each related to the
member that it comes from. -/
def ReorderedBy {α : Type} (R : α → α → Prop) (l l' : List α) : Prop :=
  ∃ middle, l.Perm middle ∧ List.Forall₂ R middle l'

/-- What is made of reordered lists, when that of related members is the same in some
order. -/
theorem ReorderedBy.flatMap {α β : Type} {R : α → α → Prop} {l l' : List α} {f : α → List β}
    (h : ReorderedBy R l l') (hR : ∀ a a', R a a' → (f a).Perm (f a')) :
    (l.flatMap f).Perm (l'.flatMap f) := by
  obtain ⟨middle, hperm, hpairs⟩ := h
  refine (hperm.flatMap_right f).trans ?_
  clear hperm
  induction hpairs with
  | nil => exact .refl _
  | cons hpair _ ih =>
    rw [List.flatMap_cons, List.flatMap_cons]
    exact (hR _ _ hpair).append ih

/-- The tables of a schema in another order. -/
structure Schema.Reordered (s s' : Schema) : Prop where
  name : s.name = s'.name
  tables : s.tables.Perm s'.tables

/-- The schemas of a database, and their tables, in another order. -/
structure Database.Reordered (b b' : Database) : Prop where
  schemas : ReorderedBy Schema.Reordered b.schemas b'.schemas
  same : { b with schemas := [] } = { b' with schemas := [] }

namespace Document

/-- The declarations of a document in another order. -/
structure Reordered (d d' : Document) : Prop where
  databases : ReorderedBy Database.Reordered d.databases d'.databases
  pipelines : d.pipelines.Perm d'.pipelines
  endpoints : d.endpoints.Perm d'.endpoints
  jobs : d.jobs.Perm d'.jobs
  builders : d.stepBuilders.Perm d'.stepBuilders
  info : d.info = d'.info
  env : d.env = d'.env
  options : d.apis.globalOptions = d'.apis.globalOptions
  graphql : d.apis.graphql = d'.apis.graphql
  base : d.apis.rest.map (·.base) = d'.apis.rest.map (·.base)

/-- What two documents have in common that declare the same. -/
structure Agrees (d d' : Document) : Prop where
  tables : d.tables.Perm d'.tables
  pipelines : d.pipelines.Perm d'.pipelines
  endpoints : d.endpoints.Perm d'.endpoints
  jobs : d.jobs.Perm d'.jobs
  builders : d.stepBuilders.Perm d'.stepBuilders
  options : d.apis.globalOptions = d'.apis.globalOptions

theorem Agrees.symm {d d' : Document} (h : d.Agrees d') : d'.Agrees d :=
  ⟨h.tables.symm, h.pipelines.symm, h.endpoints.symm, h.jobs.symm, h.builders.symm,
    h.options.symm⟩

/-- Reordered documents have the same tables, in some order. -/
theorem Reordered.agrees {d d' : Document} (h : d.Reordered d') : d.Agrees d' where
  tables := h.databases.flatMap fun _ _ hb => hb.schemas.flatMap fun _ _ hs => hs.tables
  pipelines := h.pipelines
  endpoints := h.endpoints
  jobs := h.jobs
  builders := h.builders
  options := h.options

/-! ## What faults depend on -/

/-- Two documents find the same under every name. -/
structure SameLookups (d d' : Document) : Prop where
  table? : d.table? = d'.table?
  pipeline? : d.pipeline? = d'.pipeline?
  stepBuilder? : d.stepBuilder? = d'.stepBuilder?

/-- Documents that declare the same find the same, as no name is declared twice. -/
theorem Agrees.sameLookups {d d' : Document} (h : d.Agrees d') {epoch : Nat} {m : Model}
    (hm : d.link epoch = .ok m) : d.SameLookups d' where
  table? := funext (find?_name_of_perm h.tables (tableFaults_of_link hm).1)
  pipeline? := funext (find?_name_of_perm h.pipelines (pipelineFaults_of_link hm).1)
  stepBuilder? := funext (find?_name_of_perm h.builders (nodup_builders_of_link hm))

namespace SameLookups

variable {d d' : Document} (h : d.SameLookups d')
include h

theorem planFaults : Plan.faults d = Plan.faults d' := by
  have hprovider : Plan.providerFaults d = Plan.providerFaults d' := by
    funext location provider
    simp only [Plan.providerFaults, h.stepBuilder?]
  funext scope plan withHooks
  simp only [Plan.faults, Plan.stepFaults, hprovider]

theorem linkTarget : Constraint.linkTarget d = Constraint.linkTarget d' := by
  funext mapping
  simp only [Constraint.linkTarget, h.table?]

theorem linkFaults (t : Table) (label : String) (target : Option String)
    (mappings : List Mapping) :
    Constraint.linkFaults d t label target mappings =
      Constraint.linkFaults d' t label target mappings := by
  induction mappings generalizing target with
  | nil => rfl
  | cons mapping rest ih => simp only [Constraint.linkFaults, h.linkTarget, ih]

theorem tableFaults : Table.faults d = Table.faults d' := by
  have hcolumn : Column.faults d = Column.faults d' := by
    funext t c
    have hphase : Column.phaseFaults d = Column.phaseFaults d' := by
      funext t c phase
      simp only [Column.phaseFaults, h.planFaults]
    simp only [Column.faults, hphase]
  funext t
  simp only [Table.faults, hcolumn, Constraint.faults, h.linkFaults]

theorem foreignKeys : Table.foreignKeys d = Table.foreignKeys d' := by
  funext t
  simp only [Table.foreignKeys, Constraint.foreignKey?, h.linkTarget]

theorem endpointFaults : Endpoint.faults d = Endpoint.faults d' := by
  have hsource : Endpoint.sourceFault? d = Endpoint.sourceFault? d' := by
    funext owner source
    simp only [Endpoint.sourceFault?, h.table?]
  funext e
  simp only [Endpoint.faults, Endpoint.subscriptionFaults, hsource, h.pipeline?]

theorem jobFaults : Job.faults d = Job.faults d' := by
  funext j
  simp only [Job.faults, h.pipeline?]

theorem pipelineFault (hoptions : d.apis.globalOptions = d'.apis.globalOptions) :
    d.pipelineFault = d'.pipelineFault := by
  have hhooks : d.hooks = d'.hooks := congrArg GlobalOptions.hooks hoptions
  funext p
  simp only [Document.pipelineFault, hhooks, h.planFaults]

theorem optionFaults (hoptions : d.apis.globalOptions = d'.apis.globalOptions) :
    d.optionFaults = d'.optionFaults := by
  have hhooks : d.hooks = d'.hooks := congrArg GlobalOptions.hooks hoptions
  simp only [Document.optionFaults, hoptions, hhooks, h.planFaults, h.table?]

end SameLookups

/-! ## Linking -/

section
variable {α : Type} {l l' : List α}

/-- Names that are different stay so in another order. -/
theorem ofNames_eq_nil_of_perm (hperm : l.Perm l') {kind scope : String} {name : α → String}
    (h : ConfigFault.ofNames kind scope (l.map name) = []) :
    ConfigFault.ofNames kind scope (l'.map name) = [] :=
  ConfigFault.ofNames_eq_nil_iff.2
    ((hperm.map name).nodup_iff.1 (ConfigFault.ofNames_eq_nil_iff.1 h))

theorem flatMap_eq_nil_of_perm (hperm : l.Perm l') {f : α → List ConfigFault}
    (h : l.flatMap f = []) : l'.flatMap f = [] :=
  List.flatMap_eq_nil_iff.2 fun a ha => List.flatMap_eq_nil_iff.1 h a (hperm.mem_iff.2 ha)

end

variable {d d' : Document} {epoch : Nat} {m m' : Model}

/-- A document that declares the same as one without faults has none either. -/
theorem Agrees.faults_eq_nil (h : d.Agrees d') (hm : d.link epoch = .ok m) : d'.faults = [] := by
  have hl := h.sameLookups hm
  obtain ⟨hbuilders, htables, hoptions, hpipelines, hendpoints, hjobs⟩ := isFaultless_of_link hm
  refine faults_eq_nil_iff.2 ⟨?_, ?_, ?_, ?_, ?_, ?_⟩
  · rw [builderFaults, List.append_eq_nil_iff] at hbuilders ⊢
    refine ⟨ofNames_eq_nil_of_perm h.builders hbuilders.1, ?_⟩
    rw [List.filterMap_eq_nil_iff] at hbuilders ⊢
    exact fun b hb => hbuilders.2 b (h.builders.mem_iff.2 hb)
  · rw [Document.tableFaults, List.append_eq_nil_iff] at htables ⊢
    rw [← hl.tableFaults]
    exact ⟨ofNames_eq_nil_of_perm h.tables htables.1, flatMap_eq_nil_of_perm h.tables htables.2⟩
  · rw [← hl.optionFaults h.options]
    exact hoptions
  · rw [Document.pipelineFaults, List.append_eq_nil_iff] at hpipelines ⊢
    rw [← hl.pipelineFault h.options]
    exact ⟨ofNames_eq_nil_of_perm h.pipelines hpipelines.1,
      flatMap_eq_nil_of_perm h.pipelines hpipelines.2⟩
  · rw [Document.endpointFaults, List.append_eq_nil_iff] at hendpoints ⊢
    rw [← hl.endpointFaults]
    exact ⟨ofNames_eq_nil_of_perm h.endpoints hendpoints.1,
      flatMap_eq_nil_of_perm h.endpoints hendpoints.2⟩
  · rw [Document.jobFaults, List.append_eq_nil_iff] at hjobs ⊢
    rw [← hl.jobFaults]
    exact ⟨ofNames_eq_nil_of_perm h.jobs hjobs.1, flatMap_eq_nil_of_perm h.jobs hjobs.2⟩

theorem Agrees.exists_link (h : d.Agrees d') (hm : d.link epoch = .ok m) :
    ∃ m', d'.link epoch = .ok m' :=
  ⟨_, link_eq_ok_iff.2 ⟨h.faults_eq_nil hm, rfl⟩⟩

/-- The schedules of a linked model are those that its jobs declare. -/
theorem schedule?_eq_some_iff (hm : d.link epoch = .ok m) {name : String} {s : Schedule} :
    m.schedule? name = some s ↔ ∃ j ∈ d.jobs, j.name = name ∧ Schedule.ofJob j = .ok s := by
  have hdeclared := fun j hj => schedule?_of_mem hm (j := j) hj
  obtain rfl := (link_eq_ok_iff.1 hm).2
  constructor
  · intro hs
    have hs' : Fields.get? (Fields.ofList (d.jobs.filterMap fun j =>
        (Schedule.ofJob j).toOption.map fun s => (j.name, s))) name = some s := hs
    rw [Fields.ofList, Fields.get?_extend, Fields.get?_nil, Option.or_none] at hs'
    have hmem := List.mem_reverse.1 (Fields.mem_of_get? hs')
    obtain ⟨j, hj, hpair⟩ := List.mem_filterMap.1 hmem
    obtain ⟨s', hread, heq⟩ := Option.map_eq_some_iff.1 hpair
    obtain ⟨rfl, rfl⟩ := Prod.mk.inj heq
    obtain ⟨s'', hs'', -⟩ := hdeclared j hj
    refine ⟨j, hj, rfl, ?_⟩
    rw [hs''] at hread ⊢
    exact congrArg Except.ok (Option.some.inj hread)
  · rintro ⟨j, hj, rfl, hs⟩
    obtain ⟨s', hs', hfound⟩ := hdeclared j hj
    rw [hs] at hs'
    rw [hfound, Except.ok.inj hs']

end Document

/-- Two models find the same under every name, and hold the same foreign keys and bindings
in some order. -/
structure Model.ResolvesAlike (m m' : Model) : Prop where
  table? : ∀ name, m.table? name = m'.table? name
  pipeline? : ∀ name, m.pipeline? name = m'.pipeline? name
  endpoint? : ∀ key, m.endpoint? key = m'.endpoint? key
  stepBuilder? : ∀ name, m.document.stepBuilder? name = m'.document.stepBuilder? name
  schedule? : ∀ job, m.schedule? job = m'.schedule? job
  foreignKeys : m.foreignKeys.Perm m'.foreignKeys
  subscriptions : m.subscriptions.Perm m'.subscriptions

namespace Document

variable {d d' : Document} {epoch : Nat} {m m' : Model}

theorem Agrees.resolvesAlike (h : d.Agrees d') (hm : d.link epoch = .ok m)
    (hm' : d'.link epoch = .ok m') : m.ResolvesAlike m' := by
  have hl := h.sameLookups hm
  have hkeys := (endpointFaults_of_link hm).1
  have hschedule : ∀ job, m.schedule? job = m'.schedule? job := by
    intro job
    refine Option.ext fun s => ?_
    rw [schedule?_eq_some_iff hm, schedule?_eq_some_iff hm']
    simp only [h.jobs.mem_iff]
  obtain rfl := (link_eq_ok_iff.1 hm).2
  obtain rfl := (link_eq_ok_iff.1 hm').2
  refine ⟨congrFun hl.table?, congrFun hl.pipeline?, find?_name_of_perm h.endpoints hkeys,
    congrFun hl.stepBuilder?, hschedule, ?_, h.endpoints.filterMap _⟩
  show (d.tables.flatMap (Table.foreignKeys d)).Perm (d'.tables.flatMap (Table.foreignKeys d'))
  rw [hl.foreignKeys]
  exact h.tables.flatMap_right _

/-- The order of databases, schemas, tables, pipelines, endpoints, jobs and builders decides
neither whether a document is linked nor what its model finds under a name. -/
theorem link_reordered (h : d.Reordered d') (epoch : Nat) :
    ((∃ m, d.link epoch = .ok m) ↔ ∃ m', d'.link epoch = .ok m') ∧
      ∀ m m', d.link epoch = .ok m → d'.link epoch = .ok m' → m.ResolvesAlike m' := by
  refine ⟨⟨?_, ?_⟩, fun m m' hm hm' => h.agrees.resolvesAlike hm hm'⟩
  · rintro ⟨m, hm⟩
    exact h.agrees.exists_link hm
  · rintro ⟨m', hm'⟩
    exact h.agrees.symm.exists_link hm'

/-! ## The other way round -/

/-- The document with its declarations the other way round. -/
def reversed (d : Document) : Document :=
  { d with
    databases := d.databases.reverse.map fun b =>
      { b with schemas := b.schemas.reverse.map fun s => { s with tables := s.tables.reverse } }
    apis := { d.apis with
      rest := d.apis.rest.map fun r => { r with endpoints := r.endpoints.reverse }
      pipelines := d.apis.pipelines.reverse
      jobs := d.apis.jobs.reverse }
    stepBuilders := d.stepBuilders.reverse }

theorem reordered_reversed (d : Document) : d.Reordered d.reversed where
  databases := by
    refine ⟨_, (List.reverse_perm _).symm, List.forall₂_map_right_iff.2 (List.forall₂_same.2 ?_)⟩
    refine fun b _ => ⟨⟨_, (List.reverse_perm _).symm, ?_⟩, rfl⟩
    exact List.forall₂_map_right_iff.2 (List.forall₂_same.2 fun s _ =>
      ⟨rfl, (List.reverse_perm _).symm⟩)
  pipelines := (List.reverse_perm _).symm
  endpoints := by
    unfold endpoints reversed
    cases d.apis.rest with
    | none => exact .refl _
    | some r => exact (List.reverse_perm _).symm
  jobs := (List.reverse_perm _).symm
  builders := (List.reverse_perm _).symm
  info := rfl
  env := rfl
  options := rfl
  graphql := rfl
  base := by
    unfold reversed
    cases d.apis.rest <;> rfl

/-- The shop the other way round, where a table comes before the one that it points at. -/
theorem link_reversed_shop :
    shop.Reordered shop.reversed ∧ ∃ m', shop.reversed.link 0 = .ok m' ∧
      (shop.linked 0).ResolvesAlike m' := by
  have h := reordered_reversed shop
  have hm : shop.link 0 = .ok (shop.linked 0) := link_eq_ok_iff.2 ⟨faults_shop, rfl⟩
  obtain ⟨hiff, halike⟩ := link_reordered h 0
  obtain ⟨m', hm'⟩ := hiff.1 ⟨_, hm⟩
  exact ⟨h, m', hm', halike _ _ hm hm'⟩

end Document

end PipelineEngine
