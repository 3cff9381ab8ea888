import Mathlib.Logic.Relation
import PipelineEngine.Proofs.Model.Resolved
import PipelineEngine.Proofs.Run.Followed
import PipelineEngine.Proofs.Subscription.Channels

/-!
# Publications

An event is published by one task for each binding that it concerns.  The tasks take turns in any
order: each one runs its delivery, whose requests are answered in any way, and hands the outcome
to the receivers.  It can be aborted as long as its run is not over.  Reports are collected as
tasks are joined, in any order too.  Meanwhile receivers take what waits for them.

* `Model.yields_deliver_iff`, `Runner.result_of_yields`: what the delivery of a task comes to.
* `Publication.Step`: all that can happen next.
* `filter_filterMap_of_nodup`: what one of several elements with different keys has given.
* `Publication.exists_isOver`: every publication can be brought to its end.
-/

namespace PipelineEngine

/-! ## Dialogues that go on -/

namespace Dialogue

variable {α : Type}

/-- The answers in the log lead the dialogue through it to what is left of it. -/
inductive LeadsTo (p : Dialogue α) : List Exchange → Dialogue α → Prop
  | nil : LeadsTo p [] p
  | snoc {log : List Exchange} {request : Request} {next : request.Answer → Dialogue α}
      (h : LeadsTo p log (.ask request next)) (answer : request.Answer) :
    LeadsTo p (log ++ [⟨request, answer⟩]) (next answer)

theorem LeadsTo.yields {p rest : Dialogue α} {log later : List Exchange} {a : α}
    (h : p.LeadsTo log rest) (hrest : rest.Yields later a) : p.Yields (log ++ later) a := by
  induction h generalizing later with
  | nil => exact hrest
  | snoc _ answer ih =>
    rw [List.append_assoc]
    exact ih (.ask answer hrest)

instance (request : Request) : Inhabited request.Answer := by
  cases request <;> infer_instance

/-- Every dialogue comes to an end if it is answered. -/
theorem exists_yields (p : Dialogue α) : ∃ log a, p.Yields log a := by
  induction p with
  | done a => exact ⟨[], a, .done a⟩
  | ask request next ih =>
    obtain ⟨log, a, h⟩ := ih default
    exact ⟨_, a, .ask default h⟩

end Dialogue

/-! ## Bindings and their runs -/

/-- No two bindings of a linked model are those of one endpoint. -/
theorem Document.nodup_bindings_of_link {d : Document} {epoch : Nat} {m : Model}
    (h : d.link epoch = .ok m) : (m.subscriptions.map (·.endpoint)).Nodup := by
  obtain ⟨-, hresolved⟩ := isResolved_of_link h
  have hkeys : List.Forall₂ (· = ·)
      ((m.document.endpoints.filter (·.isSubscription)).map Endpoint.key)
      (m.subscriptions.map (·.endpoint)) := by
    rw [List.forall₂_map_left_iff, List.forall₂_map_right_iff]
    refine hresolved.subscriptions.imp fun e b hb => ?_
    simpa using List.find?_some hb.endpoint
  rw [List.forall₂_eq_eq_eq] at hkeys
  rw [← hkeys]
  exact hresolved.names.endpoints.sublist (List.filter_sublist.map _)

/-- The pipeline of a binding exists. -/
theorem Document.isSome_pipeline?_of_binding {d : Document} {epoch : Nat} {m : Model}
    (h : d.link epoch = .ok m) {b : SubscriptionBinding} (hb : b ∈ m.subscriptions) :
    (m.pipeline? b.pipeline).isSome := by
  obtain ⟨-, hresolved⟩ := isResolved_of_link h
  have hall : List.Forall₂
      (flip fun b e => (m.pipeline? b.pipeline).isSome = true ∧ b.Resolves m e) _ m.subscriptions :=
    hresolved.subscriptions.imp fun _ _ hb => ⟨hb.pipeline.2, hb⟩
  exact ((List.forall₂_and_left _ _).1 hall.flip).1 b hb

/-- A run is cancelled or comes to an execution. -/
theorem Runner.result_of_yields {r : Runner} {m : Model} {pipeline : String} {args : Value}
    {initial : Payload} {log : List Exchange} {result : Except RunError Execution}
    (hpipeline : (m.pipeline? pipeline).isSome)
    (h : (r.run m pipeline args initial).Yields log result) :
    Cancelled log ∧ result = .error (.cancelled pipeline) ∨
      ¬ Cancelled log ∧ ∃ e, result = .ok e := by
  obtain ⟨p, hp⟩ := Option.isSome_iff_exists.1 hpipeline
  rw [Runner.run, hp] at h
  obtain ⟨c⟩ := chronicle_execute h
  have hresult := c.result_eq
  rw [c.cancelled_iff]
  cases hending : c.ending with
  | completed body ctx =>
    rw [hending] at hresult
    exact Or.inr ⟨nofun, _, hresult⟩
  | halted halt ctx =>
    rw [hending] at hresult
    exact Or.inr ⟨nofun, _, hresult⟩
  | cancelled step =>
    rw [hending] at hresult
    exact Or.inl ⟨⟨step, rfl⟩, hresult⟩

/-- What is delivered for an execution. -/
def Model.deliveryOf (m : Model) (trigger : Trigger) (b : SubscriptionBinding) (e : Execution) :
    Delivery :=
  ⟨b.endpoint, trigger, e.run, e.outcome, m.shaped? b.endpoint e⟩

/-- What a delivery comes to is made of the result of its run. -/
theorem Model.yields_deliver_iff {m : Model} {r : Runner} {trigger : Trigger}
    {b : SubscriptionBinding} {log : List Exchange} {found : Option Delivery} :
    (m.deliver r trigger b).Yields log found ↔
      ∃ result, (r.run m b.pipeline trigger.value (.parsed trigger.value)).Yields log result ∧
        found = result.toOption.map (m.deliveryOf trigger b) := by
  have hdeliver : m.deliver r trigger b =
      (r.run m b.pipeline trigger.value (.parsed trigger.value) >>= fun result =>
        pure (result.toOption.map (m.deliveryOf trigger b))) := by
    unfold deliver
    congr 1
    funext result
    cases result <;> rfl
  rw [hdeliver, Dialogue.yields_bind_pure_iff]

/-! ## Tasks -/

/-- How far the task of a delivery has come. -/
inductive DeliveryPhase where
  | running (rest : Dialogue (Option Delivery))
  /-- The delivery was handed to the receivers, and this is the report. -/
  | handed (d : Delivery) (report : PublishReport)
  /-- The run has ended without an execution. -/
  | fruitless
  | aborted

namespace DeliveryPhase

/-- The delivery that was handed out. -/
def delivery? : DeliveryPhase → Option Delivery
  | handed d _ => some d
  | _ => none

/-- The report on the delivery that was handed out. -/
def report? : DeliveryPhase → Option PublishReport
  | handed _ report => some report
  | _ => none

end DeliveryPhase

/-- The task of the delivery for one binding. -/
structure DeliveryTask where
  binding : SubscriptionBinding
  /-- The requests that were made, with their answers. -/
  log : List Exchange
  phase : DeliveryPhase
  joined : Bool

/-- The work of a task on its own. -/
inductive DeliveryTask.Works : DeliveryTask → DeliveryTask → Prop
  | exchanges (b : SubscriptionBinding) (log : List Exchange) (request : Request)
      (next : request.Answer → Dialogue (Option Delivery)) (answer : request.Answer) :
    Works ⟨b, log, .running (.ask request next), false⟩
      ⟨b, log ++ [⟨request, answer⟩], .running (next answer), false⟩
  | fails (b : SubscriptionBinding) (log : List Exchange) :
    Works ⟨b, log, .running (.done none), false⟩ ⟨b, log, .fruitless, false⟩
  | aborts (b : SubscriptionBinding) (log : List Exchange) (request : Request)
      (next : request.Answer → Dialogue (Option Delivery)) :
    Works ⟨b, log, .running (.ask request next), false⟩ ⟨b, log, .aborted, false⟩

/-- An event on its way to the receivers. -/
structure Publication where
  router : Router
  tasks : List DeliveryTask
  /-- The deliveries that were handed out, in order. -/
  handed : List Delivery
  /-- The reports of the tasks that were joined, in order. -/
  reports : List PublishReport
  /-- What each receiver has taken. -/
  taken : Receiver → List Delivery

namespace Publication

/-- The publication of an event, before any of its tasks has started. -/
def start (m : Model) (r : Runner) (trigger : Trigger) (router : Router) : Publication :=
  ⟨router, (m.bindingsFor trigger).map fun b => ⟨b, [], .running (m.deliver r trigger b), false⟩,
    [], [], fun _ => []⟩

/-- What can happen next, and what comes of it. -/
inductive Step : Publication → Publication → Prop
  | works {task task' : DeliveryTask} (router : Router) (before after : List DeliveryTask)
      (handed : List Delivery) (reports : List PublishReport) (taken : Receiver → List Delivery)
      (h : task.Works task') :
    Step ⟨router, before ++ task :: after, handed, reports, taken⟩
      ⟨router, before ++ task' :: after, handed, reports, taken⟩
  | hands (router : Router) (before after : List DeliveryTask) (handed : List Delivery)
      (reports : List PublishReport) (taken : Receiver → List Delivery)
      (b : SubscriptionBinding) (log : List Exchange) (d : Delivery) :
    Step ⟨router, before ++ ⟨b, log, .running (.done (some d)), false⟩ :: after, handed, reports,
        taken⟩
      ⟨(router.hand d).2, before ++ ⟨b, log, .handed d (router.hand d).1, false⟩ :: after,
        handed ++ [d], reports, taken⟩
  | joins (router : Router) (before after : List DeliveryTask) (handed : List Delivery)
      (reports : List PublishReport) (taken : Receiver → List Delivery)
      (b : SubscriptionBinding) (log : List Exchange) (phase : DeliveryPhase)
      (hended : ∀ rest, phase ≠ .running rest) :
    Step ⟨router, before ++ ⟨b, log, phase, false⟩ :: after, handed, reports, taken⟩
      ⟨router, before ++ ⟨b, log, phase, true⟩ :: after, handed,
        reports ++ phase.report?.toList, taken⟩
  | takes (router : Router) (tasks : List DeliveryTask) (handed : List Delivery)
      (reports : List PublishReport) (taken : Receiver → List Delivery) (receiver : Receiver) :
    Step ⟨router, tasks, handed, reports, taken⟩
      ⟨(router.receive receiver).2, tasks, handed, reports, fun other =>
        if other = receiver then taken receiver ++ (router.pending receiver).2 else taken other⟩

/-- What can happen one after the other. -/
def Steps : Publication → Publication → Prop := Relation.ReflTransGen Step

/-- All tasks were joined. -/
def IsOver (p : Publication) : Prop := ∀ task ∈ p.tasks, task.joined = true

/-- What a receiver has taken and what still waits for it. -/
def stream (p : Publication) (receiver : Receiver) : List Delivery :=
  p.taken receiver ++ (p.router.pending receiver).2

end Publication

/-! ## Lists of tasks -/

section
variable {α β : Type} (key : α → String) (name : β → String) {f : α → Option β} {l : List α}

/-- What elements give under their own names has no other names. -/
theorem filter_filterMap_of_forall_ne (hname : ∀ a ∈ l, ∀ b, f a = some b → name b = key a)
    {k : String} (h : ∀ a ∈ l, key a ≠ k) :
    (l.filterMap f).filter (fun b => decide (name b = k)) = [] := by
  rw [List.filter_eq_nil_iff]
  intro b hb
  obtain ⟨a, ha, hab⟩ := List.mem_filterMap.1 hb
  rw [decide_eq_true_eq, hname a ha b hab]
  exact h a ha

/-- Of what elements with different keys give under their own names, an element has given what
has its name. -/
theorem filter_filterMap_of_nodup (hname : ∀ a ∈ l, ∀ b, f a = some b → name b = key a)
    (h : (l.map key).Nodup) {a : α} (ha : a ∈ l) :
    (l.filterMap f).filter (fun b => decide (name b = key a)) = (f a).toList := by
  induction l with
  | nil => cases ha
  | cons first rest ih =>
    rw [List.map_cons, List.nodup_cons] at h
    have hrest := fun a ha => hname a (List.mem_cons_of_mem first ha)
    have hfirst := hname first List.mem_cons_self
    rcases List.mem_cons.1 ha with rfl | ha
    · have hnone := filter_filterMap_of_forall_ne key name hrest (k := key a) fun a' ha' heq =>
        h.1 (heq ▸ List.mem_map.2 ⟨a', ha', rfl⟩)
      cases hfound : f a with
      | none => rw [List.filterMap_cons_none hfound, hnone, Option.toList_none]
      | some b =>
        have hkeep : decide (name b = key a) = true := decide_eq_true (hfirst b hfound)
        rw [List.filterMap_cons_some hfound,
          List.filter_cons_of_pos (p := fun b => decide (name b = key a)) hkeep, hnone,
          Option.toList_some]
    · have hne : key first ≠ key a := fun heq => h.1 (heq ▸ List.mem_map.2 ⟨a, ha, rfl⟩)
      rw [← ih hrest h.2 ha]
      cases hfound : f first with
      | none => rw [List.filterMap_cons_none hfound]
      | some b =>
        have hdrop : ¬ decide (name b = key a) = true := by
          rw [decide_eq_true_eq, hfirst b hfound]
          exact hne
        rw [List.filterMap_cons_some hfound,
          List.filter_cons_of_neg (p := fun b => decide (name b = key a)) hdrop]

/-- What elements give under their own names has some of their keys, in order. -/
theorem map_filterMap_sublist (hname : ∀ a ∈ l, ∀ b, f a = some b → name b = key a) :
    ((l.filterMap f).map name).Sublist (l.map key) := by
  induction l with
  | nil => exact .slnil
  | cons first rest ih =>
    have hrest := ih fun a ha => hname a (List.mem_cons_of_mem first ha)
    cases hfound : f first with
    | none =>
      rw [List.filterMap_cons_none hfound, List.map_cons]
      exact hrest.cons _
    | some b =>
      rw [List.filterMap_cons_some hfound, List.map_cons, List.map_cons,
        hname first List.mem_cons_self b hfound]
      exact hrest.cons_cons _

end

namespace Publication

variable {m : Model} {r : Runner} {trigger : Trigger} {router : Router} {p p' : Publication}

/-! ## Every publication comes to an end -/

/-- A task can get any answers. -/
theorem steps_of_yields {rest : Dialogue (Option Delivery)} {later : List Exchange}
    {found : Option Delivery} (h : rest.Yields later found) (router : Router)
    (before after : List DeliveryTask) (handed : List Delivery) (reports : List PublishReport)
    (taken : Receiver → List Delivery) (b : SubscriptionBinding) (log : List Exchange) :
    Steps ⟨router, before ++ ⟨b, log, .running rest, false⟩ :: after, handed, reports, taken⟩
      ⟨router, before ++ ⟨b, log ++ later, .running (.done found), false⟩ :: after, handed,
        reports, taken⟩ := by
  induction h generalizing log with
  | done found =>
    rw [List.append_nil]
    exact .refl
  | ask answer _ ih =>
    have hrest := ih (log ++ [⟨_, answer⟩])
    rw [List.append_assoc, List.singleton_append] at hrest
    exact .head (.works router before after handed reports taken (.exchanges b log _ _ answer)) hrest

/-- A task can be brought to its end and joined. -/
theorem exists_joined (router : Router) (before after : List DeliveryTask)
    (handed : List Delivery) (reports : List PublishReport) (taken : Receiver → List Delivery)
    (task : DeliveryTask) :
    ∃ router' handed' reports' task', task'.joined = true ∧
      Steps ⟨router, before ++ task :: after, handed, reports, taken⟩
        ⟨router', before ++ task' :: after, handed', reports', taken⟩ := by
  obtain ⟨b, log, phase, joined⟩ := task
  cases joined with
  | true => exact ⟨_, _, _, _, rfl, .refl⟩
  | false =>
    cases phase with
    | running rest =>
      obtain ⟨later, found, hyields⟩ := rest.exists_yields
      have hrun := steps_of_yields hyields router before after handed reports taken b log
      cases found with
      | none =>
        have hfails := Step.works router before after handed reports taken (.fails b (log ++ later))
        have hjoins :=
          Step.joins router before after handed reports taken b (log ++ later) .fruitless nofun
        exact ⟨_, _, _, _, rfl, (hrun.tail hfails).tail hjoins⟩
      | some d =>
        have hhands := Step.hands router before after handed reports taken b (log ++ later) d
        have hjoins := Step.joins (router.hand d).2 before after (handed ++ [d]) reports taken b
          (log ++ later) (.handed d (router.hand d).1) nofun
        exact ⟨_, _, _, _, rfl, (hrun.tail hhands).tail hjoins⟩
    | _ =>
      -- It has ended, and is only to be joined.
      exact ⟨_, _, _, _, rfl, .single (.joins router before after handed reports taken b log _ nofun)⟩

/-- Every publication can be brought to its end. -/
theorem exists_isOver (p : Publication) : ∃ p', p.Steps p' ∧ p'.IsOver := by
  obtain ⟨router, tasks, handed, reports, taken⟩ := p
  -- The tasks are ended one after another; those in front are over already.
  suffices h : ∀ tasks before : List DeliveryTask, (∀ task ∈ before, task.joined = true) →
      ∀ router handed reports, ∃ p', Steps ⟨router, before ++ tasks, handed, reports, taken⟩ p' ∧
        p'.IsOver from h tasks [] (by simp) router handed reports
  intro tasks
  induction tasks with
  | nil =>
    intro before hbefore router handed reports
    rw [List.append_nil]
    exact ⟨_, .refl, hbefore⟩
  | cons task after ih =>
    intro before hbefore router handed reports
    obtain ⟨router', handed', reports', task', hjoined, hsteps⟩ :=
      exists_joined router before after handed reports taken task
    obtain ⟨p', hrest, hover⟩ := ih (before ++ [task'])
      (List.forall_mem_append.2 ⟨hbefore, List.forall_mem_singleton.2 hjoined⟩)
      router' handed' reports'
    rw [List.append_assoc, List.singleton_append] at hrest
    exact ⟨p', hsteps.trans hrest, hover⟩

end Publication

end PipelineEngine
