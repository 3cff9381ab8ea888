import PipelineEngine.Proofs.Subscription.Publications

/-!
# What has come of a publication

Every task belongs to a binding of its own, and no two bindings are of one endpoint.  So what a
task hands out is all that the receivers of its endpoint get, and its report is the only one on
that endpoint, in whatever order the tasks take turns.

* `DeliveryTask.IsSound`: what a task has done so far.
* `Publication.Follows`, `Publication.Follows.step`: what has come of a publication, task by task
  and receiver by receiver.
* `Publication.Settles`: what comes of a single task.
* `Publication.isOver_spec` is the main statement.
-/

namespace PipelineEngine

variable {m : Model} {r : Runner} {trigger : Trigger} {router : Router}

/-! ## What tasks have done -/

namespace DeliveryTask

variable {task task' : DeliveryTask}

/-- The delivery that a task has handed out. -/
def delivery? (task : DeliveryTask) : Option Delivery := task.phase.delivery?

/-- The report of a task that was joined. -/
def report? (task : DeliveryTask) : Option PublishReport :=
  if task.joined then task.phase.report? else none

/-- The requests of a task and their answers are those of a delivery for its binding, as far as it
has come, and its report is on what it has handed out. -/
def IsSound (task : DeliveryTask) (m : Model) (r : Runner) (trigger : Trigger) (router : Router) :
    Prop :=
  match task.phase with
  | .running rest => (m.deliver r trigger task.binding).LeadsTo task.log rest ∧ task.joined = false
  | .handed d report =>
    (m.deliver r trigger task.binding).Yields task.log (some d) ∧
      report = ⟨d.endpoint, d.run, d.outcome.success, router.subscribers d.endpoint⟩
  | .fruitless => (m.deliver r trigger task.binding).Yields task.log none
  | .aborted => ∃ request next, (m.deliver r trigger task.binding).LeadsTo task.log (.ask request next)

theorem Works.isSound (h : task.Works task') (hs : task.IsSound m r trigger router) :
    task'.IsSound m r trigger router := by
  cases h with
  | exchanges b log request next answer => exact ⟨hs.1.snoc answer, rfl⟩
  | fails b log =>
    have hyields := hs.1.yields (.done none)
    rwa [List.append_nil] at hyields
  | aborts b log request next => exact ⟨request, next, hs.1⟩

/-- The work of a task on its own hands nothing out. -/
theorem Works.same (h : task.Works task') :
    task'.binding = task.binding ∧ task'.delivery? = task.delivery? ∧ task'.report? = task.report? := by
  cases h <;> exact ⟨rfl, rfl, rfl⟩

/-- A delivery is handed out under the endpoint of the binding. -/
theorem IsSound.endpoint_delivery (hs : task.IsSound m r trigger router) {d : Delivery}
    (h : task.delivery? = some d) : d.endpoint = task.binding.endpoint := by
  obtain ⟨b, log, phase, joined⟩ := task
  cases phase with
  | handed d' report =>
    cases h
    obtain ⟨result, -, hd⟩ := Model.yields_deliver_iff.1 hs.1
    obtain ⟨e, -, hdelivery⟩ := Option.map_eq_some_iff.1 hd.symm
    exact (congrArg Delivery.endpoint hdelivery).symm
  | _ => cases h

/-- So is the report on it. -/
theorem IsSound.endpoint_report (hs : task.IsSound m r trigger router) {report : PublishReport}
    (h : task.report? = some report) : report.endpoint = task.binding.endpoint := by
  obtain ⟨b, log, phase, joined⟩ := task
  unfold report? at h
  split at h
  · cases phase with
    | handed d report' =>
      cases h
      rw [hs.2]
      exact IsSound.endpoint_delivery hs rfl
    | _ => cases h
  · cases h

end DeliveryTask

namespace Publication

variable {p p' : Publication} {receiver : Receiver} {d : Delivery}

/-! ## What has come of a publication so far -/

/-- A receiver has lost nothing and has got, or has waiting for it, what waited for it at first
and then what was handed out under its endpoint. -/
structure Supplies (p : Publication) (router : Router) (receiver : Receiver) : Prop where
  serves : p.router.Serves receiver
  lost : (p.router.pending receiver).1 = 0
  stream : p.stream receiver = (router.pending receiver).2 ++
    p.handed.filter fun d => decide (d.endpoint = receiver.endpoint)

/-- There is one task for each binding that the event concerns, and what was handed out and
reported is what these tasks have handed out and reported. -/
structure Accounts (m : Model) (r : Runner) (trigger : Trigger) (router : Router)
    (tasks : List DeliveryTask) (handed : List Delivery) (reports : List PublishReport) : Prop where
  bindings : tasks.map (·.binding) = m.bindingsFor trigger
  sound : ∀ task ∈ tasks, task.IsSound m r trigger router
  handed : handed.Perm (tasks.filterMap (·.delivery?))
  reports : reports.Perm (tasks.filterMap (·.report?))

/-- What has come of a publication that started with a router. -/
structure Follows (m : Model) (r : Runner) (trigger : Trigger) (router : Router)
    (p : Publication) : Prop where
  wellFormed : p.router.WellFormed
  capacity : p.router.capacity = router.capacity
  subscribers : ∀ endpoint, p.router.subscribers endpoint = router.subscribers endpoint
  accounts : Accounts m r trigger router p.tasks p.handed p.reports
  supplies : ∀ receiver, router.HasRoomFor receiver → p.Supplies router receiver

theorem follows_start (hrouter : router.WellFormed) :
    (start m r trigger router).Follows m r trigger router where
  wellFormed := hrouter
  capacity := rfl
  subscribers _ := rfl
  accounts := by
    refine ⟨?_, ?_, ?_, ?_⟩
    · show ((m.bindingsFor trigger).map _).map _ = _
      rw [List.map_map]
      exact List.map_id _
    · intro task htask
      obtain ⟨b, -, rfl⟩ := List.mem_map.1 htask
      exact ⟨.nil, rfl⟩
    · have hnone : (start m r trigger router).tasks.filterMap (·.delivery?) = [] :=
        List.filterMap_eq_nil_iff.2 (List.forall_mem_map.2 fun _ _ => rfl)
      rw [hnone]
      exact .nil
    · have hnone : (start m r trigger router).tasks.filterMap (·.report?) = [] :=
        List.filterMap_eq_nil_iff.2 (List.forall_mem_map.2 fun _ _ => rfl)
      rw [hnone]
      exact .nil
  supplies receiver hroom :=
    ⟨hroom.serves, hroom.lost, (List.append_nil (router.pending receiver).2).symm⟩

/-! ## Steps of tasks -/

/-- What elements give, with one of them set apart. -/
theorem filterMap_append_cons {α β : Type} (f : α → Option β) (before after : List α) (a : α) :
    (before ++ a :: after).filterMap f =
      before.filterMap f ++ ((f a).toList ++ after.filterMap f) := by
  rw [List.filterMap_append]
  cases h : f a with
  | none => rw [List.filterMap_cons_none h, Option.toList_none, List.nil_append]
  | some b => rw [List.filterMap_cons_some h, Option.toList_some, List.singleton_append]

/-- Where an element gives something more, this is added to what all give. -/
theorem perm_append_of_toList {α β : Type} {f : α → Option β} {before after : List α} {a a' : α}
    {l new : List β} (h : l.Perm ((before ++ a :: after).filterMap f))
    (hnew : (f a).toList ++ new = (f a').toList) :
    (l ++ new).Perm ((before ++ a' :: after).filterMap f) := by
  rw [filterMap_append_cons] at h ⊢
  rw [← hnew]
  refine (h.append_right new).trans ?_
  simp only [List.append_assoc]
  exact (List.perm_append_comm.append_left _).append_left _

section
variable {before after : List DeliveryTask} {task task' : DeliveryTask} {handed : List Delivery}
  {reports : List PublishReport}

/-- A task takes a step. -/
theorem Accounts.replace
    (h : Accounts m r trigger router (before ++ task :: after) handed reports)
    (hsound : task'.IsSound m r trigger router) (hbinding : task'.binding = task.binding)
    {deliveries : List Delivery} {more : List PublishReport}
    (hdelivery : task.delivery?.toList ++ deliveries = task'.delivery?.toList)
    (hreport : task.report?.toList ++ more = task'.report?.toList) :
    Accounts m r trigger router (before ++ task' :: after) (handed ++ deliveries)
      (reports ++ more) where
  bindings := by
    rw [← h.bindings]
    simp only [List.map_append, List.map_cons, hbinding]
  sound := by
    obtain ⟨hbefore, hrest⟩ := List.forall_mem_append.1 h.sound
    exact List.forall_mem_append.2
      ⟨hbefore, List.forall_mem_cons.2 ⟨hsound, (List.forall_mem_cons.1 hrest).2⟩⟩
  handed := perm_append_of_toList h.handed hdelivery
  reports := perm_append_of_toList h.reports hreport

theorem Accounts.isSound (h : Accounts m r trigger router (before ++ task :: after) handed reports) :
    task.IsSound m r trigger router :=
  h.sound task (List.mem_append_right before List.mem_cons_self)

/-- Before a task hands its delivery out, nothing was handed out under its endpoint: the other tasks
are those of other endpoints. -/
theorem Accounts.endpoint_ne
    (h : Accounts m r trigger router (before ++ task :: after) handed reports)
    (hnodup : ((m.bindingsFor trigger).map (·.endpoint)).Nodup) (hnone : task.delivery? = none) :
    ∀ d ∈ handed, d.endpoint ≠ task.binding.endpoint := by
  intro d hd heq
  have hmem := h.handed.subset hd
  rw [filterMap_append_cons, hnone, Option.toList_none, List.nil_append,
    ← List.filterMap_append] at hmem
  obtain ⟨other, hother, hdelivery⟩ := List.mem_filterMap.1 hmem
  have hsound : other.IsSound m r trigger router := by
    refine h.sound other (List.mem_append.2 ?_)
    exact (List.mem_append.1 hother).imp_right (List.mem_cons_of_mem task)
  rw [← h.bindings, List.map_map, List.map_append, List.map_cons, List.nodup_middle,
    ← List.map_append, List.nodup_cons] at hnodup
  refine hnodup.1 (List.mem_map.2 ⟨other, hother, ?_⟩)
  exact (hsound.endpoint_delivery hdelivery).symm.trans heq

end

/-! ## Steps for receivers -/

/-- What the tasks do on their own and what is reported is nothing to a receiver. -/
theorem Supplies.works {tasks tasks' : List DeliveryTask} {handed : List Delivery}
    {reports reports' : List PublishReport} {taken : Receiver → List Delivery} {current : Router}
    (h : Supplies ⟨current, tasks, handed, reports, taken⟩ router receiver) :
    Supplies ⟨current, tasks', handed, reports', taken⟩ router receiver :=
  ⟨h.serves, h.lost, h.stream⟩

/-- A receiver takes what waits for it, or another one does. -/
theorem Supplies.takes {tasks : List DeliveryTask} {handed : List Delivery}
    {reports : List PublishReport} {taken : Receiver → List Delivery} {current : Router}
    (h : Supplies ⟨current, tasks, handed, reports, taken⟩ router receiver)
    (hcurrent : current.WellFormed) (other : Receiver) :
    Supplies ⟨(current.receive other).2, tasks, handed, reports, fun one =>
      if one = other then taken other ++ (current.pending other).2 else taken one⟩
      router receiver := by
  have hpending := Router.pending_receive hcurrent h.serves other
  refine ⟨h.serves.receive other, ?_, ?_⟩
  · show ((current.receive other).2.pending receiver).1 = 0
    rw [hpending]
    split
    · rfl
    · exact h.lost
  · rw [← h.stream]
    show (if receiver = other then _ else _) ++ ((current.receive other).2.pending receiver).2 = _
    rw [hpending]
    split
    · rename_i hsame
      rw [hsame, List.append_nil]
      rfl
    · rfl

/-- A delivery is handed out, the first one under its endpoint. -/
theorem Supplies.hands {tasks tasks' : List DeliveryTask} {handed : List Delivery}
    {reports : List PublishReport} {taken : Receiver → List Delivery} {current : Router}
    (h : Supplies ⟨current, tasks, handed, reports, taken⟩ router receiver)
    (hcurrent : current.WellFormed) (hcapacity : current.capacity = router.capacity)
    (hroom : router.HasRoomFor receiver)
    (hfirst : ∀ d' ∈ handed, d'.endpoint ≠ d.endpoint) :
    Supplies ⟨(current.hand d).2, tasks', handed ++ [d], reports, taken⟩ router receiver := by
  have hstream : taken receiver ++ (current.pending receiver).2 = _ := h.stream
  by_cases hendpoint : receiver.endpoint = d.endpoint
  · have hnone : handed.filter (fun d' => decide (d'.endpoint = receiver.endpoint)) = [] := by
      rw [List.filter_eq_nil_iff]
      intro d' hd'
      rw [decide_eq_true_eq, hendpoint]
      exact hfirst d' hd'
    rw [hnone, List.append_nil] at hstream
    -- What waits for the receiver is part of what waited for it at first.
    have hlength := congrArg List.length hstream
    rw [List.length_append] at hlength
    have hcurrentRoom : current.HasRoomFor receiver := by
      refine ⟨h.serves, h.lost, ?_⟩
      rw [hcapacity]
      exact Nat.lt_of_le_of_lt (by omega) hroom.room
    have hpending := Router.pending_hand hcurrent hcurrentRoom hendpoint
    refine ⟨h.serves.hand d, congrArg Prod.fst hpending, ?_⟩
    show taken receiver ++ ((current.hand d).2.pending receiver).2 =
      _ ++ (handed ++ [d]).filter _
    rw [hpending, List.filter_append, hnone, ← hstream, List.append_assoc]
    simp [hendpoint]
  · have hpending : (current.hand d).2.pending receiver = current.pending receiver :=
      Router.pending_hand_of_ne hendpoint
    refine ⟨h.serves.hand d, (congrArg Prod.fst hpending).trans h.lost, ?_⟩
    show taken receiver ++ ((current.hand d).2.pending receiver).2 =
      _ ++ (handed ++ [d]).filter _
    rw [hpending, hstream, List.filter_append]
    have hother : ¬ d.endpoint = receiver.endpoint := fun heq => hendpoint heq.symm
    simp [hother]

/-! ## Steps of a publication -/

/-- What has come of a publication so far is kept by every step, if the bindings that the event
concerns are of different endpoints. -/
theorem Follows.step (hnodup : ((m.bindingsFor trigger).map (·.endpoint)).Nodup)
    (h : p.Follows m r trigger router) (hstep : p.Step p') : p'.Follows m r trigger router := by
  cases hstep with
  | works current before after handed reports taken hworks =>
    obtain ⟨hbinding, hdelivery, hreport⟩ := hworks.same
    have haccounts := h.accounts.replace (hworks.isSound h.accounts.isSound) hbinding
      (by rw [hdelivery, List.append_nil]) (by rw [hreport, List.append_nil])
    rw [List.append_nil, List.append_nil] at haccounts
    exact ⟨h.wellFormed, h.capacity, h.subscribers, haccounts,
      fun receiver hroom => (h.supplies receiver hroom).works⟩
  | hands current before after handed reports taken b log d =>
    have hyields := h.accounts.isSound.1.yields (.done (some d))
    rw [List.append_nil] at hyields
    have hsubscribers := h.subscribers d.endpoint
    have hsound : DeliveryTask.IsSound ⟨b, log, .handed d (current.hand d).1, false⟩
        m r trigger router :=
      ⟨hyields, congrArg (PublishReport.mk d.endpoint d.run d.outcome.success) hsubscribers⟩
    have haccounts : Accounts m r trigger router
        (before ++ ⟨b, log, .handed d (current.hand d).1, false⟩ :: after) (handed ++ [d])
        (reports ++ []) := h.accounts.replace hsound rfl rfl rfl
    have hfirst := h.accounts.endpoint_ne hnodup rfl
    rw [List.append_nil] at haccounts
    rw [← hsound.endpoint_delivery rfl] at hfirst
    exact ⟨h.wellFormed.hand d, h.capacity,
      fun endpoint => Router.subscribers_hand.trans (h.subscribers endpoint), haccounts,
      fun receiver hroom =>
        (h.supplies receiver hroom).hands h.wellFormed h.capacity hroom hfirst⟩
  | joins current before after handed reports taken b log phase hended =>
    have hsound : DeliveryTask.IsSound ⟨b, log, phase, true⟩ m r trigger router := by
      have hsound := h.accounts.isSound
      cases phase with
      | running rest => exact absurd rfl (hended rest)
      | handed d report => exact hsound
      | fruitless => exact hsound
      | aborted => exact hsound
    have haccounts : Accounts m r trigger router (before ++ ⟨b, log, phase, true⟩ :: after)
        (handed ++ []) (reports ++ phase.report?.toList) :=
      h.accounts.replace hsound rfl (List.append_nil _) rfl
    rw [List.append_nil] at haccounts
    exact ⟨h.wellFormed, h.capacity, h.subscribers, haccounts,
      fun receiver hroom => (h.supplies receiver hroom).works⟩
  | takes current tasks handed reports taken other =>
    exact ⟨h.wellFormed.receive other, h.capacity,
      fun endpoint => Router.subscribers_receive.trans (h.subscribers endpoint), h.accounts,
      fun receiver hroom => (h.supplies receiver hroom).takes h.wellFormed other⟩

/-- What has come of a publication after any steps. -/
theorem follows_of_steps (hrouter : router.WellFormed)
    (hnodup : ((m.bindingsFor trigger).map (·.endpoint)).Nodup)
    (h : (start m r trigger router).Steps p) : p.Follows m r trigger router := by
  induction h with
  | refl => exact follows_start hrouter
  | tail _ hstep ih => exact ih.step hnodup hstep

/-! ## The end of a publication -/

/-- What has come of a task of a publication that is over. -/
inductive Settles (m : Model) (r : Runner) (trigger : Trigger) (router : Router) (p : Publication)
    (task : DeliveryTask) : Prop
  /-- The pipeline was run once and not cancelled.  There is one report on the run, and the
  receivers of the endpoint get one delivery of its outcome. -/
  | finished (e : Execution)
      (hrun : (r.run m task.binding.pipeline trigger.value (.parsed trigger.value)).Yields task.log
        (.ok e))
      (hcancelled : ¬ Cancelled task.log)
      (hreports : p.reports.filter (fun report => decide (report.endpoint = task.binding.endpoint)) =
        [⟨task.binding.endpoint, e.run, e.outcome.success,
          router.subscribers task.binding.endpoint⟩])
      (hstream : ∀ receiver, router.HasRoomFor receiver →
        receiver.endpoint = task.binding.endpoint →
        p.stream receiver = (router.pending receiver).2 ++
          [⟨task.binding.endpoint, trigger, e.run, e.outcome,
            m.shaped? task.binding.endpoint e⟩])
  /-- The pipeline was run once and cancelled. -/
  | cancelled
      (hrun : (r.run m task.binding.pipeline trigger.value (.parsed trigger.value)).Yields task.log
        (.error (.cancelled task.binding.pipeline)))
      (hcancelled : Cancelled task.log)
      (hreports : p.reports.filter
        (fun report => decide (report.endpoint = task.binding.endpoint)) = [])
      (hstream : ∀ receiver, router.HasRoomFor receiver →
        receiver.endpoint = task.binding.endpoint →
        p.stream receiver = (router.pending receiver).2)
  /-- The task was aborted when it waited for an answer. -/
  | aborted (request : Request) (next : request.Answer → Dialogue (Option Delivery))
      (hphase : task.phase = .aborted)
      (hrun : (m.deliver r trigger task.binding).LeadsTo task.log (.ask request next))
      (hreports : p.reports.filter
        (fun report => decide (report.endpoint = task.binding.endpoint)) = [])
      (hstream : ∀ receiver, router.HasRoomFor receiver →
        receiver.endpoint = task.binding.endpoint →
        p.stream receiver = (router.pending receiver).2)

theorem eq_toList_of_perm {α : Type} {l : List α} {o : Option α} (h : l.Perm o.toList) :
    l = o.toList := by
  cases o with
  | none => exact h.eq_nil
  | some a => exact List.perm_singleton.1 h

section
variable (h : p.Follows m r trigger router)
  (hnodup : ((m.bindingsFor trigger).map (·.endpoint)).Nodup)
include h

theorem Follows.nodup_tasks (hnodup : ((m.bindingsFor trigger).map (·.endpoint)).Nodup) :
    (p.tasks.map (·.binding.endpoint)).Nodup := by
  rw [← h.accounts.bindings, List.map_map] at hnodup
  exact hnodup

include hnodup

/-- The reports on the endpoint of a task are its own. -/
theorem Follows.reports_eq {task : DeliveryTask} (htask : task ∈ p.tasks) :
    p.reports.filter (fun report => decide (report.endpoint = task.binding.endpoint)) =
      task.report?.toList := by
  apply eq_toList_of_perm
  rw [← filter_filterMap_of_nodup (·.binding.endpoint) (·.endpoint)
    (fun t ht report => (h.accounts.sound t ht).endpoint_report) (h.nodup_tasks hnodup) htask]
  exact h.accounts.reports.filter _

/-- What is handed out under the endpoint of a task is its own delivery. -/
theorem Follows.handed_eq {task : DeliveryTask} (htask : task ∈ p.tasks) :
    p.handed.filter (fun d => decide (d.endpoint = task.binding.endpoint)) =
      task.delivery?.toList := by
  apply eq_toList_of_perm
  rw [← filter_filterMap_of_nodup (·.binding.endpoint) (·.endpoint)
    (fun t ht d => (h.accounts.sound t ht).endpoint_delivery) (h.nodup_tasks hnodup) htask]
  exact h.accounts.handed.filter _

/-- The receivers of the endpoint of a task get its delivery. -/
theorem Follows.stream_eq {task : DeliveryTask} (htask : task ∈ p.tasks)
    (hroom : router.HasRoomFor receiver) (hendpoint : receiver.endpoint = task.binding.endpoint) :
    p.stream receiver = (router.pending receiver).2 ++ task.delivery?.toList := by
  rw [(h.supplies receiver hroom).stream, hendpoint, h.handed_eq hnodup htask]

/-- Every task of a publication that is over is settled. -/
theorem Follows.settles {task : DeliveryTask} (htask : task ∈ p.tasks)
    (hjoined : task.joined = true) (hpipeline : (m.pipeline? task.binding.pipeline).isSome) :
    p.Settles m r trigger router task := by
  have hsound := h.accounts.sound task htask
  have hreports := h.reports_eq hnodup htask
  have hstream : ∀ receiver, router.HasRoomFor receiver →
      receiver.endpoint = task.binding.endpoint →
      p.stream receiver = (router.pending receiver).2 ++ task.delivery?.toList :=
    fun receiver => h.stream_eq hnodup htask
  obtain ⟨b, log, phase, joined⟩ := task
  obtain rfl : joined = true := hjoined
  cases phase with
  | running rest => cases hsound.2
  | handed d report =>
    obtain ⟨hyields, hreport⟩ := hsound
    obtain ⟨result, hrun, hd⟩ := Model.yields_deliver_iff.1 hyields
    rcases Runner.result_of_yields hpipeline hrun with ⟨-, rfl⟩ | ⟨hcancelled, e, rfl⟩
    · cases hd
    · obtain rfl : d = m.deliveryOf trigger b e := Option.some.inj hd
      refine .finished e hrun hcancelled ?_ hstream
      rw [hreports, hreport]
      rfl
  | fruitless =>
    obtain ⟨result, hrun, hnone⟩ := Model.yields_deliver_iff.1 hsound
    rcases Runner.result_of_yields hpipeline hrun with ⟨hcancelled, rfl⟩ | ⟨-, e, rfl⟩
    · exact .cancelled hrun hcancelled hreports fun receiver hroom hendpoint =>
        (hstream receiver hroom hendpoint).trans (List.append_nil _)
    · cases hnone
  | aborted =>
    obtain ⟨request, next, hrun⟩ := hsound
    exact .aborted request next rfl hrun hreports fun receiver hroom hendpoint =>
      (hstream receiver hroom hendpoint).trans (List.append_nil _)

end

/-- Any publication of an event under a linked model that is over.  The pipeline of each binding
was run once if one or more of its sources cover the event, and not at all otherwise.  Each run
that was neither cancelled nor aborted has one report, and each receiver of its endpoint gets one
delivery of it; no others are reported or delivered. -/
theorem isOver_spec {d : Document} {epoch : Nat} (hlink : d.link epoch = .ok m)
    (hrouter : router.Reached) (hsteps : (start m r trigger router).Steps p) (hover : p.IsOver) :
    (∀ b ∈ m.subscriptions, (p.tasks.map (·.binding)).count b =
        if b.sources.any (·.covers trigger) then 1 else 0) ∧
      (∀ task ∈ p.tasks, task.binding ∈ m.subscriptions ∧ p.Settles m r trigger router task) ∧
      (p.reports.map (·.endpoint)).Nodup ∧
      (∀ report ∈ p.reports, ∃ task ∈ p.tasks, task.binding.endpoint = report.endpoint) ∧
      ∀ receiver, router.HasRoomFor receiver →
        (∀ task ∈ p.tasks, task.binding.endpoint ≠ receiver.endpoint) →
        p.stream receiver = (router.pending receiver).2 := by
  have hbindings := Document.nodup_bindings_of_link hlink
  have hnodup : ((m.bindingsFor trigger).map (·.endpoint)).Nodup :=
    hbindings.sublist (List.filter_sublist.map _)
  have h := follows_of_steps hrouter.wellFormed hnodup hsteps
  have hreported : ∀ task ∈ p.tasks, ∀ report, task.report? = some report →
      report.endpoint = task.binding.endpoint :=
    fun task htask report => (h.accounts.sound task htask).endpoint_report
  have hdelivered : ∀ task ∈ p.tasks, ∀ d, task.delivery? = some d →
      d.endpoint = task.binding.endpoint :=
    fun task htask d => (h.accounts.sound task htask).endpoint_delivery
  refine ⟨?_, ?_, ?_, ?_, ?_⟩
  · intro b hb
    rw [h.accounts.bindings, Model.bindingsFor]
    split
    · rename_i hcovers
      rw [List.count_filter (p := fun b : SubscriptionBinding => b.sources.any (·.covers trigger))
        hcovers]
      exact List.count_eq_one_of_mem hbindings.of_map hb
    · rename_i hcovers
      exact List.count_eq_zero_of_not_mem fun hmem => hcovers (List.mem_filter.1 hmem).2
  · intro task htask
    have hmem : task.binding ∈ m.bindingsFor trigger :=
      h.accounts.bindings ▸ List.mem_map.2 ⟨task, htask, rfl⟩
    have hbinding : task.binding ∈ m.subscriptions := (List.mem_filter.1 hmem).1
    exact ⟨hbinding, h.settles hnodup htask (hover task htask)
      (Document.isSome_pipeline?_of_binding hlink hbinding)⟩
  · have hreports := h.accounts.reports.map (·.endpoint)
    rw [hreports.nodup_iff]
    exact (h.nodup_tasks hnodup).sublist (map_filterMap_sublist _ _ hreported)
  · intro report hreport
    obtain ⟨task, htask, hsome⟩ := List.mem_filterMap.1 (h.accounts.reports.subset hreport)
    exact ⟨task, htask, (hreported task htask report hsome).symm⟩
  · intro receiver hroom hne
    rw [(h.supplies receiver hroom).stream]
    have hhanded := h.accounts.handed.filter fun d => decide (d.endpoint = receiver.endpoint)
    rw [filter_filterMap_of_forall_ne _ _ hdelivered hne] at hhanded
    rw [hhanded.eq_nil, List.append_nil]

/-! ### A ping to three endpoints -/

/-- An endpoint that runs a pipeline without steps for the events of some sources. -/
def listener (name : String) (sources : List String) : Endpoint :=
  ⟨some name, none, .post, none, none, some "p", [], some ⟨sources⟩⟩

/-- A document with two endpoints for pings, one of them twice over, and one for pongs. -/
def pinging : Document :=
  ⟨[], [], [], ⟨.empty, some ⟨none, [listener "a" ["custom:ping", "custom:ping"],
    listener "b" ["custom:ping"], listener "c" ["custom:pong"]]⟩, none, [⟨"p", [], none⟩], []⟩, []⟩

/-- A ping. -/
def ping : Trigger := .custom ⟨"ping", .null, ⟨1704067200, 0⟩⟩

/-- The router when someone has subscribed to the first endpoint. -/
def listening : Router :=
  { (Router.ofCapacity 1).withChannel "a" (Channel.empty.join 0) with issued := 1 }

/-- The delivery of the first endpoint. -/
def pinged : Delivery := ⟨"a", ping, .ofNat 7, .succeeded (.parsed ping.value), none⟩

/-- What is asked for it, and answered. -/
def pingLog : List Exchange := [⟨.uuid, Uuid.ofNat 7⟩, ⟨.now, (⟨1704067200, 0⟩ : Instant)⟩]

/-- The bindings of the first two endpoints. -/
def doubled : SubscriptionBinding := ⟨"a", "p", [.custom "ping", .custom "ping"]⟩
def single : SubscriptionBinding := ⟨"b", "p", [.custom "ping"]⟩

/-- The end of the publication when the second task was aborted before the first one finished. -/
def pingOver : Publication :=
  ⟨(listening.hand pinged).2,
    [⟨doubled, pingLog, .handed pinged (listening.hand pinged).1, true⟩,
      ⟨single, [], .aborted, true⟩],
    [pinged], [(listening.hand pinged).1], fun _ => []⟩

theorem steps_pingOver :
    (start (pinging.linked 0) (.standard .builtinOnly) ping listening).Steps pingOver := by
  have hyields : ((pinging.linked 0).deliver (.standard .builtinOnly) ping doubled).Yields pingLog
      (some pinged) := by
    show (Dialogue.ask .uuid fun run => Dialogue.ask .now fun _ => Dialogue.done (some
      ⟨"a", ping, run, .succeeded (.parsed ping.value), none⟩)).Yields pingLog (some pinged)
    exact .ask _ (.ask _ (.done _))
  have hrun := steps_of_yields hyields listening [] [⟨single, [], .aborted, true⟩] [] []
    (fun _ => []) doubled []
  have haborts : Step (start (pinging.linked 0) (.standard .builtinOnly) ping listening)
      ⟨listening, [⟨doubled, [], .running ((pinging.linked 0).deliver (.standard .builtinOnly) ping
        doubled), false⟩, ⟨single, [], .aborted, false⟩], [], [], fun _ => []⟩ :=
    .works listening [⟨doubled, [], .running _, false⟩] [] [] [] (fun _ => []) (.aborts single [] _ _)
  have hjoins := Step.joins listening [⟨doubled, [], .running ((pinging.linked 0).deliver
    (.standard .builtinOnly) ping doubled), false⟩] [] [] [] (fun _ => []) single [] .aborted nofun
  have hhands := Step.hands listening [] [⟨single, [], .aborted, true⟩] [] [] (fun _ => [])
    doubled pingLog pinged
  have hjoins' := Step.joins (listening.hand pinged).2 [] [⟨single, [], .aborted, true⟩] [pinged] []
    (fun _ => []) doubled pingLog (.handed pinged (listening.hand pinged).1) nofun
  exact .head haborts (.head hjoins (hrun.trans (.head hhands (.single hjoins'))))

/-- The first endpoint is run once and its receiver gets one delivery; the second one is run, and
the third one is not. -/
theorem isOver_spec_pingOver :
    pinging.link 0 = .ok (pinging.linked 0) ∧ listening.Reached ∧
      (start (pinging.linked 0) (.standard .builtinOnly) ping listening).Steps pingOver ∧
      pingOver.IsOver ∧
      (pingOver.tasks.map (·.binding)).count doubled = 1 ∧
      (pingOver.tasks.map (·.binding)).count ⟨"c", "p", [.custom "pong"]⟩ = 0 ∧
      pingOver.reports = [⟨"a", .ofNat 7, true, 1⟩] ∧ listening.HasRoomFor ⟨"a", 0⟩ ∧
      pingOver.stream ⟨"a", 0⟩ = [pinged] := by
  have hlink : pinging.link 0 = .ok (pinging.linked 0) := Document.link_eq_ok_iff.2 ⟨rfl, rfl⟩
  have hsubscribe : (Router.ofCapacity 1).subscribe (pinging.linked 0) "a" =
      .ok (⟨"a", 0⟩, listening) := rfl
  have hrouter : listening.Reached := .subscribe (.ofCapacity 1) hsubscribe
  have hover : pingOver.IsOver := by
    intro task htask
    simp only [pingOver, List.mem_cons, List.not_mem_nil, or_false] at htask
    rcases htask with rfl | rfl <;> rfl
  have hroom : listening.HasRoomFor ⟨"a", 0⟩ := ⟨rfl, rfl, Channel.keeps_pos 1⟩
  have hstream : pingOver.stream ⟨"a", 0⟩ = [pinged] :=
    congrArg Prod.snd (Router.pending_hand hrouter.wellFormed hroom rfl)
  obtain ⟨hcount, -, -, -, -⟩ := isOver_spec hlink hrouter steps_pingOver hover
  exact ⟨hlink, hrouter, steps_pingOver, hover, hcount doubled List.mem_cons_self,
    hcount _ (List.mem_cons_of_mem _ (List.mem_cons_of_mem _ List.mem_cons_self)), rfl,
    hroom, hstream⟩

end Publication

end PipelineEngine
