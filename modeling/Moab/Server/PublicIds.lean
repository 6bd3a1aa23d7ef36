import Moab.Queues.Minutes
import Moab.Server.Retries
import Moab.Server.World

namespace Moab.Server

open Coreapis OrderedStore

section Purges

variable {G : QueueId → Prop} {accountId : Nat} {limits : ServiceLimits} {es : List Event}
  {outcome : Outcome} {q : QueueId}

/-- G holds of the ids that are taken from queues. -/
def Tells (G : QueueId → Prop) (e : Event) : Prop := ∀ q, taken e = some q → G q

/-- G holds of the ids that are purged. -/
def Purges (G : QueueId → Prop) (c : Request) : Prop := ∀ q, c = .purgeQueue q → G q

theorem purges_contract : Contract (Tells G) (Purges G) (fun _ => True) :=
  ⟨fun _ _ h => (nomatch h), fun _ _ _ => trivial, fun _ _ _ => trivial⟩

theorem createQueue_purges {req : Moabpb.CreateQueueRequest} :
    Sends (Tells G) (Purges G) (fun _ => True) (createQueue req accountId limits) :=
  sends_withGeneratedId (fun _ _ =>
    sends_attemptId_call (fun _ h => nomatch h) (fun _ _ => sends_pure trivial)) _

theorem getQueueAndStats_purges {req : Moabpb.GetQueueRequest} :
    Sends (Tells G) (Purges G) (fun _ => True) (getQueueAndStats req accountId) :=
  purges_contract.withQueue (fun _ _ =>
    sends_orFail_call (fun _ h => nomatch h) (fun _ _ => sends_pure trivial))

/-- DeleteQueue purges the id that the queues core has deleted. -/
theorem deleteQueue_purges {req : Moabpb.DeleteQueueRequest} :
    Sends (Tells G) (Purges G) (fun _ => True) (deleteQueue req accountId) := by
  refine sends_orFail_call (fun _ h => nomatch h) (fun reply hreply => ?_)
  refine sends_perform trivial (fun _ _ => sends_orFail_call ?_ (fun _ _ => sends_pure trivial))
  intro q hq
  exact hreply q (congrArg some (Request.purgeQueue.inj hq))

/-- PurgeQueue purges the id that the queues core has replaced. -/
theorem purgeQueue_purges {req : Moabpb.PurgeQueueRequest} :
    Sends (Tells G) (Purges G) (fun _ => True) (purgeQueue req accountId) := by
  refine sends_withGeneratedId (fun _ _ => ?_) _
  refine sends_attemptId_call (fun _ h => nomatch h) (fun reply hreply => ?_)
  refine sends_perform trivial (fun _ _ => sends_orFail_call ?_ (fun _ _ => sends_pure trivial))
  intro q hq
  exact hreply q (congrArg some (Request.purgeQueue.inj hq))

theorem createSchedule_purges {req : Moabpb.CreateScheduleRequest} :
    Sends (Tells G) (Purges G) (fun _ => True) (createSchedule req accountId limits) :=
  sends_withGeneratedId (fun _ _ =>
    sends_attemptId_call (fun _ h => nomatch h) (fun _ _ => sends_pure trivial)) _

theorem listQueues_purges [Wire] {req : Moabpb.ListQueuesRequest} :
    Sends (Tells G) (Purges G) (fun _ => True) (listQueues req accountId) := by
  unfold listQueues
  split
  · exact sends_pure trivial
  · exact sends_orFail_call (fun _ h => nomatch h) (fun _ _ => sends_withTokens)

theorem listSchedules_purges [Wire] {req : Moabpb.ListSchedulesRequest} :
    Sends (Tells G) (Purges G) (fun _ => True) (listSchedules req accountId) := by
  refine purges_contract.withCachedQueue (fun queue _ => ?_)
  split
  · exact sends_pure trivial
  · exact sends_orFail_call (fun _ h => nomatch h) (fun _ _ => sends_withTokens)

variable [Base62]

theorem enqueue_purges {req : Moabpb.EnqueueRequest} :
    Sends (Tells G) (Purges G) (fun _ => True) (enqueue req accountId limits) := by
  unfold enqueue
  split_ifs
  · exact sends_pure trivial
  refine sends_perform trivial (fun _ _ => ?_)
  refine purges_contract.withCachedQueue (fun queue _ => ?_)
  split
  · exact sends_pure trivial
  · next entries _ =>
    have hcore : ∀ q : Queue, Purges G (.enqueue ⟨q.id, entries⟩) := fun _ _ h => nomatch h
    exact purges_contract.sendToQueue trivial (fun q _ => sends_single (hcore q))
      (fun _ => sends_pure trivial)

theorem dequeue_purges {req : Moabpb.DequeueRequest} :
    Sends (Tells G) (Purges G) (fun _ => True) (dequeue req accountId limits) := by
  unfold dequeue
  split_ifs
  · exact sends_pure trivial
  have hcore : ∀ q, Purges G (.dequeue (coreDequeueRequest req q)) := fun _ _ h => nomatch h
  refine purges_contract.withCachedQueue (fun queue _ => ?_)
  split_ifs
  · exact sends_pure trivial
  · exact purges_contract.sendToQueue trivial (fun q _ => sends_single (hcore q))
      (fun _ => sends_pure trivial)

variable [Wire]

theorem listTasks_purges {req : Moabpb.ListTasksRequest} :
    Sends (Tells G) (Purges G) (fun _ => True) (listTasks req accountId) := by
  refine purges_contract.withCachedQueue (fun queue _ => ?_)
  split
  · exact sends_pure trivial
  · next token _ =>
    have hcore : ∀ q : Queue, Purges G (.listTasks ⟨q.id, req.state, token, req.limit⟩) :=
      fun _ _ h => nomatch h
    exact purges_contract.sendToQueue trivial (fun q _ => sends_single (hcore q))
      (fun _ => sends_withTokens)

theorem handle_purges (req : Moabpb.Request) :
    Sends (Tells G) (Purges G) (fun _ => True) (handle req accountId limits) := by
  cases req with
  | createQueue req => exact createQueue_purges
  | getQueue req => exact getQueueAndStats_purges
  | deleteQueue req => exact deleteQueue_purges
  | listQueues req => exact listQueues_purges
  | enqueue req => exact enqueue_purges
  | dequeue req => exact dequeue_purges
  | reportStatus req | deleteTasks req | getTask req =>
    unfold handle
    refine purges_contract.withQueue (fun queue _ => ?_)
    split
    · exact sends_pure trivial
    · exact sends_orFail_call (fun _ h => nomatch h) (fun _ _ => sends_pure trivial)
  | restartTasks req =>
    refine sends_perform trivial (fun _ _ => purges_contract.withQueue (fun queue _ => ?_))
    split
    · exact sends_pure trivial
    · exact sends_orFail_call (fun _ h => nomatch h) (fun _ _ => sends_pure trivial)
  | createSchedule req => exact createSchedule_purges
  | updateQueue req | getSchedule req | updateSchedule req | deleteSchedule req =>
    exact sends_orFail_call (fun _ h => nomatch h) (fun _ _ => sends_pure trivial)
  | listSchedules req => exact listSchedules_purges
  | purgeQueue req => exact purgeQueue_purges
  | listTasks req => exact listTasks_purges

/-- A handler purges only ids that it has just taken from a queue. -/
theorem taken_of_purged {req : Moabpb.Request} (h : (handle req accountId limits).Runs es outcome)
    (hq : .purgeQueue q ∈ sent es) : ∃ e ∈ es, taken e = some q :=
  (handle_purges (G := fun q => ∃ e ∈ es, taken e = some q) req).sent h
    (fun e he _ ht => ⟨e, he, ht⟩) _ hq q rfl

end Purges

section Runs

/-- What happens to the world: a call of the API with all that happened in it, or a call of
a core by one of the workers, which neither purge a queue nor bring a queue id along. -/
inductive Action where
  | api (req : Moabpb.Request) (accountId : Nat) (limits : ServiceLimits) (es : List Event)
      (outcome : Outcome)
  | tasks (now : Time) (op : Op)
  | queues (now : Time) (op : Queues.Op)

variable [OrderedStore] {w u w' : World} {q : QueueId} {a : Action} {actions : List Action}

/-- Between two actions the tasks core has purged only retired ids, and no task of another
id has a number that was not given out. -/
structure Settled (w : World) : Prop where
  consistent : Consistent w
  marked : ∀ q, w.tasks.purgeGCRecords.get q ≠ none → Retired w q
  numbered : ∀ q, ¬Retired w q → Numbered q w.tasks

theorem Settled.start : Settled World.start where
  consistent := Consistent.start
  marked q h := absurd (by simp [World.start, State.empty]) h
  numbered _ _ := Numbered.empty

theorem Settled.refl (h : Settled w) (hq : ¬Retired w q) : GoesOn q w w :=
  GoesOn.refl (Classical.byContradiction (fun hmark => hq (h.marked q hmark))) (h.numbered q hq)

variable [Gronx] [Base62] [Wire]

def Takes (w : World) (a : Action) (w' : World) : Prop :=
  match a with
  | .api req accountId limits es outcome =>
    (handle req accountId limits).Runs es outcome ∧ Trace Serves w es w'
  | .tasks now op => (∀ q, op ≠ .purgeQueue q) ∧ w' = w.commitTasks now op
  | .queues now op => op.newQueueId = none ∧ w' = w.commitQueues now op

theorem Consistent.takes (h : Consistent w) (ht : Takes w a w') : Consistent w' := by
  cases a with
  | api req accountId limits es outcome => exact h.trace ht.2
  | tasks now op =>
    rw [ht.2]
    exact { h with }
  | queues now op =>
    rw [ht.2]
    exact h.commitQueues (fresh_of_none ht.1)

theorem Retired.takes (hr : Retired w q) (h : Consistent w) (ht : Takes w a w') : Retired w' q := by
  cases a with
  | api req accountId limits es outcome => exact hr.trace h ht.2
  | tasks now op =>
    rw [ht.2]
    exact hr
  | queues now op =>
    rw [ht.2]
    exact hr.commitQueues h (fresh_of_none ht.1)

/-- A handler does not purge an id that is still in use when it is done. -/
theorem not_purged {req : Moabpb.Request} {accountId : Nat} {limits : ServiceLimits}
    {es : List Event} {outcome : Outcome} (h : Consistent w)
    (ht : Takes w (.api req accountId limits es outcome) w') (hq : ¬Retired w' q) :
      .purgeQueue q ∉ sent es := by
  intro hpurge
  obtain ⟨e, he, htaken⟩ := taken_of_purged ht.1 hpurge
  exact hq (h.retired_of_mem ht.2 he htaken)

theorem Settled.goesOn (h : Settled w) (ht : Takes w a w') (hq : ¬Retired w' q) :
    GoesOn q w w' := by
  have hstart : GoesOn q w w := h.refl (fun hr => hq (hr.takes h.consistent ht))
  cases a with
  | api req accountId limits es outcome => exact hstart.trace ht.2 (not_purged h.consistent ht hq)
  | tasks now op =>
    rw [ht.2]
    exact hstart.commitTasks (ht.1 q)
  | queues now op =>
    rw [ht.2]
    exact hstart

theorem Settled.takes (h : Settled w) (ht : Takes w a w') : Settled w' where
  consistent := h.consistent.takes ht
  marked _ hmark := Classical.byContradiction (fun hq => hmark (h.goesOn ht hq).1)
  numbered _ hq := (h.goesOn ht hq).2.numbered

theorem Settled.run (h : Settled w) (ht : Trace Takes w actions w') : Settled w' :=
  ht.invariant (fun _ _ _ hs ha => hs.takes ha) h

theorem Retired.run (hr : Retired w q) (h : Consistent w) (ht : Trace Takes w actions w') :
    Retired w' q :=
  (ht.invariant (I := fun w => Consistent w ∧ Retired w q)
    (fun _ _ _ hc ha => ⟨hc.1.takes ha, hc.2.takes hc.1 ha⟩) ⟨h, hr⟩).2

/-- In every run the numbers of a queue go on as long as its id is not retired. -/
theorem Settled.run_goesOn (h : Settled w) (ht : Trace Takes w actions w') (hq : ¬Retired w' q) :
    GoesOn q w w' := by
  induction ht with
  | nil => exact h.refl hq
  | @cons w u w' a actions ha hrest ih =>
    have hnext := ih (h.takes ha) hq
    have hu : ¬Retired u q := fun hr => hq (hr.run (h.takes ha).consistent hrest)
    exact ⟨hnext.1, (h.goesOn ha hu).2.trans hnext.2⟩

end Runs

section Targets

/-- The tasks that a request of the core is about. -/
def targets : Request → List TaskId
  | .getTask taskId => [taskId]
  | .reportStatus req => req.entries.map (·.taskId)
  | .deleteTasks req => req.taskIds.map req.queueId.task
  | .restartTasks req => req.entries.map (fun e => req.queueId.task e.taskId)
  | _ => []

/-- The request is about tasks of the queue only. -/
def About (q : QueueId) (c : Request) : Prop := ∀ id ∈ targets c, id.queue = q

/-- The call reads, reports on, deletes or restarts the task that the name of a queue and a
public id stand for. -/
def Asks (req : Moabpb.Request) (queueName x : Bytes) : Prop :=
  match req with
  | .getTask req => req.queueName = queueName ∧ req.taskId = x
  | .reportStatus req => req.queueName = queueName ∧ x ∈ req.entries.map (·.taskId)
  | .deleteTasks req => req.queueName = queueName ∧ x ∈ req.taskIds
  | .restartTasks req => req.queueName = queueName ∧ x ∈ req.entries.map (·.taskId)
  | _ => False

variable {accountId : Nat} {queueName : Bytes} {es : List Event} {outcome : Outcome} {c : Request}
  {id : TaskId}

section Names

variable [OrderedStore] [Gronx] {w w' : World}

/-- The queue that the handler goes on with is the one that the name belongs to now. -/
theorem withQueue_resolves {next : Queue → Handler Outcome} (hw : Consistent w)
    (hnext : ∀ queue : Queue, queue.id.accountId = accountId →
      Sends (fun _ => True) (About queue.id) (fun _ => True) (next queue))
    (h : (withQueue accountId queueName next).Runs es outcome) (ht : Trace Serves w es w')
    (hc : c ∈ sent es) (hid : id ∈ targets c) :
    ∃ queue, w.queues.queueByName accountId queueName = some queue ∧ id.queue = queue.id := by
  obtain ⟨r, rest, rfl, hrest⟩ := call_runs.mp h
  -- the lookup itself is about no task
  have hc' : c ∈ sent rest := by
    rcases List.mem_cons.mp hc with rfl | hc
    · cases hid
    · exact hc
  rcases orFail_runs hrest with ⟨err, rfl, rfl⟩ | ⟨reply, rfl, hrun⟩
  · cases hc'
  · cases ht with
    | cons hs _ =>
      have named := Answers.named hs
      have haccount := (hw.structured.registered.queueByName named).2.1
      exact ⟨_, named, (hnext _ haccount).sent hrun (fun _ _ => trivial) c hc' id hid⟩

end Names

theorem about_of_account {queue : Queue} (h : queue.id.accountId = accountId) (n : Nat) :
    (TaskId.mk accountId queue.id.queueId n).queue = queue.id := by
  rw [← h]
  rfl

variable [OrderedStore] [Gronx] [Base62] [Wire] {w w' : World}

/-- Whatever the request, the tasks that its public ids stand for are those of the queue
that the name belongs to when the call comes in. -/
theorem handle_resolves {req : Moabpb.Request} {limits : ServiceLimits} {x : Bytes}
    (hw : Consistent w) (hasks : Asks req queueName x)
    (ht : Takes w (.api req accountId limits es outcome) w') (hc : c ∈ sent es)
    (hid : id ∈ targets c) :
    ∃ queue, w.queues.queueByName accountId queueName = some queue ∧ id.queue = queue.id := by
  obtain ⟨hruns, htrace⟩ := ht
  cases req with
  | getTask req =>
    obtain ⟨rfl, _⟩ := hasks
    rw [handle, getTask] at hruns
    refine withQueue_resolves hw (fun queue haccount => ?_) hruns htrace hc hid
    split
    · exact sends_pure trivial
    · refine sends_orFail_call ?_ (fun _ _ => sends_pure trivial)
      intro id hid
      rw [List.mem_singleton.mp hid]
      exact about_of_account haccount _
  | reportStatus req =>
    obtain ⟨rfl, _⟩ := hasks
    rw [handle, reportStatus] at hruns
    refine withQueue_resolves hw (fun queue haccount => ?_) hruns htrace hc hid
    cases hentries : req.entries.mapM (coreReportEntry queue accountId) with
    | error status => exact sends_pure trivial
    | ok entries =>
      refine sends_orFail_call ?_ (fun _ _ => sends_pure trivial)
      intro id hid
      obtain ⟨c, hc, rfl⟩ := List.mem_map.mp hid
      obtain ⟨e, _, hbuilt⟩ := exists_of_mem_right (forall₂_of_mapM_ok hentries) hc
      unfold coreReportEntry at hbuilt
      split at hbuilt
      · cases hbuilt
      · split at hbuilt
        · cases hbuilt
        obtain rfl := Except.ok.inj hbuilt
        exact about_of_account haccount _
  | deleteTasks req =>
    obtain ⟨rfl, _⟩ := hasks
    rw [handle, deleteTasks] at hruns
    refine withQueue_resolves hw (fun queue _ => ?_) hruns htrace hc hid
    split
    · exact sends_pure trivial
    · refine sends_orFail_call ?_ (fun _ _ => sends_pure trivial)
      intro id hid
      obtain ⟨n, _, rfl⟩ := List.mem_map.mp hid
      rfl
  | restartTasks req =>
    obtain ⟨rfl, _⟩ := hasks
    obtain ⟨now, rest, rfl, hrest⟩ := perform_runs.mp hruns
    cases htrace with
    | cons hs htrace =>
      obtain rfl := hs
      refine withQueue_resolves hw (fun queue _ => ?_) hrest htrace hc hid
      split
      · exact sends_pure trivial
      · refine sends_orFail_call ?_ (fun _ _ => sends_pure trivial)
        intro id hid
        obtain ⟨e, _, rfl⟩ := List.mem_map.mp hid
        rfl
  | _ => exact hasks.elim

end Targets

section Designation

/-- The tasks of a response. -/
def tasksOf : Outcome → List Moabpb.Task
  | .ok (.tasks tasks _) => tasks
  | .ok (.restartTasks entries _) => entries.filterMap (·.task)
  | .ok (.task task _) => [task]
  | _ => []

/-- The name in a call that returns tasks. -/
def queueNameOf : Moabpb.Request → Option Bytes
  | .enqueue req => some req.queueName
  | .dequeue req => some req.queueName
  | .restartTasks req => some req.queueName
  | .getTask req => some req.queueName
  | _ => none

/-- What happened in a call of the API. -/
def Action.events : Action → List Event
  | .api _ _ _ es _ => es
  | _ => []

/-- The call of the API asks for the task behind a public id under the name of a queue. -/
def Action.Asks (accountId : Nat) (queueName x : Bytes) : Action → Prop
  | .api req account _ _ _ => account = accountId ∧ Server.Asks req queueName x
  | _ => False

/-- The call of the API returned the task under the name of a queue. -/
def Action.Returns [Base62] (accountId : Nat) (queueName : Bytes) (t : Task) : Action → Prop
  | .api req account _ es outcome => account = accountId ∧ queueNameOf req = some queueName ∧
      taskToFront t ∈ tasksOf outcome ∧ ∃ e ∈ es, t ∈ returned e
  | _ => False

variable [OrderedStore] [Gronx] [Base62] [Wire] {w w' : World} {a b : Action} {accountId : Nat}
  {queueName : Bytes}

/-- The row is there after every action of the run. -/
def Stays (w : World) (actions : List Action) (w' : World) (id : TaskId) : Prop :=
  ∀ before after u, actions = before ++ after → Trace Takes w before u → Trace Takes u after w' →
    u.tasks.tasks.get id ≠ none

theorem Consistent.resolves {x : Bytes} {c : Request} {id : TaskId} (h : Consistent w)
    (ht : Takes w b w') (hasks : b.Asks accountId queueName x) (hc : c ∈ sent b.events)
    (hid : id ∈ targets c) :
    ∃ queue, w.queues.queueByName accountId queueName = some queue ∧ id.queue = queue.id := by
  cases b with
  | api req account limits es outcome =>
    obtain ⟨rfl, hasks⟩ := hasks
    exact handle_resolves h hasks ht hc hid
  | _ => exact hasks.elim

theorem Settled.returned {t : Task} (h : Settled w) (ht : Takes w a w')
    (hr : a.Returns accountId queueName t) (hq : ¬Retired w' t.id.queue) :
    t.id.taskId ≤ w'.tasks.sequence t.id.queue := by
  cases a with
  | api req account limits es outcome =>
    obtain ⟨_, _, _, e, he, hmem⟩ := hr
    have hstart := h.refl (fun hr => hq (hr.takes h.consistent ht))
    exact hstart.returned_trace ht.2 (not_purged h.consistent ht hq) he hmem rfl
  | _ => exact hr.elim

/-- A row of a number that was given out has been there ever since, as long as its queue id
is in use. -/
theorem Settled.stays {actions : List Action} {id : TaskId} (h : Settled w)
    (hq : ¬Retired w' id.queue) (hid : id.taskId ≤ w.tasks.sequence id.queue)
    (hrow : w'.tasks.tasks.get id ≠ none) : Stays w actions w' id := by
  intro before after u _ hu hrest hgone
  have hsettled := h.run hu
  have huq : ¬Retired u id.queue := fun hr => hq (hr.run hsettled.consistent hrest)
  have hle := Nat.le_trans hid (h.run_goesOn hu huq).2.grows
  exact hrow ((hsettled.run_goesOn hrest hq).2.gone id rfl hle hgone)

/-- A public id that a call returned for a task T is used in a later call under the same
name. The later call finds no task but T, whose row has been there ever since, if and only if
the name still belongs to the queue id of T, or no task has the number of T under the queue id
that the name belongs to now. The ids that queues get are never used ones, and the number fits
the eight bytes of a public id. -/
theorem designates_iff {before between : List Action} {w₁ w₂ w₃ w₄ : World} {T : Task}
    {c : Request} {id : TaskId} (hbefore : Trace Takes World.start before w₁)
    (hfirst : Takes w₁ a w₂) (hreturns : a.Returns accountId queueName T)
    (hfits : T.id.taskId < 256 ^ 8) (hbetween : Trace Takes w₂ between w₃) (hlater : Takes w₃ b w₄)
    (hasks : b.Asks accountId queueName (taskToFront T).id) (hc : c ∈ sent b.events)
    (hid : id ∈ targets c) (hx : decodeTaskId (taskToFront T).id = some id.taskId) :
    (∀ t, w₃.tasks.tasks.get id = some t → id = T.id ∧ Stays w₂ between w₃ id) ↔
    ∀ queue, w₃.queues.queueByName accountId queueName = some queue →
      queue.id = T.id.queue ∨ w₃.tasks.tasks.get (queue.id.task T.id.taskId) = none := by
  have h₂ : Settled w₂ := (Settled.start.run hbefore).takes hfirst
  have h₃ : Settled w₃ := h₂.run hbetween
  obtain ⟨queue, named, hqueue⟩ := h₃.consistent.resolves hlater hasks hc hid
  have hnumber : T.id.taskId = id.taskId :=
    Option.some.inj ((decodeTaskId_encodeTaskId hfits).symm.trans hx)
  have htarget : queue.id.task T.id.taskId = id := by
    rw [← hqueue, hnumber]
    rfl
  constructor
  · intro h other hother
    obtain rfl := Option.some.inj (named.symm.trans hother)
    rw [htarget]
    cases hrow : w₃.tasks.tasks.get id with
    | none => exact Or.inr rfl
    | some t =>
      rw [← hqueue, (h t hrow).1]
      exact Or.inl rfl
  · intro h t hrow
    rcases h queue named with hsame | hnone
    · have hT : id = T.id := by
        rw [← htarget, hsame]
        rfl
      have hq : ¬Retired w₃ T.id.queue := by
        intro hretired
        rw [← hsame, Retired, (h₃.consistent.structured.registered.queueByName named).1] at hretired
        cases hretired.2
      have hq₂ : ¬Retired w₂ T.id.queue := fun hr => hq (hr.run h₂.consistent hbetween)
      have hle := (Settled.start.run hbefore).returned hfirst hreturns hq₂
      rw [hT] at hrow ⊢
      exact ⟨rfl, h₂.stays hq hle (by simp [hrow])⟩
    · rw [htarget, hrow] at hnone
      cases hnone

end Designation

section Sessions

variable [OrderedStore]

/-- The ids that a request brings along were never used. -/
def World.accepts (w : World) (req : Request) : Bool :=
  ((req.queuesOp.bind Queues.Op.newQueueId).all (fun q => decide (q ∉ w.used)))

theorem fresh_of_accepts {w : World} {req : Request} (h : w.accepts req = true) (op : Queues.Op)
    (hop : req.queuesOp = some op) : w.Fresh op := by
  intro q hq
  rw [World.accepts, hop, Option.bind_some, hq] at h
  exact of_decide_eq_true h

variable [Gronx]

/-- An instance with an empty cache and a clock that stands still, whose random numbers
count the ids. -/
def instanceAt (time : Time) : Program.Server World Effect.Answer := fun w e =>
  match e with
  | .now => (w, time)
  | .rand => (w, w.used.length + 1)
  | .cached _ => (w, none)
  | .cache _ _ => (w, ())
  | .uncache _ => (w, ())
  | .call req =>
    if w.accepts req then w.answer time (fun _ => .error internalError) req
    else (w, .error internalError)

theorem instanceAt_serves (time : Time) (w : World) (e : Effect) :
    Serves w ⟨e, (instanceAt time w e).2⟩ (instanceAt time w e).1 := by
  cases e with
  | call req =>
    unfold instanceAt
    dsimp only
    split_ifs with h
    · exact Or.inl ⟨time, _, fresh_of_accepts h, rfl, Or.inl rfl⟩
    · exact Or.inr ⟨rfl, _, rfl⟩
  | _ => rfl

variable [Base62] [Wire]

/-- A call that the instance handles. -/
def callAt (time : Time) (accountId : Nat) (w : World) (req : Moabpb.Request) : World × Action :=
  let r := (handle req accountId defaultServiceLimits).serve (instanceAt time) w
  (r.1, .api req accountId defaultServiceLimits r.2.1 r.2.2)

theorem callAt_takes (time : Time) (accountId : Nat) (w : World) (req : Moabpb.Request) :
    Takes w (callAt time accountId w req).2 (callAt time accountId w req).1 :=
  ⟨Program.runs_serve _ _ _, Program.trace_serve (instanceAt_serves time) _ _⟩

end Sessions

section Example

/-- The queue j of the account 1. -/
def opened : World :=
  (callAt second 1 World.start (.createQueue ⟨⟨[], 30, none, none, none, 60⟩, [106]⟩)).1

/-- A task in the queue. -/
def enqueued : World × Action := callAt second 1 opened (.enqueue enqueueOne)

def firstTask : Task := newTask ⟨1, 1⟩ 1 ⟨[], 0, 61 * second, [], none, [], []⟩ second

/-- The queue is purged. -/
def emptied : World × Action := callAt second 1 enqueued.1 (.purgeQueue ⟨[106]⟩)

/-- And it gets another task. -/
def refilled : World × Action := callAt second 1 emptied.1 (.enqueue enqueueOne)

/-- The task with the public id of the first one is deleted. -/
def deleted (w : World) : World × Action :=
  callAt second 1 w (.deleteTasks ⟨[106], [encodeTaskId 1]⟩)

theorem enqueued_returns : enqueued.2.Returns 1 [106] firstTask :=
  ⟨rfl, rfl, by decide +kernel, by decide +kernel⟩

theorem opened_trace : ∃ actions, Trace Takes World.start actions opened :=
  ⟨_, .single (callAt_takes second 1 World.start _)⟩

/-- After the purge the public id of the first task stands for the second one, which a client
deletes that means the first. -/
theorem purge_redesignates : ∃ (before between : List Action) (w₁ w₂ w₃ w₄ : World) (a b : Action)
    (T : Task) (c : Request) (id : TaskId), Trace Takes World.start before w₁ ∧ Takes w₁ a w₂ ∧
      a.Returns 1 [106] T ∧ Trace Takes w₂ between w₃ ∧ Takes w₃ b w₄ ∧
      b.Asks 1 [106] (taskToFront T).id ∧ c ∈ sent b.events ∧ id ∈ targets c ∧
      decodeTaskId (taskToFront T).id = some id.taskId ∧ id ≠ T.id ∧
      w₂.tasks.tasks.get id = none ∧ (∃ t, w₃.tasks.tasks.get id = some t) ∧
      w₄.tasks.tasks.get id = none := by
  obtain ⟨before, hbefore⟩ := opened_trace
  refine ⟨before, [emptied.2, refilled.2], opened, enqueued.1, refilled.1, (deleted refilled.1).1,
    enqueued.2, (deleted refilled.1).2, firstTask, .deleteTasks ⟨⟨1, 2⟩, [1]⟩, ⟨1, 2, 1⟩, hbefore,
    callAt_takes _ _ _ _, enqueued_returns, ?_, callAt_takes _ _ _ _, ⟨rfl, rfl, by decide⟩,
    by decide +kernel, by decide, by decide +kernel, by decide, by decide +kernel, ?_,
    by decide +kernel⟩
  · exact .cons (callAt_takes _ _ _ _) (.single (callAt_takes _ _ _ _))
  · exact Option.isSome_iff_exists.mp (by decide +kernel)

/-- Without the purge it is the first task that is deleted. -/
theorem firstTask_designated :
    enqueued.1.tasks.tasks.get firstTask.id = some firstTask ∧
    (deleted enqueued.1).1.tasks.tasks.get firstTask.id = none ∧
    Stays enqueued.1 [] enqueued.1 firstTask.id := by
  have hrow : enqueued.1.tasks.tasks.get firstTask.id = some firstTask := by decide +kernel
  obtain ⟨before, hbefore⟩ := opened_trace
  have hdesignates := designates_iff (T := firstTask) (c := .deleteTasks ⟨⟨1, 1⟩, [1]⟩) hbefore
    (callAt_takes _ _ _ _) enqueued_returns (by decide) (.nil enqueued.1)
    (callAt_takes second 1 enqueued.1 (.deleteTasks ⟨[106], [encodeTaskId 1]⟩))
      ⟨rfl, rfl, by decide⟩
    (by decide +kernel) (List.mem_singleton.mpr rfl) (by decide +kernel)
  refine ⟨hrow, by decide +kernel, (hdesignates.mpr ?_ firstTask hrow).2⟩
  intro queue hqueue
  have hid : (enqueued.1.queues.queueByName 1 [106]).map (·.id) = some firstTask.id.queue := by
    decide +kernel
  rw [hqueue] at hid
  exact Or.inl (Option.some.inj hid)

end Example

end Moab.Server
