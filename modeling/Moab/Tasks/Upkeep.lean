import Moab.Framework.Ensures
import Moab.Tasks.Core

namespace Moab

open OrderedStore

variable [OrderedStore]

/-- A property of states that the writes of the core keep, as long as the rows written meet
W and the index items are those of such rows. The rows that are read meet R. -/
structure Upheld (R W : Task → Prop) (I : State → Prop) : Prop where
  read : ∀ s id t, I s → s.tasks.get id = some t → R t
  waiting : ∀ t, R t → t.state = .enqueued → W t
  row : ∀ s t, I s → W t → I (s.setTask t)
  erase : ∀ s id, I s → I (s.deleteRow id)
  attach : ∀ s t, I s → W t → Ensures True (attachTaskToThread s t) I
  detach : ∀ s t, I s → Ensures True (detachTaskFromThread s t) I
  reschedule : ∀ s t oldScheduledAt, I s → W t →
    Ensures True (rescheduleTaskInThread s t oldScheduledAt) I
  renew : ∀ s k thread visibleAt, I s → s.threads.get k = some thread →
    I (s.setThread k.queue { thread with visibleAt := visibleAt })
  addQueued : ∀ s t, I s → W t → I (s.addQueued t)
  addInProgress : ∀ s q t, I s → W t →
    I { s with inProgressIndex := s.inProgressIndex.add q t.inProgressIndexItem }
  addDead : ∀ s t, I s → W t → I (s.addDead t)
  addExpiration : ∀ s t, I s → W t → I (s.addExpiration t)
  removeQueued : ∀ s q i, I s → I { s with queueIndex := s.queueIndex.remove q i }
  removeInProgress : ∀ s q i, I s → I { s with inProgressIndex := s.inProgressIndex.remove q i }
  removeDead : ∀ s q i, I s → I { s with deadTasksIndex := s.deadTasksIndex.remove q i }
  removeExpiration : ∀ s i, I s → I { s with expiration := s.expiration.remove () i }
  dedupeKeysIndex : ∀ s keys, I s → I { s with dedupeKeysIndex := keys }
  counters : ∀ s counters, I s → I { s with counters := counters }

/-- How a Dequeue changes the state of a queue: the sequence stays, and the cursor of the
queue index stays or goes no further than now. -/
structure Visits (now : Time) (st st' : QueueState) : Prop where
  sequence : st'.taskIdSequence = st.taskIdSequence
  cursor : st'.lastVisitedEnqueued = st.lastVisitedEnqueued ∨
    st'.lastVisitedEnqueued.rank ≤ now.rank

/-- The tasks that a response carries. -/
def Response.tasks : Response → List Task
  | .enqueue (.ok ts) | .dequeue (.ok ts) => ts
  | .restartTasks entries => entries.filterMap (·.task)
  | _ => []

section Rows

variable (R W : Task → Prop) (now : Time)

omit [OrderedStore]

/-- A failed delivery of a row that was read leads to rows that may be written. -/
structure Failing (dlqConfig : Option DeadLetterQueueConfig) : Prop where
  die : ∀ t dlq, R t → dlqConfig = some dlq → W (t.die now dlq)
  retry : ∀ t interval, R t → retryInterval t = .ok interval → W (t.retry now interval)

/-- What an entry of an Enqueue makes of the row it duplicates. -/
structure Amending (e : EnqueueRequestEntry) : Prop where
  payload : ∀ t, W t → W { t with payload := e.payload }
  scheduledAt : ∀ t, W t → W { t with scheduledAt := notBefore e.scheduledAt now }
  expiresAt : ∀ t, W t → W { t with expiresAt := e.expiresAt }

structure Entering (q : QueueId) (e : EnqueueRequestEntry) : Prop extends Amending W now e where
  create : ∀ n, W (newTask q n e now)

/-- The rows that a call writes meet W, whatever rows it reads that meet R. -/
def Op.Writes : Op → Prop
  | .enqueue req => ∀ e ∈ req.entries, Entering W now req.queueId e
  | .dequeue req => Failing R W now req.deadLetterQueueConfig ∧
      ∀ t, R t → W (t.lease now req.keepaliveTimeoutInSeconds)
  | .reportStatus req => Failing R W now req.deadLetterQueueConfig ∧ ∀ e ∈ req.entries,
      e.status = .inProgress → ∀ t, R t → t.state = .inProgress →
        W { t with visibleAt := plusSeconds now e.keepaliveTimeoutInSeconds }
  | .restartTasks req => ∀ e ∈ req.entries, ∀ t, R t → W (t.restart now e.scheduledAt e.expiresAt)
  | _ => True

end Rows

namespace Upheld

variable {R W : Task → Prop} {I : State → Prop} {s : State} {t : Task} {now : Time}
  {dlqConfig : Option DeadLetterQueueConfig}

section Lifecycle

theorem claimDedupeKey (h : Upheld R W I) (hs : I s) : I (s.claimDedupeKey t) := by
  unfold State.claimDedupeKey
  split_ifs
  · exact hs
  · exact h.dedupeKeysIndex s _ hs

theorem releaseDedupeKey (h : Upheld R W I) (hs : I s) : I (s.releaseDedupeKey t) := by
  unfold State.releaseDedupeKey
  split_ifs
  · exact hs
  · exact h.dedupeKeysIndex s _ hs

theorem createTask (h : Upheld R W I) (hs : I s) (ht : W t) : Ensures True (createTask s t) I := by
  have hrow : I ((s.setTask t).claimDedupeKey t) := h.claimDedupeKey (h.row s t hs ht)
  have hjoin : Ensures True (joinQueue ((s.setTask t).claimDedupeKey t) t) I := by
    apply Ensures.ite
    · exact fun _ => Ensures.ok (h.addQueued _ t hrow ht)
    · exact fun _ => h.attach _ t hrow ht
  exact hjoin.bind (fun s' hs' => Ensures.ok (h.counters _ _ (h.addExpiration s' t hs' ht)))

theorem leaveThread (h : Upheld R W I) (hs : I s) : Ensures True (leaveThread s t) I := by
  apply Ensures.ite
  · exact fun _ => Ensures.ok hs
  · exact fun _ => h.detach s t hs

theorem removeFromState (h : Upheld R W I) (hs : I s) (c : TasksCounter) :
    Ensures True (removeFromState s t c) (fun a => I a.1) := by
  unfold Moab.removeFromState
  cases t.state with
  | invalid => exact Ensures.ok hs
  | enqueued =>
    have hleft : I (s.removeQueued t) := h.removeQueued s _ _ hs
    exact (h.leaveThread (h.releaseDedupeKey hleft)).bind (fun s' hs' => Ensures.ok hs')
  | inProgress =>
    have hleft : I (s.removeInProgress t) := h.removeInProgress s _ _ hs
    exact (h.leaveThread (h.releaseDedupeKey hleft)).bind (fun s' hs' => Ensures.ok hs')
  | dead => exact Ensures.ok (h.removeDead s _ _ hs)

theorem deleteTask (h : Upheld R W I) (hs : I s) (reason : TaskDeletionReason) :
    Ensures True (deleteTask s t reason) I :=
  (h.removeFromState hs _).bind (fun a ha =>
    Ensures.ok (h.counters _ _ (h.erase _ t.id (h.removeExpiration a.1 _ ha))))

theorem heartbeatTask (h : Upheld R W I) (hs : I s) {keepalive : Time}
    (ht : W { t with visibleAt := plusSeconds now keepalive }) :
    Ensures True (heartbeatTask s t now keepalive) I := by
  let t' : Task := { t with visibleAt := plusSeconds now keepalive }
  have hrow : I ((s.removeInProgress t).setTask t') :=
    h.row _ t' (h.removeInProgress s _ _ hs) ht
  have hrenew : Ensures True (renewThread ((s.removeInProgress t).setTask t') t') I := by
    apply Ensures.ite
    · exact fun _ => Ensures.ok hrow
    · intro _
      unfold State.getThread
      cases hk : ((s.removeInProgress t).setTask t').threads.get t'.threadKey with
      | none => exact Ensures.error trivial
      | some thread =>
        apply Ensures.ite
        · exact fun _ => Ensures.error trivial
        · exact fun _ => Ensures.ok (h.renew _ t'.threadKey thread t'.visibleAt hrow hk)
  exact hrenew.bind (fun s' hs' => Ensures.ok (h.addInProgress s' _ t' hs' ht))

theorem moveToDead (h : Upheld R W I) (hs : I s) {dlq : DeadLetterQueueConfig}
    (ht : W (t.die now dlq)) : Ensures True (moveToDead s t now dlq) I := by
  have hrow : I ((s.removeInProgress t).setTask (t.die now dlq)) :=
    h.row _ _ (h.removeInProgress s _ _ hs) ht
  have hout := h.releaseDedupeKey (t := t.die now dlq) (h.addExpiration _ _ hrow ht)
  exact (h.leaveThread hout).bind (fun s' hs' =>
    Ensures.ok (h.counters _ _ (h.addDead s' (t.die now dlq) hs' ht)))

/-- A loop over tasks that were read before it. -/
theorem foldTasks {f : State → Task → Except CoreError State} {l : List Task}
    (hf : ∀ t ∈ l, ∀ s, I s → Ensures True (f s t) I) (hs : I s) :
    Ensures True (l.foldlM f s) I := by
  induction l generalizing s with
  | nil => exact hs
  | cons t l ih =>
    rw [List.foldlM_cons]
    apply (hf t List.mem_cons_self s hs).bind
    exact fun s' hs' => ih (fun u hu => hf u (List.mem_cons_of_mem _ hu)) hs'

theorem evictExcessDeadTasks (h : Upheld R W I) (hs : I s) (q : QueueId)
    (maxSize deadTasksCount : Int) :
    Ensures True (evictExcessDeadTasks s q maxSize deadTasksCount) I := by
  apply Ensures.ite
  · exact fun _ => Ensures.ok hs
  · intro _
    apply Ensures.bind_any
    intro oldest
    exact foldTasks (fun t _ s hs => h.deleteTask hs .none) hs

theorem failTaskToDead (h : Upheld R W I) (hs : I s)
    (ht : ∀ dlq, dlqConfig = some dlq → W (t.die now dlq)) :
    Ensures True (failTaskToDead s t now dlqConfig) I := by
  cases dlqConfig with
  | none => exact h.deleteTask hs .none
  | some dlq =>
    apply Ensures.ite
    · exact fun _ => h.deleteTask hs .none
    · exact fun _ => (h.moveToDead hs (ht dlq rfl)).bind
        (fun s' hs' => h.evictExcessDeadTasks hs' _ _ _)

theorem rejoinThread (h : Upheld R W I) (hs : I s) (ht : W t) (oldScheduledAt : Time) :
    Ensures True (rejoinThread s t oldScheduledAt) I := by
  apply (h.reschedule s t oldScheduledAt hs ht).bind
  intro u hu
  unfold State.getThread
  cases hk : u.threads.get t.threadKey with
  | none => exact Ensures.error trivial
  | some thread => exact Ensures.ok (h.renew u t.threadKey thread 0 hu hk)

theorem failTaskToRetry (h : Upheld R W I) (hs : I s)
    (ht : ∀ interval, retryInterval t = .ok interval → W (t.retry now interval)) :
    Ensures True (failTaskToRetry s t now) I := by
  unfold Moab.failTaskToRetry
  cases hi : retryInterval t with
  | error err => exact Ensures.error trivial
  | ok interval =>
    have ht' := ht interval hi
    have hrow : I ((s.removeInProgress t).setTask (t.retry now interval)) :=
      h.row _ _ (h.removeInProgress s _ _ hs) ht'
    have hkept : I (((s.removeInProgress t).setTask (t.retry now interval)).addExpiration
        (t.retry now interval)) := h.addExpiration _ _ hrow ht'
    have hjoin : Ensures True (rejoinQueue (((s.removeInProgress t).setTask
        (t.retry now interval)).addExpiration (t.retry now interval)) (t.retry now interval)
          t.scheduledAt) I := by
      apply Ensures.ite
      · exact fun _ => Ensures.ok (h.addQueued _ _ hkept ht')
      · exact fun _ => h.rejoinThread hkept ht' _
    exact hjoin.bind (fun s' hs' => Ensures.ok (h.counters s' _ hs'))

theorem handleTaskFailure (h : Upheld R W I) (hs : I s)
    (hf : Failing R W now dlqConfig) (ht : R t) :
    Ensures True (handleTaskFailure s t now dlqConfig) I := by
  apply Ensures.ite
  · exact fun _ => h.deleteTask hs .expired
  · intro _
    apply Ensures.ite
    · exact fun _ => h.failTaskToDead hs (fun dlq hdlq => hf.die t dlq ht hdlq)
    · exact fun _ => h.failTaskToRetry hs (fun interval hi => hf.retry t interval ht hi)

end Lifecycle

section Calls

variable {q : QueueId}

theorem overwriteField (h : Upheld R W I) {e : EnqueueRequestEntry} (he : Amending W now e)
    {a : State × Task} (hs : I a.1) (ht : W a.2) (o : OverwriteOnDuplicate) :
    Ensures True (overwriteField (notBefore e.scheduledAt now) e.payload e.expiresAt a o)
      (fun b => I b.1 ∧ W b.2) := by
  cases o with
  | invalid => exact Ensures.ok ⟨hs, ht⟩
  | payload => exact Ensures.ok ⟨hs, he.payload _ ht⟩
  | expiresAt =>
    have hrow := he.expiresAt _ ht
    exact Ensures.ok ⟨h.addExpiration _ _ (h.removeExpiration a.1 _ hs) hrow, hrow⟩
  | scheduledAt =>
    have hrow := he.scheduledAt _ ht
    apply Ensures.ite
    · exact fun _ => Ensures.ok ⟨h.addQueued _ _ (h.removeQueued a.1 _ _ hs) hrow, hrow⟩
    · exact fun _ => (h.reschedule _ _ _ (h.row a.1 _ hs hrow) hrow).bind
        (fun s' hs' => Ensures.ok ⟨hs', hrow⟩)

theorem getTask (h : Upheld R W I) (hs : I s) (id : TaskId) : Ensures True (s.getTask id) R := by
  apply Ensures.of_eq
  · exact fun t ht => h.read s id t hs (State.getTask_eq_ok.mp ht)
  · exact fun _ _ => trivial

/-- Tasks that are read at once. -/
theorem getTasks (h : Upheld R W I) (hs : I s) (items : List IndexItem) :
    Ensures True (items.mapM (fun i => s.getTask (q.task i.taskId))) (fun ts => ∀ t ∈ ts, R t) := by
  apply Ensures.of_eq
  · intro ts hts t ht
    obtain ⟨i, _, hi⟩ := exists_of_mem_right (forall₂_of_mapM_ok hts) ht
    exact (h.getTask hs _).elim hi
  · exact fun _ _ => trivial

theorem overwriteDuplicate (h : Upheld R W I) {e : EnqueueRequestEntry} (he : Amending W now e)
    (hs : I s) (id : TaskId) :
    Ensures True (overwriteDuplicate s id e.overwriteOnDuplicate (notBefore e.scheduledAt now)
      e.payload e.expiresAt) (fun a => I a.1 ∧ ∀ t ∈ a.2, R t ∨ W t) := by
  apply Ensures.ite
  · exact fun _ => Ensures.ok ⟨hs, by simp⟩
  · intro _
    apply (h.getTask hs id).bind
    intro duplicate hduplicate
    apply Ensures.ite
    · intro state
      have hfold := Ensures.foldlM (fun _ a => I a.1 ∧ W a.2)
        (fun o _ a ha => h.overwriteField he ha.1 ha.2 o)
        e.overwriteOnDuplicate (s, duplicate) ⟨hs, h.waiting _ hduplicate state⟩
      exact hfold.bind (fun a ha => Ensures.ok ⟨h.row a.1 a.2 ha.1 ha.2, by simp [ha.2]⟩)
    · exact fun _ => Ensures.ok ⟨hs, by simp [hduplicate]⟩

/-- The task that an entry creates is the next one in the sequence. -/
theorem enqueueEntry (h : Upheld R W I) {e : EnqueueRequestEntry} (he : Amending W now e)
    {sequence : Nat} (hcreate : W (newTask q (sequence + 1) e now)) (hs : I s) :
    Ensures True (enqueueEntry q now s sequence e)
      (fun a => I a.1 ∧ ∀ t ∈ a.2.2, R t ∨ W t) := by
  unfold Moab.enqueueEntry
  cases duplicateOf s q e with
  | none =>
    exact (h.createTask hs hcreate).bind (fun s' hs' => Ensures.ok ⟨hs', by simp [hcreate]⟩)
  | some id => exact (h.overwriteDuplicate he hs id).bind (fun a ha => Ensures.ok ha)

theorem enqueueEntries (h : Upheld R W I) {es : List EnqueueRequestEntry}
    (hes : ∀ e ∈ es, Entering W now q e) (sequence : Nat) (hs : I s) :
    Ensures True (enqueueEntries q now s sequence es)
      (fun a => I a.1 ∧ ∀ t ∈ a.2.2, R t ∨ W t) := by
  induction es generalizing s sequence with
  | nil => exact Ensures.ok ⟨hs, by simp⟩
  | cons e es ih =>
    have he := hes e List.mem_cons_self
    apply (h.enqueueEntry he.toAmending (he.create _) hs).bind
    intro a ha
    apply (ih (fun e' he' => hes e' (List.mem_cons_of_mem _ he')) a.2.1 ha.1).bind
    intro b hb
    refine Ensures.ok ⟨hb.1, List.forall_mem_append.mpr ⟨?_, hb.2⟩⟩
    exact fun t ht => ha.2 t (Option.mem_toList.mp ht)

theorem enqueue (h : Upheld R W I) (hs : I s) {req : EnqueueRequest}
    (hreq : ∀ e ∈ req.entries, Entering W now req.queueId e)
    (hsequence : ∀ x n, I x →
      I (x.setQueueState req.queueId { s.getQueueState req.queueId with taskIdSequence := n })) :
    Ensures True (enqueue s now req)
      (fun a => I a.1 ∧ ∀ t ∈ (Response.enqueue a.2).tasks, R t ∨ W t) := by
  unfold Moab.enqueue
  cases checkQueueNotPurged s req.queueId with
  | some err => exact Ensures.ok ⟨hs, by simp [Response.tasks]⟩
  | none =>
    apply (h.enqueueEntries hreq _ hs).bind
    exact fun a ha => Ensures.ok ⟨hsequence a.1 _ ha.1, ha.2⟩

theorem dequeueInProgressTasksBeforeTime (h : Upheld R W I) (hs : I s)
    (hf : Failing R W now dlqConfig) (q : QueueId)
    (hvisit : ∀ x st, I x → Visits now (x.getQueueState q) st → I (x.setQueueState q st)) :
    Ensures True (dequeueInProgressTasksBeforeTime s q now dlqConfig) I := by
  apply (h.getTasks hs _).bind
  intro timedOutTasks htimedOut
  exact foldTasks (fun t ht s hs => h.handleTaskFailure hs hf (htimedOut t ht))
    (hvisit s _ hs ⟨rfl, Or.inl rfl⟩)

theorem scanQueue (h : Upheld R W I) (hs : I s) (limit : Time) (settings : Option DequeuingSettings)
    (items : List IndexItem) {a : Scan} (ha : ∀ t ∈ a.dequeuedTasks, R t) :
    Ensures True (scanQueue s q now limit settings a items) (fun b => (∀ t ∈ b.dequeuedTasks, R t) ∧
      (b.lastVisitedEnqueued = a.lastVisitedEnqueued ∨
        ∃ i ∈ items, b.lastVisitedEnqueued = i.time)) := by
  induction items generalizing a with
  | nil => exact Ensures.ok ⟨ha, Or.inl rfl⟩
  | cons i items ih =>
    apply Ensures.ite
    · exact fun _ => Ensures.ok ⟨ha, Or.inl rfl⟩
    · intro _
      apply (h.getTask hs _).bind
      intro t ht
      have hlast : (a.visit i t now).lastVisitedEnqueued = i.time := by
        unfold Scan.visit
        split_ifs <;> rfl
      have hread : ∀ u ∈ (a.visit i t now).dequeuedTasks, R u := by
        unfold Scan.visit
        split_ifs
        · exact ha
        · exact List.forall_mem_append.mpr ⟨ha, List.forall_mem_singleton.mpr ht⟩
      refine (ih hread).mono (fun b hb => ⟨hb.1, Or.inr ?_⟩)
      rcases hb.2 with hsame | ⟨j, hj, htime⟩
      · exact ⟨i, List.mem_cons_self, hsame.trans hlast⟩
      · exact ⟨j, List.mem_cons_of_mem _ hj, htime⟩

theorem dropExpired (h : Upheld R W I) (hs : I s) : I (dropExpired q s t) := by
  have hleft := h.removeExpiration _ t.expirationItem (h.removeQueued s q t.queueIndexItem hs)
  exact h.dedupeKeysIndex _ _ (h.erase _ t.id hleft)

theorem leaseTask (h : Upheld R W I) (hs : I s) {keepalive : Time}
    (ht : W (t.lease now keepalive)) : I (leaseTask q now keepalive s t) := by
  have hleft := h.removeExpiration _ t.expirationItem (h.removeQueued s q t.queueIndexItem hs)
  exact h.addInProgress _ q _ (h.row _ _ hleft ht) ht

theorem applyScan (h : Upheld R W I) {keepalive cursor : Time} {a : Scan}
    (hs : I (s.setQueueState q { s.getQueueState q with lastVisitedEnqueued := cursor }))
    (ha : ∀ t ∈ a.dequeuedTasks, W (t.lease now keepalive)) :
    I (applyScan s q now keepalive cursor a) := by
  have hdrop : ∀ (l : List Task) (s : State), I s → I (l.foldl (Moab.dropExpired q) s) := by
    intro l
    induction l with
    | nil => exact fun s hs => hs
    | cons t l ih => exact fun s hs => ih _ (h.dropExpired hs)
  have hlease : ∀ (l : List Task), (∀ t ∈ l, W (t.lease now keepalive)) → ∀ s, I s →
      I (l.foldl (Moab.leaseTask q now keepalive) s) := by
    intro l
    induction l with
    | nil => exact fun _ s hs => hs
    | cons t l ih =>
      intro hl s hs
      exact ih (fun u hu => hl u (List.mem_cons_of_mem _ hu)) _
        (h.leaseTask hs (hl t List.mem_cons_self))
  apply hlease _ ha
  apply hdrop
  exact h.counters _ _ hs

theorem dequeueTasksBeforeTime (h : Upheld R W I) (hs : I s) (q : QueueId) (limit : Time)
    (settings : Option DequeuingSettings) {keepalive : Time}
    (hlease : ∀ t, R t → W (t.lease now keepalive))
    (hvisit : ∀ x st, I x → Visits now (x.getQueueState q) st → I (x.setQueueState q st)) :
    Ensures True (dequeueTasksBeforeTime s q now limit settings keepalive)
      (fun a => I a.1 ∧ ∀ t ∈ a.2, W t) := by
  apply (h.scanQueue hs limit settings _ (by simp)).bind
  intro a ha
  have hleased : ∀ t ∈ a.dequeuedTasks, W (t.lease now keepalive) := fun t ht =>
    hlease t (ha.1 t ht)
  refine Ensures.ok ⟨h.applyScan (hvisit s _ hs ⟨rfl, ?_⟩) hleased, List.forall_mem_map.mpr hleased⟩
  dsimp only
  split_ifs
  · exact Or.inr (le_refl _)
  · refine ha.2.imp_right (fun hitem => ?_)
    obtain ⟨i, hi, htime⟩ := hitem
    rw [htime]
    exact (mem_listInRange.mp hi).2.2

theorem dequeue (h : Upheld R W I) (hs : I s) {req : DequeueRequest}
    (hf : Failing R W now req.deadLetterQueueConfig)
    (hlease : ∀ t, R t → W (t.lease now req.keepaliveTimeoutInSeconds))
    (hvisit : ∀ x st, I x → Visits now (x.getQueueState req.queueId) st →
      I (x.setQueueState req.queueId st))
    (hlimit : ∀ x limiter, I x →
      I { x with rateLimiters := x.rateLimiters.set req.queueId limiter }) :
    Ensures True (dequeue s now req)
      (fun a => I a.1 ∧ ∀ t ∈ (Response.dequeue a.2).tasks, W t) := by
  have hcharge : ∀ (s : State) limiter n, I s → I (chargeLimiter s req.queueId limiter n) := by
    intro s limiter n hs
    cases limiter with
    | none => exact hs
    | some st => exact hlimit s _ hs
  have htasks : Ensures True (dequeueTasks s now req) (fun a => I a.1 ∧ ∀ t ∈ a.2, W t) := by
    apply Ensures.bind_any
    intro limiter
    apply (h.dequeueInProgressTasksBeforeTime hs hf _ hvisit).bind
    intro s' hs'
    exact (h.dequeueTasksBeforeTime hs' _ _ _ hlease hvisit).bind
      (fun a ha => Ensures.ok ⟨hcharge _ _ _ ha.1, ha.2⟩)
  unfold Moab.dequeue
  cases checkQueueNotPurged s req.queueId with
  | some err => exact Ensures.ok ⟨hs, by simp [Response.tasks]⟩
  | none => exact htasks.bind (fun a ha => Ensures.ok ha)

theorem reportStatus (h : Upheld R W I) (hs : I s) (hf : Failing R W now dlqConfig)
    {status : ReportStatus} {keepalive : Time}
    (hrenew : status = .inProgress → ∀ t, R t → t.state = .inProgress →
      W { t with visibleAt := plusSeconds now keepalive }) (id : TaskId) (attempt : Int) :
    Ensures True (reportStatus s id now status attempt keepalive dlqConfig) (fun a => I a.1) := by
  unfold Moab.reportStatus
  cases hrow : s.tasks.get id with
  | none => exact Ensures.ok hs
  | some t =>
    have ht := h.read s id t hs hrow
    apply Ensures.ite
    · exact fun _ => Ensures.ok hs
    · intro state
      apply Ensures.ite
      · exact fun _ => Ensures.ok hs
      · intro _
        cases status with
        | invalid => exact Ensures.ok hs
        | succeeded => exact (h.deleteTask hs .succeeded).bind (fun s' hs' => Ensures.ok hs')
        | failed => exact (h.handleTaskFailure hs hf ht).bind (fun s' hs' => Ensures.ok hs')
        | inProgress =>
          exact (h.heartbeatTask hs (hrenew rfl t ht (not_not.mp state))).bind
            (fun s' hs' => Ensures.ok hs')

theorem reportEntries (h : Upheld R W I) (hf : Failing R W now dlqConfig)
    {es : List ReportStatusRequestEntry} (hes : ∀ e ∈ es, e.status = .inProgress → ∀ t, R t →
      t.state = .inProgress → W { t with visibleAt := plusSeconds now e.keepaliveTimeoutInSeconds })
    (hs : I s) :
    Ensures True (reportEntries now dlqConfig s es) (fun a => I a.1) := by
  induction es generalizing s with
  | nil => exact Ensures.ok hs
  | cons e es ih =>
    apply (h.reportStatus hs hf (hes e List.mem_cons_self) _ _).bind
    intro a ha
    exact (ih (fun e' he' => hes e' (List.mem_cons_of_mem _ he')) ha).bind
      (fun b hb => Ensures.ok hb)

theorem deleteTasks (h : Upheld R W I) (hs : I s) (req : DeleteTasksRequest) :
    Ensures True (deleteTasks s req) I := by
  apply Ensures.foldlM (fun _ s => I s) _ req.taskIds s hs
  intro n _ s hs
  unfold deleteTaskById
  cases s.tasks.get (req.queueId.task n) with
  | none => exact Ensures.ok hs
  | some t => exact h.deleteTask hs .none

theorem restartEntry (h : Upheld R W I) (hs : I s) {e : RestartTasksRequestEntry}
    (he : ∀ t, R t → W (t.restart now e.scheduledAt e.expiresAt)) :
    Ensures True (restartEntry q now s e) (fun a => I a.1 ∧ ∀ t ∈ a.2.task, W t) := by
  have hsame : ∀ result, Ensures True (Except.ok (s, ⟨e.taskId, result, none⟩) :
      Except CoreError (State × RestartTasksResponseEntry))
      (fun a => I a.1 ∧ ∀ t ∈ a.2.task, W t) :=
    fun result => Ensures.ok ⟨hs, by simp⟩
  unfold Moab.restartEntry
  cases hrow : s.tasks.get (q.task e.taskId) with
  | none => exact hsame _
  | some t =>
    have ht := he t (h.read s _ t hs hrow)
    have hgone : I (((s.removeDead t).removeExpiration t).updateCounter t.id.queue
        (·.addDead (-1))) :=
      h.counters _ _ (h.removeExpiration _ _ (h.removeDead s _ _ hs))
    have hcreate : Ensures True (restartTask s t now e.scheduledAt e.expiresAt)
        (fun a => I a.1 ∧ W a.2) :=
      (h.createTask hgone ht).bind (fun s' hs' => Ensures.ok ⟨hs', ht⟩)
    apply Ensures.ite
    · exact fun _ => hsame _
    · intro _
      apply Ensures.ite
      · exact fun _ => hsame _
      · intro _
        apply Ensures.ite
        · exact fun _ => hsame _
        · exact fun _ => hcreate.bind (fun a ha => Ensures.ok ⟨ha.1, by simp [ha.2]⟩)

theorem restartEntries (h : Upheld R W I) {es : List RestartTasksRequestEntry}
    (hes : ∀ e ∈ es, ∀ t, R t → W (t.restart now e.scheduledAt e.expiresAt)) (hs : I s) :
    Ensures True (restartEntries q now s es)
      (fun a => I a.1 ∧ ∀ r ∈ a.2, ∀ t ∈ r.task, W t) := by
  induction es generalizing s with
  | nil => exact Ensures.ok ⟨hs, by simp⟩
  | cons e es ih =>
    apply (h.restartEntry hs (hes e List.mem_cons_self)).bind
    intro a ha
    apply (ih (fun e' he' => hes e' (List.mem_cons_of_mem _ he')) ha.1).bind
    exact fun b hb => Ensures.ok ⟨hb.1, List.forall_mem_cons.mpr ⟨ha.2, hb.2⟩⟩

end Calls

section Collections

theorem sweepRef (h : Upheld R W I) (hs : I s) (ref : ExpirationItem) :
    Ensures True (sweepRef s ref) I := by
  unfold Moab.sweepRef
  cases s.tasks.get ref.taskId with
  | none => exact Ensures.ok (h.removeExpiration s ref hs)
  | some t => exact h.deleteTask hs .expired

theorem sweepRounds (h : Upheld R W I) (pageSize rounds remaining : Nat) (hs : I s) :
    Ensures True (sweepRounds now pageSize rounds remaining s) I := by
  induction rounds generalizing remaining s with
  | zero => exact Ensures.ok hs
  | succ rounds ih =>
    apply Ensures.ite
    · exact fun _ => Ensures.ok hs
    · intro _
      have hrefs := Ensures.foldlM (fun _ s => I s) (fun ref _ s hs => h.sweepRef hs ref)
        (listDue s now (min pageSize remaining)) s hs
      apply hrefs.bind
      intro s' hs'
      apply Ensures.ite
      · exact fun _ => Ensures.ok hs'
      · exact fun _ => ih _ hs'

theorem drainPage (h : Upheld R W I) (maxVisited visited : Nat) (ts : List Task) (hs : I s) :
    Ensures True (drainPage maxVisited s visited ts) (fun a => I a.1) := by
  induction ts generalizing s visited with
  | nil => exact Ensures.ok hs
  | cons t ts ih =>
    apply (h.deleteTask hs .none).bind
    intro s' hs'
    apply Ensures.ite
    · exact fun _ => Ensures.ok hs'
    · exact fun _ => ih (visited + 1) hs'

theorem drainRecord (h : Upheld R W I) (q : QueueId) (pageSize maxVisited pages visited : Nat)
    (hdrop : ∀ x, I x → I (dropQueue x q)) (hs : I s) :
    Ensures True (drainRecord pageSize maxVisited q pages s visited) (fun a => I a.1) := by
  induction pages generalizing s visited with
  | zero => exact Ensures.ok hs
  | succ pages ih =>
    apply (h.drainPage maxVisited visited _ hs).bind
    intro a ha
    apply Ensures.ite
    · exact fun _ => Ensures.ok ha
    · intro _
      apply Ensures.ite
      · exact fun _ => ih a.2.1 ha
      · exact fun _ => Ensures.ok (hdrop a.1 ha)

theorem drainRecords (h : Upheld R W I) (pageSize maxVisited visited : Nat) (qs : List QueueId)
    (hdrop : ∀ q ∈ qs, ∀ x, I x → I (dropQueue x q)) (hs : I s) :
    Ensures True (drainRecords pageSize maxVisited s visited qs) I := by
  induction qs generalizing s visited with
  | nil => exact Ensures.ok hs
  | cons q qs ih =>
    apply (h.drainRecord q pageSize maxVisited maxVisited visited
      (hdrop q List.mem_cons_self) hs).bind
    intro a ha
    apply Ensures.ite
    · exact fun _ => Ensures.ok ha
    · exact fun _ => ih a.2.1 (fun q hq => hdrop q (List.mem_cons_of_mem _ hq)) ha

end Collections

/-- Call rule: the property outlives a call whose rows may be written, and the tasks of the
response were read or may be written, as far as its own
changes of the queue states, the limiters and the purge markers keep it. -/
theorem exec (h : Upheld R W I) (hs : I s) {op : Op} (hw : op.Writes R W now)
    (hsequence : ∀ req x n, op = .enqueue req → I x →
      I (x.setQueueState req.queueId { s.getQueueState req.queueId with taskIdSequence := n }))
    (hvisit : ∀ req x st, op = .dequeue req → I x → Visits now (x.getQueueState req.queueId) st →
      I (x.setQueueState req.queueId st))
    (hlimit : ∀ req x limiter, op = .dequeue req → I x →
      I { x with rateLimiters := x.rateLimiters.set req.queueId limiter })
    (hpurge : ∀ q x, op = .purgeQueue q → I x → I (purgeQueue x q))
    (hdrop : ∀ req q x, op = .runPurgeQueueGarbageCollection req →
      s.purgeGCRecords.get q = some () → I x → I (dropQueue x q)) :
    Ensures True (exec s now op) (fun a => I a.1 ∧ ∀ t ∈ a.2.tasks, R t ∨ W t) := by
  have hsilent : ∀ t ∈ Response.done.tasks, R t ∨ W t := by simp [Response.tasks]
  cases op with
  | enqueue req => exact Ensures.map (h.enqueue hs hw (fun x n => hsequence req x n rfl))
  | dequeue req =>
    apply Ensures.map
    apply (h.dequeue hs hw.1 hw.2 (fun x st => hvisit req x st rfl)
      (fun x limiter => hlimit req x limiter rfl)).mono
    exact fun a ha => ⟨ha.1, fun t ht => Or.inr (ha.2 t ht)⟩
  | reportStatus req =>
    exact Ensures.map ((h.reportEntries hw.1 hw.2 hs).mono (fun a ha =>
      ⟨ha, by simp [Response.tasks]⟩))
  | deleteTasks req => exact Ensures.map ((h.deleteTasks hs req).mono (fun _ hs' => ⟨hs', hsilent⟩))
  | restartTasks req =>
    apply Ensures.map
    apply (h.restartEntries hw hs).mono
    intro a ha
    refine ⟨ha.1, fun t ht => Or.inr ?_⟩
    obtain ⟨r, hr, hrt⟩ := List.mem_filterMap.mp ht
    exact ha.2 r hr t hrt
  | purgeQueue q => exact Ensures.ok ⟨hpurge q s rfl hs, hsilent⟩
  | runTasksGarbageCollection req =>
    exact Ensures.map ((h.sweepRounds _ _ _ hs).mono (fun _ hs' => ⟨hs', hsilent⟩))
  | runPurgeQueueGarbageCollection req =>
    apply Ensures.map
    have hall := h.drainRecords (orDefault req.gcRecordTasksPageSize 250)
      (orDefault req.maxVisitedTasks 1000) 0 ((s.purgeGCRecords.entries.map Prod.fst).take
        (orDefault req.gcRecordsPageSize 100)) (fun q hq x hx => ?_) hs
    · exact hall.mono (fun _ hs' => ⟨hs', hsilent⟩)
    · obtain ⟨e, he, rfl⟩ := List.mem_map.mp (List.mem_of_mem_take hq)
      exact hdrop req e.1 x rfl (Table.mem_entries.mp he) hx

end Upheld

end Moab
