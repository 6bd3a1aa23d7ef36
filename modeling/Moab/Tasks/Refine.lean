import Moab.Framework.Ensures
import Moab.Tasks.Indexed

namespace Moab

open OrderedStore

variable [OrderedStore]

section Writes

variable (s : State) (t : Task)

@[simp] theorem rows_setTask :
    (s.setTask t).rows = { s.rows with tasks := s.rows.tasks.set t.id t } := rfl

@[simp] theorem rows_setThread (q : QueueId) (thread : Thread) :
    (s.setThread q thread).rows = s.rows := rfl

@[simp] theorem rows_setCounter (q : QueueId) (c : TasksCounter) :
    (s.setCounter q c).rows = { s.rows with counters := s.rows.counters.set q c } := rfl

@[simp] theorem rows_setQueueState (q : QueueId) (st : QueueState) :
    (s.setQueueState q st).rows = { s.rows with queueState := s.rows.queueState.set q st } := rfl

@[simp] theorem rows_claimDedupeKey : (s.claimDedupeKey t).rows =
    { s.rows with dedupeKeysIndex := Rows.claimed s.rows.dedupeKeysIndex t } := by
  unfold State.claimDedupeKey Rows.claimed
  split_ifs <;> rfl

@[simp] theorem rows_releaseDedupeKey : (s.releaseDedupeKey t).rows =
    { s.rows with dedupeKeysIndex := Rows.released s.rows.dedupeKeysIndex t } := by
  unfold State.releaseDedupeKey Rows.released
  split_ifs <;> rfl

@[simp] theorem rows_addExpiration : (s.addExpiration t).rows =
    { s.rows with expiration := s.rows.expiration.add () t.expirationItem } := rfl

@[simp] theorem rows_removeExpiration : (s.removeExpiration t).rows =
    { s.rows with expiration := s.rows.expiration.remove () t.expirationItem } := rfl

@[simp] theorem rows_addQueued : (s.addQueued t).rows = s.rows := rfl

@[simp] theorem rows_removeQueued : (s.removeQueued t).rows = s.rows := rfl

@[simp] theorem rows_addInProgress : (s.addInProgress t).rows = { s.rows with
    inProgressIndex := s.rows.inProgressIndex.add t.id.queue t.inProgressIndexItem } := rfl

@[simp] theorem rows_removeInProgress : (s.removeInProgress t).rows = { s.rows with
    inProgressIndex := s.rows.inProgressIndex.remove t.id.queue t.inProgressIndexItem } := rfl

@[simp] theorem rows_addDead : (s.addDead t).rows = { s.rows with
    deadTasksIndex := s.rows.deadTasksIndex.add t.id.queue t.deadTasksIndexItem } := rfl

@[simp] theorem rows_removeDead : (s.removeDead t).rows = { s.rows with
    deadTasksIndex := s.rows.deadTasksIndex.remove t.id.queue t.deadTasksIndexItem } := rfl

@[simp] theorem rows_deleteRow (id : TaskId) :
    (s.deleteRow id).rows = { s.rows with tasks := s.rows.tasks.delete id } := rfl

@[simp] theorem rows_updateCounter (q : QueueId) (f : TasksCounter → TasksCounter) :
    (s.updateCounter q f).rows =
      { s.rows with counters := s.rows.counters.set q (f (s.rows.counter q)) } := rfl

end Writes

section Threads

/-- Coordinating a thread never touches a row. -/
def KeepsRows (s s' : State) : Prop := s'.rows = s.rows

theorem rescheduleHead_rows (s : State) (q : QueueId) (thread : Thread)
    (currentHead earliest : Task) :
    KeepsRows s (rescheduleHead s q thread currentHead earliest) := by
  unfold KeepsRows rescheduleHead
  by_cases h : currentHead.state = .enqueued
  · simp only [h, if_true, rows_setThread]
    rfl
  · simp only [h, if_false, rows_setThread]

theorem reconcileThreadHead_rows (s : State) (q : QueueId) (thread : Thread) :
    Ensures True (reconcileThreadHead s q thread) (KeepsRows s) := by
  unfold reconcileThreadHead
  refine Ensures.bind_any (fun earliest => Ensures.bind_any (fun currentHead => ?_))
  cases earliest with
  | none => exact Ensures.error trivial
  | some earliest =>
    refine Ensures.ite (fun _ => Ensures.ite (fun _ => ?_) (fun _ => ?_))
      (fun _ => Ensures.ite (fun _ => ?_) (fun _ => ?_))
    · exact Ensures.ok rfl
    · exact Ensures.ok (rescheduleHead_rows s q thread currentHead earliest)
    · exact Ensures.ok rfl
    · exact Ensures.ok rfl

theorem promoteNextThreadHead_rows (s : State) (q : QueueId) (thread : Thread) :
    Ensures True (promoteNextThreadHead s q thread) (KeepsRows s) := by
  unfold promoteNextThreadHead
  refine Ensures.bind_any (fun nextHead => ?_)
  cases nextHead with
  | none | some nextHead => exact Ensures.ok rfl

theorem attachTaskToThread_rows (s : State) (t : Task) :
    Ensures True (attachTaskToThread s t) (KeepsRows s) := by
  unfold attachTaskToThread
  dsimp only
  cases s.threads.get t.threadKey with
  | none => exact Ensures.ok rfl
  | some thread => exact reconcileThreadHead_rows _ _ _

theorem detachTaskFromThread_rows (s : State) (t : Task) :
    Ensures True (detachTaskFromThread s t) (KeepsRows s) := by
  unfold detachTaskFromThread
  refine Ensures.bind_any (fun thread => Ensures.ite (fun _ => Ensures.ok rfl) (fun _ => ?_))
  exact promoteNextThreadHead_rows _ _ _

theorem rescheduleTaskInThread_rows (s : State) (t : Task) (oldScheduledAt : Time) :
    Ensures True (rescheduleTaskInThread s t oldScheduledAt) (KeepsRows s) := by
  unfold rescheduleTaskInThread
  refine Ensures.bind_any (fun thread => ?_)
  exact reconcileThreadHead_rows _ _ _

theorem joinQueue_rows (s : State) (t : Task) :
    Ensures (t.threadId ≠ []) (joinQueue s t) (KeepsRows s) := by
  unfold joinQueue
  refine Ensures.ite (fun _ => Ensures.ok rfl) (fun h => ?_)
  exact (attachTaskToThread_rows s t).weaken (fun _ => h)

theorem leaveThread_rows (s : State) (t : Task) :
    Ensures (t.threadId ≠ []) (leaveThread s t) (KeepsRows s) := by
  unfold leaveThread
  refine Ensures.ite (fun _ => Ensures.ok rfl) (fun h => ?_)
  exact (detachTaskFromThread_rows s t).weaken (fun _ => h)

theorem renewThread_rows (s : State) (t : Task) :
    Ensures (t.threadId ≠ []) (renewThread s t) (KeepsRows s) := by
  unfold renewThread
  refine Ensures.ite (fun _ => Ensures.ok rfl) (fun h => ?_)
  refine Ensures.weaken (Ensures.bind_any (fun thread => ?_)) (fun _ => h)
  exact Ensures.ite (fun _ => Ensures.error trivial) (fun _ => Ensures.ok rfl)

theorem rejoinThread_rows (s : State) (t : Task) (oldScheduledAt : Time) :
    Ensures True (rejoinThread s t oldScheduledAt) (KeepsRows s) := by
  unfold rejoinThread
  refine (rescheduleTaskInThread_rows s t oldScheduledAt).bind (fun s' hs => ?_)
  exact Ensures.bind_any (fun thread => Ensures.ok hs)

theorem rejoinQueue_rows (s : State) (t : Task) (oldScheduledAt : Time) :
    Ensures (t.threadId ≠ []) (rejoinQueue s t oldScheduledAt) (KeepsRows s) := by
  unfold rejoinQueue
  refine Ensures.ite (fun _ => Ensures.ok rfl) (fun h => ?_)
  exact (rejoinThread_rows s t oldScheduledAt).weaken (fun _ => h)

end Threads

section Lifecycle

theorem createTask_rows (s : State) (t : Task) :
    Ensures (t.threadId ≠ []) (createTask s t) (fun s' => s'.rows = s.rows.create t) := by
  unfold createTask
  refine (joinQueue_rows _ t).bind (fun s' hs => Ensures.ok ?_)
  unfold KeepsRows at hs
  simp only [rows_updateCounter, rows_addExpiration, hs, rows_claimDedupeKey, rows_setTask]
  rfl

theorem removeFromState_rows (s : State) (t : Task) (c : TasksCounter) :
    Ensures (t.threadId ≠ []) (removeFromState s t c) (fun a => a.2 = Rows.leave c t.state ∧
      a.1.rows = { s.rows with
        dedupeKeysIndex := if t.live then Rows.released s.rows.dedupeKeysIndex t
          else s.rows.dedupeKeysIndex
        inProgressIndex := if t.state = .inProgress
          then s.rows.inProgressIndex.remove t.id.queue t.inProgressIndexItem
          else s.rows.inProgressIndex
        deadTasksIndex := if t.state = .dead
          then s.rows.deadTasksIndex.remove t.id.queue t.deadTasksIndexItem
          else s.rows.deadTasksIndex }) := by
  unfold removeFromState
  cases hs : t.state with
  | invalid | dead => exact Ensures.ok ⟨rfl, by simp [Task.live, hs]⟩
  | enqueued | inProgress =>
    refine (leaveThread_rows _ t).bind (fun s' hk => Ensures.ok ⟨rfl, ?_⟩)
    unfold KeepsRows at hk
    simp [hk, Task.live, hs]

theorem deleteTask_rows (s : State) (t : Task) (reason : TaskDeletionReason) :
    Ensures (t.threadId ≠ []) (deleteTask s t reason)
      (fun s' => s'.rows = s.rows.delete t reason) := by
  unfold deleteTask
  refine (removeFromState_rows s t _).bind (fun a ha => Ensures.ok ?_)
  simp only [rows_setCounter, rows_deleteRow, rows_removeExpiration, ha.1, ha.2]
  rfl

theorem heartbeatTask_rows (s : State) (t : Task) (now keepalive : Time) :
    Ensures (t.threadId ≠ []) (heartbeatTask s t now keepalive)
      (fun s' => s'.rows = s.rows.renew t { t with visibleAt := plusSeconds now keepalive }) := by
  unfold heartbeatTask
  refine (renewThread_rows _ _).bind (fun s' hs => Ensures.ok ?_)
  unfold KeepsRows at hs
  simp only [rows_addInProgress, hs, rows_setTask, rows_removeInProgress]
  rfl

theorem moveToDead_rows (s : State) (t : Task) (now : Time) (dlq : DeadLetterQueueConfig) :
    Ensures (t.threadId ≠ []) (moveToDead s t now dlq)
      (fun s' => s'.rows = s.rows.die t (t.die now dlq)) := by
  unfold moveToDead
  refine (leaveThread_rows _ (t.die now dlq)).bind (fun s' hs => Ensures.ok ?_)
  unfold KeepsRows at hs
  simp only [rows_updateCounter, rows_addDead, hs, rows_releaseDedupeKey, rows_addExpiration,
    rows_setTask, rows_removeInProgress]
  rfl

omit [OrderedStore] in
/-- A delivery that was counted and leaves retries has an interval. -/
theorem retryInterval_returns {t : Task} (he : t.exhausted = false) (ha : 1 ≤ t.attempts) :
    ∃ interval, retryInterval t = .ok interval := by
  unfold Task.exhausted at he
  unfold retryInterval
  cases hr : t.retryStrategy with
  | none => simp [hr] at he
  | some strategy =>
    simp only [hr, gt_iff_lt, decide_eq_false_iff_not, not_lt] at he
    have hlt : (t.attempts - 1).toNat < strategy.retryIntervalsInSeconds.length := by omega
    refine ⟨strategy.retryIntervalsInSeconds.get ⟨_, hlt⟩, ?_⟩
    dsimp only
    rw [if_neg (by omega), List.getElem?_eq_getElem hlt]
    rfl

omit [OrderedStore] in
theorem retryInterval_counted {t : Task} {interval : Time} (h : retryInterval t = .ok interval) :
    1 ≤ t.attempts := by
  unfold retryInterval at h
  cases hr : t.retryStrategy with
  | none => simp [hr] at h
  | some strategy =>
    by_contra ha
    simp [hr, Int.not_le.mp ha] at h

theorem failTaskToRetry_rows (s : State) (t : Task) (now : Time) (he : t.exhausted = false) :
    Ensures (t.threadId ≠ [] ∨ t.attempts < 1) (failTaskToRetry s t now)
      (fun s' => ∃ interval, retryInterval t = .ok interval ∧
        s'.rows = s.rows.retry t (t.retry now interval)) := by
  unfold failTaskToRetry
  refine Ensures.bind (P := fun i => retryInterval t = .ok i) ?_ ?_
  · refine Ensures.of_eq (fun i hi => hi) (fun e hi => ?_)
    by_contra hcalm
    obtain ⟨interval, hint⟩ := retryInterval_returns he (Int.not_lt.mp (not_or.mp hcalm).2)
    exact absurd (hi.symm.trans hint) (by simp)
  · intro interval hint
    refine ((rejoinQueue_rows _ _ _).weaken Or.inl).bind
      (fun s' hs => Ensures.ok ⟨interval, hint, ?_⟩)
    unfold KeepsRows at hs
    simp only [rows_updateCounter, hs, rows_addExpiration, rows_setTask, rows_removeInProgress]
    rfl

end Lifecycle

end Moab
