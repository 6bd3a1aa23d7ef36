import Moab.Tasks.KeyOrder
import Moab.Tasks.Pace
import Moab.Tasks.Upkeep

namespace Moab

open OrderedStore

section Sums

/-- Neither the product nor the sum of t + seconds * time.Second wraps around. -/
structure SumFits (t seconds : Time) : Prop where
  product : Fits (seconds.toInt * 1000000000)
  sum : Fits (t.toInt + seconds.toInt * 1000000000)

/-- A duration of up to two weeks, the longest that validation lets through. -/
def Period (seconds : Time) : Prop := 0 ≤ seconds.toInt ∧ seconds.toInt ≤ 1209600

/-- A clock reading in [0, 2^62). -/
def Present (now : Time) : Prop := 0 ≤ now.toInt ∧ now.toInt < 2 ^ 62

instance (seconds : Time) : Decidable (Period seconds) := inferInstanceAs (Decidable (_ ∧ _))

instance (now : Time) : Decidable (Present now) := inferInstanceAs (Decidable (_ ∧ _))

variable {t now seconds : Time}

theorem Time.nonneg_iff : 0 ≤ t ↔ 0 ≤ t.toInt := Int64.le_iff_toInt_le

/-- A period after a time that is itself no more than a period ahead of the clock. -/
theorem Period.sumFits (h : Period seconds) (ht : 0 ≤ t.toInt)
    (hlt : t.toInt < 2 ^ 62 + 1209600 * 1000000000) : SumFits t seconds := by
  obtain ⟨hmin, hmax⟩ := h
  exact ⟨⟨by omega, by omega⟩, ⟨by omega, by omega⟩⟩

theorem Present.sumFits (h : Present now) (hp : Period seconds) : SumFits now seconds :=
  hp.sumFits h.1 (by have := h.2; omega)

theorem Present.toInt_plusSeconds (h : Present now) (hp : Period seconds) :
    (plusSeconds now seconds).toInt = now.toInt + seconds.toInt * 1000000000 :=
  Moab.toInt_plusSeconds (h.sumFits hp).sum

theorem Present.plusSeconds_nonneg (h : Present now) (hp : Period seconds) :
    0 ≤ plusSeconds now seconds := by
  rw [Time.nonneg_iff, h.toInt_plusSeconds hp]
  have hnow := h.1
  have hseconds := hp.1
  omega

theorem Present.notBefore_nonneg (h : Present now) (scheduledAt : Time) :
    0 ≤ notBefore scheduledAt now :=
  Int64.le_trans (Time.nonneg_iff.mpr h.1) (le_notBefore scheduledAt now)

theorem period_of_retryInterval (h0 : 0 ≤ seconds) (hmax : seconds ≤ maxRetryIntervalInSeconds) :
    Period seconds := by
  have hbound : maxRetryIntervalInSeconds.toInt = 900 := by decide
  rw [Time.nonneg_iff] at h0
  rw [Int64.le_iff_toInt_le, hbound] at hmax
  exact ⟨h0, by omega⟩

end Sums

section Rows

/-- What holds of the times of a row that are filed in an index, and of its retry strategy. -/
structure Task.Dated (F : Time → Prop) (G : RetryStrategy → Prop) (t : Task) : Prop where
  scheduledAt : F t.scheduledAt
  visibleAt : F t.visibleAt
  lastFailedAt : F t.lastFailedAt
  expiresAt : F t.expiresAt
  retryStrategy : ∀ strategy, t.retryStrategy = some strategy → G strategy

/-- The times of a row that are filed in an index are not before the epoch, and its retry
intervals pass validation. -/
abbrev Task.Timely : Task → Prop := Task.Dated (0 ≤ ·) RetryStrategy.valid

/-- The seconds that a failed delivery may add to now: the retention period of a task that
dies, or an interval of a retry strategy. -/
def FailureAdds (G : RetryStrategy → Prop) (dlqConfig : Option DeadLetterQueueConfig)
    (seconds : Time) : Prop :=
  (∃ dlq ∈ dlqConfig, seconds = dlq.retentionPeriodInSeconds) ∨
    ∃ strategy, G strategy ∧ seconds ∈ strategy.retryIntervalsInSeconds

/-- The seconds that a call may add to now for a time it stores: dequeueTasksBeforeTime and
heartbeatTask add a lease, failTaskToDead and failTaskToRetry what a failure adds. -/
def Op.Adds (G : RetryStrategy → Prop) : Op → Time → Prop
  | .dequeue req, seconds =>
      seconds = req.keepaliveTimeoutInSeconds ∨ FailureAdds G req.deadLetterQueueConfig seconds
  | .reportStatus req, seconds => (∃ e ∈ req.entries, seconds = e.keepaliveTimeoutInSeconds) ∨
      FailureAdds G req.deadLetterQueueConfig seconds
  | _, _ => False

/-- The times and the retry strategies that a call brings in. -/
def Op.Brings (F : Time → Prop) (G : RetryStrategy → Prop) (now : Time) : Op → Prop
  | .enqueue req => ∀ e ∈ req.entries, F (notBefore e.scheduledAt now) ∧ F e.expiresAt ∧
      ∀ strategy ∈ e.retryStrategy, G strategy
  | .restartTasks req => ∀ e ∈ req.entries, F (notBefore e.scheduledAt now) ∧ F e.expiresAt
  | _ => True

variable {now : Time} {F : Time → Prop} {G : RetryStrategy → Prop}

theorem Task.Dated.failing (hzero : F 0) (hnow : F now) {dlqConfig : Option DeadLetterQueueConfig}
    (hsums : ∀ seconds, FailureAdds G dlqConfig seconds → F (plusSeconds now seconds)) :
    Failing (Task.Dated F G) (Task.Dated F G) now dlqConfig where
  die t dlq ht hconfig :=
    { ht with lastFailedAt := hnow, expiresAt := hsums _ (Or.inl ⟨dlq, hconfig, rfl⟩) }
  retry t interval ht hi := by
    obtain ⟨strategy, hstrategy, hmem⟩ := retryInterval_mem hi
    have hsum := hsums interval (Or.inr ⟨strategy, ht.retryStrategy strategy hstrategy, hmem⟩)
    exact { ht with scheduledAt := hsum, visibleAt := hzero, lastFailedAt := hnow }

/-- The times that a call writes were there, are 0 or now, come with the call or are one of
its sums. -/
theorem Op.Brings.writes {op : Op} (h : op.Brings F G now) (hzero : F 0) (hnow : F now)
    (hsums : ∀ seconds, op.Adds G seconds → F (plusSeconds now seconds)) :
    op.Writes (Task.Dated F G) (Task.Dated F G) now := by
  cases op with
  | enqueue req =>
    intro e he
    obtain ⟨hscheduled, hexpires, hretry⟩ := h e he
    exact {
      create := fun n => ⟨hscheduled, hzero, hzero, hexpires, hretry⟩
      payload := fun t ht => { ht with }
      scheduledAt := fun t ht => { ht with scheduledAt := hscheduled }
      expiresAt := fun t ht => { ht with expiresAt := hexpires } }
  | dequeue req =>
    refine ⟨Task.Dated.failing hzero hnow (fun _ hf => hsums _ (Or.inr hf)), fun t ht => ?_⟩
    exact { ht with visibleAt := hsums _ (Or.inl rfl) }
  | reportStatus req =>
    refine ⟨Task.Dated.failing hzero hnow (fun _ hf => hsums _ (Or.inr hf)),
      fun e he _ t ht _ => ?_⟩
    exact { ht with visibleAt := hsums _ (Or.inl ⟨e, he, rfl⟩) }
  | restartTasks req =>
    intro e he t ht
    obtain ⟨hscheduled, hexpires⟩ := h e he
    exact ⟨hscheduled, hzero, hzero, hexpires, ht.retryStrategy⟩
  | _ => trivial

/-- The times and durations that a call brings in pass validation. -/
def Op.Bounded : Op → Prop
  | .enqueue req =>
    ∀ e ∈ req.entries, 0 ≤ e.expiresAt ∧ ∀ strategy ∈ e.retryStrategy, strategy.valid
  | .dequeue req => Period req.keepaliveTimeoutInSeconds ∧
      ∀ dlq ∈ req.deadLetterQueueConfig, Period dlq.retentionPeriodInSeconds
  | .reportStatus req => (∀ e ∈ req.entries, Period e.keepaliveTimeoutInSeconds) ∧
      ∀ dlq ∈ req.deadLetterQueueConfig, Period dlq.retentionPeriodInSeconds
  | .restartTasks req => ∀ e ∈ req.entries, 0 ≤ e.expiresAt
  | _ => True

theorem Op.Bounded.adds {op : Op} {seconds : Time} (h : op.Bounded)
    (hG : ∀ strategy, G strategy → strategy.valid) (hadds : op.Adds G seconds) :
      Period seconds := by
  have hfailure : ∀ {dlqConfig : Option DeadLetterQueueConfig},
      (∀ dlq ∈ dlqConfig, Period dlq.retentionPeriodInSeconds) → FailureAdds G dlqConfig seconds →
      Period seconds := by
    rintro dlqConfig hdlq (⟨dlq, hmem, rfl⟩ | ⟨strategy, hstrategy, hmem⟩)
    · exact hdlq dlq hmem
    · obtain ⟨h0, hmax⟩ := hG strategy hstrategy seconds hmem
      exact period_of_retryInterval h0 hmax
  cases op with
  | dequeue req =>
    rcases hadds with rfl | hf
    · exact h.1
    · exact hfailure h.2 hf
  | reportStatus req =>
    rcases hadds with ⟨e, he, rfl⟩ | hf
    · exact h.1 e he
    · exact hfailure h.2 hf
  | _ => exact hadds.elim

/-- Whatever timely rows a bounded call reads, it writes timely ones. -/
theorem Op.Bounded.writes {op : Op} (h : op.Bounded) (hnow : Present now) :
    op.Writes Task.Timely Task.Timely now := by
  have hbrings : op.Brings (0 ≤ ·) RetryStrategy.valid now := by
    cases op with
    | enqueue req | restartTasks req => exact fun e he => ⟨hnow.notBefore_nonneg _, h e he⟩
    | _ => trivial
  exact hbrings.writes (Int64.le_refl 0) (Time.nonneg_iff.mpr hnow.1)
    (fun _ hadds => hnow.plusSeconds_nonneg (h.adds (fun _ hv => hv) hadds))

end Rows

variable [OrderedStore]

/-- No row and no index has a time before the epoch. -/
structure Timely (s : State) : Prop where
  row : ∀ id t, s.tasks.get id = some t → t.Timely
  queued : s.queueIndex.All (fun i => 0 ≤ i.time)
  inProgress : s.inProgressIndex.All (fun i => 0 ≤ i.time)
  dead : s.deadTasksIndex.All (fun i => 0 ≤ i.time)
  member : s.threadedTasksIndex.All (fun i => 0 ≤ i.time)
  expiration : s.expiration.All (fun i => 0 ≤ i.expiresAt)

namespace Timely

variable {s : State} {t : Task} {q : QueueId} {thread : Thread}

theorem empty : Timely State.empty where
  row _ _ ht := by simp [State.empty] at ht
  queued := Index.all_empty
  inProgress := Index.all_empty
  dead := Index.all_empty
  member := Index.all_empty
  expiration := Index.all_empty

section Threads

theorem firstMember (h : Timely s) (err : Bytes → Nat → CoreError) :
    Ensures True (firstMember s q thread err) (fun o => ∀ t, o = some t → t.Timely) := by
  unfold Moab.firstMember
  split
  · exact Ensures.ok (by simp)
  · split
    · next t ht =>
      apply Ensures.ok
      intro u hu
      rw [← Option.some.inj hu]
      exact h.row _ t ht
    · exact Ensures.error trivial

theorem addMember (h : Timely s) (ht : t.Timely) (k : ThreadKey) :
    Timely { s with threadedTasksIndex := s.threadedTasksIndex.add k t.queueIndexItem } :=
  { h with member := h.member.add ht.scheduledAt }

theorem removeMember (h : Timely s) (k : ThreadKey) (i : IndexItem) :
    Timely { s with threadedTasksIndex := s.threadedTasksIndex.remove k i } :=
  { h with member := h.member.remove }

theorem setThread (h : Timely s) : Timely (s.setThread q thread) := { h with }

theorem rescheduleHead (h : Timely s) (ht : t.Timely) (currentHead : Task) :
    Timely (rescheduleHead s q thread currentHead t) := by
  unfold Moab.rescheduleHead
  split_ifs
  · exact { h with queued := h.queued.remove.add ht.scheduledAt }
  · exact h.setThread

theorem replaceHead (h : Timely s) (ht : t.Timely) (currentHead : Task) :
    Timely (replaceHead s q thread currentHead t) :=
  { h with queued := h.queued.remove.add ht.scheduledAt }

theorem reconcileThreadHead (h : Timely s) :
    Ensures True (reconcileThreadHead s q thread) Timely := by
  apply (h.firstMember .getEarliest).bind
  intro earliest hfirst
  apply Ensures.bind_any
  intro currentHead
  cases earliest with
  | none => exact Ensures.error trivial
  | some earliest =>
    have hearliest := hfirst earliest rfl
    apply Ensures.ite
    · intro _
      apply Ensures.ite
      · exact fun _ => Ensures.ok h
      · exact fun _ => Ensures.ok (h.rescheduleHead hearliest currentHead)
    · intro _
      apply Ensures.ite
      · exact fun _ => Ensures.ok h
      · exact fun _ => Ensures.ok (h.replaceHead hearliest currentHead)

theorem promoteNextThreadHead (h : Timely s) :
    Ensures True (promoteNextThreadHead s q thread) Timely := by
  apply (h.firstMember .getNextHead).bind
  intro nextHead hfirst
  cases nextHead with
  | none =>
    apply Ensures.ok
    exact { h with }
  | some nextHead =>
    apply Ensures.ok
    exact { h with queued := h.queued.add (hfirst nextHead rfl).scheduledAt }

theorem attachTaskToThread (h : Timely s) (ht : t.Timely) :
    Ensures True (attachTaskToThread s t) Timely := by
  have hadd := h.addMember ht t.threadKey
  unfold Moab.attachTaskToThread
  dsimp only
  split
  · apply Ensures.ok
    exact { hadd with queued := hadd.queued.add ht.scheduledAt }
  · exact hadd.reconcileThreadHead

theorem detachTaskFromThread (h : Timely s) : Ensures True (detachTaskFromThread s t) Timely := by
  have hleft := h.removeMember t.threadKey t.queueIndexItem
  apply Ensures.bind_any
  intro thread
  apply Ensures.ite
  · exact fun _ => Ensures.ok hleft
  · exact fun _ => hleft.promoteNextThreadHead

theorem rescheduleTaskInThread (h : Timely s) (ht : t.Timely) (oldScheduledAt : Time) :
    Ensures True (rescheduleTaskInThread s t oldScheduledAt) Timely := by
  have hmoved := (h.removeMember t.threadKey ⟨oldScheduledAt, t.id.taskId⟩).addMember ht t.threadKey
  apply Ensures.bind_any
  intro thread
  exact hmoved.reconcileThreadHead

end Threads

theorem upheld : Upheld Task.Timely Task.Timely Timely where
  read _ _ _ h ht := h.row _ _ ht
  waiting _ h _ := h
  row _ _ h ht := { h with row := rows_set h.row ht }
  erase _ _ h := { h with row := rows_delete h.row }
  attach _ _ h ht := h.attachTaskToThread ht
  detach _ _ h := h.detachTaskFromThread
  reschedule _ _ old h ht := h.rescheduleTaskInThread ht old
  renew _ _ _ _ h _ := h.setThread
  addQueued _ _ h ht := { h with queued := h.queued.add ht.scheduledAt }
  addInProgress _ _ _ h ht := { h with inProgress := h.inProgress.add ht.visibleAt }
  addDead _ _ h ht := { h with dead := h.dead.add ht.lastFailedAt }
  addExpiration _ _ h ht := { h with expiration := h.expiration.add ht.expiresAt }
  removeQueued _ _ _ h := { h with queued := h.queued.remove }
  removeInProgress _ _ _ h := { h with inProgress := h.inProgress.remove }
  removeDead _ _ _ h := { h with dead := h.dead.remove }
  removeExpiration _ _ h := { h with expiration := h.expiration.remove }
  dedupeKeysIndex _ _ h := { h with }
  counters _ _ h := { h with }

theorem commit {now : Time} {op : Op} (h : Timely s) (hop : op.Bounded) (hnow : Present now) :
    Timely (commit s now op) := by
  apply commit_keeps h
  have hexec := upheld.exec h (hop.writes hnow) (fun _ _ _ _ hx => { hx with })
    (fun _ _ _ _ hx _ => { hx with }) (fun _ _ _ _ hx => { hx with }) (fun _ _ _ hx => { hx with })
    (fun _ _ _ _ _ hx => { hx with })
  exact hexec.mono (fun _ ha => ha.1)

theorem run {calls : List Call} (h : Timely s)
    (hcalls : ∀ c ∈ calls, c.op.Bounded ∧ Present c.now) : Timely (run s calls) :=
  run_keeps (I := Timely) (P := fun _ c => c.op.Bounded ∧ Present c.now)
    (fun _ _ hs hc => hs.commit hc.1 hc.2) calls s (Along.of_mem hcalls) h

end Timely

section Sources

def Task.times (t : Task) : List Time := [t.scheduledAt, t.visibleAt, t.lastFailedAt, t.expiresAt]

/-- The times that a call brings in. -/
def Op.Gives : Op → Time → Prop
  | .enqueue req, time => ∃ e ∈ req.entries, time = e.scheduledAt ∨ time = e.expiresAt
  | .restartTasks req, time => ∃ e ∈ req.entries, time = e.scheduledAt ∨ time = e.expiresAt
  | _, _ => False

/-- The retry strategies of the rows. -/
def State.strategies (s : State) (strategy : RetryStrategy) : Prop :=
  ∃ id t, s.tasks.get id = some t ∧ t.retryStrategy = some strategy

/-- Where a time comes from that a call leaves in a row: a row had it before, it is 0 or now,
the call brings it in, or it is the exact sum of now and the seconds that the call adds. -/
def Op.Dates (s : State) (now : Time) (op : Op) (time : Time) : Prop :=
  (∃ id t, s.tasks.get id = some t ∧ time ∈ t.times) ∨ time = 0 ∨ time = now ∨ op.Gives time ∨
    ∃ seconds, op.Adds s.strategies seconds ∧
      time.toInt = now.toInt + seconds.toInt * 1000000000

variable {s : State} {now : Time} {op : Op}

theorem Timely.adds {seconds : Time} (h : Timely s) (hop : op.Bounded)
    (hadds : op.Adds s.strategies seconds) : Period seconds := by
  refine hop.adds ?_ hadds
  rintro strategy ⟨id, t, ht, hstrategy⟩
  exact (h.row id t ht).retryStrategy strategy hstrategy

omit [OrderedStore] in
theorem Task.dated_iff {F : Time → Prop} {G : RetryStrategy → Prop} {t : Task} : t.Dated F G ↔
    (∀ time ∈ t.times, F time) ∧ ∀ strategy, t.retryStrategy = some strategy → G strategy := by
  simp only [Task.times, List.forall_mem_cons, List.not_mem_nil, false_imp_iff, implies_true,
    and_true]
  constructor
  · exact fun h => ⟨⟨h.scheduledAt, h.visibleAt, h.lastFailedAt, h.expiresAt⟩, h.retryStrategy⟩
  · rintro ⟨⟨hscheduled, hvisible, hfailed, hexpires⟩, hretry⟩
    exact ⟨hscheduled, hvisible, hfailed, hexpires, hretry⟩

theorem Timely.dates (h : Timely s) (hop : op.Bounded) (hnow : Present now) {id : TaskId} {t : Task}
    (ht : (Moab.commit s now op).tasks.get id = some t) :
      ∀ time ∈ t.times, op.Dates s now time := by
  -- an Enqueue brings in strategies, but no delivery fails in it
  obtain ⟨G, hstored, hnew, hadds⟩ : ∃ G : RetryStrategy → Prop, (∀ x, s.strategies x → G x) ∧
      (∀ req, op = .enqueue req → ∀ x, G x) ∧
      ∀ seconds, op.Adds G seconds → op.Adds s.strategies seconds := by
    cases op with
    | enqueue req => exact ⟨fun _ => True, fun _ _ => trivial, fun _ _ _ => trivial, fun _ ha => ha⟩
    | _ => exact ⟨s.strategies, fun _ hx => hx, nofun, fun _ ha => ha⟩
  have hrow : ∀ id t, s.tasks.get id = some t → t.Dated (op.Dates s now) G := fun id t ht =>
    Task.dated_iff.mpr ⟨fun _ hm => Or.inl ⟨id, t, ht, hm⟩, fun x hx => hstored x ⟨id, t, ht, hx⟩⟩
  have hclock : op.Dates s now now := Or.inr (Or.inr (Or.inl rfl))
  have hgiven : ∀ time, op.Gives time → op.Dates s now time :=
    fun _ hg => Or.inr (Or.inr (Or.inr (Or.inl hg)))
  have hlater : ∀ time, op.Gives time → op.Dates s now (notBefore time now) := by
    intro time hg
    unfold notBefore
    split_ifs
    · exact hclock
    · exact hgiven time hg
  have hbrings : op.Brings (op.Dates s now) G now := by
    cases op with
    | enqueue req => exact fun e he =>
      ⟨hlater _ ⟨e, he, Or.inl rfl⟩, hgiven _ ⟨e, he, Or.inr rfl⟩, fun x _ => hnew req rfl x⟩
    | restartTasks req => exact fun e he =>
      ⟨hlater _ ⟨e, he, Or.inl rfl⟩, hgiven _ ⟨e, he, Or.inr rfl⟩⟩
    | _ => trivial
  have hsums : ∀ seconds, op.Adds G seconds → op.Dates s now (plusSeconds now seconds) :=
    fun seconds ha => Or.inr (Or.inr (Or.inr (Or.inr ⟨seconds, hadds _ ha,
      hnow.toInt_plusSeconds (h.adds hop (hadds _ ha))⟩)))
  have hwrites := hbrings.writes (Or.inr (Or.inl rfl)) hclock hsums
  have hdated := commit_keeps (I := fun s' => ∀ id t, s'.tasks.get id = some t →
    t.Dated (op.Dates s now) G) hrow (exec_rows hrow hwrites)
  exact (Task.dated_iff.mp (hdated id t ht)).1

end Sources

section Orders

/-- The stored keys of an index that are compared come in the order of their times, and
those of one time in the order of their ids. -/
def InTimeOrder (items : List IndexItem) : Prop :=
  ∀ i ∈ items, ∀ j ∈ items, i.taskId < 2 ^ 64 → j.taskId < 2 ^ 64 →
    (i.bytes < j.bytes ↔ i.time < j.time ∨ i.time = j.time ∧ i.taskId < j.taskId)

/-- The same for the expiration index, whose items name their tasks in full. -/
def ExpiresInOrder (items : List ExpirationItem) : Prop :=
  ∀ i ∈ items, ∀ j ∈ items, i.taskId.IsUInt64 → j.taskId.IsUInt64 →
    (i.bytes < j.bytes ↔ i.expiresAt < j.expiresAt ∨ i.expiresAt = j.expiresAt ∧
      i.taskId < j.taskId)

omit [OrderedStore] in
theorem inTimeOrder_of_nonneg {items : List IndexItem} (h : ∀ i ∈ items, 0 ≤ i.time) :
    InTimeOrder items := by
  intro i hi j hj hid hjd
  rw [IndexItem.bytes_lt_iff hid hjd, IndexItem.lt_iff (h i hi) (h j hj)]

omit [OrderedStore] in
theorem expiresInOrder_of_nonneg {items : List ExpirationItem} (h : ∀ i ∈ items, 0 ≤ i.expiresAt) :
    ExpiresInOrder items := by
  intro i hi j hj hid hjd
  rw [ExpirationItem.bytes_lt_iff hid hjd, ExpirationItem.lt_iff (h i hi) (h j hj)]

/-- The key order of every index is its time order. -/
structure TimeOrdered (s : State) : Prop where
  queued : ∀ q, InTimeOrder (s.queueIndex.items q)
  inProgress : ∀ q, InTimeOrder (s.inProgressIndex.items q)
  dead : ∀ q, InTimeOrder (s.deadTasksIndex.items q)
  member : ∀ k, InTimeOrder (s.threadedTasksIndex.items k)
  expiration : ExpiresInOrder (s.expiration.items ())

theorem Timely.timeOrdered {s : State} (h : Timely s) : TimeOrdered s where
  queued q := inTimeOrder_of_nonneg (h.queued q)
  inProgress q := inTimeOrder_of_nonneg (h.inProgress q)
  dead q := inTimeOrder_of_nonneg (h.dead q)
  member k := inTimeOrder_of_nonneg (h.member k)
  expiration := expiresInOrder_of_nonneg (h.expiration ())

end Orders

end Moab
