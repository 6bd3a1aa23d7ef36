import Moab.Tasks.Exclusion
import Moab.Tasks.StrandSteps

namespace Moab

open OrderedStore

section Store

variable [OrderedStore]

/-- A thread with a live task has a record. -/
def RecordsExact (s : State) : Prop :=
  ∀ id t, s.tasks.get id = some t → t.live → t.threadId ≠ [] → s.threads.get t.threadKey ≠ none

instance (s : State) : Decidable (RecordsExact s) :=
  decidable_of_iff (∀ e ∈ s.tasks.entries, e.2.live → e.2.threadId ≠ [] →
      s.threads.get e.2.threadKey ≠ none)
    ⟨fun h id t ht => h (id, t) (Table.mem_entries.mpr ht),
      fun h e he => h e.1 e.2 (Table.mem_entries.mp he)⟩

/-- The threads agree with the rows, the order of their members apart. -/
structure Woven (s : State) : Prop where
  heads : Heads WellFormed.anyScope s
  whole : ∀ k, k.threadId ≠ [] → (s.strand k).Whole

/-- The threads and the indexes agree with the rows. -/
structure Coherent (s : State) : Prop extends Woven s where
  indexed : Indexed True s.rows

/-- The state is coherent again, and its threads are kept. -/
structure Kept (s s' : State) : Prop where
  coherent : Coherent s'
  tended : Tended s s'

variable {s s' s'' : State} {t : Task} {k : ThreadKey} {now : Time}

section Coherence

/-- The row of the head that a record of a well-formed state names. -/
theorem ThreadsExact.head {thread : Thread} (h : ThreadsExact s)
    (hk : s.threads.get k = some thread) :
    ∃ t, s.liveRow k thread.headTaskId.taskId = some t ∧
      s.tasks.get thread.headTaskId = some t := by
  obtain ⟨_, hq, t, ht, hlive, _, hth, _⟩ := h k thread hk
  refine ⟨t, liveRow_eq_some.mpr ⟨?_, hlive, hth⟩, ht⟩
  rw [← hq, TaskId.queue_task]
  exact ht

/-- A thread of a well-formed state is whole, if its members imply a record. -/
theorem WellFormed.whole (h : WellFormed s) (hk : k.threadId ≠ [])
    (hr : ∀ n t, s.liveRow k n = some t → s.threads.get k ≠ none) : (s.strand k).Whole := by
  refine ⟨?_, ⟨?_, ?_⟩, ?_, ?_⟩
  · intro i
    change i ∈ s.threadedTasksIndex.items k ↔ ∃ t, s.liveRow k i.taskId = some t ∧ _
    rw [h.members k i]
    constructor
    · intro hi
      obtain ⟨t, ht, hlive, _, hth, htime⟩ := hi
      exact ⟨t, liveRow_eq_some.mpr ⟨ht, hlive, hth⟩, htime⟩
    · intro hi
      obtain ⟨t, hl, htime⟩ := hi
      obtain ⟨ht, hlive, hth⟩ := liveRow_eq_some.mp hl
      exact ⟨t, ht, hlive, hth ▸ hk, hth, htime⟩
  · intro hrec
    obtain ⟨thread, hrecord⟩ := hrec
    obtain ⟨t, hl, _⟩ := h.threads.head hrecord
    exact ⟨_, t, hl⟩
  · intro hrow
    obtain ⟨n, t, hl⟩ := hrow
    exact Option.ne_none_iff_exists'.mp (hr n t hl)
  · intro thread hrecord
    obtain ⟨t, hl, ht⟩ := h.threads.head hrecord
    exact ⟨t, hl, h.key _ t ht⟩
  · intro thread t hrecord hl henq
    obtain ⟨u, hu, hget⟩ := h.threads.head hrecord
    obtain rfl := Option.some.inj (hu.symm.trans hl)
    obtain ⟨hid, hrow, hkey⟩ := liveRow_id h.key hl
    have hnum : u.id.taskId = thread.headTaskId.taskId := by rw [hid]; rfl
    refine ⟨?_, ?_⟩
    · refine (h.queue k.queue u.queueIndexItem).mpr ⟨u, ?_, henq, rfl, Or.inr ⟨thread, ?_, ?_⟩⟩
      · change s.tasks.get (k.queue.task u.id.taskId) = some u
        rw [hnum]
        exact (liveRow_eq_some.mp hl).1
      · rw [hkey]
        exact hrecord
      · exact (h.key _ u hget).symm
    · change s.liveRow k u.id.taskId ≠ none
      rw [hnum]
      exact Option.ne_none_iff_exists'.mpr ⟨u, hl⟩

theorem WellFormed.coherent (h : WellFormed s) (hr : RecordsExact s) : Coherent s where
  heads := h.heads
  indexed := h.indexed
  whole k hk := by
    refine h.whole hk ?_
    intro n t hl
    obtain ⟨ht, hlive, hth⟩ := liveRow_eq_some.mp hl
    have hne := hr _ t ht hlive (hth ▸ hk)
    rw [(liveRow_id h.key hl).2.2] at hne
    exact hne

theorem Coherent.recordsExact (h : Coherent s) : RecordsExact s := by
  intro id t ht hlive hth
  have hid := h.heads.keyed id t ht
  subst hid
  have hself : s.liveRow t.threadKey t.id.taskId = some t := liveRow_eq_some.mpr ⟨ht, hlive, rfl⟩
  exact Option.ne_none_iff_exists'.mpr ((h.whole t.threadKey hth).recorded.mpr ⟨_, t, hself⟩)

/-- A coherent state is well-formed, as far as its ids are within the sequences. -/
theorem Coherent.wellFormed (h : Coherent s) (hseq : Sequenced s.rows) : WellFormed s where
  key := h.heads.keyed
  sequence := hseq
  queue q i := by
    constructor
    · intro hi
      obtain ⟨t, ht, hst, htime⟩ := h.heads.queueSound q i hi
      refine ⟨t, ht, hst, htime, ?_⟩
      by_cases hth : t.threadId = []
      · exact Or.inl hth
      · obtain ⟨thread, hk, hhead, _⟩ := h.heads.queue_head q i hi t ht hth
        have hid := h.heads.keyed _ t ht
        refine Or.inr ⟨thread, ?_, hhead.trans hid.symm⟩
        rw [Task.threadKey, hid]
        exact hk
    · rintro ⟨t, ht, hst, htime, hd⟩
      have hid := h.heads.keyed _ t ht
      rcases hd with hth | ⟨thread, hk, hhead⟩
      · have hmem := h.heads.queue_free _ t ht hst hth
        rw [htime] at hmem
        exact hmem
      · have hth := (h.heads.thread_key _ thread hk).2.2.1
        have hl : s.liveRow t.threadKey thread.headTaskId.taskId = some t := by
          refine liveRow_eq_some.mpr ⟨?_, by simp [Task.live, hst], rfl⟩
          rw [hhead, Task.threadKey, TaskId.queue_task, hid]
          exact ht
        have hmem := ((h.whole _ hth).queued thread t hk hl hst).1
        rw [Task.queueIndexItem, htime, Task.threadKey, hid] at hmem
        exact hmem
  inProgress := h.indexed.inProgressExact
  dead := h.indexed.deadExact
  expiration := h.indexed.expirationExact
  dedupe := h.indexed.dedupeExact
  members k i := by
    by_cases hk : k.threadId = []
    · constructor
      · exact fun hi => absurd hk (h.heads.member_key k i hi).1
      · rintro ⟨t, _, _, hne, hth, _⟩
        exact absurd (hth.trans hk) hne
    · have hmember : i ∈ s.threadedTasksIndex.items k ↔
          ∃ t, s.liveRow k i.taskId = some t ∧ t.scheduledAt = i.time := (h.whole k hk).member i
      rw [hmember]
      constructor
      · rintro ⟨t, hl, htime⟩
        obtain ⟨ht, hlive, hth⟩ := liveRow_eq_some.mp hl
        exact ⟨t, ht, hlive, hth ▸ hk, hth, htime⟩
      · rintro ⟨t, ht, hlive, _, hth, htime⟩
        exact ⟨t, liveRow_eq_some.mpr ⟨ht, hlive, hth⟩, htime⟩
  threads k thread hk := by
    obtain ⟨hid, hq, hne, _, _⟩ := h.heads.thread_key k thread hk
    obtain ⟨t, hl, _⟩ := (h.whole k hne).head thread hk
    obtain ⟨ht, hlive, hth⟩ := liveRow_eq_some.mp hl
    rw [← hq, TaskId.queue_task] at ht
    exact ⟨hid, hq, t, ht, hlive, hth ▸ hne, hth, (h.heads.settled k).time thread t hk ht⟩
  leased id t ht hst := by
    by_cases hth : t.threadId = []
    · exact Or.inl hth
    · obtain ⟨thread, hk, hhead⟩ := h.heads.leased_head id t ht hst hth
      have hid := h.heads.keyed id t ht
      rw [← hid] at hk hhead
      exact Or.inr ⟨thread, hk, hhead⟩

/-- A task that has no row is named nowhere. -/
theorem Woven.unnamed {id : TaskId} (h : Woven s) (hrow : s.tasks.get id = none) :
    Unnamed id s := by
  refine ⟨?_, ?_, ?_⟩
  · intro q i hi he
    obtain ⟨t, ht, _⟩ := h.heads.queue_row q i hi
    rw [he, hrow] at ht
    exact absurd ht (by simp)
  · intro k thread hk he
    obtain ⟨_, hq, hne, _, _⟩ := h.heads.thread_key k thread hk
    obtain ⟨t, hl, _⟩ := (h.whole k hne).head thread hk
    have ht := (liveRow_eq_some.mp hl).1
    rw [← hq, TaskId.queue_task, he, hrow] at ht
    exact absurd ht (by simp)
  · intro k i hi he
    obtain ⟨t, hl, _⟩ := ((h.whole k (h.heads.member_key k i hi).1).member i).mp hi
    have ht := (liveRow_eq_some.mp hl).1
    rw [he, hrow] at ht
    exact absurd ht (by simp)

theorem Kept.refl (h : Coherent s) : Kept s s := ⟨h, Tended.refl s⟩

theorem Kept.trans (h : Kept s s') (h' : Kept s' s'') : Kept s s'' :=
  ⟨h'.coherent, h.tended.trans h'.tended⟩

/-- Other tables than the ones of the threads may change. -/
theorem Woven.same (h : Woven s) (e : SameHeads s s') : Woven s' := by
  refine ⟨h.heads.same e, fun k hk => ?_⟩
  rw [e.strand]
  exact h.whole k hk

theorem Kept.same (h : Kept s s') (e : SameHeads s' s'')
    (hi : Indexed True s''.rows) : Kept s s'' :=
  ⟨⟨h.coherent.toWoven.same e, hi⟩, h.tended.trans (Tended.same e.strand)⟩

/-- What is left to show once a change keeps the threads. -/
theorem Coherent.kept (h : Coherent s) (ht : Tended s s') (hh : Heads WellFormed.anyScope s')
    (hi : Indexed True s'.rows) : Kept s s' :=
  ⟨⟨⟨hh, fun k hk => (ht k hk).whole (h.whole k hk)⟩, hi⟩, ht⟩

end Coherence

section Departures

theorem deleteTask_kept (h : Coherent s) (row : s.tasks.get t.id = some t)
    (reason : TaskDeletionReason) : Ensures False (deleteTask s t reason) (Kept s) := by
  have htends := deleteTask_tends h.heads row reason (fun _ hne => h.whole _ hne)
  have hheads := deleteTask_heads h.heads row reason (fun hc => hc.elim)
  have hmade := (deleteTask_makes reason h.indexed row).weaken (F := True) (fun _ => trivial)
  refine ((htends.both hheads).both hmade).mono ?_
  rintro s' ⟨⟨ht, hh⟩, hm⟩
  exact h.kept ht.all hh (hm.indexed h.indexed)

theorem deleteTask_wellFormed (h : WellFormed s) (hr : RecordsExact s)
    (row : s.tasks.get t.id = some t) (reason : TaskDeletionReason) :
    Ensures False (deleteTask s t reason) (fun s' => WellFormed s' ∧ RecordsExact s') := by
  have hmade := (deleteTask_makes reason h.indexed row).weaken (F := True) (fun _ => trivial)
  refine ((deleteTask_kept (h.coherent hr) row reason).both hmade).mono (fun s' hs => ?_)
  obtain ⟨es, hes, rfl⟩ := hs.2
  have hseq : Sequenced s'.rows := hes.sequenced (by simp [Event.kind]) h.sequence
  exact ⟨hs.1.coherent.wellFormed hseq, hs.1.coherent.recordsExact⟩

theorem evictExcessDeadTasks_kept (q : QueueId) (maxSize deadTasksCount : Int) (h : Coherent s) :
    Ensures False (evictExcessDeadTasks s q maxSize deadTasksCount) (Kept s) := by
  have hsame := evictExcessDeadTasks_strands q maxSize deadTasksCount h.indexed
  have hheads := evictExcessDeadTasks_heads q maxSize deadTasksCount h.heads h.indexed
  have hmade := (evictExcessDeadTasks_makes s q maxSize deadTasksCount h.indexed).weaken
    (F := True) (fun _ => trivial)
  refine ((hsame.both hheads).both hmade).mono ?_
  rintro s' ⟨⟨ht, hh⟩, hm⟩
  exact h.kept (Tended.same ht) hh (hm.indexed h.indexed)

/-- A failure of the task is its last. -/
def Task.ends (t : Task) (now : Time) : Bool := t.expiresAt < now ∨ t.exhausted

/-- A failure that deletes or kills the task. -/
theorem handleTaskFailure_kept (dlqConfig : Option DeadLetterQueueConfig) (h : Coherent s)
    (row : s.tasks.get t.id = some t) (state : t.state = .inProgress) (ends : t.ends now) :
    Ensures False (handleTaskFailure s t now dlqConfig) (Kept s) := by
  have hends : t.expiresAt < now ∨ t.exhausted := by simpa [Task.ends] using ends
  have hl : ¬Loses s now t := by
    intro hl
    rcases hends with hexp | hex
    · exact hl.unexpired hexp
    · simp [hl.retries] at hex
  have hfails := handleTaskFailure_strands now dlqConfig h.heads h.indexed row state
    (fun hne => h.whole _ hne) (fun hc => hc)
  have hheads := handleTaskFailure_heads now dlqConfig h.heads h.indexed row state
    (fun hc => hc.elim) (fun hc => hc.elim)
  have hmade := (handleTaskFailure_makes now dlqConfig h.indexed row state).weaken
    (F := True) (fun _ => trivial)
  refine Ensures.mono (P := fun s' => (Fails now t s s' ∧ Heads WellFormed.anyScope s') ∧
    Makes True (Failed t now) s s') ?_ ?_
  · refine ((hfails.both hheads).both hmade).weaken ?_
    rintro ⟨hexp, hex, _⟩
    rcases hends with h | h
    · exact hexp h
    · simp [hex] at h
  · rintro s' ⟨⟨hf, hh⟩, hm⟩
    refine h.kept ?_ hh (hm.indexed h.indexed)
    intro k hk
    by_cases he : k = t.threadKey
    · subst he
      exact ⟨fun _ => (hf.whole hk).mpr hl, fun _ hled => hf.led hk hl hled⟩
    · rw [hf.away k he]
      exact .refl _

theorem deleteTasks_kept (req : DeleteTasksRequest) (h : Coherent s) :
    Ensures False (deleteTasks s req) (Kept s) := by
  unfold deleteTasks
  refine Ensures.foldlM (fun _ => Kept s) ?_ req.taskIds s (Kept.refl h)
  intro n _ s1 hs1
  unfold deleteTaskById
  cases row : s1.tasks.get (req.queueId.task n) with
  | none => exact Ensures.ok hs1
  | some t =>
    have hid := hs1.coherent.heads.keyed _ t row
    rw [← hid] at row
    exact (deleteTask_kept hs1.coherent row .none).mono (fun _ hs2 => hs1.trans hs2)

theorem runTasksGarbageCollection_kept (req : RunTasksGarbageCollectionRequest) (h : Coherent s) :
    Ensures False (runTasksGarbageCollection s now req) (Kept s) := by
  refine sweepRounds_keeps ?_ _ _ _ s h.indexed (Kept.refl h)
  intro s1 t _ hs1 row _ _
  exact (deleteTask_kept hs1.coherent row .expired).mono (fun _ hs2 => hs1.trans hs2)

/-- The purge of a queue deletes its tasks one by one, as far as its budget goes. -/
theorem runPurgeQueueGarbageCollection_kept (req : RunPurgeQueueGarbageCollectionRequest)
    (h : Coherent s) : Ensures False (runPurgeQueueGarbageCollection s req) (Kept s) := by
  refine runPurgeQueueGarbageCollection_keeps ?_ ?_ h.indexed (Kept.refl h)
  · intro s1 t hs1 row
    exact (deleteTask_kept hs1.coherent row .none).mono (fun _ hs2 => hs1.trans hs2)
  · intro s1 q hs1
    have hi := hs1.coherent.indexed
    exact hs1.same ⟨rfl, rfl, rfl, rfl⟩
      ⟨hi.key, hi.calm, hi.inProgress, hi.dead, hi.expiration, hi.dedupe⟩

/-- The leases that lapsed end their tasks. -/
theorem dequeueInProgressTasksBeforeTime_kept {q : QueueId}
    (dlqConfig : Option DeadLetterQueueConfig) (h : Coherent s)
    (ends : ∀ i ∈ timedOutItems s q now, ∀ t,
      s.tasks.get (q.task i.taskId) = some t → t.ends now) :
    Ensures False (dequeueInProgressTasksBeforeTime s q now dlqConfig) (Kept s) := by
  obtain ⟨l, hl, hb, hm, hrow⟩ := timedOutTasks s q now h.indexed
  have hends : ∀ t ∈ l, t.state = .inProgress ∧ t.ends now := by
    intro t ht
    obtain ⟨i, hi, hit⟩ := hm t ht
    exact ⟨(hrow t ht).1, ends i hi t hit⟩
  unfold dequeueInProgressTasksBeforeTime
  dsimp only
  rw [hl]
  have hstart : Kept s (s.setQueueState q { s.getQueueState q with
      lastVisitedInProgress := ((timedOutItems s q now).getLast?.map IndexItem.time).getD now }) :=
    (Kept.refl h).same ⟨rfl, rfl, rfl, rfl⟩ (h.indexed.step (setQueueState_step s q _ rfl))
  refine (Ensures.foldlM (fun l s1 => Kept s s1 ∧ Batch s1.rows l ∧
    ∀ t ∈ l, t.state = .inProgress ∧ t.ends now) ?_ l _ ⟨hstart, ⟨hb.row, hb.nodup⟩, hends⟩).mono
      (fun _ hs => hs.1)
  intro t l s1 hs1
  obtain ⟨hkept, hb1, hl1⟩ := hs1
  obtain ⟨⟨hst, hend⟩, hrest⟩ := List.forall_mem_cons.mp hl1
  have hmade := (handleTaskFailure_makes now dlqConfig hkept.coherent.indexed hb1.head hst).weaken
    (F := True) (fun _ => trivial)
  refine ((handleTaskFailure_kept dlqConfig hkept.coherent hb1.head hst hend).both hmade).mono ?_
  intro s2 hs2
  obtain ⟨hkept2, es, hes, hfail⟩ := hs2
  exact ⟨hkept.trans hkept2, hfail.batch hes hb1 (fun u hu => (hrest u hu).1), hrest⟩

/-- A report that is applied ends the life of its task, or its stay in the thread. -/
def ReportEnds (now : Time) (s : State) (e : ReportStatusRequestEntry) : Prop :=
  ∀ t, s.tasks.get e.taskId = some t → t.state = .inProgress → t.attempts = e.attempt →
    e.status = .succeeded ∨ e.status = .failed ∧ t.ends now

theorem reportStatus_kept {e : ReportStatusRequestEntry} (dlqConfig : Option DeadLetterQueueConfig)
    (h : Coherent s) (ends : ReportEnds now s e) :
    Ensures False (reportStatus s e.taskId now e.status e.attempt
      e.keepaliveTimeoutInSeconds dlqConfig)
      (fun a => Kept s a.1) := by
  have hnone : Kept s s := Kept.refl h
  unfold reportStatus
  cases row : s.tasks.get e.taskId with
  | none => exact Ensures.ok hnone
  | some t =>
    have hid := h.heads.keyed _ t row
    apply Ensures.ite
    · exact fun _ => Ensures.ok hnone
    · intro hs
      apply Ensures.ite
      · exact fun _ => Ensures.ok hnone
      · intro ha
        have state : t.state = .inProgress := not_not.mp hs
        have hend := ends t row state (not_not.mp ha)
        rw [← hid] at row
        cases hst : e.status with
        | invalid => exact Ensures.ok hnone
        | inProgress => simp [hst] at hend
        | failed =>
          have hfinal : t.ends now := by simpa [hst] using hend
          exact (handleTaskFailure_kept dlqConfig h row state hfinal).bind
            (fun s' hs' => Ensures.ok hs')
        | succeeded =>
          exact (deleteTask_kept h row .succeeded).bind (fun s' hs' => Ensures.ok hs')

theorem reportEntries_kept (dlqConfig : Option DeadLetterQueueConfig)
    (es : List ReportStatusRequestEntry) (s : State) (h : Coherent s)
    (ends : Along (reportStep now dlqConfig) (ReportEnds now) s es) :
    Ensures False (reportEntries now dlqConfig s es) (fun a => Kept s a.1) := by
  induction es generalizing s with
  | nil => exact Ensures.ok (Kept.refl h)
  | cons e es ih =>
    rw [reportEntries]
    refine (reportStatus_kept dlqConfig h ends.1).self.bind ?_
    intro a ha
    obtain ⟨heq, hkept⟩ := ha
    have htail : Along (reportStep now dlqConfig) (ReportEnds now) a.1 es := by
      refine ends.tail ?_
      rw [reportStep, heq]
      rfl
    exact (ih a.1 hkept.coherent htail).bind (fun b hb => Ensures.ok (hkept.trans hb))

end Departures

section Arrivals

/-- A task that is new, or was dead, is created. -/
theorem createTask_tended (h : Woven s) (hold : ∀ u, s.tasks.get t.id = some u → u.state = .dead)
    (state : t.state = .enqueued) :
    Ensures False (createTask s t) (fun s' => Tended s s' ∧ Heads WellFormed.anyScope s') := by
  have hdead : ∀ u, s.tasks.get t.id = some u → ¬u.live := by
    intro u hu
    simp [Task.live, hold u hu]
  have hgone : Heads WellFormed.anyScope (s.deleteRow t.id) ∧ Unnamed t.id s := by
    cases hrow : s.tasks.get t.id with
    | none => exact ⟨h.heads.same ⟨Table.delete_absent hrow, rfl, rfl, rfl⟩, h.unnamed hrow⟩
    | some u =>
      have hid := h.heads.keyed _ u hrow
      have hst : u.state ≠ .enqueued := by simp [hold u hrow]
      have hrow' : s.tasks.get u.id = some u := by rw [hid]; exact hrow
      rw [← hid]
      refine ⟨h.heads.eraseIdle hrow' hst, h.heads.unnamed hrow' (Or.inl (hdead u hrow)) ?_⟩
      exact fun q i hi he => hst (h.heads.queueItem_eq hrow' hi he).1
  have htends := createTask_tends h.heads hdead (by simp [Task.live, state])
    (fun hne => h.whole _ hne)
  have hheads := createTask_heads hgone.1 hgone.2 trivial (fun _ => trivial) state
    (fun hc => hc.elim) (fun hc => hc.elim)
  exact (htends.both hheads).mono (fun s' hs' => ⟨hs'.1.all, hs'.2⟩)

theorem restartEntry_kept {q : QueueId} (e : RestartTasksRequestEntry) (h : Coherent s) :
    Ensures False (restartEntry q now s e) (fun a => Kept s a.1) := by
  have hmade : Ensures True (restartEntry q now s e) _ := restartEntry_makes h.indexed
  have hnone : Tended s s ∧ Heads WellFormed.anyScope s := ⟨Tended.refl s, h.heads⟩
  have hentry : Ensures False (restartEntry q now s e)
      (fun a => Tended s a.1 ∧ Heads WellFormed.anyScope a.1) := by
    unfold restartEntry
    cases row : s.tasks.get (q.task e.taskId) with
    | none => exact Ensures.ok hnone
    | some t =>
      have hid := h.heads.keyed _ t row
      apply Ensures.ite
      · exact fun _ => Ensures.ok hnone
      · intro hs
        apply Ensures.ite
        · exact fun _ => Ensures.ok hnone
        · intro _
          apply Ensures.ite
          · exact fun _ => Ensures.ok hnone
          · intro _
            have hdead : t.state = .dead := not_not.mp hs
            generalize hs0 : ((s.removeDead t).removeExpiration t).updateCounter t.id.queue
              (·.addDead (-1)) = s0
            have hsame : SameHeads s s0 := by
              rw [← hs0]
              exact ⟨rfl, rfl, rfl, rfl⟩
            have hcreate := createTask_tended (t := t.restart now e.scheduledAt e.expiresAt)
              (h.toWoven.same hsame) (fun u hu => by
                rw [hsame.tasks] at hu
                change s.tasks.get t.id = some u at hu
                rw [hid, row] at hu
                rw [← Option.some.inj hu]
                exact hdead) rfl
            unfold restartTask
            dsimp only
            rw [hs0]
            refine Ensures.bind (hcreate.bind (fun s' hs' => Ensures.ok
              (P := fun a : State × Task => Tended s0 a.1 ∧ Heads WellFormed.anyScope a.1) hs')) ?_
            intro a ha
            exact Ensures.ok ⟨(Tended.same hsame.strand).trans ha.1, ha.2⟩
  refine (hentry.both hmade).mono ?_
  intro a ha
  obtain ⟨⟨ht, hh⟩, hcase⟩ := ha
  refine h.kept ht hh ?_
  rcases hcase with ⟨_, hsame⟩ | ⟨_, t, _, _, _, hm⟩
  · rw [hsame]
    exact h.indexed
  · exact hm.indexed h.indexed

theorem restartEntries_kept {q : QueueId} (es : List RestartTasksRequestEntry) (s : State)
    (h : Coherent s) : Ensures False (restartEntries q now s es) (fun a => Kept s a.1) := by
  induction es generalizing s with
  | nil => exact Ensures.ok (Kept.refl h)
  | cons e es ih =>
    rw [restartEntries]
    refine (restartEntry_kept e h).bind ?_
    intro a ha
    exact (ih a.1 ha.coherent).bind (fun b hb => Ensures.ok (ha.trans hb))

/-- An entry that creates a task. -/
theorem enqueueEntry_kept {q : QueueId} {n : Nat} {e : EnqueueRequestEntry} (h : Coherent s)
    (hb : Below q n s.rows) (fresh : duplicateOf s q e = none) :
    Ensures False (enqueueEntry q now s n e) (fun a => Kept s a.1 ∧ Below q a.2.1 a.1.rows) := by
  have hmade : Ensures True (enqueueEntry q now s n e) _ :=
    enqueueEntry_makes h.indexed hb (fun _ => trivial)
  have hentry : Ensures False (enqueueEntry q now s n e)
      (fun a => Tended s a.1 ∧ Heads WellFormed.anyScope a.1) := by
    unfold enqueueEntry
    rw [fresh]
    refine (createTask_tended (t := newTask q (n + 1) e now) h.toWoven ?_ rfl).bind
      (fun s' hs' => Ensures.ok hs')
    intro u hu
    have hle : n + 1 ≤ n := hb _ u hu rfl
    omega
  refine (hentry.both hmade).mono ?_
  intro a ha
  obtain ⟨⟨ht, hh⟩, _, hbelow, hm⟩ := ha
  exact ⟨h.kept ht hh (hm.indexed h.indexed), hbelow⟩

theorem enqueueEntries_kept {q : QueueId} (es : List EnqueueRequestEntry) (s : State) (n : Nat)
    (h : Coherent s) (hb : Below q n s.rows)
    (fresh : Along (enqueueStep q now) (fun a e => duplicateOf a.1 q e = none) (s, n) es) :
    Ensures False (enqueueEntries q now s n es) (fun a => Kept s a.1) := by
  induction es generalizing s n with
  | nil => exact Ensures.ok (Kept.refl h)
  | cons e es ih =>
    rw [enqueueEntries]
    refine (enqueueEntry_kept h hb fresh.1).self.bind ?_
    intro a ha
    obtain ⟨heq, hkept, hbelow⟩ := ha
    have htail : Along (enqueueStep q now) (fun a e => duplicateOf a.1 q e = none)
        (a.1, a.2.1) es := by
      refine fresh.tail ?_
      rw [enqueueStep, heq]
      rfl
    exact (ih a.1 a.2.1 hkept.coherent hbelow htail).bind
      (fun b hb' => Ensures.ok (hkept.trans hb'))

end Arrivals

section Moves

/-- The head of the thread is being worked. -/
def BusyHead (s : State) (k : ThreadKey) (id : TaskId) : Prop :=
  (∃ thread, s.threads.get k = some thread ∧ thread.headTaskId = id) ∧
    ∃ t, s.tasks.get id = some t ∧ t.state = .inProgress

/-- The thread-head invariant. A member that is worked is the head. Otherwise the
head is the least member by time and id, and the only one in the queue index. -/
structure Strand.Ordered (x : Strand) : Prop where
  recorded : (∃ thread, x.record = some thread) ↔ ∃ n t, x.row n = some t
  member : ∀ i, i ∈ x.members ↔ ∃ t, x.row i.taskId = some t ∧ t.scheduledAt = i.time
  head : ∀ thread, x.record = some thread → ∃ t, x.row thread.headTaskId.taskId = some t ∧
    t.id = thread.headTaskId ∧ thread.scheduledAt = t.scheduledAt ∧
    (∀ n u, x.row n = some u → u.state = .inProgress → u.id = thread.headTaskId) ∧
    (t.state = .enqueued → ∀ i ∈ x.members, t.queueIndexItem ≤ i) ∧
    ∀ i, x.queued i ↔ t.state = .enqueued ∧ i = t.queueIndexItem

def State.Orderly (s : State) : Prop := ∀ k, k.threadId ≠ [] → (s.strand k).Ordered

omit [OrderedStore] in
theorem Strand.Ordered.led {x : Strand} (h : x.Ordered) : x.Led := by
  intro thread t hr ht
  obtain ⟨u, hu, _, _, _, hfirst, _⟩ := h.head thread hr
  obtain rfl := Option.some.inj (hu.symm.trans ht)
  exact hfirst

/-- In a thread that agrees with its rows, the order of the members is all that is
missing. -/
theorem Heads.ordered (h : Heads WellFormed.anyScope s) (hk : k.threadId ≠ [])
    (hw : (s.strand k).Whole) (hled : (s.strand k).Led) : (s.strand k).Ordered where
  recorded := hw.recorded
  member := hw.member
  head thread hr := by
    obtain ⟨t, hl, hid⟩ := hw.head thread hr
    have hqueue := (h.thread_key k thread hr).2.1
    refine ⟨t, hl, hid, h.timed k thread t hr hl, ?_, hled thread t hr hl, ?_⟩
    · intro n u hu hst
      obtain ⟨hrow, _, hth⟩ := liveRow_eq_some.mp hu
      obtain ⟨thread', hk', hhead⟩ := h.leased_head _ u hrow hst (hth ▸ hk)
      rw [hth] at hk'
      have he : thread = thread' := Option.some.inj (hr.symm.trans hk')
      rw [he, hhead]
      exact h.keyed _ u hrow
    · intro i
      constructor
      · intro hi
        obtain ⟨hmem, hne⟩ := hi
        obtain ⟨u, hu⟩ := Option.ne_none_iff_exists'.mp hne
        obtain ⟨hrow, _, hth⟩ := liveRow_eq_some.mp hu
        obtain ⟨thread', hk', hhead, _⟩ := h.queue_head k.queue i hmem u hrow (hth ▸ hk)
        rw [hth] at hk'
        have he : thread = thread' := Option.some.inj (hr.symm.trans hk')
        have hnum : i.taskId = thread.headTaskId.taskId := by rw [he, hhead]; rfl
        rw [hnum] at hu hrow
        obtain rfl := Option.some.inj (hu.symm.trans hl)
        obtain ⟨huid, hurow, _⟩ := liveRow_id h.keyed hu
        obtain ⟨hst, _, hitem⟩ := h.queueItem_eq hurow hmem (by rw [hnum, huid])
        exact ⟨hst, hitem⟩
      · intro hi
        rw [hi.2]
        exact hw.queued thread t hr hl hi.1

theorem WellFormed.coherent_of_orderly (h : WellFormed s) (ho : s.Orderly) : Coherent s := by
  refine h.coherent ?_
  intro id t ht hlive hth
  have hid := h.key id t ht
  subst hid
  have hself : s.liveRow t.threadKey t.id.taskId = some t := liveRow_eq_some.mpr ⟨ht, hlive, rfl⟩
  exact Option.ne_none_iff_exists'.mpr ((ho t.threadKey hth).recorded.mpr ⟨_, t, hself⟩)

/-- Records and order, as far as a listing of the two tables can check them. -/
theorem WellFormed.orderly (h : WellFormed s)
    (hr : ∀ e ∈ s.tasks.entries, e.2.live → e.2.threadId ≠ [] → s.threads.get e.2.threadKey ≠ none)
    (hl : ∀ e ∈ s.threads.entries, ∀ t ∈ s.tasks.get e.2.headTaskId, t.state = .enqueued →
      ∀ i ∈ s.threadedTasksIndex.items e.1, t.queueIndexItem ≤ i) : s.Orderly := by
  have hc := h.coherent (fun id t ht => hr (id, t) (Table.mem_entries.mpr ht))
  intro k hk
  refine hc.heads.ordered hk (hc.whole k hk) ?_
  intro thread t hrecord ht
  have hq := (h.threads k thread hrecord).2.1
  have hrow := (liveRow_eq_some.mp ht).1
  rw [← hq, TaskId.queue_task] at hrow
  exact hl (k, thread) (Table.mem_entries.mpr hrecord) t hrow

theorem Kept.orderly (h : Kept s s') (hc : Coherent s) (ho : s.Orderly) : s'.Orderly := by
  intro k hk
  exact h.coherent.heads.ordered hk (h.coherent.whole k hk)
    ((h.tended k hk).led (hc.whole k hk) (ho k hk).led)

/-- The calls that bring tasks into threads or take them out for good. -/
def Op.moves (s : State) (now : Time) : Op → Prop
  | .enqueue req => Along (enqueueStep req.queueId now)
      (fun a e => duplicateOf a.1 req.queueId e = none)
      (s, sequenceOf s.queueState req.queueId) req.entries
  | .dequeue _ => False
  | .reportStatus req =>
    Along (reportStep now req.deadLetterQueueConfig) (ReportEnds now) s req.entries
  | _ => True

def Op.arrives : Op → Bool
  | .enqueue _ => true
  | .restartTasks _ => true
  | _ => false

theorem exec_kept {op : Op} (h : Coherent s) (hseq : Sequenced s.rows) (hm : op.moves s now) :
    Ensures False (exec s now op) (fun a => Kept s a.1) := by
  cases op with
  | enqueue req =>
    refine Ensures.map ?_
    unfold enqueue
    cases hp : checkQueueNotPurged s req.queueId with
    | some err => exact Ensures.ok (Kept.refl h)
    | none =>
      refine (enqueueEntries_kept req.entries s _ h (hseq.below req.queueId) hm).bind ?_
      intro a ha
      exact Ensures.ok (ha.same ⟨rfl, rfl, rfl, rfl⟩ (ha.coherent.indexed.step (.sequence _)))
  | dequeue req => exact hm.elim
  | reportStatus req => exact Ensures.map (reportEntries_kept _ req.entries s h hm)
  | deleteTasks req => exact Ensures.map (deleteTasks_kept req h)
  | restartTasks req => exact Ensures.map (restartEntries_kept req.entries s h)
  | purgeQueue q =>
    exact Ensures.ok ((Kept.refl h).same ⟨rfl, rfl, rfl, rfl⟩ (h.indexed.step .purge))
  | runTasksGarbageCollection req => exact Ensures.map (runTasksGarbageCollection_kept req h)
  | runPurgeQueueGarbageCollection req =>
    exact Ensures.map (runPurgeQueueGarbageCollection_kept req h)

/-- Arrivals leave the rows of tasks in progress alone. -/
theorem Steps.busy {r r' : Rows} {es : List Event} {id : TaskId} (hs : Steps True r es r')
    (hk : ∀ e ∈ es, e.kind ∈ [EventKind.created, .overwritten, .restarted, .sequenced])
    (row : r.tasks.get id = some t) (state : t.state = .inProgress) : r'.tasks.get id = some t := by
  refine Trace.invariant_of (I := fun x => x.tasks.get id = some t) hs ?_ row
  intro e he a b ha hab
  have hkind := hk e he
  have hother : ∀ u, a.tasks.get u.id = some u → u.state ≠ .inProgress → id ≠ u.id := by
    intro u hu hst he
    rw [he, hu] at ha
    exact hst (Option.some.inj ha ▸ state)
  cases hab with
  | create fresh =>
    refine (Table.get_set_ne _ _ ?_).trans ha
    intro he
    rw [he, fresh] at ha
    exact absurd ha (by simp)
  | overwrite row st | restart row st =>
    exact (Table.get_set_ne _ _ (hother _ row (by simp [st]))).trans ha
  | sequence => exact ha
  | _ => simp [Event.kind] at hkind

theorem BusyHead.stays {id : TaskId} (h : BusyHead s k id) (hh : Heads WellFormed.anyScope s)
    (hh' : Heads WellFormed.anyScope s')
    (rows : ∀ t, s.tasks.get id = some t → t.state = .inProgress → s'.tasks.get id = some t) :
    BusyHead s' k id := by
  obtain ⟨⟨thread, hk, hhead⟩, t, ht, hst⟩ := h
  have hkey := hh.head_key hk (hhead ▸ ht)
  have hid := hh.keyed id t ht
  have hne : t.threadId ≠ [] := by
    have hne := (hh.thread_key k thread hk).2.2.1
    rw [hkey] at hne
    exact hne
  have ht' := rows t ht hst
  obtain ⟨thread', hk', hhead'⟩ := hh'.leased_head id t ht' hst hne
  refine ⟨⟨thread', ?_, hhead'⟩, t, ht', hst⟩
  rw [hkey, Task.threadKey, hid]
  exact hk'

/-- A task that leaves without being the head is taken out of the index of its
thread, and nothing else changes. -/
theorem deleteTask_bystander (h : WellFormed s) (row : s.tasks.get t.id = some t) (live : t.live)
    (threaded : t.threadId ≠ []) {thread : Thread} (hk : s.threads.get t.threadKey = some thread)
    (bystander : thread.headTaskId ≠ t.id) (reason : TaskDeletionReason) :
    Ensures False (deleteTask s t reason)
      (fun s' => s'.threads = s.threads ∧ s'.queueIndex = s.queueIndex) := by
  have hnot : ¬Dequeueable s t := by
    intro hd
    obtain ⟨thread', hk', hhead⟩ := hd.resolve_left threaded
    obtain rfl := Option.some.inj (hk.symm.trans hk')
    exact bystander hhead
  have hitem : t.queueIndexItem ∉ s.queueIndex.items t.id.queue := by
    intro hi
    obtain ⟨u, hu, _, _, hd⟩ := (h.queue _ _).mp hi
    have hrow : s.tasks.get t.id = some u := hu
    obtain rfl := Option.some.inj (row.symm.trans hrow)
    exact hnot hd
  have hnum : thread.headTaskId.taskId ≠ t.id.taskId := by
    intro he
    have hq := (h.threads _ thread hk).2.1
    exact bystander (TaskId.eq_of_queue hq he)
  unfold deleteTask removeFromState
  cases hs : t.state with
  | invalid | dead => simp [Task.live, hs] at live
  | inProgress => exact absurd (h.leased _ t row hs) hnot
  | enqueued =>
    have hsame := releaseDedupeKey_same (s.removeQueued t) t
    have hleave : Ensures False (leaveThread ((s.removeQueued t).releaseDedupeKey t) t)
        (fun s2 => s2.threads = s.threads ∧ s2.queueIndex = s.queueIndex) := by
      have hqueue : ((s.removeQueued t).releaseDedupeKey t).queueIndex = s.queueIndex :=
        hsame.queueIndex.trans (Index.remove_absent hitem)
      unfold leaveThread
      rw [if_neg threaded]
      unfold detachTaskFromThread State.getThread
      dsimp only
      rw [hsame.threads, show (s.removeQueued t).threads.get t.threadKey = some thread from hk]
      change Ensures False (if thread.headTaskId.taskId ≠ t.id.taskId then _ else _) _
      rw [if_pos hnum]
      exact Ensures.ok ⟨rfl, hqueue⟩
    refine Ensures.bind (hleave.bind (fun s2 hs2 => Ensures.ok
      (P := fun a : State × TasksCounter => a.1.threads = s.threads ∧ a.1.queueIndex = s.queueIndex)
        hs2)) ?_
    intro a ha
    exact Ensures.ok ha

/-- Arrivals and departures keep the thread-head invariant, an arrival displaces no
head that is worked, and a member that is not the head leaves without a trace. From the
epoch on, the order of a thread is that of the numbers. -/
theorem moves_keep_order (h : WellFormed s) (ho : s.Orderly) :
    (∀ now op, op.moves s now → Ensures False (exec s now op) (fun a =>
      WellFormed a.1 ∧ a.1.Orderly ∧
        (op.arrives → ∀ k id, BusyHead s k id → BusyHead a.1 k id))) ∧
    (∀ now dlqConfig t, s.tasks.get t.id = some t → t.state = .inProgress → t.ends now →
      Ensures False (handleTaskFailure s t now dlqConfig) State.Orderly) ∧
    (∀ now dlqConfig q, (∀ i ∈ timedOutItems s q now, ∀ t,
        s.tasks.get (q.task i.taskId) = some t → t.ends now) →
      Ensures False (dequeueInProgressTasksBeforeTime s q now dlqConfig) State.Orderly) ∧
    (∀ q maxSize deadTasksCount,
      Ensures False (evictExcessDeadTasks s q maxSize deadTasksCount) State.Orderly) ∧
    (∀ t thread reason, s.tasks.get t.id = some t → t.live → t.threadId ≠ [] →
      s.threads.get t.threadKey = some thread → thread.headTaskId ≠ t.id →
        Ensures False (deleteTask s t reason) (fun s' => s'.Orderly ∧
          s'.threads = s.threads ∧ s'.queueIndex = s.queueIndex)) ∧
    ∀ t u : Task, 0 ≤ t.scheduledAt → 0 ≤ u.scheduledAt →
      (t.queueIndexItem < u.queueIndexItem ↔ t.scheduledAt < u.scheduledAt ∨
        t.scheduledAt = u.scheduledAt ∧ t.id.taskId < u.id.taskId) := by
  have hc := h.coherent_of_orderly ho
  have hkept : ∀ s', Kept s s' → s'.Orderly := fun s' hs' => hs'.orderly hc ho
  refine ⟨?_, ?_, ?_, ?_, ?_, ?_⟩
  · intro now op hm
    have hmade : Ensures True (exec s now op) _ := Moab.exec_makes h.indexed h.heads h.sequence
      (fun _ => trivial) (fun _ => trivial) (fun _ => trivial)
    refine ((exec_kept hc h.sequence hm).both hmade).mono ?_
    intro a ha
    obtain ⟨hk, es, hes, hcaused, hseq⟩ := ha
    refine ⟨hk.coherent.wellFormed hseq, hkept _ hk, ?_⟩
    intro harrives k id hbusy
    refine hbusy.stays h.heads hk.coherent.heads ?_
    intro t ht hst
    refine Steps.busy hes ?_ ht hst
    intro e he
    have hkind := hcaused.kinds e he
    cases op with
    | enqueue req =>
      simp only [Op.kinds, List.mem_cons, List.not_mem_nil, or_false] at hkind
      rcases hkind with hkind | hkind | hkind <;> simp [hkind]
    | restartTasks req =>
      simp only [Op.kinds, List.mem_cons, List.not_mem_nil, or_false] at hkind
      simp [hkind]
    | _ => simp [Op.arrives] at harrives
  · intro now dlqConfig t row hst hend
    exact (handleTaskFailure_kept dlqConfig hc row hst hend).mono hkept
  · intro now dlqConfig q hend
    exact (dequeueInProgressTasksBeforeTime_kept dlqConfig hc hend).mono hkept
  · intro q maxSize deadTasksCount
    exact (evictExcessDeadTasks_kept q maxSize deadTasksCount hc).mono hkept
  · intro t thread reason row live threaded hk hne
    have hby := deleteTask_bystander h row live threaded hk hne reason
    exact ((deleteTask_kept hc row reason).and hby).mono (fun s' hs' => ⟨hkept s' hs'.1, hs'.2⟩)
  · exact fun t u => IndexItem.lt_iff (i := t.queueIndexItem) (j := u.queueIndexItem)

end Moves

end Store

section Runs

theorem movingRun_wellFormed : WellFormed (run State.empty movingRun) :=
  run_wellFormed (by decide +kernel) (by decide +kernel) (by decide +kernel)

theorem movingRun_orderly : (run State.empty movingRun).Orderly :=
  movingRun_wellFormed.orderly (by decide +kernel) (by decide +kernel)

/-- The head is being worked; another member arrives, and the one that waits leaves. -/
theorem moves_keep_order_moving :
    Ensures False (exec (run State.empty movingRun) 50
      (.enqueue ⟨threadQueue, [threadEntry 1 [] []]⟩))
      (fun a => a.1.Orderly ∧ BusyHead a.1 ⟨threadQueue, [7]⟩ (threadQueue.task 1)) ∧
    Ensures False (exec (run State.empty movingRun) 50 (.deleteTasks ⟨threadQueue, [2]⟩))
      (fun a => a.1.Orderly) := by
  have hkeep := (moves_keep_order movingRun_wellFormed movingRun_orderly).1
  have hfresh : Op.moves (run State.empty movingRun) 50
      (.enqueue ⟨threadQueue, [threadEntry 1 [] []]⟩) := by
    unfold Op.moves
    decide +kernel
  have hbusy : BusyHead (run State.empty movingRun) ⟨threadQueue, [7]⟩ (threadQueue.task 1) := by
    have hhead : ((run State.empty movingRun).threads.get ⟨threadQueue, [7]⟩).any
        (fun x => x.headTaskId = threadQueue.task 1) := by decide +kernel
    have hrow : ((run State.empty movingRun).tasks.get (threadQueue.task 1)).any
        (fun x => x.state = .inProgress) := by decide +kernel
    exact ⟨by simpa [Option.any_eq_true] using hhead, by simpa [Option.any_eq_true] using hrow⟩
  constructor
  · exact (hkeep 50 _ hfresh).mono (fun a ha => ⟨ha.2.1, ha.2.2 rfl _ _ hbusy⟩)
  · exact (hkeep 50 (.deleteTasks ⟨threadQueue, [2]⟩) trivial).mono (fun a ha => ha.2.1)

end Runs

end Moab
