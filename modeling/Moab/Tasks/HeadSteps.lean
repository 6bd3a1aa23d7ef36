import Moab.Tasks.ThreadHeads

namespace Moab

open OrderedStore

variable [OrderedStore]

variable {c : Scope} {s s' s'' : State} {t t' : Task}

section Same

/-- The states differ at most in tables the threads do not depend on. -/
structure SameHeads (s s' : State) : Prop where
  tasks : s'.tasks = s.tasks
  queueIndex : s'.queueIndex = s.queueIndex
  threads : s'.threads = s.threads
  members : s'.threadedTasksIndex = s.threadedTasksIndex

theorem SameHeads.trans (h : SameHeads s s') (k : SameHeads s' s'') : SameHeads s s'' :=
  ⟨k.tasks.trans h.tasks, k.queueIndex.trans h.queueIndex, k.threads.trans h.threads,
    k.members.trans h.members⟩

theorem Heads.same (h : Heads c s) (e : SameHeads s s') : Heads c s' := by
  obtain ⟨h1, h2, h3, h4⟩ := e
  cases s
  cases s'
  subst h1 h2 h3 h4
  exact ⟨⟨h.row, h.queue_row, h.queue_free, h.queue_head, h.queue_front,
    h.leased_head, h.thread_key, h.head_live, h.member_key, h.member_live, h.ahead⟩,
    fun k => ⟨(h.settled k).record, (h.settled k).time, (h.settled k).first⟩⟩

theorem SameHeads.unnamed {id : TaskId} (e : SameHeads s s') (h : Unnamed id s) :
    Unnamed id s' := by
  refine ⟨?_, ?_, ?_⟩
  · rw [e.queueIndex]
    exact h.queue
  · rw [e.threads]
    exact h.head
  · rw [e.members]
    exact h.member

theorem SameHeads.enrolled (e : SameHeads s s') (h : Enrolled t s) : Enrolled t s' := by
  refine ⟨?_, ?_⟩
  · rw [e.threads]
    exact h.head
  · rw [e.members]
    exact h.member

theorem SameHeads.deleteRow (e : SameHeads s s') (id : TaskId) :
    SameHeads (s.deleteRow id) (s'.deleteRow id) :=
  ⟨congrArg (fun x => Table.delete x id) e.tasks, e.queueIndex, e.threads, e.members⟩

theorem releaseDedupeKey_same (s : State) (t : Task) : SameHeads s (s.releaseDedupeKey t) := by
  unfold State.releaseDedupeKey
  split_ifs
  · exact ⟨rfl, rfl, rfl, rfl⟩
  · exact ⟨rfl, rfl, rfl, rfl⟩

theorem claimDedupeKey_same (s : State) (t : Task) : SameHeads s (s.claimDedupeKey t) := by
  unfold State.claimDedupeKey
  split_ifs
  · exact ⟨rfl, rfl, rfl, rfl⟩
  · exact ⟨rfl, rfl, rfl, rfl⟩

theorem KeepsRows.tasks (h : KeepsRows s s') : s'.tasks = s.tasks := congrArg Rows.tasks h

/-- A row that is about to be deleted may be anything. -/
theorem setTask_deleteRow (s : State) (t : Task) :
    (s.setTask t).deleteRow t.id = s.deleteRow t.id := by
  have hset : (s.tasks.set t.id t).delete t.id = s.tasks.delete t.id := by
    apply Table.ext
    intro j
    simp only [Table.get_set, Table.get_delete]
    split_ifs <;> rfl
  unfold State.deleteRow State.setTask
  rw [hset]

/-- The row of a task that nothing names is put back. -/
theorem Heads.restore (h : Heads c (s.deleteRow t.id)) (hn : Unnamed t.id s)
    (row : s.tasks.get t.id = some t) (hu : c.used t.id) (hthr : t.threadId ≠ [] → c.threaded)
    (ht : t.state = .dead ∨ t.state = .enqueued ∧ t.threadId ≠ []) : Heads c s := by
  have hput := h.put (t := t) ⟨hn.queue, hn.head, hn.member⟩ hu hthr ht
  rw [deleteRow_setTask, setTask_self row] at hput
  exact hput

end Same

section Delete

/-- A task leaves its thread, if it has one. -/
theorem leaveThread_heads (h : Heads c (s.deleteRow t.id)) (he : Enrolled t s)
    (hn : t.threadId = [] → Unnamed t.id s) (hhand : c.tracked → t.threadId ≠ [] → c.handed t.id) :
    Ensures True (leaveThread s t) (fun s' => Heads c (s'.deleteRow t.id) ∧ Unnamed t.id s') := by
  unfold leaveThread
  refine Ensures.ite (fun hth => Ensures.ok ⟨h, hn hth⟩) (fun hth => ?_)
  exact detachTaskFromThread_heads h he (fun hc => hhand hc hth)

theorem removeFromState_heads (h : Heads c s) (row : s.tasks.get t.id = some t)
    (counter : TasksCounter)
    (hhand : c.tracked → t.live → t.threadId ≠ [] → c.handed t.id) :
    Ensures True (removeFromState s t counter)
      (fun a => Heads c (a.1.deleteRow t.id) ∧ Unnamed t.id a.1) := by
  have henr := h.enrolled row
  have hidle : t.state ≠ .enqueued → ∀ q, ∀ i ∈ s.queueIndex.items q, q.task i.taskId ≠ t.id :=
    fun hs q i hi he => hs (h.queueItem_eq row hi he).1
  unfold removeFromState
  cases hs : t.state with
  | invalid =>
    have hn := h.unnamed row (Or.inl (by simp [Task.live, hs])) (hidle (by simp [hs]))
    exact Ensures.ok ⟨h.eraseIdle row (by simp [hs]), hn⟩
  | dead =>
    have hdead := h.eraseIdle row (by simp [hs])
    have hn := h.unnamed row (Or.inl (by simp [Task.live, hs])) (hidle (by simp [hs]))
    have hsame : SameHeads s (s.removeDead t) := ⟨rfl, rfl, rfl, rfl⟩
    exact Ensures.ok ⟨hdead.same (hsame.deleteRow _), hsame.unnamed hn⟩
  | enqueued =>
    have hlive : t.live := by simp [Task.live, hs]
    have hsame := releaseDedupeKey_same (s.removeQueued t) t
    have hgone := h.forget row
    refine (leaveThread_heads (hgone.same (hsame.deleteRow t.id))
      (hsame.enrolled ⟨henr.head, henr.member⟩) (fun hth => hsame.unnamed ?_)
      (fun hc => hhand hc hlive)).bind (fun s' hs' => Ensures.ok hs')
    have hnone : ∀ q, ∀ i ∈ (s.removeQueued t).queueIndex.items q, q.task i.taskId ≠ t.id := by
      intro q i hi he
      obtain ⟨u, hu, _⟩ := hgone.queue_row q i hi
      exact (get_deleteRow hu).1 he
    refine ⟨hnone, fun k thread hk he => ?_, fun k i hi he => ?_⟩
    · exact (h.thread_key k thread hk).2.2.1
        ((congrArg ThreadKey.threadId (henr.head k thread hk he)).trans hth)
    · exact (h.member_key k i hi).1
        ((congrArg ThreadKey.threadId (henr.member k i hi he).1).trans hth)
  | inProgress =>
    have hlive : t.live := by simp [Task.live, hs]
    have hsame := releaseDedupeKey_same (s.removeInProgress t) t
    have hgone := h.eraseIdle row (by simp [hs])
    have hsame' : SameHeads s (s.removeInProgress t) := ⟨rfl, rfl, rfl, rfl⟩
    refine (leaveThread_heads (hgone.same ((hsame'.trans hsame).deleteRow t.id))
      ((hsame'.trans hsame).enrolled henr) (fun hth => (hsame'.trans hsame).unnamed ?_)
      (fun hc => hhand hc hlive)).bind (fun s' hs' => Ensures.ok hs')
    exact h.unnamed row (Or.inr hth) (hidle (by simp [hs]))

/-- Deleting any task keeps the threads in order, and nothing names it any more. -/
theorem deleteTask_unnamed (h : Heads c s) (row : s.tasks.get t.id = some t)
    (reason : TaskDeletionReason)
    (hhand : c.tracked → t.live → t.threadId ≠ [] → c.handed t.id) :
    Ensures True (deleteTask s t reason) (fun s' => Heads c s' ∧ Unnamed t.id s') := by
  unfold deleteTask
  refine (removeFromState_heads h row _ hhand).bind (fun a ha => Ensures.ok ⟨?_, ?_⟩)
  · exact ha.1.same ⟨rfl, rfl, rfl, rfl⟩
  · exact ⟨ha.2.queue, ha.2.head, ha.2.member⟩

theorem deleteTask_heads (h : Heads c s) (row : s.tasks.get t.id = some t)
    (reason : TaskDeletionReason)
    (hhand : c.tracked → t.live → t.threadId ≠ [] → c.handed t.id) :
    Ensures True (deleteTask s t reason) (Heads c) :=
  (deleteTask_unnamed h row reason hhand).mono (fun _ hs => hs.1)

theorem deleteTask_batch {l : List Task} {reason : TaskDeletionReason}
    (hb : Batch s.rows (t :: l)) :
    Ensures True (deleteTask s t reason) (fun s' => Batch s'.rows l) := by
  refine ((deleteTask_rows s t reason).weaken (fun _ => trivial)).mono (fun s' hs => ?_)
  rw [hs]
  exact hb.tail (fun u hu => Table.get_delete_ne _ (hb.ne_head u hu))

/-- Deleting a batch of dead tasks. -/
theorem deleteDead_heads (reason : TaskDeletionReason) (l : List Task) (s : State) (h : Heads c s)
    (hb : Batch s.rows l) (hl : ∀ t ∈ l, t.state = .dead) :
    Ensures True (l.foldlM (fun s t => deleteTask s t reason) s) (Heads c) := by
  induction l generalizing s with
  | nil => exact Ensures.pure h
  | cons t l ih =>
    rw [List.foldlM_cons]
    have hdead := hl t List.mem_cons_self
    refine ((deleteTask_heads h hb.head reason ?_).both (deleteTask_batch hb)).bind ?_
    · intro _ hlive _
      simp [Task.live, hdead] at hlive
    · intro s' hs'
      exact ih s' hs'.1 hs'.2 (fun u hu => hl u (List.mem_cons_of_mem _ hu))

end Delete

section Failure

variable {th : Prop}

theorem evictExcessDeadTasks_heads (q : QueueId) (maxSize deadTasksCount : Int) (h : Heads c s)
    (hi : Indexed th s.rows) :
    Ensures True (evictExcessDeadTasks s q maxSize deadTasksCount) (Heads c) := by
  unfold evictExcessDeadTasks
  refine Ensures.ite (fun _ => Ensures.ok h) (fun _ => ?_)
  obtain ⟨l, hl, hb, hdead⟩ := oldestDead s q (deadTasksCount - maxSize).toNat hi
  dsimp only
  rw [hl]
  exact deleteDead_heads .none l s h hb hdead

/-- A leased task is not in the queue index. -/
theorem Heads.leased_unqueued (h : Heads c s) (row : s.tasks.get t.id = some t)
    (state : t.state = .inProgress) : ∀ q, ∀ i ∈ s.queueIndex.items q, q.task i.taskId ≠ t.id := by
  intro q i hi he
  exact absurd (h.queueItem_eq row hi he).1 (by simp [state])

theorem moveToDead_heads (now : Time) (dlq : DeadLetterQueueConfig) (h : Heads c s)
    (row : s.tasks.get t.id = some t) (state : t.state = .inProgress)
    (hhand : c.tracked → t.threadId ≠ [] → c.handed t.id) :
    Ensures True (moveToDead s t now dlq) (Heads c) := by
  have henr := h.enrolled row
  have hgone := h.eraseIdle row (by simp [state])
  obtain ⟨_, hused, hthr⟩ := h.row _ _ row
  unfold moveToDead
  dsimp only
  generalize hs1 : (((s.removeInProgress t).setTask (t.die now dlq)).addExpiration
    (t.die now dlq)).releaseDedupeKey (t.die now dlq) = s1
  have hsame : SameHeads (s.setTask (t.die now dlq)) s1 := by
    have hrow : SameHeads (s.setTask (t.die now dlq))
        (((s.removeInProgress t).setTask (t.die now dlq)).addExpiration (t.die now dlq)) :=
      ⟨rfl, rfl, rfl, rfl⟩
    rw [← hs1]
    exact hrow.trans (releaseDedupeKey_same _ _)
  have hgone1 : Heads c (s1.deleteRow (t.die now dlq).id) := by
    refine Heads.same ?_ (hsame.deleteRow _)
    rw [setTask_deleteRow]
    exact hgone
  have hn : t.threadId = [] → Unnamed t.id s := by
    intro hth
    exact h.unnamed row (Or.inr hth) (h.leased_unqueued row state)
  have hleave := leaveThread_heads hgone1 (hsame.enrolled ⟨henr.head, henr.member⟩)
    (fun hth => hsame.unnamed ⟨(hn hth).queue, (hn hth).head, (hn hth).member⟩) hhand
  have hrows := (leaveThread_rows s1 (t.die now dlq)).weaken (F := True) (fun _ => trivial)
  refine (hleave.and hrows).bind (fun s2 hs2 => Ensures.ok ?_)
  obtain ⟨⟨hheads, hnamed⟩, hkeep⟩ := hs2
  have hrow2 : s2.tasks.get (t.die now dlq).id = some (t.die now dlq) := by
    rw [hkeep.tasks, hsame.tasks]
    exact Table.get_set_self _ _ _
  exact (hheads.restore hnamed hrow2 hused hthr (Or.inl rfl)).same ⟨rfl, rfl, rfl, rfl⟩

theorem failTaskToDead_heads (now : Time) (dlqConfig : Option DeadLetterQueueConfig) (h : Heads c s)
    (hi : Indexed th s.rows) (row : s.tasks.get t.id = some t) (state : t.state = .inProgress)
    (hhand : c.tracked → t.threadId ≠ [] → c.handed t.id) :
    Ensures True (failTaskToDead s t now dlqConfig) (Heads c) := by
  have hdel := deleteTask_heads h row .none (fun hc _ => hhand hc)
  unfold failTaskToDead
  cases dlqConfig with
  | none => exact hdel
  | some dlq =>
    refine Ensures.ite (fun _ => hdel) (fun _ => ?_)
    have hrows := (moveToDead_rows s t now dlq).weaken (F := True) (fun _ => trivial)
    refine ((moveToDead_heads now dlq h row state hhand).and hrows).bind (fun s1 hs1 => ?_)
    have hmade : Makes th (· = [.died t (t.die now dlq)]) s s1 :=
      Makes.one hs1.2 (.die row state) rfl
    exact evictExcessDeadTasks_heads _ _ _ hs1.1 (hmade.indexed hi)

/-- A retried task waits again. If it has a thread it was the head, and it may
lose that place. -/
theorem rejoinQueue_heads (h : Heads c s) (row : s.tasks.get t.id = some t)
    (state : t.state = .inProgress) (hid : t'.id = t.id) (hthread : t'.threadId = t.threadId)
    (state' : t'.state = .enqueued) (hf : c.tracked → c.front t.id.queue t'.scheduledAt)
    (hhand : c.tracked → t.threadId ≠ [] → c.handed t.id) :
    Ensures True (rejoinQueue (s.setTask t') t' t.scheduledAt) (Heads c) := by
  have hf' : c.tracked → c.front t'.id.queue t'.scheduledAt := by
    rw [hid]
    exact hf
  have hidle := h.leased_unqueued row state
  unfold rejoinQueue
  refine Ensures.ite (fun hth => ?_) (fun hth => ?_)
  · rw [hthread] at hth
    have hn := h.unnamed row (Or.inr hth) hidle
    have hgone := h.eraseIdle row (by simp [state])
    have hput := hgone.putQueued (t := t')
      (by rw [hid]; exact ⟨hn.queue, hn.head, hn.member⟩)
      (by rw [hid]; exact (h.row _ _ row).2.1) state' (hthread.trans hth) hf'
    rw [← hid, deleteRow_setTask] at hput
    exact Ensures.ok hput
  · rw [hthread] at hth
    unfold rejoinThread
    have hlead := h.leased_head t.id t row state hth
    refine (rescheduleTaskInThread_heads h row hid hthread hth state' hf' ?_
      (Or.inr (Or.inl hidle))).bind (fun s1 hs1 => ?_)
    · intro hc thread hk
      refine ⟨fun _ => hhand hc hth, fun hne => ?_⟩
      obtain ⟨thr, hthr, hhead⟩ := hlead
      obtain rfl := Option.some.inj (hk.symm.trans hthr)
      exact absurd hhead hne
    · unfold State.getThread
      cases hk : s1.threads.get t'.threadKey with
      | none => exact Ensures.error trivial
      | some thread =>
        apply Ensures.ok
        have hkey := (hs1.thread_key _ thread hk).1
        rw [show t'.id.queue = t'.threadKey.queue from rfl, setThread_eq (by exact hkey)]
        exact hs1.setVisible hk 0

theorem failTaskToRetry_heads (now : Time) (h : Heads c s) (row : s.tasks.get t.id = some t)
    (state : t.state = .inProgress)
    (hf : c.tracked → ∀ interval, retryInterval t = .ok interval →
      c.front t.id.queue (plusSeconds now interval))
    (hhand : c.tracked → t.threadId ≠ [] → c.handed t.id) :
    Ensures True (failTaskToRetry s t now) (Heads c) := by
  unfold failTaskToRetry
  refine Ensures.bind (P := fun i => retryInterval t = .ok i)
    (Ensures.of_eq (fun _ hi => hi) (fun _ _ => trivial)) (fun interval hint => ?_)
  have hs : Heads c ((s.removeInProgress t).addExpiration (t.retry now interval)) :=
    h.same ⟨rfl, rfl, rfl, rfl⟩
  have hjoin : Ensures True (rejoinQueue (((s.removeInProgress t).addExpiration
      (t.retry now interval)).setTask (t.retry now interval)) (t.retry now interval) t.scheduledAt)
      (Heads c) :=
    rejoinQueue_heads hs row state rfl rfl rfl (fun hc => hf hc interval hint) hhand
  exact hjoin.bind (fun s1 hs1 => Ensures.ok (hs1.same ⟨rfl, rfl, rfl, rfl⟩))

theorem handleTaskFailure_heads (now : Time) (dlqConfig : Option DeadLetterQueueConfig)
    (h : Heads c s) (hi : Indexed th s.rows) (row : s.tasks.get t.id = some t)
    (state : t.state = .inProgress)
    (hf : c.tracked → ∀ interval, retryInterval t = .ok interval →
      c.front t.id.queue (plusSeconds now interval))
    (hhand : c.tracked → t.threadId ≠ [] → c.handed t.id) :
    Ensures True (handleTaskFailure s t now dlqConfig) (Heads c) := by
  unfold handleTaskFailure
  refine Ensures.ite (fun _ => ?_) (fun _ => Ensures.ite (fun _ => ?_) (fun _ => ?_))
  · exact deleteTask_heads h row .expired (fun hc _ => hhand hc)
  · exact failTaskToDead_heads now dlqConfig h hi row state hhand
  · exact failTaskToRetry_heads now h row state hf hhand

theorem heartbeatTask_heads (now keepalive : Time) (h : Heads c s)
    (row : s.tasks.get t.id = some t) :
    Ensures True (heartbeatTask s t now keepalive) (Heads c) := by
  unfold heartbeatTask
  dsimp only
  generalize ht' : ({ t with visibleAt := plusSeconds now keepalive } : Task) = t'
  have hs : Heads c ((s.removeInProgress t).setTask t') := by
    rw [← ht']
    exact Heads.amend (h.same ⟨rfl, rfl, rfl, rfl⟩) row rfl rfl rfl rfl
  refine Ensures.bind (P := Heads c) ?_ (fun s1 hs1 => Ensures.ok (hs1.same ⟨rfl, rfl, rfl, rfl⟩))
  unfold renewThread
  refine Ensures.ite (fun _ => Ensures.ok hs) (fun _ => ?_)
  unfold State.getThread
  cases hk : ((s.removeInProgress t).setTask t').threads.get t'.threadKey with
  | none => exact Ensures.error trivial
  | some thread =>
    refine Ensures.ite (fun _ => Ensures.error trivial) (fun _ => Ensures.ok ?_)
    have hkey := (hs.thread_key _ thread hk).1
    rw [show t'.id.queue = t'.threadKey.queue from rfl, setThread_eq (by exact hkey)]
    exact hs.setVisible hk _

end Failure

section Create

/-- A task that nothing names enters its queue and its thread. -/
theorem createTask_heads (h : Heads c (s.deleteRow t.id)) (hn : Unnamed t.id s) (hu : c.used t.id)
    (hthr : t.threadId ≠ [] → c.threaded) (state : t.state = .enqueued)
    (hf : c.tracked → c.front t.id.queue t.scheduledAt) (hhand : c.tracked → ∀ id, ¬c.handed id) :
    Ensures True (createTask s t) (Heads c) := by
  have hn' : Unnamed t.id (s.deleteRow t.id) := ⟨hn.queue, hn.head, hn.member⟩
  have hclaim := claimDedupeKey_same (s.setTask t) t
  unfold createTask
  refine Ensures.bind (P := Heads c) ?_ (fun s1 hs1 => Ensures.ok (hs1.same ⟨rfl, rfl, rfl, rfl⟩))
  unfold joinQueue
  refine Ensures.ite (fun hth => Ensures.ok ?_) (fun hth => ?_)
  · have hput := h.putQueued hn' hu state hth hf
    rw [deleteRow_setTask] at hput
    refine hput.same ⟨hclaim.tasks, ?_, hclaim.threads, hclaim.members⟩
    exact congrArg (fun x => Index.add x t.id.queue t.queueIndexItem) hclaim.queueIndex
  · have hput := h.put hn' hu hthr (Or.inr ⟨state, hth⟩)
    rw [deleteRow_setTask] at hput
    refine attachTaskToThread_heads (hput.same hclaim) ?_ hth state
      (hclaim.unnamed ⟨hn.queue, hn.head, hn.member⟩) hf hhand
    rw [hclaim.tasks]
    exact Table.get_set_self _ _ _

end Create

section Overwrite

omit [OrderedStore] in
theorem IndexItem.rank_time_le {i j : IndexItem} (h : i ≤ j) : i.time.rank ≤ j.time.rank := by
  have hl : i.rank ≤ j.rank := h
  rcases Prod.Lex.le_iff.mp hl with hlt | heq
  · exact le_of_lt hlt
  · exact le_of_eq heq.1

/-- The other members of the thread that the task heads can still be reached by a
scan, so the task may hand its place over. -/
def Unstranded (c : Scope) (s : State) (t : Task) : Prop :=
  ∀ thread, s.threads.get t.threadKey = some thread → thread.headTaskId = t.id →
    ∀ i ∈ s.threadedTasksIndex.items t.threadKey, i.taskId ≠ t.id.taskId → c.front t.id.queue i.time

/-- Writing a threaded task under a new time leaves no queue item behind, and
what may take over its place can still be reached by a scan. -/
structure Movable (c : Scope) (s : State) (t : Task) (scheduledAt : Time) : Prop where
  place : scheduledAt = t.scheduledAt ∨ t.queueIndexItem ∉ s.queueIndex.items t.id.queue ∨
    ∀ i ∈ s.threadedTasksIndex.items t.threadKey, i.taskId ≠ t.id.taskId →
      ⟨scheduledAt, t.id.taskId⟩ < i
  ahead : c.tracked → Unstranded c s t

variable {scheduledAt : Time}

theorem Movable.reschedule (h : Heads c s) (row : s.tasks.get t.id = some t)
    (hth : t.threadId ≠ []) (state : t.state = .enqueued) (hm : Movable c s t scheduledAt)
    (hf : c.tracked → c.front t.id.queue scheduledAt) (hhand : c.tracked → ∀ id, ¬c.handed id) :
    Ensures True (rescheduleTaskInThread (s.setTask { t with scheduledAt := scheduledAt })
      { t with scheduledAt := scheduledAt } t.scheduledAt) (Heads c) := by
  -- the task may hand its place over exactly if it is the head
  let leads := ∃ thread, s.threads.get t.threadKey = some thread ∧ thread.headTaskId = t.id
  let d : Scope := { c with handed := fun id => id = t.id ∧ leads }
  have hd : Heads d s := by
    refine h.rescope id (fun _ hu => hu) id h.queue_front ?_
    intro hc k thread hk hh i hi hne
    obtain rfl := h.head_key hk (hh.1 ▸ row)
    refine hm.ahead hc thread hk hh.1 i hi (fun he => hne ?_)
    rw [he, hh.1]
    exact TaskId.queue_task t.id
  have hout : t.queueIndexItem ∉ s.queueIndex.items t.id.queue →
      ∀ q, ∀ i ∈ s.queueIndex.items q, q.task i.taskId ≠ t.id := by
    intro hout q i hi he
    obtain ⟨_, rfl, rfl⟩ := h.queueItem_eq row hi he
    exact hout hi
  have hq := hm.place.imp_right (Or.imp_left hout)
  refine (rescheduleTaskInThread_heads hd row (by rfl) (by rfl)
    hth (by exact state) hf ?_ hq).mono (fun s1 hs1 => ?_)
  · intro hc thread hk
    refine ⟨fun he => ⟨rfl, thread, hk, he⟩, fun hne id hh => hne ?_⟩
    obtain ⟨thr, hthr, he⟩ := hh.2
    obtain rfl := Option.some.inj (hk.symm.trans hthr)
    exact he
  · exact hs1.rescope id (fun _ hu => hu) id hs1.queue_front
      (fun hc k thread _ hh => absurd hh (hhand hc thread.headTaskId))

/-- The duplicate of an entry while its overwrites are applied; wanted says that
its time is among them. -/
structure Moving (c : Scope) (wanted : Prop) (t : Task) (scheduledAt : Time)
    (a : State × Task) : Prop where
  heads : Heads c (a.1.setTask a.2)
  id : a.2.id = t.id
  state : a.2.state = .enqueued
  threadId : a.2.threadId = t.threadId
  movable : wanted → a.2.threadId ≠ [] → Movable c (a.1.setTask a.2) a.2 scheduledAt

variable {wanted : Prop}

theorem Moving.amend {a : State × Task} (h : Moving c wanted t scheduledAt a)
    {s1 : State} {u : Task} (hs : SameHeads a.1 s1) (hid : u.id = a.2.id)
    (hst : u.state = a.2.state) (hth : u.threadId = a.2.threadId)
    (htime : u.scheduledAt = a.2.scheduledAt) : Moving c wanted t scheduledAt (s1, u) := by
  have hsame : SameHeads ((a.1.setTask a.2).setTask u) (s1.setTask u) := by
    refine ⟨?_, hs.queueIndex, hs.threads, hs.members⟩
    have hset := Table.set_set a.1.tasks a.2.id a.2 u
    simp only [State.setTask, hid, hs.tasks, hset]
  refine ⟨?_, hid.trans h.id, hst.trans h.state, hth.trans h.threadId, fun hw hne => ?_⟩
  · refine Heads.same ?_ hsame
    exact h.heads.amend (Table.get_set_self _ _ _) hid hst hth htime
  · have hm := h.movable hw (hth ▸ hne)
    have hkey : u.threadKey = a.2.threadKey := by rw [Task.threadKey, hid, hth]; rfl
    have hq : (s1.setTask u).queueIndex = (a.1.setTask a.2).queueIndex := hs.queueIndex
    have hthr : (s1.setTask u).threads = (a.1.setTask a.2).threads := hs.threads
    have hmem : (s1.setTask u).threadedTasksIndex = (a.1.setTask a.2).threadedTasksIndex :=
      hs.members
    refine ⟨?_, ?_⟩
    · have hitem : u.queueIndexItem = a.2.queueIndexItem := by
        rw [Task.queueIndexItem, htime, hid]
        rfl
      rw [hq, hmem, hkey, hitem, hid, htime]
      exact hm.place
    · have ha := hm.ahead
      unfold Unstranded at ha ⊢
      rw [hthr, hmem, hkey, hid]
      exact ha

theorem overwriteField_heads {a : State × Task} (h : Moving c wanted t scheduledAt a)
    (payload : Bytes) (expiresAt : Time) (o : OverwriteOnDuplicate) (ho : o = .scheduledAt → wanted)
    (hf : c.tracked → c.front t.id.queue scheduledAt) (hhand : c.tracked → ∀ id, ¬c.handed id)
    (hmono : c.tracked → ∀ q x y, Time.rank x ≤ Time.rank y → c.front q x → c.front q y) :
    Ensures True (overwriteField scheduledAt payload expiresAt a o)
      (Moving c wanted t scheduledAt) := by
  obtain ⟨s, u⟩ := a
  have row : (s.setTask u).tasks.get u.id = some u := Table.get_set_self _ _ _
  have hf' : c.tracked → c.front u.id.queue scheduledAt := by
    rw [h.id]
    exact hf
  cases o with
  | invalid => exact Ensures.ok h
  | payload | expiresAt => exact Ensures.ok (h.amend ⟨rfl, rfl, rfl, rfl⟩ rfl rfl rfl rfl)
  | scheduledAt =>
    refine Ensures.ite (fun hth => Ensures.ok ?_) (fun hth => ?_)
    · have hgone := h.heads.forget row
      have hn : Unnamed u.id (((s.setTask u).removeQueued u).deleteRow u.id) := by
        refine ⟨fun q i hi he => ?_, fun k thread hk he => ?_, fun k i hi he => ?_⟩
        · obtain ⟨v, hv, _⟩ := hgone.queue_row q i hi
          exact (get_deleteRow hv).1 he
        · exact (h.heads.thread_key k thread hk).2.2.1
            ((h.heads.head_live k thread u hk (he ▸ row)).2.symm.trans hth)
        · exact (h.heads.member_key k i hi).1
            ((h.heads.member_live k i hi u (he ▸ row)).2.1.symm.trans hth)
      have hput := hgone.putQueued (t := { u with scheduledAt := scheduledAt }) hn
        (h.heads.row _ _ row).2.1 h.state hth hf'
      refine ⟨hput.same ⟨?_, rfl, rfl, rfl⟩, h.id, h.state, h.threadId, fun _ hne => absurd hth hne⟩
      apply Table.ext
      intro j
      simp only [State.setTask, State.addQueued, State.removeQueued, State.deleteRow, Table.get_set,
        Table.get_delete]
      split_ifs <;> rfl
    · have hmove := (h.movable (ho rfl) hth).reschedule h.heads row hth h.state hf' hhand
      have hset : (s.setTask u).setTask { u with scheduledAt := scheduledAt } =
          s.setTask { u with scheduledAt := scheduledAt } := by
        simp only [State.setTask]
        rw [show ({ u with scheduledAt := scheduledAt } : Task).id = u.id from rfl, Table.set_set]
      rw [hset] at hmove
      refine (hmove.both (rescheduleTaskInThread_rows _ _ _)).bind (fun s1 hs1 => Ensures.ok ?_)
      obtain ⟨hs1, hkeep⟩ := hs1
      have hrow : s1.tasks.get u.id = some { u with scheduledAt := scheduledAt } := by
        rw [hkeep.tasks]
        exact Table.get_set_self _ _ _
      have hself : s1.setTask { u with scheduledAt := scheduledAt } = s1 := setTask_self hrow
      refine ⟨by rw [hself]; exact hs1, h.id, h.state, h.threadId, fun _ _ => ⟨Or.inl rfl, ?_⟩⟩
      -- as the head of its thread it is the first member, so all others are later
      intro hc thread hk hhead i hi _
      rw [hself] at hk hi
      have hle := ((hs1.settled _).first hc thread { u with scheduledAt := scheduledAt } hk
        (by rw [hhead]; exact hrow) h.state).2 i hi
      exact hmono hc _ scheduledAt _ (IndexItem.rank_time_le hle) (hf' hc)

theorem overwriteDuplicate_heads {id : TaskId} (scheduledAt : Time) (h : Heads c s)
    (row : s.tasks.get id = some t) (l : List OverwriteOnDuplicate) (payload : Bytes)
    (expiresAt : Time) (hm : t.state = .enqueued → t.threadId ≠ [] →
      OverwriteOnDuplicate.scheduledAt ∈ l →
      Movable c s t scheduledAt)
    (hf : c.tracked → c.front t.id.queue scheduledAt) (hhand : c.tracked → ∀ id, ¬c.handed id)
    (hmono : c.tracked → ∀ q x y, Time.rank x ≤ Time.rank y → c.front q x → c.front q y) :
    Ensures True (overwriteDuplicate s id l scheduledAt payload expiresAt)
      (fun a => Heads c a.1) := by
  have hid := (h.row _ _ row).1
  unfold overwriteDuplicate
  refine Ensures.ite (fun _ => Ensures.ok h) (fun _ => ?_)
  have hg : s.getTask id = .ok t := State.getTask_eq_ok.mpr row
  rw [hg]
  refine Ensures.ite (fun state => ?_) (fun _ => Ensures.ok h)
  have hself : s.setTask t = s := setTask_self (hid ▸ row)
  have h0 : Moving c (OverwriteOnDuplicate.scheduledAt ∈ l) t scheduledAt (s, t) := by
    refine ⟨by rw [hself]; exact h, rfl, state, rfl, fun hw hth => ?_⟩
    rw [hself]
    exact hm state hth hw
  refine Ensures.bind (Ensures.foldlM (fun rest a => (∀ o ∈ rest, o ∈ l) ∧
    Moving c (OverwriteOnDuplicate.scheduledAt ∈ l) t scheduledAt a) ?_ l _ ⟨fun _ ho => ho, h0⟩)
    (fun a ha => Ensures.ok ha.2.heads)
  intro o rest a ha
  refine (overwriteField_heads ha.2 payload expiresAt o (fun ho => ?_) hf hhand hmono).mono ?_
  · exact ho ▸ ha.1 o List.mem_cons_self
  · exact fun b hb => ⟨fun o' ho' => ha.1 o' (List.mem_cons_of_mem _ ho'), hb⟩

end Overwrite

end Moab
