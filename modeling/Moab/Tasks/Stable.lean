import Moab.Tasks.Refine
import Moab.Tasks.Upkeep

namespace Moab

open OrderedStore

variable [OrderedStore]

namespace Upheld

theorem congr {R W : Task → Prop} {I I' : State → Prop} (h : Upheld R W I)
    (hI : ∀ s, I' s ↔ I s) : Upheld R W I' := by
  obtain rfl : I' = I := funext (fun s => propext (hI s))
  exact h

/-- What holds of every row is kept as long as it holds of the rows that are written, and so
is what the queue states decide. -/
theorem of_records {R W : Task → Prop} {P : TaskId → Task → Prop}
    {J : Table QueueId QueueState → Prop} (read : ∀ j t, P j t → R t)
    (waiting : ∀ t, R t → t.state = .enqueued → W t) (write : ∀ t, W t → P t.id t) :
    Upheld R W (fun s => (∀ j t, s.tasks.get j = some t → P j t) ∧ J s.queueState) := by
  have hkeep : ∀ {s s' : State}, (∀ j t, s.tasks.get j = some t → P j t) ∧ J s.queueState →
      KeepsRows s s' → (∀ j t, s'.tasks.get j = some t → P j t) ∧ J s'.queueState := by
    intro s s' h hrows
    have htasks : s'.tasks = s.tasks := congrArg Rows.tasks hrows
    have hstate : s'.queueState = s.queueState := congrArg Rows.queueState hrows
    rw [htasks, hstate]
    exact h
  exact {
    read := fun s j t h ht => read j t (h.1 j t ht)
    waiting := waiting
    row := fun _ t h ht => ⟨rows_set h.1 (write t ht), h.2⟩
    erase := fun _ _ h => ⟨rows_delete h.1, h.2⟩
    attach := fun s t h _ => (attachTaskToThread_rows s t).mono (fun _ hk => hkeep h hk)
    detach := fun s t h => (detachTaskFromThread_rows s t).mono (fun _ hk => hkeep h hk)
    reschedule := fun s t old h _ =>
      (rescheduleTaskInThread_rows s t old).mono (fun _ hk => hkeep h hk)
    renew := fun _ _ _ _ h _ => h
    addQueued := fun _ _ h _ => h
    addInProgress := fun _ _ _ h _ => h
    addDead := fun _ _ h _ => h
    addExpiration := fun _ _ h _ => h
    removeQueued := fun _ _ _ h => h
    removeInProgress := fun _ _ _ h => h
    removeDead := fun _ _ _ h => h
    removeExpiration := fun _ _ h => h
    dedupeKeysIndex := fun _ _ h => h
    counters := fun _ _ h => h }

theorem of_rows {R W : Task → Prop} {P : TaskId → Task → Prop} (read : ∀ j t, P j t → R t)
    (waiting : ∀ t, R t → t.state = .enqueued → W t) (write : ∀ t, W t → P t.id t) :
    Upheld R W (fun s => ∀ j t, s.tasks.get j = some t → P j t) :=
  (of_records (J := fun _ => True) read waiting write).congr (fun _ => (and_iff_left trivial).symm)

end Upheld

/-- The tables that nothing else is derived from. -/
structure Spine where
  tasks : Table TaskId Task
  threads : Table ThreadKey Thread
  threadedTasksIndex : Index ThreadKey IndexItem
  rateLimiters : Table QueueId RateLimiterState
  purgeGCRecords : Table QueueId Unit

def State.spine (s : State) : Spine where
  tasks := s.tasks
  threads := s.threads
  threadedTasksIndex := s.threadedTasksIndex
  rateLimiters := s.rateLimiters
  purgeGCRecords := s.purgeGCRecords

/-- A property that every change to a row or a thread keeps, in whatever state the
change is made. -/
structure Stable (I : Spine → Prop) : Prop where
  row : ∀ x t, I x → t.state ≠ .invalid → I { x with tasks := x.tasks.set t.id t }
  erase : ∀ x id, I x → I { x with tasks := x.tasks.delete id }
  attach : ∀ (s : State) t, I s.spine → Ensures True (attachTaskToThread s t) (fun s' => I s'.spine)
  detach : ∀ (s : State) t, I s.spine → Ensures True (detachTaskFromThread s t)
    (fun s' => I s'.spine)
  reschedule : ∀ (s : State) t oldScheduledAt, I s.spine →
    Ensures True (rescheduleTaskInThread s t oldScheduledAt) (fun s' => I s'.spine)
  renew : ∀ (s : State) k thread visibleAt, I s.spine → s.threads.get k = some thread →
    I (s.setThread k.queue { thread with visibleAt := visibleAt }).spine

namespace Stable

variable {I : Spine → Prop} {s : State} {now : Time}

/-- The other tables play no part in a stable property. -/
theorem upheld (h : Stable I) :
    Upheld (fun _ => True) (fun t => t.state ≠ .invalid) (fun s => I s.spine) where
  read _ _ _ _ _ := trivial
  waiting _ _ state := by simp [state]
  row s t hs ht := h.row s.spine t hs ht
  erase s id hs := h.erase s.spine id hs
  attach s t hs _ := h.attach s t hs
  detach := h.detach
  reschedule s t old hs _ := h.reschedule s t old hs
  renew := h.renew
  addQueued _ _ hs _ := hs
  addInProgress _ _ _ hs _ := hs
  addDead _ _ hs _ := hs
  addExpiration _ _ hs _ := hs
  removeQueued _ _ _ hs := hs
  removeInProgress _ _ _ hs := hs
  removeDead _ _ _ hs := hs
  removeExpiration _ _ hs := hs
  dedupeKeysIndex _ _ hs := hs
  counters _ _ hs := hs

omit [OrderedStore] in
theorem failing (now : Time) (dlqConfig : Option DeadLetterQueueConfig) :
    Failing (fun _ => True) (fun t => t.state ≠ .invalid) now dlqConfig where
  die _ _ _ _ := by simp [Task.die]
  retry _ _ _ _ := by simp [Task.retry]

omit [OrderedStore] in
/-- No call writes a row without a state. -/
theorem writes (now : Time) (op : Op) :
    op.Writes (fun _ => True) (fun t => t.state ≠ .invalid) now := by
  cases op with
  | enqueue req => exact fun e _ => ⟨⟨fun _ ht => ht, fun _ ht => ht, fun _ ht => ht⟩,
      fun _ => by simp [newTask]⟩
  | dequeue req => exact ⟨failing now _, fun _ _ => by simp [Task.lease]⟩
  | reportStatus req => exact ⟨failing now _, fun _ _ _ _ _ state => by simp [state]⟩
  | restartTasks req => exact fun _ _ _ _ => by simp [Task.restart]
  | _ => trivial

theorem dequeueInProgressTasksBeforeTime (h : Stable I) (hs : I s.spine) (q : QueueId)
    (dlqConfig : Option DeadLetterQueueConfig) :
    Ensures True (dequeueInProgressTasksBeforeTime s q now dlqConfig) (fun s' => I s'.spine) :=
  h.upheld.dequeueInProgressTasksBeforeTime hs (failing now dlqConfig) q (fun _ _ hx _ => hx)

theorem dequeueTasksBeforeTime (h : Stable I) (hs : I s.spine) (q : QueueId) (limit : Time)
    (settings : Option DequeuingSettings) (keepalive : Time) :
    Ensures True (dequeueTasksBeforeTime s q now limit settings keepalive)
      (fun a => I a.1.spine) :=
  (h.upheld.dequeueTasksBeforeTime hs q limit settings (fun _ _ => by simp [Task.lease])
    (fun _ _ hx _ => hx)).mono (fun _ ha => ha.1)

/-- What only the limiters and the markers decide, no change of a row or a thread
can undo. -/
theorem of_side (J : Table QueueId RateLimiterState → Table QueueId Unit → Prop) :
    Stable (fun x => J x.rateLimiters x.purgeGCRecords) := by
  have hkeep : ∀ {s s' : State}, J s.rateLimiters s.purgeGCRecords → KeepsRows s s' →
      J s'.rateLimiters s'.purgeGCRecords := by
    intro s s' h hrows
    have hlimiters : s'.rateLimiters = s.rateLimiters := congrArg Rows.rateLimiters hrows
    have hmarkers : s'.purgeGCRecords = s.purgeGCRecords := congrArg Rows.purgeGCRecords hrows
    rw [hlimiters, hmarkers]
    exact h
  exact {
    row := fun _ _ h _ => h
    erase := fun _ _ h => h
    attach := fun s t h => (attachTaskToThread_rows s t).mono (fun _ hk => hkeep h hk)
    detach := fun s t h => (detachTaskFromThread_rows s t).mono (fun _ hk => hkeep h hk)
    reschedule := fun s t old h => (rescheduleTaskInThread_rows s t old).mono
      (fun _ hk => hkeep h hk)
    renew := fun _ _ _ _ h _ => h }

/-- Call rule: a stable property outlives every call, as far as its own changes of
the limiters and the purge markers keep it. -/
theorem exec (h : Stable I) (hs : I s.spine) (op : Op)
    (hlimit : ∀ req x limiter, op = .dequeue req → I x →
      I { x with rateLimiters := x.rateLimiters.set req.queueId limiter })
    (hpurge : ∀ q x, op = .purgeQueue q → I x →
      I { x with purgeGCRecords := x.purgeGCRecords.set q () })
    (hdrop : ∀ req q x, op = .runPurgeQueueGarbageCollection req →
      s.purgeGCRecords.get q = some () → I x → I { x with
        rateLimiters := x.rateLimiters.delete q, purgeGCRecords := x.purgeGCRecords.delete q }) :
    Ensures True (exec s now op) (fun a => I a.1.spine) :=
  (h.upheld.exec hs (writes now op) (fun _ _ _ _ hx => hx) (fun _ _ _ _ hx _ => hx)
    (fun req x limiter hop => hlimit req x.spine limiter hop)
    (fun q x hop => hpurge q x.spine hop)
    (fun req q x hop hq => hdrop req q x.spine hop hq)).mono (fun _ ha => ha.1)

end Stable

/-- Call rule for the rows, one by one. -/
theorem exec_rows {P : Task → Prop} {s : State} {now : Time} {op : Op}
    (h : ∀ id t, s.tasks.get id = some t → P t) (hw : op.Writes P P now) :
    Ensures True (exec s now op) (fun a => ∀ id t, a.1.tasks.get id = some t → P t) :=
  ((Upheld.of_rows (P := fun _ t => P t) (fun _ _ ht => ht) (fun _ ht _ => ht)
    (fun _ ht => ht)).exec h hw (fun _ _ _ _ hx => hx) (fun _ _ _ _ hx _ => hx)
    (fun _ _ _ _ hx => hx) (fun _ _ _ hx => hx) (fun _ _ _ _ _ hx => hx)).mono (fun _ ha => ha.1)

/-- Call rule for the queue states, one by one: an Enqueue writes a sequence, a Dequeue moves
the cursors, and the collection of a purged queue id resets them. -/
theorem exec_queueStates {P : QueueId → QueueState → Prop} {s : State} {now : Time} {op : Op}
    (h : ∀ q, P q (s.getQueueState q))
    (hsequence : ∀ req n, op = .enqueue req →
      P req.queueId { s.getQueueState req.queueId with taskIdSequence := n })
    (hvisit : ∀ req st st', op = .dequeue req → P req.queueId st → Visits now st st' →
      P req.queueId st')
    (hdrop : ∀ req q, op = .runPurgeQueueGarbageCollection req → P q .zero) :
    Ensures True (exec s now op) (fun a => ∀ q, P q (a.1.getQueueState q)) := by
  have hset : ∀ (x : State) q st, (∀ r, P r (x.getQueueState r)) → P q st →
      ∀ r, P r ((x.setQueueState q st).getQueueState r) := by
    intro x q st hx hst r
    unfold State.getQueueState State.setQueueState
    by_cases hr : r = q
    · rw [hr, Table.get_set_self]
      exact hst
    · rw [Table.get_set_ne _ _ hr]
      exact hx r
  have hupheld : Upheld (fun _ => True) (fun t => t.state ≠ .invalid)
      (fun s => (∀ j t, s.tasks.get j = some t → True) ∧ ∀ q, P q (s.getQueueState q)) :=
    Upheld.of_records (J := fun states => ∀ q, P q ((states.get q).getD .zero))
      (fun _ _ _ => trivial) (fun _ _ state => by simp [state]) (fun _ _ => trivial)
  refine (hupheld.exec ⟨fun _ _ _ => trivial, h⟩ (Stable.writes now op) ?_ ?_ ?_ ?_ ?_).mono
    (fun _ ha => ha.1.2)
  · exact fun req x n hop hx => ⟨hx.1, hset x _ _ hx.2 (hsequence req n hop)⟩
  · exact fun req x st hop hx hst => ⟨hx.1, hset x _ _ hx.2 (hvisit req _ st hop (hx.2 _) hst)⟩
  · exact fun _ _ _ _ hx => hx
  · exact fun _ _ _ hx => hx
  · intro req q x hop _ hx
    refine ⟨hx.1, fun r => ?_⟩
    unfold State.getQueueState dropQueue
    by_cases hr : r = q
    · rw [hr, Table.get_delete_self]
      exact hdrop req q hop
    · rw [Table.get_delete_ne _ hr]
      exact hx.2 r

end Moab
