import Moab.Framework.SortedList
import Moab.Tasks.WellFormed

namespace Moab

open OrderedStore

section Invariant

variable [OrderedStore] {s : State} {now : Time}

/-- The entry gives the queued head of a thread a later time than another member
has. The head is then replaced, but its item is looked for under the new time. -/
def displacesHead (q : QueueId) (now : Time) (s : State) (e : EnqueueRequestEntry) : Bool :=
  match (duplicateOf s q e).bind s.tasks.get with
  | none => false
  | some t => t.state = .enqueued ∧ t.threadId ≠ [] ∧
    .scheduledAt ∈ e.overwriteOnDuplicate ∧ notBefore e.scheduledAt now ≠ t.scheduledAt ∧
    t.queueIndexItem ∈ s.queueIndex.items t.id.queue ∧
    ∃ i ∈ s.threadedTasksIndex.items t.threadKey, i.taskId ≠ t.id.taskId ∧
      i < ⟨notBefore e.scheduledAt now, t.id.taskId⟩

theorem displacesHead_false {q : QueueId} {e : EnqueueRequestEntry} {id : TaskId} {t : Task}
    (h : displacesHead q now s e = false) (hd : duplicateOf s q e = some id)
    (row : s.tasks.get id = some t) (state : t.state = .enqueued) (hth : t.threadId ≠ [])
    (hw : .scheduledAt ∈ e.overwriteOnDuplicate) :
    notBefore e.scheduledAt now = t.scheduledAt ∨
      t.queueIndexItem ∉ s.queueIndex.items t.id.queue ∨
      ∀ i ∈ s.threadedTasksIndex.items t.threadKey, i.taskId ≠ t.id.taskId →
        ⟨notBefore e.scheduledAt now, t.id.taskId⟩ < i := by
  have hrow : (duplicateOf s q e).bind s.tasks.get = some t := by rw [hd]; exact row
  unfold displacesHead at h
  rw [hrow] at h
  simp only [state, hth, hw, true_and, ne_eq, not_false_eq_true, decide_eq_false_iff_not] at h
  by_cases htime : notBefore e.scheduledAt now = t.scheduledAt
  · exact Or.inl htime
  by_cases hqueued : t.queueIndexItem ∈ s.queueIndex.items t.id.queue
  · refine Or.inr (Or.inr (fun i hi hne => ?_))
    have hnot : ¬i < ⟨notBefore e.scheduledAt now, t.id.taskId⟩ :=
      fun hlt => h ⟨htime, hqueued, i, hi, hne, hlt⟩
    exact lt_of_le_of_ne (not_lt.mp hnot) (fun he => hne (by rw [← he]))
  · exact Or.inr (Or.inl hqueued)

/-- No entry of the call, in the state it finds, displaces a queued head. -/
def Call.keepsHeads (s : State) (c : Call) : Prop :=
  match c.op with
  | .enqueue req => Along (enqueueStep req.queueId c.now)
      (fun a e => displacesHead req.queueId c.now a.1 e = false)
      (s, sequenceOf s.queueState req.queueId) req.entries
  | _ => True

instance (s : State) (c : Call) : Decidable (c.keepsHeads s) :=
  match c with
  | ⟨_, .enqueue _⟩ => inferInstanceAs (Decidable (Along _ _ _ _))
  | ⟨_, .dequeue _⟩ | ⟨_, .reportStatus _⟩ | ⟨_, .deleteTasks _⟩ | ⟨_, .restartTasks _⟩ |
    ⟨_, .purgeQueue _⟩ | ⟨_, .runTasksGarbageCollection _⟩ |
    ⟨_, .runPurgeQueueGarbageCollection _⟩ => .isTrue trivial

/-- Where the order of members is not followed, a call is safe if it displaces
no queued head. -/
theorem Call.keepsHeads.safe {th : Prop} {c : Call} (h : c.keepsHeads s)
    (hp : c.op.collectsPurged = false) : c.op.Safe (s.scope th False) s c.now := by
  obtain ⟨now, op⟩ := c
  cases op with
  | enqueue req =>
    refine ⟨⟨False.elim, False.elim, False.elim⟩, Along.imp h (fun a e he => ?_)⟩
    intro _ id t hd row state hth hw
    exact ⟨displacesHead_false he hd row state hth hw, False.elim⟩
  | dequeue req | reportStatus req | deleteTasks req => exact False.elim
  | restartTasks req => exact ⟨False.elim, False.elim, False.elim⟩
  | purgeQueue q => trivial
  | runTasksGarbageCollection req => exact False.elim
  | runPurgeQueueGarbageCollection req => simp [Op.collectsPurged] at hp

theorem run_sound (calls : List Call) (h : Along runStep Call.keepsHeads State.empty calls)
    (hp : ∀ c ∈ calls, c.op.collectsPurged = false) : Sound True False (run State.empty calls) :=
  run_keeps (fun _ _ hs hc => commit_sound hs (fun _ => trivial) False.elim False.elim
    (hc.1.safe hc.2)) calls _ (h.and_forall hp) Sound.empty

/-- Task n of the queue is in the thread. -/
def InThread (s : State) (k : ThreadKey) (n : Nat) (t : Task) : Prop :=
  s.tasks.get (k.queue.task n) = some t ∧ t.threadId = k.threadId

/-- At most one task of the thread is being worked, at most one waits in the
queue index, and none waits there while one is being worked. -/
structure Exclusive (s : State) (k : ThreadKey) : Prop where
  leased : ∀ m n t u, InThread s k m t → InThread s k n u → t.state = .inProgress →
    u.state = .inProgress → m = n
  queued : ∀ i ∈ s.queueIndex.items k.queue, ∀ j ∈ s.queueIndex.items k.queue, ∀ t u,
    InThread s k i.taskId t → InThread s k j.taskId u → i = j
  waits : ∀ i ∈ s.queueIndex.items k.queue, ∀ t, InThread s k i.taskId t →
    ∀ n u, InThread s k n u → u.state ≠ .inProgress

/-- Who waits or is worked is the head of the thread, and a thread has one head. -/
theorem Heads.exclusive {c : Scope} (h : Heads c s) {k : ThreadKey} (hk : k.threadId ≠ []) :
    Exclusive s k := by
  have hleased : ∀ {n u}, InThread s k n u → u.state = .inProgress →
      ∃ thread, s.threads.get k = some thread ∧ thread.headTaskId = k.queue.task n := by
    intro n u hu state
    obtain ⟨thread, hget, hhead⟩ := h.leased_head _ u hu.1 state (hu.2 ▸ hk)
    rw [hu.2] at hget
    exact ⟨thread, hget, hhead⟩
  have hqueued : ∀ {i t}, i ∈ s.queueIndex.items k.queue → InThread s k i.taskId t →
      ∃ thread, s.threads.get k = some thread ∧ thread.headTaskId = k.queue.task i.taskId ∧
        thread.scheduledAt = i.time := by
    intro i t hi ht
    obtain ⟨thread, hget, hhead⟩ := h.queue_head _ i hi t ht.1 (ht.2 ▸ hk)
    rw [ht.2] at hget
    exact ⟨thread, hget, hhead⟩
  refine ⟨?_, ?_, ?_⟩
  · intro m n t u ht hu st su
    obtain ⟨a, ha, hm⟩ := hleased ht st
    obtain ⟨b, hb, hn⟩ := hleased hu su
    obtain rfl := Option.some.inj (ha.symm.trans hb)
    exact (QueueId.task_inj (hm.symm.trans hn)).2
  · intro i hi j hj t u ht hu
    obtain ⟨a, ha, hm, hta⟩ := hqueued hi ht
    obtain ⟨b, hb, hn, htb⟩ := hqueued hj hu
    obtain rfl := Option.some.inj (ha.symm.trans hb)
    have hid := (QueueId.task_inj (hm.symm.trans hn)).2
    cases i; cases j
    simp_all
  · intro i hi t ht n u hu su
    obtain ⟨a, ha, hm, _⟩ := hqueued hi ht
    obtain ⟨b, hb, hn⟩ := hleased hu su
    obtain rfl := Option.some.inj (ha.symm.trans hb)
    -- the queued task is enqueued, so it is not the one being worked
    obtain ⟨v, hv, sv, _⟩ := h.queue_row _ i hi
    rw [(QueueId.task_inj (hm.symm.trans hn)).2, hu.1] at hv
    rw [← Option.some.inj hv, su] at sv
    exact absurd sv (by simp)

/-- In every run in which no Enqueue displaces a queued head, threads are mutually
exclusive in every state. -/
theorem run_exclusive (calls : List Call) (hp : ∀ c ∈ calls, c.op.collectsPurged = false)
    (h : Along runStep Call.keepsHeads State.empty calls) (k : ThreadKey) (hk : k.threadId ≠ []) :
    Exclusive (run State.empty calls) k :=
  (run_sound calls h hp).heads.exclusive hk

/-- A run without displaced heads whose last state is linked. -/
theorem run_wellFormed {calls : List Call} (hp : ∀ c ∈ calls, c.op.collectsPurged = false)
    (hk : Along runStep Call.keepsHeads State.empty calls) (hl : Linked (run State.empty calls)) :
    WellFormed (run State.empty calls) :=
  hl.wellFormed (run_filed calls) (run_sound calls hk hp)

end Invariant

section Runs

def threadEntry (scheduledAt : Time) (dedupeKey : Bytes) (overwrites : List OverwriteOnDuplicate) :
    EnqueueRequestEntry :=
  ⟨[], scheduledAt, 1000, dedupeKey, none, overwrites, [7]⟩

def threadQueue : QueueId := ⟨1, 1⟩

def dequeueAll : DequeueRequest := ⟨threadQueue, none, 10, none, 60⟩

/-- Two members; the first is moved ahead in time, but stays the earlier one. -/
def movingRun : List Call :=
  [⟨5, .enqueue ⟨threadQueue, [threadEntry 10 [1] [], threadEntry 20 [] []]⟩⟩,
    ⟨5, .enqueue ⟨threadQueue, [threadEntry 15 [1] [.scheduledAt]]⟩⟩,
    ⟨40, .dequeue dequeueAll⟩]

theorem run_exclusive_moving : Exclusive (run State.empty movingRun) ⟨threadQueue, [7]⟩ :=
  run_exclusive movingRun (by decide +kernel) (by decide +kernel) _ (by simp)

/-- The first member is moved behind the second. -/
def displacingRun : List Call :=
  [⟨5, .enqueue ⟨threadQueue, [threadEntry 10 [1] [], threadEntry 20 [] []]⟩⟩,
    ⟨5, .enqueue ⟨threadQueue, [threadEntry 30 [1] [.scheduledAt]]⟩⟩,
    ⟨40, .dequeue dequeueAll⟩]

/-- Both members are then handed out at once. -/
theorem run_displacing_not_exclusive :
    ¬Exclusive (run State.empty displacingRun) ⟨threadQueue, [7]⟩ := by
  intro h
  have hstate : ∀ n ∈ [1, 2], ∃ t, (run State.empty displacingRun).tasks.get (threadQueue.task n) =
      some t ∧ t.threadId = [7] ∧ t.state = .inProgress := by
    intro n hn
    have hsome : ((run State.empty displacingRun).tasks.get (threadQueue.task n)).any
        (fun t => t.threadId = [7] ∧ t.state = .inProgress) = true := by
      revert n
      decide +kernel
    obtain ⟨t, ht, hp⟩ := (Option.any_eq_true _ _).mp hsome
    exact ⟨t, ht, of_decide_eq_true hp⟩
  obtain ⟨t, ht, hth, st⟩ := hstate 1 (by simp)
  obtain ⟨u, hu, hth', su⟩ := hstate 2 (by simp)
  exact absurd (h.leased 1 2 t u ⟨ht, hth⟩ ⟨hu, hth'⟩ st su) (by decide)

end Runs

end Moab
