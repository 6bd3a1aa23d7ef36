import Moab.Tasks.Scan

namespace Moab

open OrderedStore

variable [OrderedStore]

/-- What the invariant of the threads is relative to. -/
structure Scope where
  /-- Tasks may carry a thread id. -/
  threaded : Prop
  /-- The task ids given out so far. -/
  used : TaskId → Prop
  /-- The order of members and the dequeue cursor are followed too. -/
  tracked : Prop
  /-- The times a Dequeue scan can still reach. -/
  front : QueueId → Time → Prop
  /-- The tasks that may hand over the head of their thread. -/
  handed : TaskId → Prop

/-- The queue index and the threads agree with the rows, except that the record
of a thread may still carry an old time of its head. Heads and members whose row
is gone are not constrained. -/
structure Loose (c : Scope) (s : State) : Prop where
  row : ∀ id t, s.tasks.get id = some t → t.id = id ∧ c.used id ∧ (t.threadId ≠ [] → c.threaded)
  queue_row : ∀ q, ∀ i ∈ s.queueIndex.items q, ∃ t, s.tasks.get (q.task i.taskId) = some t ∧
    t.state = .enqueued ∧ (t.threadId = [] → t.scheduledAt = i.time)
  queue_free : ∀ id t, s.tasks.get id = some t → t.state = .enqueued → t.threadId = [] →
    ⟨t.scheduledAt, id.taskId⟩ ∈ s.queueIndex.items id.queue
  queue_head : ∀ q, ∀ i ∈ s.queueIndex.items q, ∀ t, s.tasks.get (q.task i.taskId) = some t →
    t.threadId ≠ [] → ∃ thread, s.threads.get ⟨q, t.threadId⟩ = some thread ∧
      thread.headTaskId = q.task i.taskId ∧ thread.scheduledAt = i.time
  queue_front : c.tracked → ∀ q, ∀ i ∈ s.queueIndex.items q, c.front q i.time
  leased_head : ∀ id t, s.tasks.get id = some t → t.state = .inProgress → t.threadId ≠ [] →
    ∃ thread, s.threads.get ⟨id.queue, t.threadId⟩ = some thread ∧ thread.headTaskId = id
  thread_key : ∀ k thread, s.threads.get k = some thread → thread.threadId = k.threadId ∧
    thread.headTaskId.queue = k.queue ∧ k.threadId ≠ [] ∧ c.threaded ∧ c.used thread.headTaskId
  head_live : ∀ k thread t, s.threads.get k = some thread →
    s.tasks.get thread.headTaskId = some t → t.live ∧ t.threadId = k.threadId
  member_key : ∀ k, ∀ i ∈ s.threadedTasksIndex.items k, k.threadId ≠ [] ∧ c.threaded ∧
    c.used (k.queue.task i.taskId)
  member_live : ∀ k, ∀ i ∈ s.threadedTasksIndex.items k, ∀ t,
    s.tasks.get (k.queue.task i.taskId) = some t →
      t.live ∧ t.threadId = k.threadId ∧ t.scheduledAt = i.time
  ahead : c.tracked → ∀ k thread, s.threads.get k = some thread → c.handed thread.headTaskId →
    ∀ i ∈ s.threadedTasksIndex.items k, k.queue.task i.taskId ≠ thread.headTaskId →
      c.front k.queue i.time

/-- The record of a thread carries the time of its head, and a head that is not
leased is the first member. -/
structure Settled (c : Scope) (s : State) (k : ThreadKey) : Prop where
  record : c.tracked → ∀ i ∈ s.threadedTasksIndex.items k, s.threads.get k ≠ none
  time : ∀ thread t, s.threads.get k = some thread → s.tasks.get thread.headTaskId = some t →
    thread.scheduledAt = t.scheduledAt
  first : c.tracked → ∀ thread t, s.threads.get k = some thread →
    s.tasks.get thread.headTaskId = some t → t.state = .enqueued →
      t.queueIndexItem ∈ s.threadedTasksIndex.items k ∧
        ∀ i ∈ s.threadedTasksIndex.items k, t.queueIndexItem ≤ i

/-- Only an unthreaded task or the head of a thread waits in the queue index, and
a leased task of a thread is its head. -/
structure Heads (c : Scope) (s : State) : Prop extends Loose c s where
  settled : ∀ k, Settled c s k

/-- No index and no thread record names the task. -/
structure Unnamed (id : TaskId) (s : State) : Prop where
  queue : ∀ q, ∀ i ∈ s.queueIndex.items q, q.task i.taskId ≠ id
  head : ∀ k thread, s.threads.get k = some thread → thread.headTaskId ≠ id
  member : ∀ k, ∀ i ∈ s.threadedTasksIndex.items k, k.queue.task i.taskId ≠ id

theorem get_setTask {s : State} {t u : Task} {j : TaskId} (h : (s.setTask t).tasks.get j = some u) :
    (j = t.id ∧ u = t) ∨ (j ≠ t.id ∧ s.tasks.get j = some u) := by
  rw [State.setTask, Table.get_set] at h
  split_ifs at h with hj
  · exact Or.inl ⟨hj, (Option.some.inj h).symm⟩
  · exact Or.inr ⟨hj, h⟩

theorem get_setTask_ne {s : State} {t u : Task} {j : TaskId} (hj : j ≠ t.id)
    (h : (s.setTask t).tasks.get j = some u) : s.tasks.get j = some u :=
  (get_setTask h).elim (fun he => absurd he.1 hj) And.right

theorem get_deleteRow {s : State} {id j : TaskId} {u : Task}
    (h : (s.deleteRow id).tasks.get j = some u) : j ≠ id ∧ s.tasks.get j = some u := by
  rw [State.deleteRow, Table.get_delete] at h
  split_ifs at h with hj
  exact ⟨hj, h⟩

/-- Writing a row that was deleted before. -/
theorem deleteRow_setTask (s : State) (t : Task) : (s.deleteRow t.id).setTask t = s.setTask t := by
  have hset : (s.tasks.delete t.id).set t.id t = s.tasks.set t.id t := by
    apply Table.ext
    intro j
    simp only [Table.get_set, Table.get_delete]
    split_ifs <;> rfl
  unfold State.deleteRow State.setTask
  rw [hset]

variable {c : Scope} {s : State} {t : Task}

/-- A thread stays settled when its head has the row it had, or one alike. -/
theorem Settled.of_rows {s' : State} {k : ThreadKey} (h : Settled c s k)
    (hth : s'.threads.get k = s.threads.get k)
    (hm : s'.threadedTasksIndex.items k = s.threadedTasksIndex.items k)
    (hr : ∀ thread u, s.threads.get k = some thread → s'.tasks.get thread.headTaskId = some u →
      ∃ v, s.tasks.get thread.headTaskId = some v ∧ u.state = v.state ∧
        u.queueIndexItem = v.queueIndexItem) : Settled c s' k := by
  refine ⟨?_, ?_, ?_⟩
  · intro hc i hi
    rw [hm] at hi
    rw [hth]
    exact h.record hc i hi
  · intro thread u hk hu
    rw [hth] at hk
    obtain ⟨v, hv, _, hitem⟩ := hr thread u hk hu
    exact (h.time thread v hk hv).trans (congrArg IndexItem.time hitem).symm
  · intro hc thread u hk hu hs
    rw [hth] at hk
    obtain ⟨v, hv, hst, hitem⟩ := hr thread u hk hu
    rw [hm, hitem]
    exact h.first hc thread v hk hv (hst ▸ hs)

theorem Heads.empty : Heads c State.empty := by
  refine ⟨⟨?_, ?_, ?_, ?_, ?_, ?_, ?_, ?_, ?_, ?_, ?_⟩, fun k => ⟨?_, ?_, ?_⟩⟩ <;>
    simp [State.empty]

theorem Heads.queueSound (h : Heads c s) : QueueSound s := by
  intro q i hi
  obtain ⟨t, ht, hs, htime⟩ := h.queue_row q i hi
  refine ⟨t, ht, hs, ?_⟩
  by_cases hth : t.threadId = []
  · exact htime hth
  · obtain ⟨thread, hthread, hhead, hti⟩ := h.queue_head q i hi t ht hth
    rw [← hti]
    exact ((h.settled _).time thread t hthread (hhead ▸ ht)).symm

/-- The same tables under another scope. -/
theorem Heads.rescope {d : Scope} (h : Heads c s) (hth : c.threaded → d.threaded)
    (hused : ∀ id, c.used id → d.used id) (htracked : d.tracked → c.tracked)
    (hfront : d.tracked → ∀ q, ∀ i ∈ s.queueIndex.items q, d.front q i.time)
    (hahead : d.tracked → ∀ k thread, s.threads.get k = some thread →
      d.handed thread.headTaskId → ∀ i ∈ s.threadedTasksIndex.items k,
        k.queue.task i.taskId ≠ thread.headTaskId → d.front k.queue i.time) : Heads d s where
  row id t ht := by
    obtain ⟨hid, hu, hthr⟩ := h.row id t ht
    exact ⟨hid, hused id hu, fun hn => hth (hthr hn)⟩
  queue_row := h.queue_row
  queue_free := h.queue_free
  queue_head := h.queue_head
  queue_front := hfront
  leased_head := h.leased_head
  thread_key k thread hk := by
    obtain ⟨h1, h2, h3, h4, h5⟩ := h.thread_key k thread hk
    exact ⟨h1, h2, h3, hth h4, hused _ h5⟩
  head_live := h.head_live
  member_key k i hi := by
    obtain ⟨h1, h2, h3⟩ := h.member_key k i hi
    exact ⟨h1, hth h2, hused _ h3⟩
  member_live := h.member_live
  ahead := hahead
  settled k := ⟨fun hd => (h.settled k).record (htracked hd), (h.settled k).time,
    fun hd => (h.settled k).first (htracked hd)⟩

/-- An id that was never given out is named nowhere. -/
theorem Heads.unused (h : Heads c s) {id : TaskId} (hn : ¬c.used id) :
    s.tasks.get id = none ∧ Unnamed id s := by
  have hrow : s.tasks.get id = none := by
    cases hg : s.tasks.get id with
    | none => rfl
    | some t => exact absurd (h.row id t hg).2.1 hn
  refine ⟨hrow, ?_, ?_, ?_⟩
  · intro q i hi he
    obtain ⟨t, ht, _⟩ := h.queue_row q i hi
    rw [he, hrow] at ht
    exact absurd ht (by simp)
  · intro k thread hk he
    exact hn (he ▸ (h.thread_key k thread hk).2.2.2.2)
  · intro k i hi he
    exact hn (he ▸ (h.member_key k i hi).2.2)

section Loose

variable (h : Loose c s)

include h

/-- A thread record whose head has a row belongs to the thread of that row. -/
theorem Loose.head_key {k : ThreadKey} {thread : Thread} (hk : s.threads.get k = some thread)
    (ht : s.tasks.get thread.headTaskId = some t) : k = t.threadKey := by
  have hq := (h.thread_key k thread hk).2.1
  have hth := (h.head_live k thread t hk ht).2
  have hid := (h.row _ _ ht).1
  cases k
  simp only [Task.threadKey, ThreadKey.mk.injEq]
  exact ⟨by rw [hid]; exact hq.symm, hth.symm⟩

/-- A member whose row exists is the item of that row in the thread of the row. -/
theorem Loose.member_item {k : ThreadKey} {i : IndexItem} (hi : i ∈ s.threadedTasksIndex.items k)
    (ht : s.tasks.get (k.queue.task i.taskId) = some t) :
    k = t.threadKey ∧ i = t.queueIndexItem := by
  obtain ⟨_, hth, htime⟩ := h.member_live k i hi t ht
  have hid := (h.row _ _ ht).1
  cases k
  cases i
  simp only [Task.threadKey, Task.queueIndexItem, ThreadKey.mk.injEq, IndexItem.mk.injEq]
  exact ⟨⟨by rw [hid]; rfl, hth.symm⟩, htime.symm, by rw [hid]; rfl⟩

end Loose

namespace Heads

/-- Every queue item of a task is the one its row tells. -/
theorem queueItem_eq (h : Heads c s) (row : s.tasks.get t.id = some t) {q : QueueId} {i : IndexItem}
    (hi : i ∈ s.queueIndex.items q) (hn : q.task i.taskId = t.id) :
    t.state = .enqueued ∧ q = t.id.queue ∧ i = t.queueIndexItem := by
  obtain ⟨u, hu, hs, htime⟩ := h.queueSound q i hi
  rw [hn, row] at hu
  obtain rfl := Option.some.inj hu
  refine ⟨hs, congrArg TaskId.queue hn, ?_⟩
  cases i
  simp only [Task.queueIndexItem, IndexItem.mk.injEq]
  exact ⟨htime.symm, congrArg TaskId.taskId hn⟩

/-- A row goes, and with it the queue items that name it. -/
theorem erase {id : TaskId} {x : Index QueueId IndexItem} (h : Heads c s)
    (hx : ∀ q i, i ∈ x.items q ↔ i ∈ s.queueIndex.items q ∧ q.task i.taskId ≠ id) :
    Heads c ({ s with queueIndex := x }.deleteRow id) := by
  refine ⟨⟨?_, ?_, ?_, ?_, ?_, ?_, h.thread_key, ?_, h.member_key, ?_, h.ahead⟩, ?_⟩
  · intro j u hu
    exact h.row j u (get_deleteRow hu).2
  · intro q i hi
    obtain ⟨hi, hne⟩ := (hx q i).mp hi
    obtain ⟨u, hu, hrest⟩ := h.queue_row q i hi
    exact ⟨u, (Table.get_delete_ne _ hne).trans hu, hrest⟩
  · intro j u hu hs hth
    obtain ⟨hj, hu⟩ := get_deleteRow hu
    exact (hx _ _).mpr ⟨h.queue_free j u hu hs hth, hj⟩
  · intro q i hi u hu
    exact h.queue_head q i ((hx q i).mp hi).1 u (get_deleteRow hu).2
  · intro hc q i hi
    exact h.queue_front hc q i ((hx q i).mp hi).1
  · intro j u hu
    exact h.leased_head j u (get_deleteRow hu).2
  · intro k thread u hk hu
    exact h.head_live k thread u hk (get_deleteRow hu).2
  · intro k i hi u hu
    exact h.member_live k i hi u (get_deleteRow hu).2
  · intro k
    exact (h.settled k).of_rows rfl rfl (fun _ u _ hu => ⟨u, (get_deleteRow hu).2, rfl, rfl⟩)

/-- The row of an enqueued task goes together with its queue item. -/
theorem forget (h : Heads c s) (row : s.tasks.get t.id = some t) :
    Heads c ((s.removeQueued t).deleteRow t.id) := by
  refine h.erase (fun q i => ?_)
  rw [Index.mem_remove]
  refine and_congr_right (fun hi => not_congr ⟨fun he => ?_, fun he => ?_⟩)
  · rw [he.1, he.2]
    exact TaskId.queue_task t.id
  · exact (h.queueItem_eq row hi he).2

/-- The row of a task that does not wait goes alone. -/
theorem eraseIdle (h : Heads c s) (row : s.tasks.get t.id = some t) (hs : t.state ≠ .enqueued) :
    Heads c (s.deleteRow t.id) := by
  refine h.erase (x := s.queueIndex) (fun q i => ⟨fun hi => ⟨hi, fun he => hs ?_⟩, And.left⟩)
  exact (h.queueItem_eq row hi he).1

/-- Once its row is gone a task without a live thread is named nowhere. -/
theorem unnamed (h : Heads c s) (row : s.tasks.get t.id = some t)
    (ht : ¬t.live ∨ t.threadId = [])
    (hq : ∀ q, ∀ i ∈ s.queueIndex.items q, q.task i.taskId ≠ t.id) : Unnamed t.id s := by
  refine ⟨hq, ?_, ?_⟩
  · intro k thread hk he
    obtain ⟨hl, hth⟩ := h.head_live k thread t hk (he ▸ row)
    rcases ht with hd | hnil
    · exact hd hl
    · exact (h.thread_key k thread hk).2.2.1 (hth ▸ hnil)
  · intro k i hi he
    obtain ⟨hl, hth, _⟩ := h.member_live k i hi t (he ▸ row)
    rcases ht with hd | hnil
    · exact hd hl
    · exact (h.member_key k i hi).1 (hth ▸ hnil)

/-- Writing a row that nothing names: a dead task, or a member of a thread that
has yet to be attached. -/
theorem put (h : Heads c s) (hn : Unnamed t.id s) (hu : c.used t.id)
    (hthr : t.threadId ≠ [] → c.threaded)
    (ht : t.state = .dead ∨ t.state = .enqueued ∧ t.threadId ≠ []) : Heads c (s.setTask t) := by
  refine ⟨⟨?_, ?_, ?_, ?_, h.queue_front, ?_, h.thread_key, ?_, h.member_key, ?_, h.ahead⟩, ?_⟩
  · intro j u hj
    rcases get_setTask hj with ⟨rfl, rfl⟩ | ⟨_, hj⟩
    · exact ⟨rfl, hu, hthr⟩
    · exact h.row j u hj
  · intro q i hi
    obtain ⟨u, hu, hrest⟩ := h.queue_row q i hi
    exact ⟨u, (Table.get_set_ne _ _ (hn.queue q i hi)).trans hu, hrest⟩
  · intro j u hj hs hth
    rcases get_setTask hj with ⟨_, rfl⟩ | ⟨_, hj⟩
    · rcases ht with hd | ⟨_, hth'⟩
      · simp [hd] at hs
      · exact absurd hth hth'
    · exact h.queue_free j u hj hs hth
  · intro q i hi u hj
    exact h.queue_head q i hi u (get_setTask_ne (hn.queue q i hi) hj)
  · intro j u hj hs hth
    rcases get_setTask hj with ⟨_, rfl⟩ | ⟨_, hj⟩
    · rcases ht with hd | ⟨he, _⟩
      · simp [hd] at hs
      · simp [he] at hs
    · exact h.leased_head j u hj hs hth
  · intro k thread u hk hj
    exact h.head_live k thread u hk (get_setTask_ne (hn.head k thread hk) hj)
  · intro k i hi u hj
    exact h.member_live k i hi u (get_setTask_ne (hn.member k i hi) hj)
  · intro k
    exact (h.settled k).of_rows rfl rfl
      (fun thread u hk hj => ⟨u, get_setTask_ne (hn.head k thread hk) hj, rfl, rfl⟩)

/-- Writing an unthreaded enqueued row together with its queue item. -/
theorem putQueued (h : Heads c s) (hn : Unnamed t.id s) (hu : c.used t.id)
    (state : t.state = .enqueued) (hth : t.threadId = [])
    (hf : c.tracked → c.front t.id.queue t.scheduledAt) : Heads c ((s.setTask t).addQueued t) := by
  have hitem : ∀ q i, i ∈ ((s.setTask t).addQueued t).queueIndex.items q →
      (q = t.id.queue ∧ i = t.queueIndexItem) ∨ i ∈ s.queueIndex.items q :=
    fun q i hi => Index.mem_add.mp hi
  refine ⟨⟨?_, ?_, ?_, ?_, ?_, ?_, h.thread_key, ?_, h.member_key, ?_, h.ahead⟩, ?_⟩
  · intro j u hj
    rcases get_setTask hj with ⟨rfl, rfl⟩ | ⟨_, hj⟩
    · exact ⟨rfl, hu, fun hne => absurd hth hne⟩
    · exact h.row j u hj
  · intro q i hi
    rcases hitem q i hi with ⟨rfl, rfl⟩ | hi
    · exact ⟨t, Table.get_set_self _ _ _, state, fun _ => rfl⟩
    · obtain ⟨u, hu, hrest⟩ := h.queue_row q i hi
      exact ⟨u, (Table.get_set_ne _ _ (hn.queue q i hi)).trans hu, hrest⟩
  · intro j u hj hs hth'
    rcases get_setTask hj with ⟨rfl, rfl⟩ | ⟨_, hj⟩
    · exact Index.mem_add.mpr (Or.inl ⟨rfl, rfl⟩)
    · exact Index.mem_add.mpr (Or.inr (h.queue_free j u hj hs hth'))
  · intro q i hi u hj hth'
    rcases hitem q i hi with ⟨rfl, rfl⟩ | hi
    · rcases get_setTask hj with ⟨_, rfl⟩ | ⟨hne, _⟩
      · exact absurd hth hth'
      · exact absurd rfl hne
    · exact h.queue_head q i hi u (get_setTask_ne (hn.queue q i hi) hj) hth'
  · intro hc q i hi
    rcases hitem q i hi with ⟨rfl, rfl⟩ | hi
    · exact hf hc
    · exact h.queue_front hc q i hi
  · intro j u hj hs hth'
    rcases get_setTask hj with ⟨_, rfl⟩ | ⟨_, hj⟩
    · exact absurd hth hth'
    · exact h.leased_head j u hj hs hth'
  · intro k thread u hk hj
    exact h.head_live k thread u hk (get_setTask_ne (hn.head k thread hk) hj)
  · intro k i hi u hj
    exact h.member_live k i hi u (get_setTask_ne (hn.member k i hi) hj)
  · intro k
    exact (h.settled k).of_rows rfl rfl
      (fun thread u hk hj => ⟨u, get_setTask_ne (hn.head k thread hk) hj, rfl, rfl⟩)

/-- Rewriting a row without changing its state, its thread or its time. -/
theorem amend {t' : Task} (h : Heads c s) (row : s.tasks.get t.id = some t) (hid : t'.id = t.id)
    (hst : t'.state = t.state) (hth : t'.threadId = t.threadId)
    (htime : t'.scheduledAt = t.scheduledAt) : Heads c (s.setTask t') := by
  -- every row read back has an old row with the same four fields
  have hold : ∀ {j u}, (s.setTask t').tasks.get j = some u → ∃ v, s.tasks.get j = some v ∧
      u.id = v.id ∧ u.state = v.state ∧ u.threadId = v.threadId ∧
      u.scheduledAt = v.scheduledAt := by
    intro j u hj
    rcases get_setTask hj with ⟨rfl, rfl⟩ | ⟨_, hj⟩
    · exact ⟨t, hid ▸ row, hid, hst, hth, htime⟩
    · exact ⟨u, hj, rfl, rfl, rfl, rfl⟩
  refine ⟨⟨?_, ?_, ?_, ?_, h.queue_front, ?_, h.thread_key, ?_, h.member_key, ?_, h.ahead⟩, ?_⟩
  · intro j u hj
    obtain ⟨v, hv, h1, _, h3, _⟩ := hold hj
    rw [h1, h3]
    exact h.row j v hv
  · intro q i hi
    obtain ⟨u, hu, hrest⟩ := h.queue_row q i hi
    by_cases he : q.task i.taskId = t.id
    · rw [he, row] at hu
      obtain rfl := Option.some.inj hu
      refine ⟨t', ?_, by rw [hst, hth, htime]; exact hrest⟩
      rw [he, ← hid]
      exact Table.get_set_self _ _ _
    · exact ⟨u, (Table.get_set_ne _ _ (hid ▸ he)).trans hu, hrest⟩
  · intro j u hj hs hnil
    obtain ⟨v, hv, _, h2, h3, h4⟩ := hold hj
    rw [h4]
    exact h.queue_free j v hv (h2 ▸ hs) (h3 ▸ hnil)
  · intro q i hi u hj hne
    obtain ⟨v, hv, _, _, h3, _⟩ := hold hj
    rw [h3]
    exact h.queue_head q i hi v hv (h3 ▸ hne)
  · intro j u hj hs hne
    obtain ⟨v, hv, _, h2, h3, _⟩ := hold hj
    rw [h3]
    exact h.leased_head j v hv (h2 ▸ hs) (h3 ▸ hne)
  · intro k thread u hk hj
    obtain ⟨v, hv, _, h2, h3, _⟩ := hold hj
    rw [h3]
    exact ⟨by rw [Task.live, h2]; exact (h.head_live k thread v hk hv).1,
      (h.head_live k thread v hk hv).2⟩
  · intro k i hi u hj
    obtain ⟨v, hv, _, h2, h3, h4⟩ := hold hj
    rw [h3, h4]
    exact ⟨by rw [Task.live, h2]; exact (h.member_live k i hi v hv).1,
      (h.member_live k i hi v hv).2⟩
  · intro k
    refine (h.settled k).of_rows rfl rfl (fun thread u hk hj => ?_)
    obtain ⟨v, hv, h1, h2, _, h4⟩ := hold hj
    exact ⟨v, hv, h2, by rw [Task.queueIndexItem, h1, h4]; rfl⟩

end Heads

end Moab
