import Moab.Tasks.Heads

namespace Moab

open OrderedStore

variable [OrderedStore]

variable {c : Scope} {s : State} {k : ThreadKey} {thread : Thread} {t : Task}

theorem setThread_eq (h : thread.threadId = k.threadId) :
    s.setThread k.queue thread = { s with threads := s.threads.set k thread } := by
  rw [State.setThread, h]

theorem get_setThread {x : Table ThreadKey Thread} {thread' thr : Thread} {j : ThreadKey}
    (h : (x.set k thread').get j = some thr) :
    (j = k ∧ thr = thread') ∨ (j ≠ k ∧ x.get j = some thr) := by
  rw [Table.get_set] at h
  split_ifs at h with hj
  · exact Or.inl ⟨hj, (Option.some.inj h).symm⟩
  · exact Or.inr ⟨hj, h⟩

/-- The first member of a thread is the row of the least item of its index. -/
theorem firstMember_some {err : Bytes → Nat → CoreError} (hk : thread.threadId = k.threadId)
    (h : firstMember s k.queue thread err = .ok (some t)) :
    ∃ i l, s.threadedTasksIndex.items k = i :: l ∧
      s.tasks.get (k.queue.task i.taskId) = some t := by
  unfold firstMember at h
  rw [hk, show (⟨k.queue, k.threadId⟩ : ThreadKey) = k from rfl] at h
  cases hl : s.threadedTasksIndex.items k with
  | nil =>
    rw [hl] at h
    exact absurd h (by simp)
  | cons i l =>
    rw [hl] at h
    cases hg : s.tasks.get (k.queue.task i.taskId) with
    | none => simp [hg] at h
    | some u =>
      simp only [hg, Except.ok.injEq, Option.some.injEq] at h
      exact ⟨i, l, rfl, hg.trans (congrArg some h)⟩

theorem firstMember_none {err : Bytes → Nat → CoreError} (hk : thread.threadId = k.threadId)
    (h : firstMember s k.queue thread err = .ok none) : s.threadedTasksIndex.items k = [] := by
  unfold firstMember at h
  rw [hk, show (⟨k.queue, k.threadId⟩ : ThreadKey) = k from rfl] at h
  cases hl : s.threadedTasksIndex.items k with
  | nil => rfl
  | cons i l =>
    rw [hl] at h
    cases hg : s.tasks.get (k.queue.task i.taskId) <;> simp [hg] at h

/-- The task is the first member of the thread. -/
structure First (s : State) (k : ThreadKey) (t : Task) : Prop where
  row : s.tasks.get t.id = some t
  key : t.threadKey = k
  live : t.live
  mem : t.queueIndexItem ∈ s.threadedTasksIndex.items k
  le : ∀ i ∈ s.threadedTasksIndex.items k, t.queueIndexItem ≤ i

theorem Settled.requeue (h : Settled c s k) (x : Index QueueId IndexItem) :
    Settled c { s with queueIndex := x } k :=
  ⟨h.record, h.time, h.first⟩

/-- Every thread is settled after the record of one is rewritten. -/
theorem Settled.write {thread' : Thread} {x : Index QueueId IndexItem}
    (others : ∀ j, j ≠ k → Settled c s j)
    (time : ∀ u, s.tasks.get thread'.headTaskId = some u → thread'.scheduledAt = u.scheduledAt)
    (first : c.tracked → ∀ u, s.tasks.get thread'.headTaskId = some u → u.state = .enqueued →
      u.queueIndexItem ∈ s.threadedTasksIndex.items k ∧
        ∀ i ∈ s.threadedTasksIndex.items k, u.queueIndexItem ≤ i) (j : ThreadKey) :
    Settled c { s with threads := s.threads.set k thread', queueIndex := x } j := by
  by_cases hj : j = k
  · subst hj
    have hget := Table.get_set_self s.threads j thread'
    refine ⟨fun _ _ _ => by simp [hget], fun thr u hthr hu => ?_, fun hc thr u hthr hu => ?_⟩
    · obtain rfl := Option.some.inj (hget.symm.trans hthr)
      exact time u hu
    · obtain rfl := Option.some.inj (hget.symm.trans hthr)
      exact first hc u hu
  · exact (others j hj).of_rows (Table.get_set_ne _ _ hj) rfl (fun _ u _ hu => ⟨u, hu, rfl, rfl⟩)

theorem First.requeue (h : First s k t) (x : Index QueueId IndexItem) :
    First { s with queueIndex := x } k t :=
  ⟨h.row, h.key, h.live, h.mem, h.le⟩

theorem Loose.first (h : Loose c s) {err : Bytes → Nat → CoreError}
    (hk : thread.threadId = k.threadId) (he : firstMember s k.queue thread err = .ok (some t)) :
    First s k t := by
  obtain ⟨i, l, hl, row⟩ := firstMember_some hk he
  have hi : i ∈ s.threadedTasksIndex.items k := by simp [hl]
  obtain ⟨hkey, rfl⟩ := h.member_item hi row
  have hid := (h.row _ _ row).1
  refine ⟨by rw [hid]; exact row, hkey.symm, (h.member_live k _ hi t row).1, hi, ?_⟩
  intro j hj
  exact Index.head_le hl hj

section Promote

/-- A task that heads its thread belongs to another thread than one whose head is
gone. -/
theorem headless (hk : s.threads.get k = some thread)
    (gone : s.tasks.get thread.headTaskId = none) {id : TaskId} (row : s.tasks.get id = some t)
    {thr : Thread} (hget : s.threads.get ⟨id.queue, t.threadId⟩ = some thr)
    (hhead : thr.headTaskId = id) : (⟨id.queue, t.threadId⟩ : ThreadKey) ≠ k := by
  intro he
  rw [he, hk] at hget
  rw [Option.some.inj hget, hhead, row] at gone
  exact absurd gone (by simp)

/-- The record of a thread without head and members is dropped. -/
theorem Heads.dropThread (h : Heads c s) (hk : s.threads.get k = some thread)
    (gone : s.tasks.get thread.headTaskId = none) (empty : s.threadedTasksIndex.items k = []) :
    Heads c { s with threads := s.threads.delete k } := by
  have hold : ∀ {j thr}, (s.threads.delete k).get j = some thr → s.threads.get j = some thr := by
    intro j thr hj
    rw [Table.get_delete] at hj
    split_ifs at hj
    exact hj
  refine ⟨⟨h.row, h.queue_row, h.queue_free, ?_, h.queue_front, ?_, ?_, ?_, h.member_key,
    h.member_live, ?_⟩, ?_⟩
  · intro q i hi t ht hth
    obtain ⟨thr, hthr, hhead, htime⟩ := h.queue_head q i hi t ht hth
    have hne := headless hk gone ht hthr hhead
    exact ⟨thr, (Table.get_delete_ne _ hne).trans hthr, hhead, htime⟩
  · intro id t ht hs hth
    obtain ⟨thr, hthr, hhead⟩ := h.leased_head id t ht hs hth
    have hne := headless hk gone ht hthr hhead
    exact ⟨thr, (Table.get_delete_ne _ hne).trans hthr, hhead⟩
  · intro j thr hj
    exact h.thread_key j thr (hold hj)
  · intro j thr t hj
    exact h.head_live j thr t (hold hj)
  · intro hc j thr hj
    exact h.ahead hc j thr (hold hj)
  · intro j
    refine ⟨?_, fun thr t hj => (h.settled j).time thr t (hold hj),
      fun hc thr t hj => (h.settled j).first hc thr t (hold hj)⟩
    intro hc i hi
    have hne : j ≠ k := by
      intro he
      rw [he] at hi
      simp [empty] at hi
    have hget : (s.threads.delete k).get j = s.threads.get j := Table.get_delete_ne _ hne
    change (s.threads.delete k).get j ≠ none
    rw [hget]
    exact (h.settled j).record hc i hi

/-- None of the tasks of a thread is queued or leased. -/
structure Idle (s : State) (k : ThreadKey) : Prop where
  queue : ∀ i ∈ s.queueIndex.items k.queue, ∀ u, s.tasks.get (k.queue.task i.taskId) = some u →
    u.threadId ≠ k.threadId
  leased : ∀ id u, s.tasks.get id = some u → id.queue = k.queue → u.threadId = k.threadId →
    u.state ≠ .inProgress

/-- A thread whose head is gone is idle. -/
theorem Loose.idle (h : Loose c s) (hk : s.threads.get k = some thread)
    (gone : s.tasks.get thread.headTaskId = none) : Idle s k := by
  have hne := (h.thread_key k thread hk).2.2.1
  refine ⟨?_, ?_⟩
  · intro i hi u hu hth
    obtain ⟨thr, hthr, hh, _⟩ := h.queue_head k.queue i hi u hu (hth ▸ hne)
    exact headless hk gone hu hthr hh (by rw [hth]; rfl)
  · intro id u hu hq hth hs
    obtain ⟨thr, hthr, hh⟩ := h.leased_head id u hu hs (hth ▸ hne)
    exact headless hk gone hu hthr hh (by rw [hq, hth])

theorem Idle.first (h : Idle s k) (ht : First s k t) : t.state = .enqueued := by
  obtain ⟨row, rfl, hlive, _, _⟩ := ht
  have hn := h.leased t.id t row rfl rfl
  cases hs : t.state <;> simp_all [Task.live]

/-- A member takes over an idle thread. -/
theorem Heads.takeOver {thread' : Thread} (h : Loose c s) (hs : ∀ j, j ≠ k → Settled c s j)
    (idle : Idle s k) (hk : k.threadId ≠ []) (row : s.tasks.get t.id = some t)
    (hkey : t.threadKey = k) (state : t.state = .enqueued)
    (first : c.tracked → t.queueIndexItem ∈ s.threadedTasksIndex.items k ∧
      ∀ i ∈ s.threadedTasksIndex.items k, t.queueIndexItem ≤ i)
    (hfront : c.tracked → c.front k.queue t.scheduledAt)
    (hahead : c.tracked → c.handed t.id → ∀ i ∈ s.threadedTasksIndex.items k,
      k.queue.task i.taskId ≠ t.id → c.front k.queue i.time)
    (hid : thread'.threadId = k.threadId) (hhead : thread'.headTaskId = t.id)
    (htime : thread'.scheduledAt = t.scheduledAt) :
    Heads c { s with
      threads := s.threads.set k thread'
      queueIndex := s.queueIndex.add k.queue t.queueIndexItem } := by
  subst hkey
  have htask : t.threadKey.queue.task t.queueIndexItem.taskId = t.id := TaskId.queue_task t.id
  refine ⟨⟨h.row, ?_, ?_, ?_, ?_, ?_, ?_, ?_, h.member_key, h.member_live, ?_⟩, ?_⟩
  · intro q i hi
    rcases Index.mem_add.mp hi with ⟨rfl, rfl⟩ | hi
    · exact ⟨t, by rw [htask]; exact row, state, fun hn => absurd hn hk⟩
    · exact h.queue_row q i hi
  · intro id u hu hst hn
    exact Index.mem_add.mpr (Or.inr (h.queue_free id u hu hst hn))
  · intro q i hi u hu hn
    rcases Index.mem_add.mp hi with ⟨rfl, rfl⟩ | hi
    · rw [htask, row] at hu
      obtain rfl := Option.some.inj hu
      exact ⟨thread', Table.get_set_self _ _ _, hhead.trans htask.symm, htime⟩
    · obtain ⟨thr, hthr, hh, hti⟩ := h.queue_head q i hi u hu hn
      have hne : (⟨q, u.threadId⟩ : ThreadKey) ≠ t.threadKey := by
        intro he
        have hq : q = t.threadKey.queue := congrArg ThreadKey.queue he
        subst hq
        exact idle.queue i hi u hu (congrArg ThreadKey.threadId he)
      exact ⟨thr, (Table.get_set_ne _ _ hne).trans hthr, hh, hti⟩
  · intro hc q i hi
    rcases Index.mem_add.mp hi with ⟨rfl, rfl⟩ | hi
    · exact hfront hc
    · exact h.queue_front hc q i hi
  · intro id u hu hst hn
    obtain ⟨thr, hthr, hh⟩ := h.leased_head id u hu hst hn
    have hne : (⟨id.queue, u.threadId⟩ : ThreadKey) ≠ t.threadKey := by
      intro he
      exact idle.leased id u hu (congrArg ThreadKey.queue he) (congrArg ThreadKey.threadId he) hst
    exact ⟨thr, (Table.get_set_ne _ _ hne).trans hthr, hh⟩
  · intro j thr hj
    rcases get_setThread hj with ⟨rfl, rfl⟩ | ⟨_, hj⟩
    · obtain ⟨_, hu, hthr⟩ := h.row _ _ row
      exact ⟨hid, by rw [hhead]; rfl, hk, hthr hk, hhead ▸ hu⟩
    · exact h.thread_key j thr hj
  · intro j thr u hj hu
    rcases get_setThread hj with ⟨rfl, rfl⟩ | ⟨_, hj⟩
    · rw [hhead, row] at hu
      obtain rfl := Option.some.inj hu
      exact ⟨by simp [Task.live, state], rfl⟩
    · exact h.head_live j thr u hj hu
  · intro hc j thr hj hh i hi hne
    rcases get_setThread hj with ⟨rfl, rfl⟩ | ⟨_, hj⟩
    · rw [hhead] at hh hne
      exact hahead hc hh i hi hne
    · exact h.ahead hc j thr hj hh i hi hne
  · refine Settled.write hs (fun u hu => ?_) (fun hc u hu _ => ?_)
    · rw [hhead, row] at hu
      obtain rfl := Option.some.inj hu
      exact htime
    · rw [hhead, row] at hu
      obtain rfl := Option.some.inj hu
      exact first hc

/-- After a promotion the invariant holds, and a new head is a task that exists. -/
structure Promoted (c : Scope) (s : State) (k : ThreadKey) (s' : State) : Prop where
  heads : Heads c s'
  members : s'.threadedTasksIndex = s.threadedTasksIndex
  threads : ∀ j thr, s'.threads.get j = some thr →
    (j ≠ k ∧ s.threads.get j = some thr) ∨ s.tasks.get thr.headTaskId ≠ none

/-- Promotion in a thread whose head is gone. What is promoted can still be
reached by a scan. -/
theorem promoteNextThreadHead_heads (h : Heads c s) (hk : s.threads.get k = some thread)
    (gone : s.tasks.get thread.headTaskId = none)
    (hfront : c.tracked → ∀ i ∈ s.threadedTasksIndex.items k, c.front k.queue i.time) :
    Ensures True (promoteNextThreadHead s k.queue thread) (Promoted c s k) := by
  obtain ⟨hid, _, hne, _⟩ := h.thread_key k thread hk
  have idle := h.idle hk gone
  unfold promoteNextThreadHead
  refine Ensures.bind (P := fun a => firstMember s k.queue thread .getNextHead = .ok a)
    (Ensures.of_eq (fun a ha => ha) (fun _ _ => trivial)) ?_
  intro a ha
  cases a with
  | none =>
    apply Ensures.ok
    rw [hid]
    refine ⟨h.dropThread hk gone (firstMember_none hid ha), rfl, ?_⟩
    intro j thr hj
    rw [Table.get_delete] at hj
    split_ifs at hj with hjk
    exact Or.inl ⟨hjk, hj⟩
  | some t =>
    have first := h.first hid ha
    have state := idle.first first
    apply Ensures.ok
    rw [setThread_eq (by exact hid)]
    refine ⟨?_, rfl, ?_⟩
    · exact Heads.takeOver h.toLoose (fun j _ => h.settled j) idle hne first.row first.key state
        (fun _ => ⟨first.mem, first.le⟩)
        (fun hc => hfront hc _ first.mem) (fun hc _ i hi _ => hfront hc i hi) hid rfl rfl
    · intro j thr hj
      rcases get_setThread hj with ⟨_, rfl⟩ | hj
      · exact Or.inr (by simp [first.row])
      · exact Or.inl hj

end Promote

section Detach

/-- Only its own thread names a task, as the head or under its own item. -/
structure Enrolled (t : Task) (s : State) : Prop where
  head : ∀ k thread, s.threads.get k = some thread → thread.headTaskId = t.id → k = t.threadKey
  member : ∀ k, ∀ i ∈ s.threadedTasksIndex.items k, k.queue.task i.taskId = t.id →
    k = t.threadKey ∧ i = t.queueIndexItem

theorem Loose.enrolled (h : Loose c s) (row : s.tasks.get t.id = some t) : Enrolled t s where
  head _ _ hk he := h.head_key hk (he ▸ row)
  member _ _ hi he := h.member_item hi (he ▸ row)

/-- A member whose row is gone leaves the index of its thread. -/
theorem Heads.dropMember {i : IndexItem} (h : Heads c s)
    (gone : s.tasks.get (k.queue.task i.taskId) = none) :
    Heads c { s with threadedTasksIndex := s.threadedTasksIndex.remove k i } := by
  have hold : ∀ {j m}, m ∈ (s.threadedTasksIndex.remove k i).items j →
      m ∈ s.threadedTasksIndex.items j := fun hm => (Index.mem_remove.mp hm).1
  refine ⟨⟨h.row, h.queue_row, h.queue_free, h.queue_head, h.queue_front, h.leased_head,
    h.thread_key, h.head_live, ?_, ?_, ?_⟩, ?_⟩
  · intro j m hm
    exact h.member_key j m (hold hm)
  · intro j m hm
    exact h.member_live j m (hold hm)
  · intro hc j thr hj hh m hm
    exact h.ahead hc j thr hj hh m (hold hm)
  · intro j
    refine ⟨fun hc m hm => (h.settled j).record hc m (hold hm), (h.settled j).time, ?_⟩
    intro hc thr u hj hu hs
    obtain ⟨hmem, hle⟩ := (h.settled j).first hc thr u hj hu hs
    refine ⟨?_, fun m hm => hle m (hold hm)⟩
    refine Index.mem_remove.mpr ⟨hmem, fun he => ?_⟩
    have hid := (h.row _ _ hu).1
    have hq := (h.thread_key j thr hj).2.1
    have hn : k.queue.task i.taskId = thr.headTaskId := by
      rw [← he.1, ← he.2, ← hq, Task.queueIndexItem, hid, TaskId.queue_task]
    rw [hn, hu] at gone
    exact absurd gone (by simp)

theorem firstMember_deleteRow {id : TaskId} {q : QueueId} {err : Bytes → Nat → CoreError}
    (hm : ∀ i ∈ s.threadedTasksIndex.items ⟨q, thread.threadId⟩, q.task i.taskId ≠ id) :
    firstMember (s.deleteRow id) q thread err = firstMember s q thread err := by
  unfold firstMember
  have hmem : (s.deleteRow id).threadedTasksIndex = s.threadedTasksIndex := rfl
  rw [hmem]
  cases hl : s.threadedTasksIndex.items ⟨q, thread.threadId⟩ with
  | nil => rfl
  | cons i l =>
    have hne := hm i (by simp [hl])
    have hget : (s.deleteRow id).tasks.get (q.task i.taskId) = s.tasks.get (q.task i.taskId) :=
      Table.get_delete_ne _ hne
    simp only [hget]

/-- A promotion does not read the row of a task that is no member any more. -/
theorem promoteNextThreadHead_deleteRow {id : TaskId} {q : QueueId}
    (hm : ∀ i ∈ s.threadedTasksIndex.items ⟨q, thread.threadId⟩, q.task i.taskId ≠ id) :
    promoteNextThreadHead (s.deleteRow id) q thread =
      (promoteNextThreadHead s q thread).map (·.deleteRow id) := by
  unfold promoteNextThreadHead
  rw [firstMember_deleteRow hm]
  cases firstMember s q thread .getNextHead with
  | error e => rfl
  | ok a =>
    cases a with
    | none => rfl
    | some t => rfl

/-- A task leaves its thread. Its row may still be there, but from here on
nothing names it. -/
theorem detachTaskFromThread_heads (h : Heads c (s.deleteRow t.id)) (he : Enrolled t s)
    (handed : c.tracked → c.handed t.id) :
    Ensures True (detachTaskFromThread s t)
      (fun s' => Heads c (s'.deleteRow t.id) ∧ Unnamed t.id s') := by
  unfold detachTaskFromThread
  dsimp only
  generalize hs1 : ({ s with
    threadedTasksIndex := s.threadedTasksIndex.remove t.threadKey t.queueIndexItem } : State) = s1
  have hgone : (s.deleteRow t.id).tasks.get
      (t.threadKey.queue.task t.queueIndexItem.taskId) = none := by
    have htask : t.threadKey.queue.task t.queueIndexItem.taskId = t.id := TaskId.queue_task t.id
    rw [htask]
    exact Table.get_delete_self _ _
  have h1 : Heads c (s1.deleteRow t.id) := by
    rw [← hs1]
    exact h.dropMember hgone
  have hm : ∀ k, ∀ i ∈ s1.threadedTasksIndex.items k, k.queue.task i.taskId ≠ t.id := by
    intro k i hi hn
    rw [← hs1] at hi
    obtain ⟨hi, hne⟩ := Index.mem_remove.mp hi
    exact hne (he.member k i hi hn)
  have hh : ∀ k thr, s1.threads.get k = some thr → thr.headTaskId = t.id → k = t.threadKey := by
    rw [← hs1]
    exact he.head
  -- a queue item has a row even without the row of t
  have hq : ∀ {s' : State}, Heads c (s'.deleteRow t.id) → ∀ q, ∀ i ∈ s'.queueIndex.items q,
      q.task i.taskId ≠ t.id := by
    intro s' hs' q i hi hn
    obtain ⟨u, hu, _⟩ := hs'.queue_row q i hi
    exact (get_deleteRow hu).1 hn
  clear hs1 hgone h
  unfold State.getThread
  cases hk : s1.threads.get t.threadKey with
  | none => exact Ensures.error trivial
  | some thread =>
    obtain ⟨hid, hqueue, _⟩ := h1.thread_key t.threadKey thread hk
    refine Ensures.ite (fun hne => Ensures.ok ⟨h1, hq h1, ?_, hm⟩) (fun heq => ?_)
    · intro k thr hkk hn
      obtain rfl := hh k thr hkk hn
      rw [hk] at hkk
      obtain rfl := Option.some.inj hkk
      exact hne (congrArg TaskId.taskId hn)
    · have hhead : thread.headTaskId = t.id := TaskId.eq_of_queue hqueue (not_not.mp heq)
      have gone : (s1.deleteRow t.id).tasks.get thread.headTaskId = none := by
        rw [hhead]
        exact Table.get_delete_self _ _
      have hfront : c.tracked → ∀ i ∈ s1.threadedTasksIndex.items t.threadKey,
          c.front t.threadKey.queue i.time := by
        intro hc i hi
        refine h1.ahead hc t.threadKey thread hk (hhead ▸ handed hc) i hi ?_
        rw [hhead]
        exact hm _ i hi
      have hp := promoteNextThreadHead_heads (k := t.threadKey) h1 hk gone hfront
      rw [promoteNextThreadHead_deleteRow (by rw [hid]; exact hm t.threadKey)] at hp
      refine hp.of_map.mono (fun s' hs' => ⟨hs'.heads, hq hs'.heads, ?_, ?_⟩)
      · intro j thr hj hn
        rcases hs'.threads j thr hj with ⟨hne, hold⟩ | hrow
        · exact hne (hh j thr hold hn)
        · exact hrow (by rw [hn]; exact Table.get_delete_self _ _)
      · have hmem : s'.threadedTasksIndex = s1.threadedTasksIndex := hs'.members
        rw [hmem]
        exact hm

end Detach

section Reconcile

/-- Taking the queue item of an enqueued head out leaves its thread idle. -/
theorem Loose.unqueue {i : IndexItem} (h : Loose c s) (hk : s.threads.get k = some thread)
    (row : s.tasks.get thread.headTaskId = some t) (state : t.state = .enqueued)
    (hi : k.queue.task i.taskId = thread.headTaskId)
    (hq : i.time = thread.scheduledAt ∨
      ∀ m ∈ s.queueIndex.items k.queue, k.queue.task m.taskId ≠ thread.headTaskId) :
    Loose c { s with queueIndex := s.queueIndex.remove k.queue i } ∧
      Idle { s with queueIndex := s.queueIndex.remove k.queue i } k := by
  obtain ⟨hid, hqueue, hne, _⟩ := h.thread_key k thread hk
  have hth := (h.head_live k thread t hk row).2
  have hold : ∀ {q m}, m ∈ (s.queueIndex.remove k.queue i).items q → m ∈ s.queueIndex.items q :=
    fun hm => (Index.mem_remove.mp hm).1
  refine ⟨⟨h.row, ?_, ?_, ?_, ?_, h.leased_head, h.thread_key, h.head_live, h.member_key,
    h.member_live, h.ahead⟩, ?_, ?_⟩
  · intro q m hm
    exact h.queue_row q m (hold hm)
  · intro id u hu hs hn
    refine Index.mem_remove.mpr ⟨h.queue_free id u hu hs hn, fun he => ?_⟩
    have hide : id = thread.headTaskId := by
      rw [← hi, ← he.1, ← he.2, TaskId.queue_task]
    rw [hide, row] at hu
    obtain rfl := Option.some.inj hu
    exact hne (hth ▸ hn)
  · intro q m hm
    exact h.queue_head q m (hold hm)
  · intro hc q m hm
    exact h.queue_front hc q m (hold hm)
  · intro m hm u hu hthu
    obtain ⟨hm, hrem⟩ := Index.mem_remove.mp hm
    obtain ⟨thr, hthr, hhead, htime⟩ := h.queue_head k.queue m hm u hu (hthu ▸ hne)
    rw [hthu, show (⟨k.queue, k.threadId⟩ : ThreadKey) = k from rfl, hk] at hthr
    obtain rfl := Option.some.inj hthr
    rcases hq with hq | hq
    · refine hrem ⟨rfl, ?_⟩
      cases m
      cases i
      simp only [IndexItem.mk.injEq]
      exact ⟨(hq.trans htime).symm, (QueueId.task_inj (hi.trans hhead)).2.symm⟩
    · exact hq m hm hhead.symm
  · intro id u hu hqu hthu hs
    obtain ⟨thr, hthr, hhead⟩ := h.leased_head id u hu hs (hthu ▸ hne)
    rw [hqu, hthu, show (⟨k.queue, k.threadId⟩ : ThreadKey) = k from rfl, hk] at hthr
    obtain rfl := Option.some.inj hthr
    rw [hhead, hu] at row
    obtain rfl := Option.some.inj row
    simp [state] at hs

/-- Rewriting the record of a thread. Its time matters only while the head waits. -/
theorem Loose.rewriteThread {thread' : Thread} (h : Loose c s) (hk : s.threads.get k = some thread)
    (hid : thread'.threadId = thread.threadId) (hhead : thread'.headTaskId = thread.headTaskId)
    (htime : thread'.scheduledAt = thread.scheduledAt ∨
      ∀ u, s.tasks.get thread.headTaskId = some u → u.state ≠ .enqueued) :
    Loose c { s with threads := s.threads.set k thread' } := by
  refine ⟨h.row, h.queue_row, h.queue_free, ?_, h.queue_front, ?_, ?_, ?_, h.member_key,
    h.member_live, ?_⟩
  · intro q i hi u hu hn
    obtain ⟨thr, hthr, hh, hti⟩ := h.queue_head q i hi u hu hn
    by_cases he : (⟨q, u.threadId⟩ : ThreadKey) = k
    · rw [he, hk] at hthr
      obtain rfl := Option.some.inj hthr
      refine ⟨thread', by rw [he]; exact Table.get_set_self _ _ _, hhead.trans hh, ?_⟩
      rcases htime with htime | hidle
      · exact htime.trans hti
      · obtain ⟨v, hv, hs, _⟩ := h.queue_row q i hi
        exact absurd hs (hidle v (by rw [hh]; exact hv))
    · exact ⟨thr, (Table.get_set_ne _ _ he).trans hthr, hh, hti⟩
  · intro id u hu hs hn
    obtain ⟨thr, hthr, hh⟩ := h.leased_head id u hu hs hn
    by_cases he : (⟨id.queue, u.threadId⟩ : ThreadKey) = k
    · rw [he, hk] at hthr
      obtain rfl := Option.some.inj hthr
      exact ⟨thread', by rw [he]; exact Table.get_set_self _ _ _, hhead.trans hh⟩
    · exact ⟨thr, (Table.get_set_ne _ _ he).trans hthr, hh⟩
  · intro j thr hj
    rcases get_setThread hj with ⟨rfl, rfl⟩ | ⟨_, hj⟩
    · rw [hid, hhead]
      exact h.thread_key j thread hk
    · exact h.thread_key j thr hj
  · intro j thr u hj hu
    rcases get_setThread hj with ⟨rfl, rfl⟩ | ⟨_, hj⟩
    · exact h.head_live j thread u hk (hhead ▸ hu)
    · exact h.head_live j thr u hj hu
  · intro hc j thr hj hh i hi hne
    rcases get_setThread hj with ⟨rfl, rfl⟩ | ⟨_, hj⟩
    · rw [hhead] at hh hne
      exact h.ahead hc j thread hk hh i hi hne
    · exact h.ahead hc j thr hj hh i hi hne

/-- The lease of a thread's head changes nothing else. -/
theorem Heads.setVisible (h : Heads c s) (hk : s.threads.get k = some thread) (visibleAt : Time) :
    Heads c { s with threads := s.threads.set k { thread with visibleAt := visibleAt } } := by
  refine ⟨h.rewriteThread hk rfl rfl (Or.inl rfl), ?_⟩
  exact Settled.write (fun j _ => h.settled j) (fun u => (h.settled k).time thread u hk)
    (fun hc u => (h.settled k).first hc thread u hk)

/-- What reconciling a thread relies on. A head that is about to be replaced is
queued under its own time or not at all, and what enters the queue index can
still be reached by a scan. -/
structure Unsettled (c : Scope) (s : State) (k : ThreadKey) (thread : Thread) : Prop where
  loose : Loose c s
  others : ∀ j, j ≠ k → Settled c s j
  stale : ∀ head e, s.tasks.get thread.headTaskId = some head → First s k e → e.id ≠ head.id →
    thread.scheduledAt = head.scheduledAt ∨ head.state = .enqueued ∧
      ∀ m ∈ s.queueIndex.items k.queue, k.queue.task m.taskId ≠ thread.headTaskId
  front : c.tracked → ∀ head e, s.tasks.get thread.headTaskId = some head → First s k e →
    head.state = .enqueued → e.id ≠ head.id ∨ thread.scheduledAt ≠ head.scheduledAt →
      c.front k.queue e.scheduledAt
  ahead : c.tracked → ∀ e, First s k e → c.handed e.id → ∀ i ∈ s.threadedTasksIndex.items k,
    k.queue.task i.taskId ≠ e.id → c.front k.queue i.time

/-- A thread that needs no new head. -/
theorem Unsettled.keep (h : Unsettled c s k thread) (hk : s.threads.get k = some thread)
    {head : Task} (row : s.tasks.get thread.headTaskId = some head)
    (htime : thread.scheduledAt = head.scheduledAt)
    (first : head.state = .enqueued → First s k head) : Heads c s := by
  refine ⟨h.loose, fun j => ?_⟩
  by_cases hj : j = k
  · subst hj
    refine ⟨fun _ _ _ => by simp [hk], fun thr u hthr hu => ?_, fun _ thr u hthr hu hs => ?_⟩
    · obtain rfl := Option.some.inj (hk.symm.trans hthr)
      obtain rfl := Option.some.inj (row.symm.trans hu)
      exact htime
    · obtain rfl := Option.some.inj (hk.symm.trans hthr)
      obtain rfl := Option.some.inj (row.symm.trans hu)
      exact ⟨(first hs).mem, (first hs).le⟩
  · exact h.others j hj

/-- The head stays, under a new time. -/
theorem rescheduleHead_heads (h : Unsettled c s k thread) (hk : s.threads.get k = some thread)
    {head : Task} (row : s.tasks.get thread.headTaskId = some head) (first : First s k head)
    (htime : thread.scheduledAt ≠ head.scheduledAt) :
    Heads c (rescheduleHead s k.queue thread head head) := by
  obtain ⟨hid, hqueue, hne, _⟩ := h.loose.thread_key k thread hk
  have hhead := (h.loose.row _ _ row).1
  unfold rescheduleHead
  by_cases state : head.state = .enqueued
  · rw [if_pos state, setThread_eq (by exact hid)]
    have hitem : k.queue.task head.id.taskId = thread.headTaskId := by
      rw [hhead, ← hqueue, TaskId.queue_task]
    obtain ⟨hloose, hidle⟩ := h.loose.unqueue
      (i := ⟨thread.scheduledAt, head.id.taskId⟩) hk row state hitem (Or.inl rfl)
    exact Heads.takeOver hloose (fun j hj => (h.others j hj).requeue _) hidle hne
      first.row first.key state (fun _ => ⟨first.mem, first.le⟩)
      (fun hc => h.front hc head head row first state (Or.inr htime))
      (fun hc => h.ahead hc head first) hid hhead.symm rfl
  · rw [if_neg state, setThread_eq (by exact hid)]
    refine ⟨h.loose.rewriteThread hk rfl rfl (Or.inr fun u hu => ?_), ?_⟩
    · obtain rfl := Option.some.inj (row.symm.trans hu)
      exact state
    · refine Settled.write h.others (fun u hu => ?_) (fun _ u hu hs => ?_)
      · obtain rfl := Option.some.inj (row.symm.trans hu)
        rfl
      · obtain rfl := Option.some.inj (row.symm.trans hu)
        exact absurd hs state

/-- Another member takes over from a head that waits. -/
theorem replaceHead_heads (h : Unsettled c s k thread) (hk : s.threads.get k = some thread)
    {head e : Task} (row : s.tasks.get thread.headTaskId = some head)
    (state : head.state = .enqueued) (first : First s k e) (hne : e.id ≠ head.id) :
    Heads c (replaceHead s k.queue thread head e) := by
  obtain ⟨hid, hqueue, hnil, _⟩ := h.loose.thread_key k thread hk
  have hhead := (h.loose.row _ _ row).1
  have hitem : k.queue.task head.queueIndexItem.taskId = thread.headTaskId := by
    rw [Task.queueIndexItem, hhead, ← hqueue, TaskId.queue_task]
  have hold := h.stale head e row first hne
  obtain ⟨hloose, hidle⟩ := h.loose.unqueue (i := head.queueIndexItem) hk row state hitem
    (hold.imp Eq.symm And.right)
  unfold replaceHead
  dsimp only
  rw [setThread_eq (by exact hid)]
  exact Heads.takeOver hloose (fun j hj => (h.others j hj).requeue _) hidle hnil first.row first.key
    (hidle.first (first.requeue _)) (fun _ => ⟨first.mem, first.le⟩)
    (fun hc => h.front hc head e row first state (Or.inl hne))
    (fun hc => h.ahead hc e first) hid rfl rfl

theorem reconcileThreadHead_heads (h : Unsettled c s k thread)
    (hk : s.threads.get k = some thread) :
    Ensures True (reconcileThreadHead s k.queue thread) (Heads c) := by
  obtain ⟨hid, hqueue, _⟩ := h.loose.thread_key k thread hk
  unfold reconcileThreadHead
  refine Ensures.bind (P := fun a => firstMember s k.queue thread .getEarliest = .ok a)
    (Ensures.of_eq (fun a ha => ha) (fun _ _ => trivial)) (fun a ha => ?_)
  refine Ensures.bind (P := fun head => s.tasks.get thread.headTaskId = some head) ?_
    (fun head row => ?_)
  · unfold getCurrentHead
    cases s.tasks.get thread.headTaskId with
    | none => exact Ensures.error trivial
    | some u => exact Ensures.ok rfl
  cases a with
  | none => exact Ensures.error trivial
  | some e =>
    have first := h.loose.first hid ha
    have hhead := (h.loose.row _ _ row).1
    have hids : e.id.taskId = head.id.taskId → e = head := by
      intro he
      have hek : e.id.queue = k.queue := congrArg ThreadKey.queue first.key
      have heq : e.id = thread.headTaskId :=
        TaskId.eq_of_queue (hek.trans hqueue.symm) (he.trans (congrArg TaskId.taskId hhead))
      exact Option.some.inj ((heq ▸ first.row).symm.trans row)
    refine Ensures.ite (fun he => Ensures.ite (fun htime => ?_) (fun htime => ?_))
      (fun he => Ensures.ite (fun hs => ?_) (fun hs => ?_))
    · obtain rfl := hids he
      exact Ensures.ok (h.keep hk row htime (fun _ => first))
    · obtain rfl := hids he
      exact Ensures.ok (rescheduleHead_heads h hk row first htime)
    · have hne : e.id ≠ head.id := fun heq => he (congrArg TaskId.taskId heq)
      refine Ensures.ok (h.keep hk row ?_ (fun hst => absurd hst hs))
      exact (h.stale head e row first hne).resolve_right (fun hst => hs hst.1)
    · have hne : e.id ≠ head.id := fun heq => he (congrArg TaskId.taskId heq)
      exact Ensures.ok (replaceHead_heads h hk row (not_not.mp hs) first hne)

end Reconcile

section Arrive

/-- A task whose row is written as t' becomes a member of its thread under its
new item, and under no other. -/
def Arrival (s : State) (t' : Task) (x : Index ThreadKey IndexItem) : Prop :=
  ∀ j i, i ∈ x.items j ↔ (j = t'.threadKey ∧ i = t'.queueIndexItem) ∨
    i ∈ s.threadedTasksIndex.items j ∧ j.queue.task i.taskId ≠ t'.id

variable {t' : Task} {x : Index ThreadKey IndexItem}

/-- All but the thread that the task arrives at stays settled. -/
theorem Heads.arrive (h : Heads c s) (row : s.tasks.get t.id = some t) (hid : t'.id = t.id)
    (hthread : t'.threadId = t.threadId) (hth : t.threadId ≠ []) (state : t'.state = .enqueued)
    (hx : Arrival s t' x) (hf : c.tracked → c.front t'.id.queue t'.scheduledAt) :
    Loose c { s.setTask t' with threadedTasksIndex := x } ∧
      ∀ j, j ≠ t'.threadKey → Settled c { s.setTask t' with threadedTasksIndex := x } j := by
  obtain ⟨_, hused, hthr⟩ := h.row _ _ row
  have hkey : t'.threadKey = t.threadKey := by rw [Task.threadKey, hid, hthread]; rfl
  have hself : t'.threadKey.queue.task t'.queueIndexItem.taskId = t'.id := TaskId.queue_task t'.id
  refine ⟨⟨?_, ?_, ?_, ?_, h.queue_front, ?_, h.thread_key, ?_, ?_, ?_, ?_⟩, ?_⟩
  · intro j u hj
    rcases get_setTask hj with ⟨rfl, rfl⟩ | ⟨_, hj⟩
    · exact ⟨rfl, hid ▸ hused, fun hn => hthr (hthread ▸ hn)⟩
    · exact h.row j u hj
  · intro q i hi
    by_cases he : q.task i.taskId = t'.id
    · exact ⟨t', by rw [he]; exact Table.get_set_self _ _ _, state, fun hn =>
        absurd (hthread ▸ hn) hth⟩
    · obtain ⟨u, hu, hrest⟩ := h.queue_row q i hi
      exact ⟨u, (Table.get_set_ne _ _ he).trans hu, hrest⟩
  · intro j u hj hs hn
    rcases get_setTask hj with ⟨_, rfl⟩ | ⟨_, hj⟩
    · exact absurd (hthread ▸ hn) hth
    · exact h.queue_free j u hj hs hn
  · intro q i hi u hu hn
    rcases get_setTask hu with ⟨he, rfl⟩ | ⟨_, hu⟩
    · rw [hthread]
      exact h.queue_head q i hi t (by rw [he, hid]; exact row) hth
    · exact h.queue_head q i hi u hu hn
  · intro j u hj hs hn
    rcases get_setTask hj with ⟨_, rfl⟩ | ⟨_, hj⟩
    · simp [state] at hs
    · exact h.leased_head j u hj hs hn
  · intro k thread u hk hu
    rcases get_setTask hu with ⟨he, rfl⟩ | ⟨_, hu⟩
    · refine ⟨by simp [Task.live, state], ?_⟩
      rw [hthread]
      exact (h.head_live k thread t hk (by rw [he, hid]; exact row)).2
    · exact h.head_live k thread u hk hu
  · intro j i hi
    rcases (hx j i).mp hi with ⟨rfl, rfl⟩ | ⟨hi, _⟩
    · exact ⟨by rw [hkey]; exact hth, hthr hth, by rw [hself, hid]; exact hused⟩
    · exact h.member_key j i hi
  · intro j i hi u hu
    rcases (hx j i).mp hi with ⟨rfl, rfl⟩ | ⟨hi, hne⟩
    · rcases get_setTask hu with ⟨_, rfl⟩ | ⟨hne, _⟩
      · exact ⟨by simp [Task.live, state], rfl, rfl⟩
      · exact absurd hself hne
    · exact h.member_live j i hi u (get_setTask_ne hne hu)
  · intro hc j thr hj hh i hi hne
    rcases (hx j i).mp hi with ⟨rfl, rfl⟩ | ⟨hi, _⟩
    · exact hf hc
    · exact h.ahead hc j thr hj hh i hi hne
  · intro j hj
    have hitems : x.items j = s.threadedTasksIndex.items j := by
      apply Index.items_ext
      intro i
      rw [hx j i]
      refine ⟨fun hi => hi.elim (fun he => absurd he.1 hj) And.left, fun hi =>
        Or.inr ⟨hi, fun he => ?_⟩⟩
      rw [hid] at he
      exact hj (hkey ▸ (h.member_item hi (he ▸ row)).1)
    refine (h.settled j).of_rows rfl hitems (fun thr u hthr hu => ?_)
    rcases get_setTask hu with ⟨he, _⟩ | ⟨_, hu⟩
    · rw [hid] at he
      exact absurd (hkey ▸ h.head_key hthr (he ▸ row)) hj
    · exact ⟨u, hu, rfl, rfl⟩

/-- A member other than the head arrives. If it becomes the first member it may
replace a head that waits. -/
theorem Heads.arriveMember (h : Heads c s) (row : s.tasks.get t.id = some t) (hid : t'.id = t.id)
    (hthread : t'.threadId = t.threadId) (hth : t.threadId ≠ []) (state : t'.state = .enqueued)
    (hx : Arrival s t' x) (hf : c.tracked → c.front t'.id.queue t'.scheduledAt)
    (hk : s.threads.get t'.threadKey = some thread) (hne : thread.headTaskId ≠ t'.id)
    (hhand : c.tracked → ∀ id, ¬c.handed id) :
    Unsettled c { s.setTask t' with threadedTasksIndex := x } t'.threadKey thread := by
  obtain ⟨hloose, hothers⟩ := h.arrive row hid hthread hth state hx hf
  have hhead : ∀ {u}, (s.setTask t').tasks.get thread.headTaskId = some u →
      s.tasks.get thread.headTaskId = some u := fun hu => get_setTask_ne hne hu
  refine ⟨hloose, hothers, ?_, ?_, ?_⟩
  · intro head e hu _ _
    exact Or.inl ((h.settled _).time thread head hk (hhead hu))
  · intro hc head e hu first hs hor
    have htime := (h.settled _).time thread head hk (hhead hu)
    have hehead : e.id ≠ head.id := hor.resolve_right (not_not.mpr htime)
    obtain ⟨hmem, hle⟩ := (h.settled _).first hc thread head hk (hhead hu) hs
    rcases (hx _ _).mp first.mem with ⟨_, he⟩ | ⟨hold, _⟩
    · rw [show e.scheduledAt = t'.scheduledAt from congrArg IndexItem.time he]
      exact hf hc
    · -- an old member that comes first is the head itself
      have hrow := (h.row _ _ (hhead hu)).1
      have hin : head.queueIndexItem ∈ x.items t'.threadKey := by
        refine (hx _ _).mpr (Or.inr ⟨hmem, ?_⟩)
        have hq := (h.thread_key _ thread hk).2.1
        rw [Task.queueIndexItem, hrow, ← hq, TaskId.queue_task]
        exact hne
      have heq := le_antisymm (first.le _ hin) (hle _ hold)
      have hq : e.id.queue = head.id.queue := by
        rw [hrow, (h.thread_key _ thread hk).2.1]
        exact congrArg ThreadKey.queue first.key
      exact absurd (TaskId.eq_of_queue hq (congrArg IndexItem.taskId heq)) hehead
  · intro hc e _ hh
    exact absurd hh (hhand hc e.id)

/-- The head itself arrives under another time. It keeps its place, or it is not
queued. -/
theorem Heads.arriveHead (h : Heads c s) (row : s.tasks.get t.id = some t) (hid : t'.id = t.id)
    (hthread : t'.threadId = t.threadId) (hth : t.threadId ≠ []) (state : t'.state = .enqueued)
    (hx : Arrival s t' x) (hf : c.tracked → c.front t'.id.queue t'.scheduledAt)
    (hk : s.threads.get t'.threadKey = some thread) (hhead : thread.headTaskId = t'.id)
    (hhand : c.tracked → c.handed t'.id)
    (hq : t'.scheduledAt = t.scheduledAt ∨
      (∀ q, ∀ i ∈ s.queueIndex.items q, q.task i.taskId ≠ t.id) ∨
      ∀ i ∈ s.threadedTasksIndex.items t.threadKey, i.taskId ≠ t.id.taskId →
        t'.queueIndexItem < i) :
    Unsettled c { s.setTask t' with threadedTasksIndex := x } t'.threadKey thread := by
  obtain ⟨hloose, hothers⟩ := h.arrive row hid hthread hth state hx hf
  have hkey : t'.threadKey = t.threadKey := by rw [Task.threadKey, hid, hthread]; rfl
  have hrow : ∀ {u}, (s.setTask t').tasks.get thread.headTaskId = some u → u = t' := by
    intro u hu
    rw [hhead] at hu
    exact (Option.some.inj ((Table.get_set_self _ _ _).symm.trans hu)).symm
  have hall : c.tracked → ∀ i ∈ x.items t'.threadKey, c.front t'.threadKey.queue i.time := by
    intro hc i hi
    rcases (hx _ _).mp hi with ⟨_, rfl⟩ | ⟨hi, hne⟩
    · exact hf hc
    · exact h.ahead hc _ thread hk (hhead ▸ hhand hc) i hi (hhead ▸ hne)
  refine ⟨hloose, hothers, ?_, ?_, ?_⟩
  · intro head e hu first hne
    obtain rfl := hrow hu
    rcases hq with hq | hq | hq
    · left
      rw [hq]
      exact (h.settled _).time thread t hk (by rw [hhead, hid]; exact row)
    · right
      refine ⟨state, fun m hm => ?_⟩
      rw [hhead, hid]
      exact hq _ m hm
    · exfalso
      rcases (hx _ _).mp first.mem with ⟨_, he⟩ | ⟨hold, hnamed⟩
      · exact hne (TaskId.eq_of_queue (congrArg ThreadKey.queue first.key)
          (congrArg IndexItem.taskId he))
      · have hin : head.queueIndexItem ∈ x.items head.threadKey := (hx _ _).mpr (Or.inl ⟨rfl, rfl⟩)
        refine absurd (first.le _ hin) (not_le.mpr (hq _ (hkey ▸ hold) (fun he => hnamed ?_)))
        rw [he, ← hid]
        exact TaskId.queue_task head.id
  · intro hc head e _ first _ _
    exact hall hc _ first.mem
  · intro hc e _ _ i hi _
    exact hall hc i hi

theorem setTask_self (row : s.tasks.get t.id = some t) : s.setTask t = s := by
  rw [State.setTask, Table.set_self row]

/-- A task that was just written joins its thread. -/
theorem attachTaskToThread_heads (h : Heads c s) (row : s.tasks.get t.id = some t)
    (hth : t.threadId ≠ []) (state : t.state = .enqueued) (hn : Unnamed t.id s)
    (hf : c.tracked → c.front t.id.queue t.scheduledAt) (hhand : c.tracked → ∀ id, ¬c.handed id) :
    Ensures True (attachTaskToThread s t) (Heads c) := by
  have hx : Arrival s t (s.threadedTasksIndex.add t.threadKey t.queueIndexItem) := by
    intro j i
    rw [Index.mem_add]
    exact or_congr_right ⟨fun hi => ⟨hi, hn.member j i hi⟩, And.left⟩
  have hset := setTask_self row
  unfold attachTaskToThread
  dsimp only
  cases hk : s.threads.get t.threadKey with
  | none =>
    obtain ⟨hloose, hothers⟩ := h.arrive row rfl rfl hth state hx hf
    rw [hset] at hloose hothers
    apply Ensures.ok
    have hkey : (⟨t.threadId, t.id, t.scheduledAt, 0⟩ : Thread).threadId = t.threadKey.threadId :=
      rfl
    rw [show t.id.queue = t.threadKey.queue from rfl, setThread_eq hkey]
    refine Heads.takeOver hloose hothers ⟨?_, ?_⟩ hth row rfl state ?_ hf
      (fun hc hh => absurd hh (hhand hc t.id)) rfl rfl rfl
    · intro i hi u hu he
      obtain ⟨thr, hthr, _⟩ := h.queue_head _ i hi u hu (he ▸ hth)
      rw [he, show (⟨t.threadKey.queue, t.threadKey.threadId⟩ : ThreadKey) = t.threadKey from rfl,
        hk] at hthr
      exact absurd hthr (by simp)
    · intro id u hu hq he hs
      obtain ⟨thr, hthr, _⟩ := h.leased_head id u hu hs (he ▸ hth)
      rw [hq, he, show (⟨t.threadKey.queue, t.threadKey.threadId⟩ : ThreadKey) =
        t.threadKey from rfl, hk] at hthr
      exact absurd hthr (by simp)
    · -- without a record the thread had no members
      intro hc
      refine ⟨(hx _ _).mpr (Or.inl ⟨rfl, rfl⟩), fun i hi => ?_⟩
      rcases (hx _ _).mp hi with ⟨_, rfl⟩ | ⟨hi, _⟩
      · exact le_refl _
      · exact absurd hk ((h.settled _).record hc i hi)
  | some thread =>
    have hu := h.arriveMember row rfl rfl hth state hx hf hk (hn.head _ thread hk) hhand
    rw [hset] at hu
    exact reconcileThreadHead_heads hu hk

/-- A member is moved to its new item. -/
theorem Loose.arrival (h : Loose c s) (row : s.tasks.get t.id = some t) (hid : t'.id = t.id)
    (hthread : t'.threadId = t.threadId) :
    Arrival s t' ((s.threadedTasksIndex.remove t'.threadKey ⟨t.scheduledAt, t'.id.taskId⟩).add
      t'.threadKey t'.queueIndexItem) := by
  have hkey : t'.threadKey = t.threadKey := by rw [Task.threadKey, hid, hthread]; rfl
  have hitem : (⟨t.scheduledAt, t'.id.taskId⟩ : IndexItem) = t.queueIndexItem := by rw [hid]; rfl
  intro j i
  rw [Index.mem_add, Index.mem_remove, hitem]
  refine or_congr_right (and_congr_right (fun hi => not_congr ⟨fun he => ?_, fun he => ?_⟩))
  · rw [he.1, he.2, hid, hkey]
    exact TaskId.queue_task t.id
  · rw [hkey]
    exact h.member_item hi (by rw [he, hid]; exact row)

/-- A threaded task is written under a new time. Only a queued head that falls
behind another member would leave its queue item behind. -/
theorem rescheduleTaskInThread_heads (h : Heads c s) (row : s.tasks.get t.id = some t)
    (hid : t'.id = t.id) (hthread : t'.threadId = t.threadId) (hth : t.threadId ≠ [])
    (state : t'.state = .enqueued) (hf : c.tracked → c.front t'.id.queue t'.scheduledAt)
    (hhand : c.tracked → ∀ thread, s.threads.get t.threadKey = some thread →
      (thread.headTaskId = t.id → c.handed t.id) ∧
        (thread.headTaskId ≠ t.id → ∀ id, ¬c.handed id))
    (hq : t'.scheduledAt = t.scheduledAt ∨
      (∀ q, ∀ i ∈ s.queueIndex.items q, q.task i.taskId ≠ t.id) ∨
      ∀ i ∈ s.threadedTasksIndex.items t.threadKey, i.taskId ≠ t.id.taskId →
        t'.queueIndexItem < i) :
    Ensures True (rescheduleTaskInThread (s.setTask t') t' t.scheduledAt) (Heads c) := by
  have hkey : t'.threadKey = t.threadKey := by rw [Task.threadKey, hid, hthread]; rfl
  have hx := h.arrival row hid hthread
  unfold rescheduleTaskInThread State.getThread
  dsimp only
  cases hk : s.threads.get t'.threadKey with
  | none =>
    have hk' : (s.setTask t').threads.get t'.threadKey = none := hk
    rw [hk']
    exact Ensures.error trivial
  | some thread =>
    have hk' : (s.setTask t').threads.get t'.threadKey = some thread := hk
    rw [hk']
    have hhand' := fun hc => hhand hc thread (hkey ▸ hk)
    refine reconcileThreadHead_heads (k := t'.threadKey) ?_ hk
    by_cases hhead : thread.headTaskId = t.id
    · exact h.arriveHead row hid hthread hth state hx hf hk (hhead.trans hid.symm)
        (fun hc => hid ▸ (hhand' hc).1 hhead) hq
    · exact h.arriveMember row hid hthread hth state hx hf hk (fun he => hhead (he.trans hid))
        (fun hc => (hhand' hc).2 hhead)

end Arrive

end Moab
