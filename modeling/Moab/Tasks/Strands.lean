import Moab.Tasks.HeadCalls

namespace Moab

open OrderedStore

variable [OrderedStore]

/-- What the store has about one thread: its record, its member index, its live
rows by number, and the items of the queue index that name one of these rows. -/
structure Strand where
  record : Option Thread
  members : List IndexItem
  row : Nat → Option Task
  queued : IndexItem → Prop

def State.liveRow (s : State) (k : ThreadKey) (n : Nat) : Option Task :=
  (s.tasks.get (k.queue.task n)).filter (fun t => t.live ∧ t.threadId = k.threadId)

def State.strand (s : State) (k : ThreadKey) : Strand where
  record := s.threads.get k
  members := s.threadedTasksIndex.items k
  row := s.liveRow k
  queued i := i ∈ s.queueIndex.items k.queue ∧ s.liveRow k i.taskId ≠ none

/-- The tables agree on a thread: its index holds its live rows, it has a record
exactly if it has live rows, and the head is one of them. A head that waits can
be handed out. -/
structure Strand.Whole (x : Strand) : Prop where
  member : ∀ i, i ∈ x.members ↔ ∃ t, x.row i.taskId = some t ∧ t.scheduledAt = i.time
  recorded : (∃ thread, x.record = some thread) ↔ ∃ n t, x.row n = some t
  head : ∀ thread, x.record = some thread →
    ∃ t, x.row thread.headTaskId.taskId = some t ∧ t.id = thread.headTaskId
  queued : ∀ thread t, x.record = some thread → x.row thread.headTaskId.taskId = some t →
    t.state = .enqueued → x.queued t.queueIndexItem

/-- A head that waits is the first member. -/
def Strand.Led (x : Strand) : Prop :=
  ∀ thread t, x.record = some thread → x.row thread.headTaskId.taskId = some t →
    t.state = .enqueued → ∀ i ∈ x.members, t.queueIndexItem ≤ i

/-- The record of a thread carries the time of its head. -/
def Strand.Timed (x : Strand) : Prop :=
  ∀ thread t, x.record = some thread → x.row thread.headTaskId.taskId = some t →
    thread.scheduledAt = t.scheduledAt

/-- Only one thread is touched. -/
def Local (k : ThreadKey) (s s' : State) : Prop := ∀ j, j ≠ k → s'.strand j = s.strand j

variable {s s' s'' : State} {k j : ThreadKey} {t t' u : Task} {thread : Thread} {n : Nat}

theorem liveRow_eq_some : s.liveRow k n = some t ↔
    s.tasks.get (k.queue.task n) = some t ∧ t.live ∧ t.threadId = k.threadId := by
  simp [State.liveRow, Option.filter_eq_some_iff]

/-- A task is a row of no other thread than its own. -/
theorem liveRow_other {id : TaskId} (row : s.tasks.get id = some t) (hid : t.id = id)
    (hj : j ≠ t.threadKey) (hq : j.queue = id.queue) : s.liveRow j id.taskId = none := by
  cases hl : s.liveRow j id.taskId with
  | none => rfl
  | some u =>
    obtain ⟨hrow, _, hth⟩ := liveRow_eq_some.mp hl
    rw [hq, TaskId.queue_task, row] at hrow
    obtain rfl := Option.some.inj hrow
    refine absurd ?_ hj
    rw [Task.threadKey, hid, hth, ← hq]

section Local

theorem strand_congr (hrecord : s'.threads.get j = s.threads.get j)
    (hmembers : s'.threadedTasksIndex.items j = s.threadedTasksIndex.items j)
    (hrow : ∀ n, s'.liveRow j n = s.liveRow j n)
    (hqueue : ∀ i, s.liveRow j i.taskId ≠ none →
      (i ∈ s'.queueIndex.items j.queue ↔ i ∈ s.queueIndex.items j.queue)) :
    s'.strand j = s.strand j := by
  have hqueued : (s'.strand j).queued = (s.strand j).queued := by
    funext i
    change (i ∈ s'.queueIndex.items j.queue ∧ s'.liveRow j i.taskId ≠ none) =
      (i ∈ s.queueIndex.items j.queue ∧ s.liveRow j i.taskId ≠ none)
    rw [hrow]
    exact propext (and_congr_left (hqueue i))
  have hrows : (s'.strand j).row = (s.strand j).row := funext hrow
  change Strand.mk _ _ _ _ = Strand.mk _ _ _ _
  exact congr (congr (congr (congrArg Strand.mk hrecord) hmembers) hrows) hqueued

theorem SameHeads.strand (e : SameHeads s s') (j : ThreadKey) : s'.strand j = s.strand j := by
  apply strand_congr
  · rw [e.threads]
  · rw [e.members]
  · intro n
    rw [State.liveRow, e.tasks]
    rfl
  · intro i _
    rw [e.queueIndex]

namespace Local

theorem refl (k : ThreadKey) (s : State) : Local k s s := fun _ _ => rfl

theorem trans (h : Local k s s') (h' : Local k s' s'') : Local k s s'' :=
  fun j hj => (h' j hj).trans (h j hj)

theorem same (e : SameHeads s s') : Local k s s' := fun j _ => e.strand j

theorem setThread (h : Local k s s') (hid : thread.threadId = k.threadId) :
    Local k s (s'.setThread k.queue thread) := by
  apply h.trans
  intro j hj
  refine strand_congr ?_ rfl (fun _ => rfl) (fun _ _ => Iff.rfl)
  rw [setThread_eq hid]
  exact Table.get_set_ne _ _ hj

theorem deleteThread : Local k s { s with threads := s.threads.delete k } :=
  fun _ hj => strand_congr (Table.get_delete_ne _ hj) rfl (fun _ => rfl) (fun _ _ => Iff.rfl)

theorem addMember (i : IndexItem) :
    Local k s { s with threadedTasksIndex := s.threadedTasksIndex.add k i } := by
  intro j hj
  refine strand_congr rfl (Index.items_ext (fun m => ?_)) (fun _ => rfl) (fun _ _ => Iff.rfl)
  simp [hj]

theorem removeMember (i : IndexItem) :
    Local k s { s with threadedTasksIndex := s.threadedTasksIndex.remove k i } := by
  intro j hj
  refine strand_congr rfl (Index.items_ext (fun m => ?_)) (fun _ => rfl) (fun _ _ => Iff.rfl)
  simp [hj]

/-- An item of the queue index that names a task of the thread comes or goes. -/
theorem queue {x : Index QueueId IndexItem} (row : s.tasks.get t.id = some t) (hk : t.threadKey = k)
    (hx : ∀ q i, ¬(q = k.queue ∧ i.taskId = t.id.taskId) →
      (i ∈ x.items q ↔ i ∈ s.queueIndex.items q)) : Local k s { s with queueIndex := x } := by
  intro j hj
  refine strand_congr rfl rfl (fun _ => rfl) ?_
  intro i hi
  apply hx
  rintro ⟨hq, hn⟩
  subst hk
  rw [hn] at hi
  exact hi (liveRow_other row rfl hj hq)

theorem addQueued (h : Local k s s') (row : s'.tasks.get t.id = some t) (hk : t.threadKey = k)
    (time : Time) :
    Local k s { s' with queueIndex := s'.queueIndex.add k.queue ⟨time, t.id.taskId⟩ } := by
  apply h.trans
  apply queue row hk
  intro q i hi
  rw [Index.mem_add, or_iff_right]
  rintro ⟨hq, rfl⟩
  exact hi ⟨hq, rfl⟩

theorem removeQueued (h : Local k s s') (row : s'.tasks.get t.id = some t) (hk : t.threadKey = k)
    (time : Time) :
    Local k s { s' with queueIndex := s'.queueIndex.remove k.queue ⟨time, t.id.taskId⟩ } := by
  apply h.trans
  apply queue row hk
  intro q i hi
  rw [Index.mem_remove, and_iff_left]
  rintro ⟨hq, rfl⟩
  exact hi ⟨hq, rfl⟩

/-- The row of a task of the thread is written. -/
theorem setTask (hold : ∀ u, s.tasks.get t.id = some u → u.live → u.threadKey = t.threadKey)
    (hid : ∀ u, s.tasks.get t.id = some u → u.id = t.id) : Local t.threadKey s (s.setTask t) := by
  intro j hj
  refine strand_congr rfl rfl ?_ (fun _ _ => Iff.rfl)
  intro n
  by_cases hn : j.queue.task n = t.id
  · obtain rfl : n = t.id.taskId := congrArg TaskId.taskId hn
    have hq : j.queue = t.id.queue := congrArg TaskId.queue hn
    have hnew : (s.setTask t).liveRow j t.id.taskId = none :=
      liveRow_other (Table.get_set_self ..) rfl hj hq
    rw [hnew]
    cases hl : s.liveRow j t.id.taskId with
    | none => rfl
    | some u =>
      obtain ⟨hrow, hlive, hth⟩ := liveRow_eq_some.mp hl
      rw [hn] at hrow
      refine absurd ?_ hj
      rw [← hold u hrow hlive, Task.threadKey, hid u hrow, hth, ← hq]
  · have hget : (s.setTask t).tasks.get (j.queue.task n) = s.tasks.get (j.queue.task n) :=
      Table.get_set_ne _ _ hn
    rw [State.liveRow, State.liveRow, hget]

theorem deleteRow (row : s.tasks.get t.id = some t) : Local t.threadKey s (s.deleteRow t.id) := by
  intro j hj
  refine strand_congr rfl rfl ?_ (fun _ _ => Iff.rfl)
  intro n
  by_cases hn : j.queue.task n = t.id
  · obtain rfl : n = t.id.taskId := congrArg TaskId.taskId hn
    have hq : j.queue = t.id.queue := congrArg TaskId.queue hn
    have hnew : (s.deleteRow t.id).liveRow j t.id.taskId = none := by
      simp [State.liveRow, State.deleteRow, hn]
    rw [hnew, liveRow_other row rfl hj hq]
  · have hget : (s.deleteRow t.id).tasks.get (j.queue.task n) = s.tasks.get (j.queue.task n) :=
      Table.get_delete_ne _ hn
    rw [State.liveRow, State.liveRow, hget]

end Local

end Local

section Coordination

variable {x : Strand} {hd : Task}

omit [OrderedStore] in
/-- A thread with a right index and a head among its rows is whole. -/
theorem Strand.whole_of_head
    (member : ∀ i, i ∈ x.members ↔ ∃ t, x.row i.taskId = some t ∧ t.scheduledAt = i.time)
    (record : x.record = some thread) (head : x.row thread.headTaskId.taskId = some hd)
    (hid : hd.id = thread.headTaskId) (queued : hd.state = .enqueued → x.queued hd.queueIndexItem) :
    x.Whole where
  member := member
  recorded := ⟨fun _ => ⟨_, hd, head⟩, fun _ => ⟨thread, record⟩⟩
  head thread' hr := by
    obtain rfl := Option.some.inj (record.symm.trans hr)
    exact ⟨hd, head, hid⟩
  queued thread' v hr hv := by
    obtain rfl := Option.some.inj (record.symm.trans hr)
    obtain rfl := Option.some.inj (head.symm.trans hv)
    exact queued

omit [OrderedStore] in
theorem Strand.led_of_head (record : x.record = some thread)
    (head : x.row thread.headTaskId.taskId = some hd)
    (first : hd.state = .enqueued → ∀ i ∈ x.members, hd.queueIndexItem ≤ i) : x.Led := by
  intro thread' v hr hv
  obtain rfl := Option.some.inj (record.symm.trans hr)
  obtain rfl := Option.some.inj (head.symm.trans hv)
  exact first

omit [OrderedStore] in
theorem Strand.timed_of_head (record : x.record = some thread)
    (head : x.row thread.headTaskId.taskId = some hd) (time : thread.scheduledAt = hd.scheduledAt) :
    x.Timed := by
  intro thread' v hr hv
  obtain rfl := Option.some.inj (record.symm.trans hr)
  obtain rfl := Option.some.inj (head.symm.trans hv)
  exact time

/-- The live rows of a thread but one. -/
theorem liveRow_deleteRow {id : TaskId} (hq : k.queue = id.queue) :
    (s.deleteRow id).liveRow k n = if n = id.taskId then none else s.liveRow k n := by
  split_ifs with hn
  · have hid : k.queue.task n = id := by rw [hq, hn, TaskId.queue_task]
    simp [State.liveRow, State.deleteRow, hid]
  · have hid : k.queue.task n ≠ id := fun he => hn (congrArg TaskId.taskId he)
    simp [State.liveRow, State.deleteRow, hid]

theorem liveRow_of_deleteRow {id : TaskId} (h : (s.deleteRow id).liveRow k n = some u) :
    k.queue.task n ≠ id ∧ s.liveRow k n = some u := by
  obtain ⟨hget, hrest⟩ := liveRow_eq_some.mp h
  obtain ⟨hne, hget⟩ := get_deleteRow hget
  exact ⟨hne, liveRow_eq_some.mpr ⟨hget, hrest⟩⟩

/-- A live row is what it says it is. -/
theorem liveRow_id (key : ∀ id u, s.tasks.get id = some u → u.id = id)
    (h : s.liveRow k n = some u) :
    u.id = k.queue.task n ∧ s.tasks.get u.id = some u ∧ u.threadKey = k := by
  obtain ⟨hget, _, hth⟩ := liveRow_eq_some.mp h
  have hid := key _ _ hget
  refine ⟨hid, by rw [hid]; exact hget, ?_⟩
  rw [Task.threadKey, hid, hth]
  rfl

/-- The items of the live rows, with one row singled out. -/
theorem liveItem_iff (row : s.tasks.get t.id = some t) (live : t.live) {i : IndexItem} :
    (∃ u, s.liveRow t.threadKey i.taskId = some u ∧ u.scheduledAt = i.time) ↔ i = t.queueIndexItem ∨
      ∃ u, (s.deleteRow t.id).liveRow t.threadKey i.taskId = some u ∧ u.scheduledAt = i.time := by
  have hself : s.liveRow t.threadKey t.id.taskId = some t := liveRow_eq_some.mpr ⟨row, live, rfl⟩
  rw [liveRow_deleteRow (k := t.threadKey) rfl]
  by_cases hn : i.taskId = t.id.taskId
  · rw [if_pos hn, hn, hself]
    cases i
    simp only [Task.queueIndexItem, IndexItem.mk.injEq, Option.some.injEq] at hn ⊢
    simp [hn, eq_comm]
  · rw [if_neg hn, or_iff_right]
    rintro rfl
    exact hn rfl

/-- The first member of a thread whose index is right. -/
theorem firstMember_live (err : Bytes → Nat → CoreError) (hid : thread.threadId = k.threadId)
    (hrow : ∀ i ∈ s.threadedTasksIndex.items k, ∃ u, s.tasks.get (k.queue.task i.taskId) = some u) :
    (s.threadedTasksIndex.items k = [] ∧ firstMember s k.queue thread err = .ok none) ∨
    ∃ i l u, s.threadedTasksIndex.items k = i :: l ∧
      s.tasks.get (k.queue.task i.taskId) = some u ∧
      firstMember s k.queue thread err = .ok (some u) := by
  have hk : (⟨k.queue, thread.threadId⟩ : ThreadKey) = k := by rw [hid]
  unfold firstMember
  rw [hk]
  cases hl : s.threadedTasksIndex.items k with
  | nil => exact Or.inl ⟨rfl, rfl⟩
  | cons i l =>
    obtain ⟨u, hu⟩ := hrow i (by simp [hl])
    refine Or.inr ⟨i, l, u, rfl, hu, ?_⟩
    dsimp only
    rw [hu]

/-- The first item of a right index is the item of its row. -/
theorem first_item {i : IndexItem} {l : List IndexItem} (hl : s.threadedTasksIndex.items k = i :: l)
    (hid : u.id = k.queue.task i.taskId) (htime : u.scheduledAt = i.time) :
    ∀ m ∈ s.threadedTasksIndex.items k, u.queueIndexItem ≤ m := by
  intro m hm
  have hi : u.queueIndexItem = i := by
    rw [Task.queueIndexItem, htime, hid]
    rfl
  rw [hi]
  exact Index.head_le hl hm

/-- The head of a thread left, and the index no longer has it: the first of the
others takes over, or the record goes. -/
theorem promoteNextThreadHead_whole {gone : TaskId} (hid : thread.threadId = k.threadId)
    (key : ∀ id u, s.tasks.get id = some u → u.id = id)
    (member : ∀ i, i ∈ s.threadedTasksIndex.items k ↔
      ∃ u, (s.deleteRow gone).liveRow k i.taskId = some u ∧ u.scheduledAt = i.time) :
    Ensures False (promoteNextThreadHead s k.queue thread) (fun s' => s'.tasks = s.tasks ∧
      Local k s s' ∧ ((s'.deleteRow gone).strand k).Whole ∧
        ((s'.deleteRow gone).strand k).Led) := by
  have hrow : ∀ i ∈ s.threadedTasksIndex.items k,
      ∃ u, s.tasks.get (k.queue.task i.taskId) = some u := by
    intro i hi
    obtain ⟨u, hu, _⟩ := (member i).mp hi
    exact ⟨u, (liveRow_eq_some.mp (liveRow_of_deleteRow hu).2).1⟩
  unfold promoteNextThreadHead
  rcases firstMember_live .getNextHead hid hrow with ⟨hl, hfirst⟩ | ⟨i, l, u, hl, hu, hfirst⟩
  · rw [hfirst]
    have hk : (⟨k.queue, thread.threadId⟩ : ThreadKey) = k := by rw [hid]
    have hnone : ∀ n v, (s.deleteRow gone).liveRow k n ≠ some v := by
      intro n v hv
      have hmem := (member ⟨v.scheduledAt, n⟩).mpr ⟨v, hv, rfl⟩
      rw [hl] at hmem
      simp at hmem
    have hgone : ∀ x, (s.threads.delete ⟨k.queue, thread.threadId⟩).get k ≠ some x := by
      simp [hk]
    refine Ensures.ok ⟨rfl, ?_, ⟨member, ⟨?_, ?_⟩, ?_, ?_⟩, ?_⟩
    · rw [hk]
      exact Local.deleteThread
    · rintro ⟨x, hx⟩
      exact absurd hx (hgone x)
    · rintro ⟨n, v, hv⟩
      exact absurd hv (hnone n v)
    · intro x hx
      exact absurd hx (hgone x)
    · intro x v hx
      exact absurd hx (hgone x)
    · intro x v hx
      exact absurd hx (hgone x)
  · rw [hfirst]
    obtain ⟨v, hv, htime⟩ := (member i).mp (by simp [hl])
    obtain ⟨huid, hrowu, hkey⟩ := liveRow_id key (liveRow_of_deleteRow hv).2
    obtain rfl : u = v := by
      rw [huid, hu] at hrowu
      exact Option.some.inj hrowu
    have hid' : (Thread.mk thread.threadId u.id u.scheduledAt 0).threadId = k.threadId := hid
    have hrecord : (s.setThread k.queue ⟨thread.threadId, u.id, u.scheduledAt, 0⟩).threads.get k =
        some ⟨thread.threadId, u.id, u.scheduledAt, 0⟩ := by
      rw [setThread_eq hid']
      exact Table.get_set_self ..
    have hhead : (s.deleteRow gone).liveRow k u.id.taskId = some u := by
      rw [huid]
      exact hv
    have hlocal := ((Local.refl k s).setThread hid').addQueued hrowu hkey u.scheduledAt
    refine Ensures.ok ⟨rfl, hlocal, Strand.whole_of_head member hrecord hhead rfl ?_,
      Strand.led_of_head hrecord hhead (fun _ => first_item hl huid htime)⟩
    intro _
    exact ⟨Index.mem_add.mpr (Or.inl ⟨rfl, rfl⟩), Option.ne_none_iff_exists'.mpr ⟨u, hhead⟩⟩

/-- A thread with one of its tasks left out of account: the task has the given
item in the index, and if it is not the head then another live row is. -/
structure Apart (s : State) (t : Task) (item : IndexItem) (thread : Thread) : Prop where
  record : s.threads.get t.threadKey = some thread
  id : thread.threadId = t.threadId
  member : ∀ i, i ∈ s.threadedTasksIndex.items t.threadKey ↔ i = item ∨
    ∃ u, (s.deleteRow t.id).liveRow t.threadKey i.taskId = some u ∧ u.scheduledAt = i.time
  head : thread.headTaskId ≠ t.id →
    ∃ u, (s.deleteRow t.id).liveRow t.threadKey thread.headTaskId.taskId = some u ∧
      u.id = thread.headTaskId ∧
      (u.state = .enqueued → u.queueIndexItem ∈ s.queueIndex.items t.id.queue)

/-- In a whole thread every task can be left out. -/
theorem Strand.Whole.apart (h : (s.strand t.threadKey).Whole) (row : s.tasks.get t.id = some t)
    (live : t.live)
    (hid : ∀ thread, s.threads.get t.threadKey = some thread → thread.threadId = t.threadId) :
    ∃ thread, Apart s t t.queueIndexItem thread := by
  have hself : s.liveRow t.threadKey t.id.taskId = some t := liveRow_eq_some.mpr ⟨row, live, rfl⟩
  obtain ⟨thread, hrecord⟩ := h.recorded.mpr ⟨_, t, hself⟩
  refine ⟨thread, hrecord, hid thread hrecord, ?_, ?_⟩
  · intro i
    rw [← liveItem_iff row live]
    exact h.member i
  · intro hne
    obtain ⟨u, hu, huid⟩ := h.head thread hrecord
    change s.liveRow t.threadKey thread.headTaskId.taskId = some u at hu
    have hn : thread.headTaskId.taskId ≠ t.id.taskId := by
      intro he
      rw [he, hself] at hu
      obtain rfl := Option.some.inj hu
      exact hne huid.symm
    refine ⟨u, ?_, huid, fun henq => (h.queued thread u hrecord hu henq).1⟩
    rw [liveRow_deleteRow rfl, if_neg hn]
    exact hu

/-- The task itself and its queue item do not matter. -/
theorem Apart.congr {item : IndexItem} (h : Apart s t item thread) (hid : t'.id = t.id)
    (hthread : t'.threadId = t.threadId) (hrecord : s'.threads = s.threads)
    (hmembers : s'.threadedTasksIndex = s.threadedTasksIndex)
    (hrows : (s'.deleteRow t.id).tasks = (s.deleteRow t.id).tasks)
    (hqueue : ∀ i, i.taskId ≠ t.id.taskId → i ∈ s.queueIndex.items t.id.queue →
      i ∈ s'.queueIndex.items t.id.queue) : Apart s' t' item thread := by
  have hkey : t'.threadKey = t.threadKey := by rw [Task.threadKey, hid, hthread, Task.threadKey]
  have hlr : ∀ n, (s'.deleteRow t.id).liveRow t.threadKey n =
      (s.deleteRow t.id).liveRow t.threadKey n := by
    intro n
    rw [State.liveRow, State.liveRow, hrows]
  refine ⟨by rw [hkey, hrecord]; exact h.record, h.id.trans hthread.symm, ?_, ?_⟩
  · intro i
    rw [hkey, hid, hmembers, hlr]
    exact h.member i
  · intro hne
    rw [hid] at hne
    obtain ⟨u, hu, huid, hq⟩ := h.head hne
    rw [hkey, hid, hlr]
    refine ⟨u, hu, huid, fun henq => hqueue _ ?_ (hq henq)⟩
    intro hn
    have hne' := (liveRow_of_deleteRow hu).1
    have hnum : u.id.taskId = t.id.taskId := hn
    rw [← huid, hnum] at hne'
    exact hne' rfl

/-- Without the item of the task, the index has the other rows. -/
theorem Apart.others {item i : IndexItem} (h : Apart s t item thread)
    (hn : item.taskId = t.id.taskId) :
    i ∈ (s.threadedTasksIndex.remove t.threadKey item).items t.threadKey ↔
      ∃ u, (s.deleteRow t.id).liveRow t.threadKey i.taskId = some u ∧ u.scheduledAt = i.time := by
  rw [Index.mem_remove, h.member]
  constructor
  · rintro ⟨hi, hne⟩
    exact hi.resolve_left (fun he => hne ⟨rfl, he⟩)
  · rintro ⟨u, hu, htime⟩
    refine ⟨Or.inr ⟨u, hu, htime⟩, ?_⟩
    rintro ⟨_, rfl⟩
    rw [hn] at hu
    exact (liveRow_of_deleteRow hu).1 rfl

/-- A task leaves its thread. The row of the task is out of account: it is about
to be deleted, or dead already. -/
theorem detachTaskFromThread_whole (key : ∀ id u, s.tasks.get id = some u → u.id = id)
    (h : Apart s t t.queueIndexItem thread) :
    Ensures False (detachTaskFromThread s t) (fun s' => s'.tasks = s.tasks ∧
      Local t.threadKey s s' ∧ ((s'.deleteRow t.id).strand t.threadKey).Whole ∧
      (((s.deleteRow t.id).strand t.threadKey).Led →
        ((s'.deleteRow t.id).strand t.threadKey).Led)) := by
  generalize hs1 : ({ s with threadedTasksIndex :=
    s.threadedTasksIndex.remove t.threadKey t.queueIndexItem } : State) = s1
  have hmember : ∀ i, i ∈ s1.threadedTasksIndex.items t.threadKey ↔
      ∃ u, (s1.deleteRow t.id).liveRow t.threadKey i.taskId = some u ∧ u.scheduledAt = i.time := by
    rw [← hs1]
    exact fun i => h.others rfl
  have hlocal : Local t.threadKey s s1 := by
    rw [← hs1]
    exact Local.removeMember _
  have htasks : s1.tasks = s.tasks := by rw [← hs1]
  have hrecord : s1.threads.get t.threadKey = some thread := by
    rw [← hs1]
    exact h.record
  unfold detachTaskFromThread
  dsimp only
  rw [hs1]
  unfold State.getThread
  rw [hrecord]
  apply Ensures.ite
  · intro hne
    obtain ⟨u, hu, huid, hq⟩ := h.head (fun he => hne (congrArg TaskId.taskId he))
    have hu1 : (s1.deleteRow t.id).liveRow t.threadKey thread.headTaskId.taskId = some u := by
      rw [← hs1]
      exact hu
    refine Ensures.ok ⟨htasks, hlocal, Strand.whole_of_head hmember hrecord hu1 huid ?_, ?_⟩
    · intro henq
      constructor
      · change u.queueIndexItem ∈ (s1.deleteRow t.id).queueIndex.items t.id.queue
        rw [← hs1]
        exact hq henq
      · change (s1.deleteRow t.id).liveRow t.threadKey u.id.taskId ≠ none
        rw [huid]
        exact Option.ne_none_iff_exists'.mpr ⟨u, hu1⟩
    · intro hled x v hx hv henq i hi
      rw [← hs1] at hx hv hi
      exact hled x v hx hv henq i (Index.mem_remove.mp hi).1
  · intro _
    have hkey1 : ∀ id u, s1.tasks.get id = some u → u.id = id := by
      rw [htasks]
      exact key
    refine (promoteNextThreadHead_whole (k := t.threadKey) h.id hkey1 hmember).mono ?_
    rintro s' ⟨htasks', hlocal', hwhole, hled⟩
    exact ⟨htasks'.trans htasks, hlocal.trans hlocal', hwhole, fun _ => hled⟩

/-- A thread whose index is right is reconciled. A head that stays where it was
must be in the queue index already. -/
theorem reconcileThreadHead_whole (hid : thread.threadId = k.threadId)
    (key : ∀ id u, s.tasks.get id = some u → u.id = id)
    (hrecord : s.threads.get k = some thread)
    (member : ∀ i, i ∈ s.threadedTasksIndex.items k ↔
      ∃ u, s.liveRow k i.taskId = some u ∧ u.scheduledAt = i.time)
    (head : s.liveRow k thread.headTaskId.taskId = some hd) (hhead : hd.id = thread.headTaskId)
    (queued : hd.state = .enqueued → thread.scheduledAt = hd.scheduledAt →
      (∀ i ∈ s.threadedTasksIndex.items k, hd.queueIndexItem ≤ i) →
        hd.queueIndexItem ∈ s.queueIndex.items k.queue)
    (timed : hd.state ≠ .enqueued → thread.scheduledAt = hd.scheduledAt) :
    Ensures False (reconcileThreadHead s k.queue thread) (fun s' => s'.tasks = s.tasks ∧
      Local k s s' ∧ (s'.strand k).Whole ∧ (s'.strand k).Led ∧ (s'.strand k).Timed) := by
  obtain ⟨hidk, hrowhd, hkeyhd⟩ := liveRow_id key head
  have hcurrent : getCurrentHead s thread = .ok hd := by
    unfold getCurrentHead
    rw [← hhead, hrowhd]
  have hrow : ∀ i ∈ s.threadedTasksIndex.items k,
      ∃ u, s.tasks.get (k.queue.task i.taskId) = some u :=
    fun i hi => ((member i).mp hi).imp (fun u hu => (liveRow_eq_some.mp hu.1).1)
  have hmem : ⟨hd.scheduledAt, thread.headTaskId.taskId⟩ ∈ s.threadedTasksIndex.items k :=
    (member _).mpr ⟨hd, head, rfl⟩
  -- the record and the queue index may change, the rows and the members do not
  have hwhole : ∀ (s' : State) (thread' : Thread) (v : Task), s'.tasks = s.tasks →
      s'.threadedTasksIndex = s.threadedTasksIndex → s'.threads.get k = some thread' →
      s.liveRow k thread'.headTaskId.taskId = some v → v.id = thread'.headTaskId →
      (v.state = .enqueued → v.queueIndexItem ∈ s'.queueIndex.items k.queue ∧
        ∀ i ∈ s.threadedTasksIndex.items k, v.queueIndexItem ≤ i) →
      thread'.scheduledAt = v.scheduledAt →
      (s'.strand k).Whole ∧ (s'.strand k).Led ∧ (s'.strand k).Timed := by
    intro s' thread' v htasks hmembers hrecord' hv hvid hvq hvt
    have hlr : ∀ n, s'.liveRow k n = s.liveRow k n := by
      intro n
      rw [State.liveRow, State.liveRow, htasks]
    have hv' : s'.liveRow k thread'.headTaskId.taskId = some v := (hlr _).trans hv
    refine ⟨Strand.whole_of_head ?_ hrecord' hv' hvid ?_, Strand.led_of_head hrecord' hv' ?_,
      Strand.timed_of_head hrecord' hv' hvt⟩
    · intro i
      change i ∈ s'.threadedTasksIndex.items k ↔
        ∃ t, s'.liveRow k i.taskId = some t ∧ t.scheduledAt = i.time
      rw [hmembers, hlr]
      exact member i
    · intro henq
      refine ⟨(hvq henq).1, ?_⟩
      change s'.liveRow k v.id.taskId ≠ none
      rw [hvid]
      exact Option.ne_none_iff_exists'.mpr ⟨v, hv'⟩
    · intro henq i hi
      change i ∈ s'.threadedTasksIndex.items k at hi
      rw [hmembers] at hi
      exact (hvq henq).2 i hi
  unfold reconcileThreadHead
  rw [hcurrent]
  rcases firstMember_live .getEarliest hid hrow with ⟨hl, _⟩ | ⟨i, l, e, hl, he, hearliest⟩
  · rw [hl] at hmem
    simp at hmem
  rw [hearliest]
  obtain ⟨v, hv, htime⟩ := (member i).mp (by simp [hl])
  obtain ⟨heid, hrowe, hkeye⟩ := liveRow_id key hv
  obtain rfl : e = v := by
    rw [heid, he] at hrowe
    exact Option.some.inj hrowe
  have hfirst := first_item hl heid htime
  apply Ensures.ite
  · intro hsame
    obtain rfl : e = hd := by
      have heq : e.id = hd.id := by
        rw [heid, hidk] at hsame ⊢
        exact congrArg k.queue.task hsame
      exact Option.some.inj ((heq ▸ hrowe).symm.trans hrowhd)
    apply Ensures.ite
    · intro hst
      exact Ensures.ok ⟨rfl, Local.refl k s, hwhole s thread e rfl rfl hrecord head hhead
        (fun henq => ⟨queued henq hst hfirst, hfirst⟩) hst⟩
    · intro _
      have hset : ∀ x : State, x.tasks = s.tasks → x.threadedTasksIndex = s.threadedTasksIndex →
          Local k s x → (e.state = .enqueued → e.queueIndexItem ∈ x.queueIndex.items k.queue) →
          (x.setThread k.queue { thread with scheduledAt := e.scheduledAt }).tasks = s.tasks ∧
          Local k s (x.setThread k.queue { thread with scheduledAt := e.scheduledAt }) ∧
          ((x.setThread k.queue { thread with scheduledAt := e.scheduledAt }).strand k).Whole ∧
          ((x.setThread k.queue { thread with scheduledAt := e.scheduledAt }).strand k).Led ∧
          ((x.setThread k.queue { thread with scheduledAt := e.scheduledAt }).strand k).Timed := by
        intro x htasks hmembers hlocal hq
        have hnew : ({ thread with scheduledAt := e.scheduledAt } : Thread).threadId =
          k.threadId := hid
        refine ⟨htasks, hlocal.setThread hnew,
          hwhole _ { thread with scheduledAt := e.scheduledAt } e htasks hmembers ?_ head hhead
            (fun henq => ⟨hq henq, hfirst⟩) rfl⟩
        rw [setThread_eq hnew]
        exact Table.get_set_self ..
      unfold rescheduleHead
      dsimp only
      split_ifs with henq
      · refine Ensures.ok (hset _ rfl rfl ?_ ?_)
        · exact ((Local.refl k s).removeQueued hrowe hkeye _).addQueued hrowe hkeye _
        · exact fun _ => Index.mem_add.mpr (Or.inl ⟨rfl, rfl⟩)
      · exact Ensures.ok (hset s rfl rfl (Local.refl k s) (fun h => absurd h henq))
  · intro hother
    apply Ensures.ite
    · intro hbusy
      exact Ensures.ok ⟨rfl, Local.refl k s, hwhole s thread hd rfl rfl hrecord head hhead
        (fun h => absurd h hbusy) (timed hbusy)⟩
    · intro _
      have hnew : ({ thread with headTaskId := e.id, scheduledAt := e.scheduledAt }
          : Thread).threadId = k.threadId := hid
      refine Ensures.ok ⟨rfl, ?_, hwhole _
        { thread with headTaskId := e.id, scheduledAt := e.scheduledAt } e rfl rfl ?_ ?_ rfl ?_ rfl⟩
      · exact (((Local.refl k s).removeQueued hrowhd hkeyhd _).setThread
          hnew).addQueued hrowe hkeye _
      · change (State.setThread _ k.queue _).threads.get k = _
        rw [setThread_eq hnew]
        exact Table.get_set_self ..
      · change s.liveRow k e.id.taskId = some e
        rw [heid]
        exact hv
      · exact fun _ => ⟨Index.mem_add.mpr (Or.inl ⟨rfl, rfl⟩), hfirst⟩

/-- A task whose row is in place becomes a member of its thread. -/
theorem attachTaskToThread_whole (key : ∀ id u, s.tasks.get id = some u → u.id = id)
    (row : s.tasks.get t.id = some t) (live : t.live)
    (hid : ∀ thread, s.threads.get t.threadKey = some thread → thread.threadId = t.threadId)
    (h : ((s.deleteRow t.id).strand t.threadKey).Whole)
    (timed : ((s.deleteRow t.id).strand t.threadKey).Timed) :
    Ensures False (attachTaskToThread s t) (fun s' => s'.tasks = s.tasks ∧
      Local t.threadKey s s' ∧ (s'.strand t.threadKey).Whole ∧ (s'.strand t.threadKey).Led ∧
      (s'.strand t.threadKey).Timed) := by
  have hself : s.liveRow t.threadKey t.id.taskId = some t := liveRow_eq_some.mpr ⟨row, live, rfl⟩
  have hmember : ∀ i, i ∈ (s.threadedTasksIndex.add t.threadKey t.queueIndexItem).items
      t.threadKey ↔ ∃ u, s.liveRow t.threadKey i.taskId = some u ∧ u.scheduledAt = i.time := by
    intro i
    rw [Index.mem_add, liveItem_iff row live]
    exact or_congr (and_iff_right rfl) (h.member i)
  unfold attachTaskToThread
  dsimp only
  cases hrecord : s.threads.get t.threadKey with
  | none =>
    have hnew : (Thread.mk t.threadId t.id t.scheduledAt 0).threadId = t.threadKey.threadId := rfl
    have hset : (s.setThread t.threadKey.queue ⟨t.threadId, t.id, t.scheduledAt, 0⟩).threads.get
        t.threadKey = some ⟨t.threadId, t.id, t.scheduledAt, 0⟩ := by
      rw [setThread_eq hnew]
      exact Table.get_set_self ..
    have halone : ∀ i, i ∈ (s.threadedTasksIndex.add t.threadKey t.queueIndexItem).items
        t.threadKey → i = t.queueIndexItem := by
      intro i hi
      refine ((Index.mem_add.mp hi).resolve_right (fun hold => ?_)).2
      obtain ⟨u, hu, _⟩ := (h.member i).mp hold
      obtain ⟨thread, hth⟩ := h.recorded.mpr ⟨_, u, hu⟩
      exact absurd (hrecord.symm.trans hth) (by simp)
    have hlocal := ((Local.addMember (s := s) t.queueIndexItem).setThread hnew).addQueued row rfl
      t.scheduledAt
    refine Ensures.ok ⟨rfl, hlocal, Strand.whole_of_head hmember hset hself rfl ?_,
      Strand.led_of_head hset hself (fun _ i hi => le_of_eq (halone i hi).symm),
      Strand.timed_of_head hset hself rfl⟩
    intro _
    exact ⟨Index.mem_add.mpr (Or.inl ⟨rfl, rfl⟩), Option.ne_none_iff_exists'.mpr ⟨t, hself⟩⟩
  | some thread =>
    obtain ⟨hd, hhd, hhead⟩ := h.head thread hrecord
    obtain ⟨_, hhd'⟩ := liveRow_of_deleteRow hhd
    have hspec := reconcileThreadHead_whole (k := t.threadKey)
      (s := { s with threadedTasksIndex := s.threadedTasksIndex.add t.threadKey t.queueIndexItem })
      (hid thread hrecord) key hrecord hmember hhd' hhead
      (fun henq _ _ => (h.queued thread hd hrecord hhd henq).1)
      (fun _ => timed thread hd hrecord hhd)
    refine hspec.mono ?_
    rintro s' ⟨htasks, hlocal, hright⟩
    exact ⟨htasks, (Local.addMember _).trans hlocal, hright⟩

/-- A member whose row holds its new time is moved to it. If the head stays where
it was it must be in the queue index. -/
theorem rescheduleTaskInThread_whole {oldScheduledAt : Time}
    (key : ∀ id u, s.tasks.get id = some u → u.id = id)
    (row : s.tasks.get t.id = some t) (live : t.live)
    (h : Apart s t ⟨oldScheduledAt, t.id.taskId⟩ thread)
    (queued : thread.headTaskId = t.id → t.state = .enqueued → thread.scheduledAt = t.scheduledAt →
      (∀ u n, (s.deleteRow t.id).liveRow t.threadKey n = some u →
        t.queueIndexItem ≤ u.queueIndexItem) →
        t.queueIndexItem ∈ s.queueIndex.items t.id.queue)
    (timed : ∀ u, u.state ≠ .enqueued → s.liveRow t.threadKey thread.headTaskId.taskId = some u →
      thread.scheduledAt = u.scheduledAt) :
    Ensures False (rescheduleTaskInThread s t oldScheduledAt) (fun s' => s'.tasks = s.tasks ∧
      Local t.threadKey s s' ∧ (s'.strand t.threadKey).Whole ∧ (s'.strand t.threadKey).Led ∧
      (s'.strand t.threadKey).Timed) := by
  have hself : s.liveRow t.threadKey t.id.taskId = some t := liveRow_eq_some.mpr ⟨row, live, rfl⟩
  generalize hx : (s.threadedTasksIndex.remove t.threadKey ⟨oldScheduledAt, t.id.taskId⟩).add
    t.threadKey t.queueIndexItem = x
  have hmember : ∀ i, i ∈ x.items t.threadKey ↔
      ∃ u, s.liveRow t.threadKey i.taskId = some u ∧ u.scheduledAt = i.time := by
    intro i
    rw [← hx, Index.mem_add, h.others rfl, liveItem_iff row live]
    exact or_congr (and_iff_right rfl) Iff.rfl
  have hlocal : Local t.threadKey s { s with threadedTasksIndex := x } := by
    rw [← hx]
    exact (Local.removeMember _).trans (Local.addMember _)
  unfold rescheduleTaskInThread
  dsimp only
  rw [hx]
  unfold State.getThread
  dsimp only
  rw [h.record]
  by_cases hhead : thread.headTaskId = t.id
  · have hhd : s.liveRow t.threadKey thread.headTaskId.taskId = some t := by
      rw [hhead]
      exact hself
    have hspec := reconcileThreadHead_whole (k := t.threadKey)
      (s := { s with threadedTasksIndex := x }) h.id key h.record hmember hhd hhead.symm ?_
      (fun hb => timed t hb hhd)
    · refine hspec.mono ?_
      rintro s' ⟨htasks, hlocal', hright⟩
      exact ⟨htasks, hlocal.trans hlocal', hright⟩
    · intro henq htime hfirst
      refine queued hhead henq htime ?_
      intro u n hu
      obtain ⟨_, hu⟩ := liveRow_of_deleteRow hu
      obtain ⟨huid, _, _⟩ := liveRow_id key hu
      have hmem : u.queueIndexItem ∈ x.items t.threadKey :=
        (hmember _).mpr ⟨u, by rw [Task.queueIndexItem, huid]; exact hu, rfl⟩
      exact hfirst _ hmem
  · obtain ⟨hd, hhd, hhid, hq⟩ := h.head hhead
    obtain ⟨_, hhd'⟩ := liveRow_of_deleteRow hhd
    have hspec := reconcileThreadHead_whole (k := t.threadKey)
      (s := { s with threadedTasksIndex := x }) h.id key h.record hmember hhd' hhid
      (fun henq _ _ => hq henq) (fun hb => timed hd hb hhd')
    refine hspec.mono ?_
    rintro s' ⟨htasks, hlocal', hright⟩
    exact ⟨htasks, hlocal.trans hlocal', hright⟩

end Coordination

end Moab
