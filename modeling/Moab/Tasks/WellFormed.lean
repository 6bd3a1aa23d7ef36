import Moab.Tasks.Filed
import Moab.Tasks.HeadRuns

namespace Moab

open OrderedStore

variable [OrderedStore] {s : State}

/-- The in-progress index holds the leases of the tasks in progress. -/
def InProgressExact (s : State) : Prop :=
  ∀ q i, i ∈ s.inProgressIndex.items q ↔ ∃ t, s.tasks.get (q.task i.taskId) = some t ∧
    t.state = .inProgress ∧ t.visibleAt = i.time

/-- The dead tasks index holds the times of death of the dead tasks. -/
def DeadExact (s : State) : Prop :=
  ∀ q i, i ∈ s.deadTasksIndex.items q ↔ ∃ t, s.tasks.get (q.task i.taskId) = some t ∧
    t.state = .dead ∧ t.lastFailedAt = i.time

/-- The expiration index holds the deadlines of the tasks that wait or are dead. -/
def ExpirationExact (s : State) : Prop :=
  ∀ ref, ref ∈ s.expiration.items () ↔ ∃ t, s.tasks.get ref.taskId = some t ∧
    (t.state = .enqueued ∨ t.state = .dead) ∧ t.expiresAt = ref.expiresAt

/-- The dedupe keys index maps the keys of live tasks to these tasks. -/
def DedupeExact (s : State) : Prop :=
  ∀ k n, s.dedupeKeysIndex.get k = some n ↔ ∃ t, s.tasks.get (k.queue.task n) = some t ∧
    t.live ∧ t.dedupeKey ≠ [] ∧ t.dedupeKey = k.dedupeKey

omit [OrderedStore] in
theorem inProgressItems_eq {q : QueueId} {i : IndexItem} {t : Task} :
    inProgressItems.item (q.task i.taskId) t = some (q, i) ↔
      t.state = .inProgress ∧ t.visibleAt = i.time := by
  cases i
  simp [inProgressItems]

omit [OrderedStore] in
theorem deadItems_eq {q : QueueId} {i : IndexItem} {t : Task} :
    deadItems.item (q.task i.taskId) t = some (q, i) ↔ t.state = .dead ∧
      t.lastFailedAt = i.time := by
  cases i
  simp [deadItems]

omit [OrderedStore] in
theorem expirationItems_eq {ref : ExpirationItem} {t : Task} :
    expirationItems.item ref.taskId t = some ((), ref) ↔
      (t.state = .enqueued ∨ t.state = .dead) ∧ t.expiresAt = ref.expiresAt := by
  cases ref
  simp [expirationItems]

omit [OrderedStore] in
theorem dedupeKeys_eq {k : DedupeKey} {n : Nat} {t : Task} :
    dedupeKeys.key (k.queue.task n) t = some k ↔
      t.live ∧ t.dedupeKey ≠ [] ∧ t.dedupeKey = k.dedupeKey := by
  cases k
  simp [dedupeKeys, and_assoc]

theorem Indexed.inProgressExact {th : Prop} (h : Indexed th s.rows) : InProgressExact s :=
  fun q i => (h.inProgress q i).trans (exists_congr fun _ => and_congr_right fun _ =>
    inProgressItems_eq)

theorem Indexed.deadExact {th : Prop} (h : Indexed th s.rows) : DeadExact s :=
  fun q i => (h.dead q i).trans (exists_congr fun _ => and_congr_right fun _ => deadItems_eq)

theorem Indexed.expirationExact {th : Prop} (h : Indexed th s.rows) : ExpirationExact s :=
  fun ref => (h.expiration () ref).trans
    (exists_congr fun _ => and_congr_right fun _ => expirationItems_eq)

theorem Indexed.dedupeExact {th : Prop} (h : Indexed th s.rows) : DedupeExact s :=
  fun k n => (h.dedupe k n).trans (exists_congr fun _ => and_congr_right fun _ => dedupeKeys_eq)

/-- The task has no thread, or heads the one it has. -/
def Dequeueable (s : State) (t : Task) : Prop :=
  t.threadId = [] ∨ ∃ thread, s.threads.get t.threadKey = some thread ∧ thread.headTaskId = t.id

/-- The queue index holds the times of the waiting tasks that may be handed out. -/
def QueueExact (s : State) : Prop :=
  ∀ q i, i ∈ s.queueIndex.items q ↔ ∃ t, s.tasks.get (q.task i.taskId) = some t ∧
    t.state = .enqueued ∧ t.scheduledAt = i.time ∧ Dequeueable s t

/-- The threaded tasks index holds the times of the live tasks of every thread. -/
def MembersExact (s : State) : Prop :=
  ∀ k i, i ∈ s.threadedTasksIndex.items k ↔ ∃ t, s.tasks.get (k.queue.task i.taskId) = some t ∧
    t.live ∧ t.threadId ≠ [] ∧ t.threadId = k.threadId ∧ t.scheduledAt = i.time

/-- The head a thread record names is a live task of the thread, whose time the
record carries. -/
def ThreadsExact (s : State) : Prop :=
  ∀ k thread, s.threads.get k = some thread → thread.threadId = k.threadId ∧
    thread.headTaskId.queue = k.queue ∧ ∃ t, s.tasks.get thread.headTaskId = some t ∧ t.live ∧
      t.threadId ≠ [] ∧ t.threadId = k.threadId ∧ thread.scheduledAt = t.scheduledAt

/-- All secondary indexes and thread records agree with the task rows. -/
structure WellFormed (s : State) : Prop where
  key : ∀ id t, s.tasks.get id = some t → t.id = id
  sequence : ∀ id t, s.tasks.get id = some t →
    id.taskId ≤ (s.getQueueState id.queue).taskIdSequence
  queue : QueueExact s
  inProgress : InProgressExact s
  dead : DeadExact s
  expiration : ExpirationExact s
  dedupe : DedupeExact s
  members : MembersExact s
  threads : ThreadsExact s
  leased : ∀ id t, s.tasks.get id = some t → t.state = .inProgress → Dequeueable s t

namespace WellFormed

theorem indexed (h : WellFormed s) : Indexed True s.rows where
  key := h.key
  calm _ _ _ := ⟨fun _ => trivial, fun _ => trivial⟩
  inProgress q i := (h.inProgress q i).trans
    (exists_congr fun _ => and_congr_right fun _ => inProgressItems_eq.symm)
  dead q i := (h.dead q i).trans
    (exists_congr fun _ => and_congr_right fun _ => deadItems_eq.symm)
  expiration _ ref := (h.expiration ref).trans
    (exists_congr fun _ => and_congr_right fun _ => expirationItems_eq.symm)
  dedupe k n := (h.dedupe k n).trans
    (exists_congr fun _ => and_congr_right fun _ => dedupeKeys_eq.symm)

/-- The threads alone: neither order nor cursor, and any id. -/
def anyScope : Scope := ⟨True, fun _ => True, False, fun _ _ => True, fun _ => False⟩

theorem heads (h : WellFormed s) : Heads anyScope s where
  row id t ht := ⟨h.key id t ht, trivial, fun _ => trivial⟩
  queue_row q i hi := by
    obtain ⟨t, ht, hs, htime, _⟩ := (h.queue q i).mp hi
    exact ⟨t, ht, hs, fun _ => htime⟩
  queue_free id t ht hs hn := (h.queue id.queue _).mpr ⟨t, ht, hs, rfl, Or.inl hn⟩
  queue_head q i hi t ht hn := by
    obtain ⟨u, hu, _, htime, hd⟩ := (h.queue q i).mp hi
    obtain rfl := Option.some.inj (ht.symm.trans hu)
    obtain ⟨thread, hk, hhead⟩ := hd.resolve_left hn
    have hid := h.key _ _ ht
    rw [Task.threadKey, hid] at hk
    obtain ⟨_, _, v, hv, _, _, _, hst⟩ := h.threads _ _ hk
    rw [hhead, hid, ht] at hv
    obtain rfl := Option.some.inj hv
    exact ⟨thread, hk, hhead.trans hid, hst.trans htime⟩
  queue_front hc := hc.elim
  leased_head id t ht hs hn := by
    obtain ⟨thread, hk, hhead⟩ := (h.leased id t ht hs).resolve_left hn
    have hid := h.key _ _ ht
    rw [Task.threadKey, hid] at hk
    exact ⟨thread, hk, hhead.trans hid⟩
  thread_key k thread hk := by
    obtain ⟨hth, hq, t, _, _, hn, htk, _⟩ := h.threads k thread hk
    exact ⟨hth, hq, htk ▸ hn, trivial, trivial⟩
  head_live k thread t hk ht := by
    obtain ⟨_, _, u, hu, hl, _, htk, _⟩ := h.threads k thread hk
    obtain rfl := Option.some.inj (hu.symm.trans ht)
    exact ⟨hl, htk⟩
  member_key k i hi := by
    obtain ⟨t, _, _, hn, htk, _⟩ := (h.members k i).mp hi
    exact ⟨htk ▸ hn, trivial, trivial⟩
  member_live k i hi t ht := by
    obtain ⟨u, hu, hl, _, htk, htime⟩ := (h.members k i).mp hi
    obtain rfl := Option.some.inj (hu.symm.trans ht)
    exact ⟨hl, htk, htime⟩
  ahead hc := hc.elim
  settled k := by
    refine ⟨fun hc => hc.elim, fun thread t hk ht => ?_, fun hc => hc.elim⟩
    obtain ⟨_, _, u, hu, _, _, _, hst⟩ := h.threads k thread hk
    obtain rfl := Option.some.inj (hu.symm.trans ht)
    exact hst

/-- Every call on a well-formed state is a path of row changes. -/
theorem exec_makes {now : Time} {op : Op} (h : WellFormed s) :
    Ensures True (exec s now op) (fun a => ∃ es, Steps True s.rows es a.1.rows ∧
      Caused now op a.2 es ∧ Indexed True a.1.rows) := by
  have hmade : Ensures True (exec s now op) _ :=
    Moab.exec_makes h.indexed h.heads h.sequence (fun _ => trivial) (fun _ => trivial)
      (fun _ => trivial)
  refine hmade.mono (fun a ha => ?_)
  obtain ⟨es, hes, hc, _⟩ := ha
  exact ⟨es, hes, hc, h.indexed.steps hes⟩

end WellFormed

/-- The links between rows and threads that a listing of the two tables can check. -/
def Linked (s : State) : Prop :=
  (∀ e ∈ s.tasks.entries, e.2.threadId ≠ [] →
    (e.2.live → e.2.queueIndexItem ∈ s.threadedTasksIndex.items e.2.threadKey) ∧
    (e.2.state = .enqueued → (s.threads.get e.2.threadKey).any (·.headTaskId = e.2.id) →
      e.2.queueIndexItem ∈ s.queueIndex.items e.1.queue)) ∧
  ∀ e ∈ s.threads.entries, (s.tasks.get e.2.headTaskId).any (fun t =>
      t.live ∧ t.threadId ≠ [] ∧ t.threadId = e.1.threadId ∧ e.2.scheduledAt = t.scheduledAt) ∧
    ∀ i ∈ s.threadedTasksIndex.items e.1, (s.tasks.get (e.1.queue.task i.taskId)).any (fun t =>
      t.live ∧ t.threadId ≠ [] ∧ t.threadId = e.1.threadId ∧ t.scheduledAt = i.time)

instance (s : State) : Decidable (Linked s) := by
  unfold Linked
  infer_instance

theorem Linked.members (h : Linked s) (hf : Filed s.spine) : MembersExact s := by
  intro k i
  constructor
  · intro hi
    obtain ⟨thread, hk⟩ := Option.ne_none_iff_exists'.mp (hf.member k i hi)
    have hany := (h.2 (k, thread) (Table.mem_entries.mpr hk)).2 i hi
    obtain ⟨t, ht, hp⟩ := (Option.any_eq_true _ _).mp hany
    exact ⟨t, ht, of_decide_eq_true hp⟩
  · intro hi
    obtain ⟨t, ht, hlive, hth, hkey, htime⟩ := hi
    have hmem := (h.1 (_, t) (Table.mem_entries.mpr ht) hth).1 hlive
    have hid := (hf.row _ t ht).1
    rw [Task.threadKey, Task.queueIndexItem, hid, hkey, htime] at hmem
    exact hmem

theorem Linked.threads (h : Linked s) (hf : Filed s.spine) : ThreadsExact s := by
  intro k thread hk
  obtain ⟨hid, hq⟩ := hf.thread k thread hk
  have hany := (h.2 (k, thread) (Table.mem_entries.mpr hk)).1
  obtain ⟨t, ht, hp⟩ := (Option.any_eq_true _ _).mp hany
  exact ⟨hid, hq, t, ht, of_decide_eq_true hp⟩

theorem Linked.queue {c : Scope} (h : Linked s) (hf : Filed s.spine) (hh : Heads c s) :
    QueueExact s := by
  intro q i
  constructor
  · intro hi
    obtain ⟨t, ht, hst, htime⟩ := hh.queueSound q i hi
    refine ⟨t, ht, hst, htime, ?_⟩
    by_cases hth : t.threadId = []
    · exact Or.inl hth
    · obtain ⟨thread, hk, hhead, _⟩ := hh.queue_head q i hi t ht hth
      have hid := (hf.row _ t ht).1
      refine Or.inr ⟨thread, ?_, hhead.trans hid.symm⟩
      rw [Task.threadKey, hid]
      exact hk
  · intro hi
    obtain ⟨t, ht, hst, htime, hd⟩ := hi
    have hid := (hf.row _ t ht).1
    rcases hd with hth | ⟨thread, hk, hhead⟩
    · have hmem := hh.queue_free _ t ht hst hth
      rw [htime] at hmem
      exact hmem
    · have hany : (s.threads.get t.threadKey).any (·.headTaskId = t.id) = true := by
        rw [hk]
        simp [hhead]
      by_cases hth : t.threadId = []
      · have hmem := hh.queue_free _ t ht hst hth
        rw [htime] at hmem
        exact hmem
      · have hmem := (h.1 (_, t) (Table.mem_entries.mpr ht) hth).2 hst hany
        rw [Task.queueIndexItem, hid, htime] at hmem
        exact hmem

/-- A state reached without displacing a head is well-formed if its threads are linked. -/
theorem Linked.wellFormed {th tr : Prop} (h : Linked s) (hf : Filed s.spine) (hs : Sound th tr s) :
    WellFormed s where
  key := hs.indexed.key
  sequence := hs.sequenced
  queue := h.queue hf hs.heads
  inProgress := hs.indexed.inProgressExact
  dead := hs.indexed.deadExact
  expiration := hs.indexed.expirationExact
  dedupe := hs.indexed.dedupeExact
  members := h.members hf
  threads := h.threads hf
  leased id t ht hst := by
    by_cases hth : t.threadId = []
    · exact Or.inl hth
    · obtain ⟨thread, hk, hhead⟩ := hs.heads.leased_head id t ht hst hth
      have hid := (hf.row id t ht).1
      rw [← hid] at hk hhead
      exact Or.inr ⟨thread, hk, hhead⟩

end Moab
