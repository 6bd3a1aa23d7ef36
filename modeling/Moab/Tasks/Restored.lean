import Moab.Framework.SortedList
import Moab.Tasks.Exclusion
import Moab.Tasks.Snapshot

namespace Moab

open OrderedStore

section Rebuild

variable [OrderedStore]

/-- What a restored task adds to the queue index: only heads, by the records. -/
def queueItems (threads : Table ThreadKey Thread) : Projection TaskId Task QueueId IndexItem where
  item id t :=
    if t.state = .enqueued ∧ (t.threadId = [] ∨
      (threads.get ⟨id.queue, t.threadId⟩).any (fun thread => thread.headTaskId.taskId = id.taskId))
    then some (id.queue, ⟨t.scheduledAt, id.taskId⟩) else none
  owner q i := q.task i.taskId
  owner_item := by
    intro id t q i h
    split_ifs at h
    obtain ⟨rfl, rfl⟩ := Prod.mk.injEq .. ▸ Option.some.inj h
    rfl

/-- What a restored task adds to its thread, whatever its state. -/
def memberItems : Projection TaskId Task ThreadKey IndexItem where
  item id t := if t.threadId ≠ [] then some (⟨id.queue, t.threadId⟩, ⟨t.scheduledAt, id.taskId⟩)
    else none
  owner k i := k.queue.task i.taskId
  owner_item := by
    intro id t k i h
    split_ifs at h
    obtain ⟨rfl, rfl⟩ := Prod.mk.injEq .. ▸ Option.some.inj h
    rfl

/-- A restored task is given its deadline back, whatever its state. -/
def deadlineItems : Projection TaskId Task Unit ExpirationItem where
  item id t := some ((), ⟨t.expiresAt, id⟩)
  owner _ i := i.taskId
  owner_item := by
    intro id t q i h
    obtain ⟨rfl, rfl⟩ := Prod.mk.injEq .. ▸ Option.some.inj h
    rfl

variable {s : State} {t : Task} {l : List Task} {T : Table TaskId Task}
  {threads : Table ThreadKey Thread} {owns : QueueId → Bool}

theorem restoreIndexes_eq (s : State) (t : Task) (isHead : Bool) :
    restoreIndexes s t isHead = { s with
      tasks := s.tasks.set t.id t
      dedupeKeysIndex := if t.dedupeKey ≠ [] ∧ t.state ≠ .dead
        then s.dedupeKeysIndex.set t.dedupe t.id.taskId else s.dedupeKeysIndex
      queueIndex := if t.state = .enqueued ∧ isHead
        then s.queueIndex.add t.id.queue t.queueIndexItem else s.queueIndex
      inProgressIndex := if t.state = .inProgress
        then s.inProgressIndex.add t.id.queue t.inProgressIndexItem else s.inProgressIndex
      deadTasksIndex := if t.state = .dead
        then s.deadTasksIndex.add t.id.queue t.deadTasksIndexItem else s.deadTasksIndex
      expiration := s.expiration.add () t.expirationItem } := by
  unfold restoreIndexes
  by_cases hd : t.dedupeKey ≠ [] ∧ t.state ≠ .dead
  · simp only [if_pos hd]
    cases t.state <;> cases isHead <;> rfl
  · simp only [if_neg hd]
    cases t.state <;> cases isHead <;> rfl

/-- The tables while tasks are being restored: the rows are those of T that are not
still to come, and every index is exact for them. -/
structure Restoring (T : Table TaskId Task) (threads : Table ThreadKey Thread) (l : List Task)
    (s : State) : Prop where
  rows : ∀ id t, T.get id = some t ↔ s.tasks.get id = some t ∨ t ∈ l ∧ t.id = id
  fresh : ∀ t ∈ l, s.tasks.get t.id = none
  nodup : (l.map Task.id).Nodup
  records : s.threads = threads
  queue : Exact (queueItems threads) s.tasks s.queueIndex
  inProgress : Exact inProgressItems s.tasks s.inProgressIndex
  dead : Exact deadItems s.tasks s.deadTasksIndex
  expiration : Exact deadlineItems s.tasks s.expiration
  members : Exact memberItems s.tasks s.threadedTasksIndex
  dedupe : (∃ x, Unique dedupeKeys T x) → Unique dedupeKeys s.tasks s.dedupeKeysIndex
  valid : ∀ id t, T.get id = some t → t.state ≠ .invalid
  unread : s.counters = Table.empty ∧ s.queueState = Table.empty ∧ s.rateLimiters = Table.empty ∧
    s.purgeGCRecords = Table.empty

namespace Restoring

/-- A key that a task still to come holds is free, since no other task may hold it. -/
theorem free (h : Restoring T threads (t :: l) s) (hx : ∃ x, Unique dedupeKeys T x)
    {k : DedupeKey} (hk : dedupeKeys.key t.id t = some k) : s.dedupeKeysIndex.get k = none := by
  obtain ⟨x, hunique⟩ := id hx
  cases hget : s.dedupeKeysIndex.get k with
  | none => rfl
  | some n =>
    obtain ⟨u, hu, hku⟩ := (h.dedupe hx k n).mp hget
    have hrow : T.get t.id = some t := (h.rows t.id t).mpr (Or.inr ⟨List.mem_cons_self, rfl⟩)
    have hother : T.get (k.queue.task n) = some u := (h.rows _ u).mpr (Or.inl hu)
    have hid : dedupeKeys.owner k n = t.id := hunique.eq_of_key hother hrow hku hk
    rw [hid, h.fresh t List.mem_cons_self] at hu
    exact absurd hu (by simp)

/-- One task is restored, with its place in its thread decided by the records. -/
theorem next (h : Restoring T threads (t :: l) s) {x : Index ThreadKey IndexItem} {isHead : Bool}
    (hmember : Exact memberItems (s.tasks.set t.id t) x)
    (hhead : isHead = decide (t.threadId = [] ∨ (threads.get t.threadKey).any
      (fun thread => thread.headTaskId.taskId = t.id.taskId))) :
    Restoring T threads l (restoreIndexes { s with threadedTasksIndex := x } t isHead) := by
  have hgone : s.tasks.get t.id = none := h.fresh t List.mem_cons_self
  have hnone : ∀ {P : Task → Prop}, ∀ v, s.tasks.get t.id = some v → P v := by
    intro P v hv
    rw [hgone] at hv
    exact absurd hv (by simp)
  have hrow : T.get t.id = some t := (h.rows t.id t).mpr (Or.inr ⟨List.mem_cons_self, rfl⟩)
  obtain ⟨hfirst, hnodup⟩ := List.nodup_cons.mp h.nodup
  have hne : ∀ u ∈ l, u.id ≠ t.id := fun u hu he => hfirst (he ▸ List.mem_map_of_mem hu)
  rw [restoreIndexes_eq]
  constructor
  case rows =>
    intro id u
    rw [h.rows id u]
    dsimp only
    rw [Table.get_set]
    by_cases hid : id = t.id
    · rw [hid, if_pos rfl, hgone]
      simp only [reduceCtorEq, List.mem_cons, false_or, Option.some.injEq]
      constructor
      · intro hu
        exact hu.1.imp Eq.symm (fun hm => ⟨hm, hu.2⟩)
      · intro hu
        rcases hu with rfl | hu
        · exact ⟨Or.inl rfl, rfl⟩
        · exact ⟨Or.inr hu.1, hu.2⟩
    · rw [if_neg hid]
      apply or_congr_right
      rw [List.mem_cons]
      constructor
      · intro hu
        exact ⟨hu.1.resolve_left (fun he => hid (he ▸ hu.2.symm)), hu.2⟩
      · intro hu
        exact ⟨Or.inr hu.1, hu.2⟩
  case fresh =>
    intro u hu
    dsimp only
    rw [Table.get_set_ne _ _ (hne u hu)]
    exact h.fresh u (List.mem_cons_of_mem _ hu)
  case nodup => exact hnodup
  case records => exact h.records
  case queue =>
    dsimp only
    have hitem : (queueItems threads).item t.id t =
        if t.state = .enqueued ∧ isHead then some (t.id.queue, t.queueIndexItem) else none := by
      simp only [queueItems, hhead, decide_eq_true_eq]
      rfl
    split_ifs at hitem ⊢
    · exact h.queue.set_add hnone hitem
    · exact h.queue.set_none hnone hitem
  case inProgress =>
    dsimp only
    split_ifs with hst
    · exact h.inProgress.set_add hnone (by simp [inProgressItems, hst, Task.inProgressIndexItem])
    · exact h.inProgress.set_none hnone (by simp [inProgressItems, hst])
  case dead =>
    dsimp only
    split_ifs with hst
    · exact h.dead.set_add hnone (by simp [deadItems, hst, Task.deadTasksIndexItem])
    · exact h.dead.set_none hnone (by simp [deadItems, hst])
  case expiration => exact h.expiration.set_add hnone rfl
  case members => exact hmember
  case dedupe =>
    intro hx
    dsimp only
    have hlive : t.live ↔ t.state ≠ .dead := by
      have hvalid := h.valid t.id t hrow
      unfold Task.live
      cases hst : t.state <;> simp_all
    split_ifs with hd
    · have hkey : dedupeKeys.key t.id t = some t.dedupe := by
        simp [dedupeKeys, hlive.mpr hd.2, hd.1, Task.dedupe]
      exact (h.dedupe hx).claim hnone (h.free hx hkey) hkey
    · have hkey : dedupeKeys.key t.id t = none := by
        simp only [dedupeKeys, ite_eq_right_iff, reduceCtorEq, imp_false, hlive]
        exact fun hl => hd ⟨hl.2, hl.1⟩
      exact (h.dedupe hx).set_none hnone hkey
  case valid => exact h.valid
  case unread => exact h.unread

theorem task (h : Restoring T threads (t :: l) s) (hown : owns t.id.queue = true) :
    Ensures (t.threadId ≠ [] ∧ threads.get t.threadKey = none) (restoreTask owns s t)
      (Restoring T threads l) := by
  have hgone : ∀ v, s.tasks.get t.id = some v → memberItems.item t.id v = none := by
    intro v hv
    rw [h.fresh t List.mem_cons_self] at hv
    exact absurd hv (by simp)
  unfold restoreTask
  rw [if_neg (by simp [hown])]
  apply Ensures.ite
  · intro hth
    have hmember : Exact memberItems (s.tasks.set t.id t) s.threadedTasksIndex :=
      h.members.set_none hgone (by simp [memberItems, hth])
    exact Ensures.ok (h.next hmember (by simp [hth]))
  · intro hth
    have hmember : Exact memberItems (s.tasks.set t.id t)
        (s.threadedTasksIndex.add t.threadKey t.queueIndexItem) :=
      h.members.set_add hgone (by simp [memberItems, hth, Task.threadKey, Task.queueIndexItem])
    dsimp only
    unfold State.getThread
    dsimp only
    have hrecords : threads.get t.threadKey = s.threads.get t.threadKey := by rw [h.records]
    cases hk : s.threads.get t.threadKey with
    | none => exact Ensures.error ⟨hth, hrecords.trans hk⟩
    | some thread => exact Ensures.ok (h.next hmember (by simp [hth, hrecords, hk]))

theorem tasks (h : Restoring T threads l s) (hown : ∀ q, owns q = true) :
    Ensures (∃ t ∈ l, t.threadId ≠ [] ∧ threads.get t.threadKey = none)
      (l.foldlM (restoreTask owns) s) (Restoring T threads []) := by
  induction l generalizing s with
  | nil => exact Ensures.pure h
  | cons t l ih =>
    rw [List.foldlM_cons]
    have hfirst := (h.task (hown t.id.queue)).weaken (F := ∃ u ∈ t :: l, u.threadId ≠ [] ∧
      threads.get u.threadKey = none) (fun he => ⟨t, List.mem_cons_self, he⟩)
    apply hfirst.bind
    intro s' hs'
    apply (ih hs').weaken
    intro he
    obtain ⟨u, hu, hlost⟩ := he
    exact ⟨u, List.mem_cons_of_mem _ hu, hlost⟩

end Restoring

/-- The restored state, apart from the tables without indexes. -/
structure Restored (s s' : State) : Prop where
  tasks : s'.tasks = s.tasks
  threads : s'.threads = s.threads
  queue : Exact (queueItems s.threads) s.tasks s'.queueIndex
  inProgress : Exact inProgressItems s.tasks s'.inProgressIndex
  dead : Exact deadItems s.tasks s'.deadTasksIndex
  expiration : Exact deadlineItems s.tasks s'.expiration
  members : Exact memberItems s.tasks s'.threadedTasksIndex
  dedupe : (∃ x, Unique dedupeKeys s.tasks x) → Unique dedupeKeys s.tasks s'.dedupeKeysIndex
  counters : s'.counters = s.counters
  queueState : s'.queueState = s.queueState
  rateLimiters : s'.rateLimiters = s.rateLimiters
  purgeGCRecords : s'.purgeGCRecords = s.purgeGCRecords

section Sections

/-- The thread records come first, into an empty core. -/
theorem restoreThreads_eq (hf : Filed s.spine) (hown : ∀ q, owns q = true) :
    (snapshot s).threads.foldl (restoreThread owns) State.empty =
      { State.empty with threads := s.threads } := by
  have hfold : ∀ (l : List (ThreadKey × Thread)) (u : State),
      (∀ e ∈ l, s.threads.get e.1 = some e.2) →
      (l.map Prod.snd).foldl (restoreThread owns) u =
        { u with threads := l.foldl (fun t e => t.set e.1 e.2) u.threads } := by
    intro l
    induction l with
    | nil => exact fun u _ => rfl
    | cons e l ih =>
      intro u hl
      obtain ⟨hid, hq⟩ := hf.thread e.1 e.2 (hl e List.mem_cons_self)
      have hkey : (⟨e.2.headTaskId.queue, e.2.threadId⟩ : ThreadKey) = e.1 := by rw [hid, hq]
      rw [List.map_cons, List.foldl_cons, restoreThread, if_pos (hown _),
        ih _ (fun e' he' => hl e' (List.mem_cons_of_mem _ he'))]
      unfold State.setThread
      rw [hkey]
      rfl
  have hentries : ∀ e ∈ s.threads.entries, s.threads.get e.1 = some e.2 :=
    fun e he => Table.mem_entries.mp he
  change (s.threads.entries.map Prod.snd).foldl (restoreThread owns) State.empty = _
  rw [hfold _ _ hentries]
  have hback := Table.foldl_set_entries s.threads
  exact congrArg (fun x => { State.empty with threads := x }) hback

/-- Rows keyed by queue are written back one by one. -/
theorem restoreRow_eq {α : Type} (get : State → Table QueueId α)
    (put : State → Table QueueId α → State) (hput : ∀ s x y, put (put s x) y = put s y)
    (hget : ∀ s x, get (put s x) = x) (hsame : ∀ s, put s (get s) = s) (x : Table QueueId α)
    (s : State) (hs : get s = Table.empty) (hown : ∀ q, owns q = true) :
    x.entries.foldl (restoreRow (fun s q a => put s ((get s).set q a)) owns) s = put s x := by
  have hfold : ∀ (l : List (QueueId × α)) (s : State),
      l.foldl (restoreRow (fun s q a => put s ((get s).set q a)) owns) s =
        put s (l.foldl (fun t e => t.set e.1 e.2) (get s)) := by
    intro l
    induction l with
    | nil => exact fun s => (hsame s).symm
    | cons e l ih =>
      intro s
      rw [List.foldl_cons, restoreRow, if_pos (hown e.1), ih, hput, hget]
      rfl
  rw [hfold, hs, Table.foldl_set_entries]

theorem restorePurgeGCRecords_eq (x : Table QueueId Unit) (s : State)
    (hs : s.purgeGCRecords = Table.empty) (hown : ∀ q, owns q = true) :
    (x.entries.map Prod.fst).foldl (restorePurgeGCRecord owns) s =
    { s with purgeGCRecords := x } := by
  have hfold : ∀ (l : List (QueueId × Unit)) (s : State),
      (l.map Prod.fst).foldl (restorePurgeGCRecord owns) s =
        { s with purgeGCRecords := l.foldl (fun t e => t.set e.1 e.2) s.purgeGCRecords } := by
    intro l
    induction l with
    | nil => exact fun s => rfl
    | cons e l ih =>
      intro s
      rw [List.map_cons, List.foldl_cons, restorePurgeGCRecord, if_pos (hown e.1), ih]
      rfl
  rw [hfold, hs, Table.foldl_set_entries]

/-- Before the first task the indexes are empty, as they should be. -/
theorem Restoring.start (hf : Filed s.spine) :
    Restoring s.tasks s.threads (snapshot s).tasks { State.empty with threads := s.threads } where
  rows id t := by
    have hmem : t ∈ (snapshot s).tasks ∧ t.id = id ↔ s.tasks.get id = some t := by
      constructor
      · intro ht
        obtain ⟨e, he, rfl⟩ := List.mem_map.mp ht.1
        have hget := Table.mem_entries.mp he
        rw [← ht.2, (hf.row e.1 e.2 hget).1]
        exact hget
      · intro ht
        exact ⟨List.mem_map.mpr ⟨(id, t), Table.mem_entries.mpr ht, rfl⟩, (hf.row id t ht).1⟩
    rw [hmem]
    simp [State.empty]
  fresh t _ := by simp [State.empty]
  nodup := by
    have hids : (snapshot s).tasks.map Task.id = s.tasks.entries.map Prod.fst := by
      change (s.tasks.entries.map Prod.snd).map Task.id = _
      rw [List.map_map]
      apply List.map_congr_left
      intro e he
      exact (hf.row e.1 e.2 (Table.mem_entries.mp he)).1
    rw [hids]
    exact s.tasks.entries_keys_nodup
  records := rfl
  queue := Exact.empty
  inProgress := Exact.empty
  dead := Exact.empty
  expiration := Exact.empty
  members := Exact.empty
  dedupe _ := Unique.empty
  valid id t ht := (hf.row id t ht).2
  unread := ⟨rfl, rfl, rfl, rfl⟩

/-- The sections after the tasks fill the tables that nothing is derived from. -/
theorem Restoring.finish {u : State} (h : Restoring s.tasks s.threads [] u)
    (hown : ∀ q, owns q = true) : Restored s
      ((snapshot s).purgeGCRecords.foldl (restorePurgeGCRecord owns)
        ((snapshot s).rateLimiters.foldl (restoreRateLimiter owns)
          ((snapshot s).queueState.foldl (restoreQueueState owns)
            ((snapshot s).counters.foldl (restoreCounter owns) u)))) := by
  obtain ⟨hc, hq, hr, hp⟩ := h.unread
  have hcounters : (snapshot s).counters.foldl (restoreCounter owns) u =
      { u with counters := s.counters } :=
    restoreRow_eq State.counters (fun s x => { s with counters := x }) (fun _ _ _ => rfl)
      (fun _ _ => rfl) (fun _ => rfl) s.counters u hc hown
  have hstates : (snapshot s).queueState.foldl (restoreQueueState owns)
      { u with counters := s.counters } =
        { u with counters := s.counters, queueState := s.queueState } :=
    restoreRow_eq State.queueState (fun s x => { s with queueState := x }) (fun _ _ _ => rfl)
      (fun _ _ => rfl) (fun _ => rfl) s.queueState _ hq hown
  have hlimiters : (snapshot s).rateLimiters.foldl (restoreRateLimiter owns)
      { u with counters := s.counters, queueState := s.queueState } =
        { u with
          counters := s.counters, queueState := s.queueState, rateLimiters := s.rateLimiters } :=
    restoreRow_eq State.rateLimiters (fun s x => { s with rateLimiters := x }) (fun _ _ _ => rfl)
      (fun _ _ => rfl) (fun _ => rfl) s.rateLimiters _ hr hown
  have hmarkers : (snapshot s).purgeGCRecords.foldl (restorePurgeGCRecord owns) { u with
      counters := s.counters, queueState := s.queueState, rateLimiters := s.rateLimiters } =
        { u with
          counters := s.counters, queueState := s.queueState, rateLimiters := s.rateLimiters
          purgeGCRecords := s.purgeGCRecords } :=
    restorePurgeGCRecords_eq s.purgeGCRecords _ hp hown
  have htasks : u.tasks = s.tasks := by
    apply Table.ext
    intro id
    apply Option.ext
    intro t
    rw [h.rows id t]
    simp
  rw [hcounters, hstates, hlimiters, hmarkers]
  exact {
    tasks := htasks
    threads := h.records
    queue := htasks ▸ h.queue
    inProgress := htasks ▸ h.inProgress
    dead := htasks ▸ h.dead
    expiration := htasks ▸ h.expiration
    members := htasks ▸ h.members
    dedupe := htasks ▸ h.dedupe
    counters := rfl
    queueState := rfl
    rateLimiters := rfl
    purgeGCRecords := rfl }

/-- Restoring a snapshot gives back every row, and indexes rebuilt from the rows. It
fails only over a task whose thread has no record. -/
theorem restore_restored (hf : Filed s.spine) (hown : ∀ q, owns q = true) :
    Ensures (∃ id t, s.tasks.get id = some t ∧ t.threadId ≠ [] ∧ s.threads.get t.threadKey = none)
      (restore owns [snapshot s]) (Restored s) := by
  have htasks := (Restoring.start hf).tasks hown
  have hlost : (∃ t ∈ (snapshot s).tasks, t.threadId ≠ [] ∧ s.threads.get t.threadKey = none) →
      ∃ id t, s.tasks.get id = some t ∧ t.threadId ≠ [] ∧ s.threads.get t.threadKey = none := by
    intro he
    obtain ⟨t, ht, hlost⟩ := he
    obtain ⟨e, hm, rfl⟩ := List.mem_map.mp ht
    exact ⟨e.1, e.2, Table.mem_entries.mp hm, hlost⟩
  unfold restore
  rw [List.foldlM_cons]
  apply Ensures.bind (P := Restored s)
  · unfold restoreStream
    rw [restoreThreads_eq hf hown]
    exact (htasks.weaken hlost).bind (fun u hu => Ensures.ok (hu.finish hown))
  · exact fun u hu => Ensures.pure hu

end Sections

section Threads

theorem QueueExact.exact (h : QueueExact s) (hf : Filed s.spine) :
    Exact (queueItems s.threads) s.tasks s.queueIndex := by
  intro q i
  rw [h q i]
  apply exists_congr
  intro t
  apply and_congr_right
  intro ht
  have hid : t.id = q.task i.taskId := (hf.row _ t ht).1
  have hhead : Dequeueable s t ↔ t.threadId = [] ∨ (s.threads.get ⟨q, t.threadId⟩).any
      (fun thread => thread.headTaskId.taskId = i.taskId) := by
    unfold Dequeueable Task.threadKey
    rw [hid]
    apply or_congr_right
    rw [QueueId.task_queue]
    constructor
    · intro he
      obtain ⟨thread, hk, hhead⟩ := he
      rw [hk]
      simp [hhead]
    · intro he
      obtain ⟨thread, hk, hany⟩ := (Option.any_eq_true _ _).mp he
      have hq := (hf.thread _ thread hk).2
      exact ⟨thread, hk, TaskId.eq_of_queue hq (of_decide_eq_true hany)⟩
  rw [hhead]
  change _ ↔ (if t.state = .enqueued ∧ _ then some (q, (⟨t.scheduledAt, i.taskId⟩ : IndexItem))
    else none) = some (q, i)
  obtain ⟨time, n⟩ := i
  split_ifs with hc
  · simp only [Option.some.injEq, Prod.mk.injEq, IndexItem.mk.injEq, true_and, and_true]
    exact ⟨fun hx => hx.2.1, fun hx => ⟨hc.1, hx, hc.2⟩⟩
  · simp only [iff_false]
    exact fun hx => hc ⟨hx.1, hx.2.2⟩

theorem Restored.member {s' : State} (h : Restored s s') {id : TaskId}
    (ht : s.tasks.get id = some t) (hth : t.threadId ≠ []) :
    ⟨t.scheduledAt, id.taskId⟩ ∈ s'.threadedTasksIndex.items ⟨id.queue, t.threadId⟩ :=
  h.members.mem ht (by simp [memberItems, hth])

/-- Where no dead task is in a thread, the rebuilt members are the live ones. -/
theorem Restored.members_eq {s' : State} (h : Restored s s') (hm : MembersExact s)
    (hlive : ∀ id t, s.tasks.get id = some t → t.threadId ≠ [] → t.live) :
    s'.threadedTasksIndex = s.threadedTasksIndex := by
  apply h.members.ext
  intro k i
  rw [hm k i]
  apply exists_congr
  intro t
  apply and_congr_right
  intro ht
  have hl := hlive _ t ht
  obtain ⟨q, threadId⟩ := k
  obtain ⟨time, n⟩ := i
  change _ ↔ (if t.threadId ≠ [] then some ((⟨q, t.threadId⟩ : ThreadKey),
    (⟨t.scheduledAt, n⟩ : IndexItem)) else none) = some (⟨q, threadId⟩, ⟨time, n⟩)
  split_ifs with hth
  · simp [hth, hl hth]
  · simp [hth]

/-- A snapshot of a state whose indexes agree with the rows gives back the threads
exactly when no dead task carries a thread id. -/
theorem restore_threads_iff (calls : List Call) (hown : ∀ q, owns q = true)
    (hq : QueueExact (run State.empty calls)) (hm : MembersExact (run State.empty calls)) :
    (∃ s', restore owns [snapshot (run State.empty calls)] = .ok s' ∧
      s'.threads = (run State.empty calls).threads ∧
      s'.threadedTasksIndex = (run State.empty calls).threadedTasksIndex ∧
      s'.queueIndex = (run State.empty calls).queueIndex) ↔
    ∀ id t, (run State.empty calls).tasks.get id = some t → t.state = .dead → t.threadId = [] := by
  have hf := run_filed calls
  have hrestored : Ensures _ (restore owns _) _ := restore_restored hf hown
  generalize run State.empty calls = s at *
  constructor
  · intro he id t ht hdead
    obtain ⟨s', hs', _, hmembers, _⟩ := he
    by_contra hth
    have hmem := (hrestored.elim hs').member ht hth
    rw [hmembers] at hmem
    obtain ⟨u, hu, hlive, _⟩ := (hm _ _).mp hmem
    obtain rfl := Option.some.inj (hu.symm.trans ht)
    simp [Task.live, hdead] at hlive
  · intro hdead
    have hlive : ∀ id t, s.tasks.get id = some t → t.threadId ≠ [] → t.live := by
      intro id t ht hth
      have hvalid := (hf.row id t ht).2
      have hnot : t.state ≠ .dead := fun hst => hth (hdead id t ht hst)
      unfold Task.live
      cases hst : t.state <;> simp_all
    have hkept : ¬∃ id t, s.tasks.get id = some t ∧ t.threadId ≠ [] ∧
        s.threads.get t.threadKey = none := by
      intro he
      obtain ⟨id, t, ht, hth, hnone⟩ := he
      have hmem := (hm ⟨id.queue, t.threadId⟩ ⟨t.scheduledAt, id.taskId⟩).mpr
        ⟨t, ht, hlive id t ht hth, hth, rfl, rfl⟩
      rw [Task.threadKey, (hf.row id t ht).1] at hnone
      exact hf.member _ _ hmem hnone
    obtain ⟨s', hs', h⟩ := (hrestored.weaken hkept).returns
    exact ⟨s', hs', h.threads, h.members_eq hm hlive, h.queue.ext (hq.exact hf)⟩

end Threads

end Rebuild

section Runs

/-- One member of the thread is being worked, the other waits. -/
theorem restore_threads_moving : ∃ s', restore (fun _ => true)
    [snapshot (run State.empty movingRun)] =
      .ok s' ∧ s'.threads = (run State.empty movingRun).threads ∧
      s'.threadedTasksIndex = (run State.empty movingRun).threadedTasksIndex ∧
      s'.queueIndex = (run State.empty movingRun).queueIndex := by
  have hwell : WellFormed (run State.empty movingRun) :=
    run_wellFormed (by decide +kernel) (by decide +kernel) (by decide +kernel)
  apply (restore_threads_iff movingRun (fun _ => rfl) hwell.queue hwell.members).mpr
  intro id t ht hdead
  have hrows : ∀ e ∈ (run State.empty movingRun).tasks.entries, e.2.state = .dead →
      e.2.threadId = [] := by decide +kernel
  exact hrows (id, t) (Table.mem_entries.mpr ht) hdead

/-- The only member of a thread fails for good. -/
def dyingRun : List Call :=
  [⟨5, .enqueue ⟨threadQueue, [threadEntry 10 [] []]⟩⟩, ⟨40, .dequeue dequeueAll⟩,
    ⟨50, .reportStatus ⟨[⟨threadQueue.task 1, 1, .failed, 60⟩], some ⟨true, 0, 3600⟩⟩⟩]

/-- The dead task keeps its thread id, and its thread has no record any more. -/
theorem restore_dying_fails : WellFormed (run State.empty dyingRun) ∧
    restore (fun _ => true) [snapshot (run State.empty dyingRun)] = .error .notFound := by
  refine ⟨run_wellFormed (by decide +kernel) (by decide +kernel) (by decide +kernel), ?_⟩
  have hfails : (restore (fun _ => true) [snapshot (run State.empty dyingRun)]).map (fun _ => ()) =
      .error .notFound := by decide +kernel
  cases hx : restore (fun _ => true) [snapshot (run State.empty dyingRun)] with
  | ok s' =>
    rw [hx] at hfails
    exact absurd hfails (by simp [Except.map])
  | error e =>
    rw [hx] at hfails
    exact congrArg Except.error (Except.error.inj hfails)

end Runs

end Moab
