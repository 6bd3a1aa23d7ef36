import Moab.Tasks.Areas
import Moab.Tasks.Fates
import Moab.Tasks.Filed
import Moab.Tasks.Numbered

namespace Moab

open OrderedStore

variable [OrderedStore] {id : TaskId} {s s' : State} {t u : Task} {now : Time}

section Index

/-- Of the items with the number of the task, an index has just the one given. -/
def Listed (x : Index QueueId IndexItem) (id : TaskId) (o : Option IndexItem) : Prop :=
  ∀ i, i.taskId = id.taskId → (i ∈ x.items id.queue ↔ o = some i)

variable {x y : Index QueueId IndexItem} {o : Option IndexItem} {i : IndexItem}

theorem Listed.of_same (h : Listed x id o)
    (hxy : ∀ i, i.taskId = id.taskId → (i ∈ y.items id.queue ↔ i ∈ x.items id.queue)) :
    Listed y id o :=
  fun i hi => (hxy i hi).trans (h i hi)

theorem Listed.add (h : Listed x id none) : Listed (x.add id.queue i) id (some i) := by
  intro j hj
  have hnone := h j hj
  simp only [reduceCtorEq, iff_false] at hnone
  simp only [Index.mem_add, true_and, hnone, or_false, Option.some.injEq]
  exact eq_comm

theorem Listed.remove (h : Listed x id o) (ho : ∀ j, o = some j → j = i) :
    Listed (x.remove id.queue i) id none := by
  intro j hj
  simp only [Index.mem_remove, true_and, reduceCtorEq, iff_false, not_and, not_not]
  intro hm
  exact ho j ((h j hj).mp hm)

end Index

/-- What a store says about one task: its row, the entries of its number in the indexes,
and how many numbers its queue has given out. -/
structure Profile where
  row : Option Task
  queued : Option IndexItem
  leased : Option IndexItem
  dead : Option IndexItem
  sequence : Nat

/-- The store has this profile of the task, and no thread knows the task. -/
structure Shows (id : TaskId) (p : Profile) (s : State) : Prop where
  rows : ∀ j t, j ≠ id → s.tasks.get j = some t → t.id = j
  threads : ∀ k x, s.threads.get k = some x → x.headTaskId.queue = k.queue ∧ x.headTaskId ≠ id
  members : ∀ k, ∀ i ∈ s.threadedTasksIndex.items k, k.queue.task i.taskId ≠ id
  row : s.tasks.get id = p.row
  queued : Listed s.queueIndex id p.queued
  leased : Listed s.inProgressIndex id p.leased
  dead : Listed s.deadTasksIndex id p.dead
  sequence : s.sequence id.queue = p.sequence

/-- Everything but the rows and the index items of one task. -/
def Area.besides (id : TaskId) : Area where
  task j := j ≠ id
  dedupeKey _ := True
  thread _ := True
  counter _ := True
  tally _ := False
  queue _ := False

omit [OrderedStore] in
theorem Area.besides_covers (h : u.id ≠ id) : (Area.besides id).Covers u :=
  ⟨h, fun _ => trivial, fun _ => trivial, Or.inl trivial⟩

namespace Shows

variable {p : Profile}

section Others

theorem alike (h : Shows id p s) : Alike (Area.besides id) s s s where
  same _ _ := rfl
  frame _ _ _ := rfl
  proper a v ha hv := by
    cases a with
    | task j => exact h.rows j v ha hv
    | thread k => exact ⟨trivial, (h.threads k v hv).1, (h.threads k v hv).2⟩
    | member k i => exact h.members k i (of_presence hv)
    | _ => trivial

/-- What stays within the other tasks changes nothing about this one. -/
theorem of_alike (h : Shows id p s) (ha : Alike (Area.besides id) s s' s') : Shows id p s' := by
  have hown : ∀ i : IndexItem, i.taskId = id.taskId → ¬id.queue.task i.taskId ≠ id :=
    fun i hi => not_not.mpr (congrArg id.queue.task hi)
  constructor
  · exact fun j t hj ht => ha.proper (.task j) t hj ht
  · intro k x hx
    have hleads := ha.proper (.thread k) x trivial hx
    exact ⟨hleads.queue, hleads.head⟩
  · exact fun k i hi => ha.proper (.member k i) () trivial (presence_pos hi)
  · rw [← h.row]
    exact ha.frame (.task id) (fun hne => hne rfl) (fun hf => hf)
  · apply h.queued.of_same
    intro i hi
    exact presence_inj (ha.frame (.queued id.queue i) (hown i hi) (fun hf => hf))
  · apply h.leased.of_same
    intro i hi
    exact presence_inj (ha.frame (.inProgress id.queue i) (hown i hi) (fun hf => hf))
  · apply h.dead.of_same
    intro i hi
    exact presence_inj (ha.frame (.dead id.queue i) (hown i hi) (fun hf => hf))
  · have hstate := ha.frame (.queueState id.queue) (fun hf => hf) (fun hf => hf)
    rw [← h.sequence]
    exact congrArg (fun o : Option QueueState => (o.getD .zero).taskIdSequence) hstate

theorem apart {x : Except CoreError State} (h : Shows id p s)
    (hx : Related (Alike (Area.besides id) s) x x) : Ensures True x (Shows id p) := by
  cases x with
  | error e => exact Ensures.error trivial
  | ok s' => exact Ensures.ok (h.of_alike hx)

end Others

section Writes

theorem setTask (h : Shows t.id p s) : Shows t.id { p with row := some t } (s.setTask t) :=
  { h with
    rows := fun j u hj hu => h.rows j u hj (by rwa [← Table.get_set_ne s.tasks t hj])
    row := Table.get_set_self .. }

theorem deleteRow (h : Shows id p s) : Shows id { p with row := none } (s.deleteRow id) :=
  { h with
    rows := fun j u hj hu => h.rows j u hj (by rwa [← Table.get_delete_ne s.tasks hj])
    row := Table.get_delete_self .. }

theorem addQueued (h : Shows t.id p s) (hp : p.queued = none) :
    Shows t.id { p with queued := some t.queueIndexItem } (s.addQueued t) :=
  { h with queued := (hp ▸ h.queued : Listed s.queueIndex t.id none).add }

theorem removeQueued (h : Shows t.id p s) (hp : ∀ i, p.queued = some i → i = t.queueIndexItem) :
    Shows t.id { p with queued := none } (s.removeQueued t) :=
  { h with queued := h.queued.remove hp }

theorem addInProgress (h : Shows t.id p s) (hp : p.leased = none) :
    Shows t.id { p with leased := some t.inProgressIndexItem } (s.addInProgress t) :=
  { h with leased := (hp ▸ h.leased : Listed s.inProgressIndex t.id none).add }

theorem removeInProgress (h : Shows t.id p s)
    (hp : ∀ i, p.leased = some i → i = t.inProgressIndexItem) :
    Shows t.id { p with leased := none } (s.removeInProgress t) :=
  { h with leased := h.leased.remove hp }

theorem addDead (h : Shows t.id p s) (hp : p.dead = none) :
    Shows t.id { p with dead := some t.deadTasksIndexItem } (s.addDead t) :=
  { h with dead := (hp ▸ h.dead : Listed s.deadTasksIndex t.id none).add }

theorem removeDead (h : Shows t.id p s) (hp : ∀ i, p.dead = some i → i = t.deadTasksIndexItem) :
    Shows t.id { p with dead := none } (s.removeDead t) :=
  { h with dead := h.dead.remove hp }

theorem addExpiration (h : Shows id p s) : Shows id p (s.addExpiration u) := { h with }

theorem removeExpiration (h : Shows id p s) : Shows id p (s.removeExpiration u) := { h with }

theorem setCounter (h : Shows id p s) (q : QueueId) (c : TasksCounter) :
    Shows id p (s.setCounter q c) := { h with }

theorem updateCounter (h : Shows id p s) (q : QueueId) (f : TasksCounter → TasksCounter) :
    Shows id p (s.updateCounter q f) := { h with }

theorem claimDedupeKey (h : Shows id p s) : Shows id p (s.claimDedupeKey u) := by
  unfold State.claimDedupeKey
  split_ifs
  · exact h
  · exact { h with }

theorem releaseDedupeKey (h : Shows id p s) : Shows id p (s.releaseDedupeKey u) := by
  unfold State.releaseDedupeKey
  split_ifs
  · exact h
  · exact { h with }

end Writes

end Shows

section Profiles

omit [OrderedStore]

def Task.queuedItem (t : Task) : Option IndexItem :=
  if t.state = .enqueued then some t.queueIndexItem else none

def Task.leasedItem (t : Task) : Option IndexItem :=
  if t.state = .inProgress then some t.inProgressIndexItem else none

def Task.deadItem (t : Task) : Option IndexItem :=
  if t.state = .dead then some t.deadTasksIndexItem else none

/-- A row that has the entries of its state and no others. -/
def profileOf (m : Nat) (o : Option Task) : Profile where
  row := o
  queued := o.bind Task.queuedItem
  leased := o.bind Task.leasedItem
  dead := o.bind Task.deadItem
  sequence := m

theorem profileOf_enqueued {m : Nat} (state : t.state = .enqueued) :
    profileOf m (some t) = ⟨some t, some t.queueIndexItem, none, none, m⟩ := by
  simp [profileOf, Task.queuedItem, Task.leasedItem, Task.deadItem, state]

theorem profileOf_inProgress {m : Nat} (state : t.state = .inProgress) :
    profileOf m (some t) = ⟨some t, none, some t.inProgressIndexItem, none, m⟩ := by
  simp [profileOf, Task.queuedItem, Task.leasedItem, Task.deadItem, state]

theorem profileOf_dead {m : Nat} (state : t.state = .dead) :
    profileOf m (some t) = ⟨some t, none, none, some t.deadTasksIndexItem, m⟩ := by
  simp [profileOf, Task.queuedItem, Task.leasedItem, Task.deadItem, state]

end Profiles

section Own

theorem leaveThread_plain (plain : t.threadId = []) : leaveThread s t = .ok s :=
  if_pos plain

namespace Shows

variable {p : Profile}

/-- The entry that an unthreaded task has in its state goes with it. -/
theorem removeFromState {m : Nat} {o : Option Task} (h : Shows t.id (profileOf m o) s)
    (ho : o = some t ∨ o = none) (plain : t.threadId = []) (c : TasksCounter) :
    Ensures True (removeFromState s t c) (fun a => Shows t.id ⟨o, none, none, none, m⟩ a.1) := by
  have hprofile : profileOf m o = ⟨o, o.bind fun _ => t.queuedItem, o.bind fun _ => t.leasedItem,
      o.bind fun _ => t.deadItem, m⟩ := by
    rcases ho with rfl | rfl <;> rfl
  have hown : ∀ {x i : IndexItem}, (o.bind fun _ => some x) = some i → i = x := by
    rcases ho with rfl | rfl <;> simp [eq_comm]
  rw [hprofile] at h
  unfold Moab.removeFromState
  cases state : t.state <;>
    simp only [Task.queuedItem, Task.leasedItem, Task.deadItem, state, reduceCtorEq,
      if_true, if_false, Option.bind_fun_none] at h
  case invalid => exact Ensures.ok h
  case enqueued =>
    dsimp only
    rw [leaveThread_plain plain]
    exact Ensures.ok (h.removeQueued (fun _ => hown)).releaseDedupeKey
  case inProgress =>
    dsimp only
    rw [leaveThread_plain plain]
    exact Ensures.ok (h.removeInProgress (fun _ => hown)).releaseDedupeKey
  case dead => exact Ensures.ok (h.removeDead (fun _ => hown))

end Shows

/-- The task has the row o, or none, and every entry of the indexes that its row calls for
and no other. It is in no thread, and its queue has given out m numbers. -/
structure Stands (id : TaskId) (m : Nat) (o : Option Task) (s : State) : Prop where
  shows : Shows id (profileOf m o) s
  plain : ∀ t, o = some t → t.id = id ∧ t.threadId = []

/-- The task has a row that R allows. -/
def Became (id : TaskId) (m : Nat) (R : Option Task → Prop) (s : State) : Prop :=
  ∃ o, R o ∧ Stands id m o s

namespace Became

variable {m : Nat} {R R' : Option Task → Prop}

theorem imp (h : Became id m R s) (hR : ∀ o, R o → R' o) : Became id m R' s := by
  obtain ⟨o, ho, hs⟩ := h
  exact ⟨o, hR o ho, hs⟩

/-- Loop rule: every step keeps the row among those that R allows. -/
theorem foldlM {α : Type} {f : State → α → Except CoreError State} {l : List α}
    (step : ∀ a ∈ l, ∀ s o, R o → Stands id m o s → Ensures True (f s a) (Became id m R))
    (h : Became id m R s) : Ensures True (l.foldlM f s) (Became id m R) := by
  induction l generalizing s with
  | nil => exact Ensures.pure h
  | cons a l ih =>
    obtain ⟨o, ho, hs⟩ := h
    rw [List.foldlM_cons]
    apply (step a List.mem_cons_self s o ho hs).bind
    exact fun s' hs' => ih (fun b hb => step b (List.mem_cons_of_mem _ hb)) hs'

end Became

namespace Stands

variable {m : Nat} {o : Option Task} {dlqConfig : Option DeadLetterQueueConfig}

theorem row (h : Stands id m o s) : s.tasks.get id = o := h.shows.row

theorem apart {x : Except CoreError State} (h : Stands id m o s)
    (hx : Related (Alike (Area.besides id) s) x x) : Ensures True x (Stands id m o) :=
  (h.shows.apart hx).mono (fun _ hs => ⟨hs, h.plain⟩)

/-- The row of any other task is under its own id. -/
theorem id_of_get {j : TaskId} (h : Stands id m o s) (hu : s.tasks.get j = some u) : u.id = j := by
  by_cases hj : j = id
  · subst hj
    exact (h.plain u (h.row.symm.trans hu)).1
  · exact h.shows.rows j u hj hu

theorem deleteTask_self (h : Stands t.id m o s) (plain : t.threadId = [])
    (ho : o = some t ∨ o = none) (reason : TaskDeletionReason) :
    Ensures True (deleteTask s t reason) (Stands t.id m none) := by
  apply (h.shows.removeFromState ho plain _).bind
  intro a ha
  exact Ensures.ok ⟨(ha.removeExpiration.deleteRow).setCounter _ _, by simp⟩

/-- Whatever task is deleted, if it is this one it is gone. -/
theorem deleteTask (h : Stands id m o s)
    (ht : t.id = id → t.threadId = [] ∧ (o = some t ∨ o = none)) (reason : TaskDeletionReason) :
    Ensures True (deleteTask s t reason) (Stands id m (if t.id = id then none else o)) := by
  by_cases hid : t.id = id
  · rw [if_pos hid]
    obtain ⟨plain, ho⟩ := ht hid
    subst hid
    exact h.deleteTask_self plain ho reason
  · rw [if_neg hid]
    exact h.apart (h.shows.alike.deleteTask (Area.besides_covers hid) reason)

/-- Deleting a list of tasks that were read together. -/
theorem deleteAll (h : Stands id m o s) (reason : TaskDeletionReason) (ts : List Task)
    (hts : ∀ t ∈ ts, t.id = id → o = some t) :
    Ensures True (ts.foldlM (fun s t => Moab.deleteTask s t reason) s)
      (Became id m (fun o' => o' = o ∨ o' = none ∧ ∃ t ∈ ts, o = some t)) := by
  refine Became.foldlM ?_ ⟨o, Or.inl rfl, h⟩
  intro t hmem s' o' ho' h'
  have hcopy : t.id = id → t.threadId = [] ∧ (o' = some t ∨ o' = none) := by
    intro hid
    have ht := hts t hmem hid
    refine ⟨(h.plain t ht).2, ?_⟩
    rcases ho' with rfl | ⟨rfl, _⟩
    · exact Or.inl ht
    · exact Or.inr rfl
  apply (h'.deleteTask hcopy reason).mono
  intro s'' hs
  by_cases hid : t.id = id
  · rw [if_pos hid] at hs
    exact ⟨none, Or.inr ⟨rfl, t, hmem, hts t hmem hid⟩, hs⟩
  · rw [if_neg hid] at hs
    exact ⟨o', ho', hs⟩

/-- The row that an unthreaded task gets keeps its id and stays out of threads. -/
theorem of_shows (h : Shows u.id (profileOf m (some u)) s) (plain : u.threadId = []) :
    Stands u.id m (some u) s := by
  refine ⟨h, ?_⟩
  intro v hv
  obtain rfl := Option.some.inj hv
  exact ⟨rfl, plain⟩

/-- The lease of a task is over, whatever follows. -/
theorem endLease (h : Stands t.id m (some t) s) (state : t.state = .inProgress) :
    Shows t.id ⟨some t, none, none, none, m⟩ (s.removeInProgress t) := by
  have hshows := h.shows
  rw [profileOf_inProgress state] at hshows
  exact hshows.removeInProgress (fun i hi => (Option.some.inj hi).symm)

theorem leaveQueue (h : Stands t.id m (some t) s) (state : t.state = .enqueued) :
    Shows t.id ⟨some t, none, none, none, m⟩ (s.removeQueued t) := by
  have hshows := h.shows
  rw [profileOf_enqueued state] at hshows
  exact hshows.removeQueued (fun i hi => (Option.some.inj hi).symm)

theorem heartbeatTask (h : Stands t.id m (some t) s) (state : t.state = .inProgress)
    (keepalive : Time) :
    Ensures True (heartbeatTask s t now keepalive)
      (Stands t.id m (some { t with visibleAt := plusSeconds now keepalive })) := by
  have plain := (h.plain t rfl).2
  let t' : Task := { t with visibleAt := plusSeconds now keepalive }
  have hset := Shows.setTask (t := t') (h.endLease state)
  have hback := hset.addInProgress rfl
  have hrenew : renewThread ((s.removeInProgress t).setTask t') t' =
      .ok ((s.removeInProgress t).setTask t') := if_pos plain
  unfold Moab.heartbeatTask
  dsimp only
  rw [hrenew]
  refine Ensures.ok (of_shows (u := t') ?_ plain)
  rw [profileOf_inProgress (t := t') state]
  exact hback

theorem failTaskToRetry (h : Stands t.id m (some t) s) (state : t.state = .inProgress) :
    Ensures True (failTaskToRetry s t now) (fun s' =>
      ∃ interval, retryInterval t = .ok interval ∧ Stands t.id m
        (some (t.retry now interval)) s') := by
  have plain := (h.plain t rfl).2
  unfold Moab.failTaskToRetry
  cases hi : retryInterval t with
  | error e => exact Ensures.error trivial
  | ok interval =>
    let t' : Task := t.retry now interval
    have hset := (Shows.setTask (t := t') (h.endLease state)).addExpiration (u := t')
    have hback := (hset.addQueued rfl).updateCounter t'.id.queue
      (fun c => (c.addInProgress (-1)).addEnqueued 1)
    have hjoin :
        rejoinQueue (((s.removeInProgress t).setTask t').addExpiration t') t' t.scheduledAt =
        .ok ((((s.removeInProgress t).setTask t').addExpiration t').addQueued t') := if_pos plain
    change Ensures True (rejoinQueue _ t' t.scheduledAt >>= _) _
    rw [hjoin]
    refine Ensures.ok ⟨interval, rfl, of_shows (u := t') ?_ plain⟩
    rw [profileOf_enqueued rfl]
    exact hback

theorem moveToDead (h : Stands t.id m (some t) s) (state : t.state = .inProgress)
    (dlq : DeadLetterQueueConfig) :
    Ensures True (moveToDead s t now dlq) (Stands t.id m (some (t.die now dlq))) := by
  have plain := (h.plain t rfl).2
  let t' : Task := t.die now dlq
  have hset := (Shows.setTask (t := t') (h.endLease state)).addExpiration (u := t')
  have hback := (hset.releaseDedupeKey (u := t')).addDead rfl
  unfold Moab.moveToDead
  dsimp only
  rw [leaveThread_plain (t := t.die now dlq) plain]
  refine Ensures.ok (of_shows (u := t') ?_ plain)
  rw [profileOf_dead rfl]
  exact hback.updateCounter _ _

theorem leaseTask (h : Stands t.id m (some t) s) (state : t.state = .enqueued) (keepalive : Time) :
    Stands t.id m (some (t.lease now keepalive)) (leaseTask t.id.queue now keepalive s t) := by
  let t' : Task := t.lease now keepalive
  have hset := Shows.setTask (t := t') ((h.leaveQueue state).removeExpiration (u := t))
  have hback := hset.addInProgress rfl
  refine of_shows (u := t') ?_ (h.plain t rfl).2
  rw [profileOf_inProgress rfl]
  exact hback

theorem dropExpired (h : Stands t.id m (some t) s) (state : t.state = .enqueued) :
    Stands t.id m none (dropExpired t.id.queue s t) := by
  have hgone := ((h.leaveQueue state).removeExpiration (u := t)).deleteRow
  exact ⟨{ hgone with }, by simp⟩

theorem createTask (h : Stands t.id m none s) (state : t.state = .enqueued)
    (plain : t.threadId = []) : Ensures True (createTask s t) (Stands t.id m (some t)) := by
  have hset := (h.shows.setTask).claimDedupeKey (u := t)
  have hback := ((hset.addQueued rfl).addExpiration (u := t)).updateCounter t.id.queue
    (·.addEnqueued 1)
  have hjoin : joinQueue ((s.setTask t).claimDedupeKey t) t =
      .ok (((s.setTask t).claimDedupeKey t).addQueued t) := if_pos plain
  unfold Moab.createTask
  dsimp only
  rw [hjoin]
  refine Ensures.ok (of_shows ?_ plain)
  rw [profileOf_enqueued state]
  exact hback

end Stands

end Own

/-- Among items of an index, at most one is that of the task. -/
theorem Listed.countP_le {x : Index QueueId IndexItem} {i : Option IndexItem}
    {items : List IndexItem} {q : QueueId}
    (h : Listed x id i) (hsub : items.Sublist (x.items q)) :
    items.countP (fun i => q.task i.taskId = id) ≤ 1 := by
  have hown : ∀ j ∈ items, q.task j.taskId = id → i = some j := by
    rintro j hj rfl
    exact (h j rfl).mp (hsub.subset hj)
  cases i with
  | none =>
    rw [List.countP_eq_zero.mpr (by simpa using hown)]
    exact Nat.zero_le 1
  | some j =>
    calc items.countP (fun i => q.task i.taskId = id) ≤ items.count j :=
          List.countP_mono_left (fun k hk hid =>
            beq_iff_eq.mpr (Option.some.inj (hown k hk (of_decide_eq_true hid))).symm)
      _ ≤ 1 := List.nodup_iff_count_le_one.mp ((x.items_nodup q).sublist hsub) j

section Failures

namespace Stands

variable {m : Nat} {o : Option Task} {dlqConfig : Option DeadLetterQueueConfig}

/-- Tasks that were read by the items of an index: this one at most once among them, with the
row that it has. -/
structure ReadBy (id : TaskId) (q : QueueId) (o : Option Task) (item : Option IndexItem)
    (items : List IndexItem) (ts : List Task) : Prop where
  queue : ∀ u ∈ ts, u.id.queue = q
  own : ∀ u ∈ ts, u.id = id → o = some u ∧ ∃ i, item = some i
  count : items.countP (fun i => q.task i.taskId = id) = ts.countP (·.id = id)
  once : ts.countP (·.id = id) ≤ 1

theorem readBy {x : Index QueueId IndexItem} {item : Option IndexItem} {items : List IndexItem}
    {ts : List Task} {q : QueueId} (h : Stands id m o s) (hx : Listed x id item)
    (hsub : items.Sublist (x.items q))
    (hrows : List.Forall₂ (fun i t => s.tasks.get (q.task i.taskId) = some t) items ts) :
    ReadBy id q o item items ts := by
  have hids : List.Forall₂ (fun (i : IndexItem) (u : Task) => q.task i.taskId = u.id) items ts :=
    hrows.imp (fun _ _ hu => (h.id_of_get hu).symm)
  have hmap : items.map (fun i => q.task i.taskId) = ts.map Task.id := by
    rw [← List.forall₂_eq_eq_eq, List.forall₂_map_left_iff, List.forall₂_map_right_iff]
    exact hids
  have hcount := congrArg (List.countP (· = id)) hmap
  rw [List.countP_map, List.countP_map] at hcount
  refine ⟨?_, ?_, hcount, hcount ▸ hx.countP_le hsub⟩
  · intro u hu
    obtain ⟨i, _, hi⟩ := exists_of_mem_right hids hu
    exact congrArg TaskId.queue hi.symm
  · intro u hu hid
    obtain ⟨i, hi, hrow⟩ := exists_of_mem_right hrows hu
    obtain rfl : q.task i.taskId = id := (h.id_of_get hrow).symm.trans hid
    exact ⟨h.row.symm.trans hrow, i, (hx i rfl).mp (hsub.subset hi)⟩

theorem evictExcessDeadTasks (h : Stands id m o s) (q : QueueId) (maxSize deadTasksCount : Int) :
    Ensures True (evictExcessDeadTasks s q maxSize deadTasksCount) (Became id m (Evicted o)) := by
  apply Ensures.ite
  · exact fun _ => Ensures.ok ⟨o, Evicted.refl o, h⟩
  · intro _
    refine Ensures.bind (Ensures.of_eq (fun ts hts => hts) (fun _ _ => trivial)) ?_
    intro ts hts
    have hread := h.readBy h.shows.dead (List.take_sublist _ _)
      ((forall₂_of_mapM_ok hts).imp (fun _ _ => State.getTask_eq_ok.mp))
    apply (h.deleteAll .none ts (fun t ht hid => (hread.own t ht hid).1)).mono
    refine fun s' hs => hs.imp (fun o' ho' => ?_)
    rcases ho' with rfl | ⟨rfl, t, ht, rfl⟩
    · exact Evicted.refl _
    · -- the item that named the task is its own, so it is dead
      obtain ⟨_, i, hi⟩ := hread.own t ht (h.plain t rfl).1
      exact Or.inr ⟨rfl, t, rfl, (Option.ite_none_right_eq_some.mp hi).1⟩

/-- The ways that a failure may go. -/
theorem handleTaskFailure_ensures {P : State → Prop}
    (delete : ∀ reason, t.expiresAt < now ∨ t.exhausted = true → Ensures True
      (Moab.deleteTask s t reason) P)
    (bury : ∀ dlq, t.exhausted = true → Ensures True (Moab.moveToDead s t now dlq)
      (fun s' => ∀ q maxSize count, Ensures True (Moab.evictExcessDeadTasks s' q maxSize count) P))
    (retry : ¬t.expiresAt < now → t.exhausted = false → Ensures True
      (Moab.failTaskToRetry s t now) P) :
    Ensures True (handleTaskFailure s t now dlqConfig) P := by
  apply Ensures.ite
  · exact fun hx => delete _ (Or.inl hx)
  · intro hx
    apply Ensures.ite
    · intro he
      unfold failTaskToDead
      cases dlqConfig with
      | none => exact delete _ (Or.inr he)
      | some dlq =>
        apply Ensures.ite
        · exact fun _ => delete _ (Or.inr he)
        · exact fun _ => (bury dlq he).bind (fun _ hs => hs _ _ _)
    · exact fun he => retry hx (by simpa using he)

/-- Another task fails: this one is at most evicted. -/
theorem handleTaskFailure_other (h : Stands id m o s) (hu : u.id ≠ id) :
    Ensures True (handleTaskFailure s u now dlqConfig) (Became id m (Evicted o)) := by
  have hcovers := Area.besides_covers hu
  have hkeep : ∀ {x : Except CoreError State}, Related (Alike (Area.besides id) s) x x →
      Ensures True x (Became id m (Evicted o)) :=
    fun hx => (h.apart hx).mono (fun _ hs => ⟨o, Evicted.refl o, hs⟩)
  apply handleTaskFailure_ensures
  · exact fun reason _ => hkeep (h.shows.alike.deleteTask hcovers reason)
  · intro dlq _
    apply (h.apart (h.shows.alike.moveToDead hcovers dlq)).mono
    exact fun s' hs => hs.evictExcessDeadTasks
  · exact fun _ _ => hkeep (h.shows.alike.failTaskToRetry hcovers)

theorem handleTaskFailure_self (h : Stands t.id m (some t) s) (state : t.state = .inProgress) :
    Ensures True (handleTaskFailure s t now dlqConfig) (Became t.id m (Failure now t)) := by
  have plain := (h.plain t rfl).2
  apply handleTaskFailure_ensures
  · intro reason hx
    apply (h.deleteTask_self plain (Or.inl rfl) reason).mono
    exact fun s' hs => ⟨none, .gone hx, hs⟩
  · intro dlq he
    have hburied : Failure now t (some (t.die now dlq)) :=
      .buried he ⟨rfl, (Int.add_zero _).symm, rfl⟩
    apply (h.moveToDead state dlq).mono
    intro s' hs q maxSize count
    apply (hs.evictExcessDeadTasks q maxSize count).mono
    exact fun s'' hs => hs.imp (fun _ => hburied.evicted)
  · intro hx he
    apply (h.failTaskToRetry state).mono
    intro s' hs
    obtain ⟨interval, hi, hs⟩ := hs
    exact ⟨_, .retried ⟨hx, he, hi⟩, hs⟩

end Stands

end Failures

end Moab
