import Moab.Tasks.Rows

namespace Moab

open OrderedStore

variable [OrderedStore]

def inProgressItems : Projection TaskId Task QueueId IndexItem where
  item id t := if t.state = .inProgress then some (id.queue, ⟨t.visibleAt, id.taskId⟩) else none
  owner q i := q.task i.taskId
  owner_item := by
    intro id t q i h
    split_ifs at h
    obtain ⟨rfl, rfl⟩ := Prod.mk.injEq .. ▸ Option.some.inj h
    rfl

def deadItems : Projection TaskId Task QueueId IndexItem where
  item id t := if t.state = .dead then some (id.queue, ⟨t.lastFailedAt, id.taskId⟩) else none
  owner q i := q.task i.taskId
  owner_item := by
    intro id t q i h
    split_ifs at h
    obtain ⟨rfl, rfl⟩ := Prod.mk.injEq .. ▸ Option.some.inj h
    rfl

/-- A deadline is tracked while a task waits or is dead, not while it is leased. -/
def expirationItems : Projection TaskId Task Unit ExpirationItem where
  item id t := if t.state = .enqueued ∨ t.state = .dead then some ((), ⟨t.expiresAt, id⟩) else none
  owner _ i := i.taskId
  owner_item := by
    intro id t q i h
    split_ifs at h
    obtain ⟨rfl, rfl⟩ := Prod.mk.injEq .. ▸ Option.some.inj h
    rfl

/-- Live tasks with a dedupe key hold it. -/
def dedupeKeys : Claim TaskId Task DedupeKey Nat where
  key id t := if t.live ∧ t.dedupeKey ≠ [] then some ⟨id.queue, t.dedupeKey⟩ else none
  value id := id.taskId
  owner k n := k.queue.task n
  owner_key := by
    intro id t k h
    split_ifs at h
    obtain rfl := Option.some.inj h
    rfl
  value_owner _ _ := rfl

/-- Every secondary index of the rows agrees with the task table. -/
structure Indexed (th : Prop) (r : Rows) : Prop where
  key : ∀ id t, r.tasks.get id = some t → t.id = id
  calm : ∀ id t, r.tasks.get id = some t → t.Calm th
  inProgress : Exact inProgressItems r.tasks r.inProgressIndex
  dead : Exact deadItems r.tasks r.deadTasksIndex
  expiration : Exact expirationItems r.tasks r.expiration
  dedupe : Unique dedupeKeys r.tasks r.dedupeKeysIndex

namespace Unique

variable {t t' : Task} {tasks : Table TaskId Task} {x : Table DedupeKey Nat}

theorem set_claimed (h : Unique dedupeKeys tasks x)
    (hg : ∀ u, tasks.get t.id = some u → u.live = false) (hl : t.live)
    (hx : t.dedupeKey ≠ [] → x.get t.dedupe = none) :
    Unique dedupeKeys (tasks.set t.id t) (Rows.claimed x t) := by
  have hn : ∀ u, tasks.get t.id = some u → dedupeKeys.key t.id u = none := by
    intro u hu
    simp [dedupeKeys, hg u hu]
  by_cases hk : t.dedupeKey = []
  · simp only [Rows.claimed, hk, if_true]
    exact h.set_none hn (by simp [dedupeKeys, hk])
  · simp only [Rows.claimed, hk, if_false]
    exact h.claim hn (hx hk) (by simp [dedupeKeys, hl, hk, Task.dedupe])

theorem set_released (h : Unique dedupeKeys tasks x) (hg : tasks.get t.id = some t) (hl : t.live)
    (hd : t'.live = false) : Unique dedupeKeys (tasks.set t.id t') (Rows.released x t) := by
  by_cases hk : t.dedupeKey = []
  · simp only [Rows.released, hk, if_true]
    exact h.set_keep hg (by simp [dedupeKeys, hk, hd])
  · simp only [Rows.released, hk, if_false]
    exact h.set_release hg (by simp [dedupeKeys, hl, hk, Task.dedupe]) (by simp [dedupeKeys, hd])

theorem delete_released (h : Unique dedupeKeys tasks x) (hg : tasks.get t.id = some t)
    (hl : t.live) : Unique dedupeKeys (tasks.delete t.id) (Rows.released x t) := by
  by_cases hk : t.dedupeKey = []
  · simp only [Rows.released, hk, if_true]
    exact h.delete_keep hg (by simp [dedupeKeys, hk])
  · simp only [Rows.released, hk, if_false]
    exact h.delete_release hg (by simp [dedupeKeys, hl, hk, Task.dedupe])

end Unique

/-- A property of every row survives a write that has it. -/
theorem rows_set {P : TaskId → Task → Prop} {tasks : Table TaskId Task} {id : TaskId} {t : Task}
    (h : ∀ j u, tasks.get j = some u → P j u) (ht : P id t) :
    ∀ j u, (tasks.set id t).get j = some u → P j u := by
  intro j u hu
  rw [Table.get_set] at hu
  split_ifs at hu with hj
  · rw [hj, ← Option.some.inj hu]
    exact ht
  · exact h j u hu

theorem rows_delete {P : TaskId → Task → Prop} {tasks : Table TaskId Task} {id : TaskId}
    (h : ∀ j u, tasks.get j = some u → P j u) :
    ∀ j u, (tasks.delete id).get j = some u → P j u := by
  intro j u hu
  rw [Table.get_delete] at hu
  split_ifs at hu with hj
  exact h j u hu

namespace Indexed

variable {th : Prop} {r : Rows}

theorem empty : Indexed th State.empty.rows where
  key id t h := by simp [State.rows, State.empty] at h
  calm id t h := by simp [State.rows, State.empty] at h
  inProgress := Exact.empty
  dead := Exact.empty
  expiration := Exact.empty
  dedupe := Unique.empty

variable {t : Task}

theorem create (h : Indexed th r) (fresh : r.tasks.get t.id = none) (state : t.state = .enqueued)
    (free : t.dedupeKey ≠ [] → r.dedupeKeysIndex.get t.dedupe = none) (calm : t.Calm th) :
    Indexed th (r.create t) where
  key := rows_set h.key rfl
  calm := rows_set h.calm calm
  inProgress := h.inProgress.set_none (by simp [fresh]) (by simp [inProgressItems, state])
  dead := h.dead.set_none (by simp [fresh]) (by simp [deadItems, state])
  expiration := h.expiration.set_add (by simp [fresh])
    (by simp [expirationItems, state, Task.expirationItem])
  dedupe := h.dedupe.set_claimed (by simp [fresh]) (by simp [Task.live, state]) free

theorem overwrite (h : Indexed th r) (row : r.tasks.get t.id = some t) (state : t.state = .enqueued)
    (payload : Bytes) (scheduledAt expiresAt : Time) :
    Indexed th (r.overwrite t (t.overwrite payload scheduledAt expiresAt)) where
  key := rows_set h.key rfl
  calm := rows_set h.calm (h.calm t.id t row)
  inProgress := h.inProgress.set_keep row rfl
  dead := h.dead.set_keep row rfl
  expiration := h.expiration.set_move row
    (by simp [expirationItems, state, Task.expirationItem])
    (by simp [expirationItems, state, Task.overwrite, Task.expirationItem])
  dedupe := h.dedupe.set_keep row rfl

theorem delete (h : Indexed th r) (row : r.tasks.get t.id = some t) (reason : TaskDeletionReason) :
    Indexed th (r.delete t reason) where
  key := rows_delete h.key
  calm := rows_delete h.calm
  inProgress := by
    simp only [Rows.delete]
    split_ifs with hs
    · exact h.inProgress.delete row rfl
        (Or.inl (by simp [inProgressItems, hs, Task.inProgressIndexItem]))
    · exact h.inProgress.delete_keep row (by simp [inProgressItems, hs])
  dead := by
    simp only [Rows.delete]
    split_ifs with hs
    · exact h.dead.delete row rfl (Or.inl (by simp [deadItems, hs, Task.deadTasksIndexItem]))
    · exact h.dead.delete_keep row (by simp [deadItems, hs])
  expiration := by
    refine h.expiration.delete row rfl ?_
    by_cases hs : t.state = .enqueued ∨ t.state = .dead
    · exact Or.inl (by simp [expirationItems, hs, Task.expirationItem])
    · exact Or.inr (by simp [expirationItems, hs])
  dedupe := by
    simp only [Rows.delete]
    split_ifs with hl
    · exact h.dedupe.delete_released row hl
    · exact h.dedupe.delete_keep row (by simp [dedupeKeys, hl])

theorem renew (h : Indexed th r) (row : r.tasks.get t.id = some t) (state : t.state = .inProgress)
    (visibleAt : Time) : Indexed th (r.renew t { t with visibleAt := visibleAt }) where
  key := rows_set h.key rfl
  calm := rows_set h.calm (h.calm t.id t row)
  inProgress := h.inProgress.set_move row
    (by simp [inProgressItems, state, Task.inProgressIndexItem])
    (by simp [inProgressItems, state, Task.inProgressIndexItem])
  dead := h.dead.set_keep row rfl
  expiration := h.expiration.set_keep row rfl
  dedupe := h.dedupe.set_keep row rfl

theorem retry (h : Indexed th r) (row : r.tasks.get t.id = some t) (state : t.state = .inProgress)
    (now interval : Time) : Indexed th (r.retry t (t.retry now interval)) where
  key := rows_set h.key rfl
  calm := by
    have hc := h.calm _ _ row
    simp only [Task.Calm, state, if_true] at hc
    refine rows_set h.calm ⟨hc.1, ?_⟩
    intro ha
    simp only [Task.retry, reduceCtorEq, if_false] at ha
    exact hc.2 (by omega)
  inProgress := h.inProgress.set_remove row
    (by simp [inProgressItems, state, Task.inProgressIndexItem])
    (by simp [inProgressItems, Task.retry])
  dead := h.dead.set_keep row (by simp [deadItems, state, Task.retry])
  expiration := by
    refine h.expiration.set_add ?_ (by simp [expirationItems, Task.retry, Task.expirationItem])
    intro u hu
    rw [← Option.some.inj (row.symm.trans hu)]
    simp [expirationItems, state]
  dedupe := h.dedupe.set_keep row (by simp [dedupeKeys, Task.retry, Task.live, state])

theorem die (h : Indexed th r) (row : r.tasks.get t.id = some t) (state : t.state = .inProgress)
    (now : Time) (dlq : DeadLetterQueueConfig) : Indexed th (r.die t (t.die now dlq)) where
  key := rows_set h.key rfl
  calm := by
    have hc := h.calm _ _ row
    simp only [Task.Calm, state, if_true] at hc
    refine rows_set h.calm ⟨hc.1, ?_⟩
    intro ha
    simp only [Task.die, reduceCtorEq, if_false] at ha
    exact hc.2 (by omega)
  inProgress := h.inProgress.set_remove row
    (by simp [inProgressItems, state, Task.inProgressIndexItem])
    (by simp [inProgressItems, Task.die])
  dead := by
    refine h.dead.set_add ?_ (by simp [deadItems, Task.die, Task.deadTasksIndexItem])
    intro u hu
    rw [← Option.some.inj (row.symm.trans hu)]
    simp [deadItems, state]
  expiration := by
    refine h.expiration.set_add ?_ (by simp [expirationItems, Task.die, Task.expirationItem])
    intro u hu
    rw [← Option.some.inj (row.symm.trans hu)]
    simp [expirationItems, state]
  dedupe := h.dedupe.set_released row (by simp [Task.live, state]) (by simp [Task.live, Task.die])

theorem restart (h : Indexed th r) (row : r.tasks.get t.id = some t) (state : t.state = .dead)
    (free : t.dedupeKey ≠ [] → r.dedupeKeysIndex.get t.dedupe = none)
    (now scheduledAt expiresAt : Time) :
    Indexed th (r.restart t (t.restart now scheduledAt expiresAt)) where
  key := rows_set h.key rfl
  calm := rows_set h.calm ⟨(h.calm _ _ row).1, fun ha => by simp [Task.restart] at ha⟩
  inProgress := h.inProgress.set_keep row (by simp [inProgressItems, state, Task.restart])
  dead := h.dead.set_remove row (by simp [deadItems, state, Task.deadTasksIndexItem])
    (by simp [deadItems, Task.restart])
  expiration := h.expiration.set_move row
    (by simp [expirationItems, state, Task.expirationItem])
    (by simp [expirationItems, Task.restart, Task.expirationItem])
  dedupe := by
    refine Unique.set_claimed (t := t.restart now scheduledAt expiresAt) h.dedupe ?_
      (by simp [Task.live, Task.restart]) free
    intro u hu
    rw [← Option.some.inj (row.symm.trans hu)]
    simp [Task.live, state]

theorem expire (h : Indexed th r) (row : r.tasks.get t.id = some t) (state : t.state = .enqueued) :
    Indexed th (r.expire t) where
  key := rows_delete h.key
  calm := rows_delete h.calm
  inProgress := h.inProgress.delete_keep row (by simp [inProgressItems, state])
  dead := h.dead.delete_keep row (by simp [deadItems, state])
  expiration := h.expiration.delete row rfl
    (Or.inl (by simp [expirationItems, state, Task.expirationItem]))
  dedupe := h.dedupe.delete_released row (by simp [Task.live, state])

theorem lease (h : Indexed th r) (row : r.tasks.get t.id = some t) (state : t.state = .enqueued)
    (now keepalive : Time) : Indexed th (r.lease t (t.lease now keepalive)) where
  key := rows_set h.key rfl
  calm := by
    have hc := h.calm _ _ row
    simp only [Task.Calm, state, reduceCtorEq, if_false] at hc
    refine rows_set h.calm ⟨hc.1, ?_⟩
    intro ha
    simp only [Task.lease, if_true] at ha
    exact hc.2 (by omega)
  inProgress := by
    refine h.inProgress.set_add ?_ (by simp [inProgressItems, Task.lease, Task.inProgressIndexItem])
    intro u hu
    rw [← Option.some.inj (row.symm.trans hu)]
    simp [inProgressItems, state]
  dead := h.dead.set_keep row (by simp [deadItems, state, Task.lease])
  expiration := h.expiration.set_remove row
    (by simp [expirationItems, state, Task.expirationItem])
    (by simp [expirationItems, Task.lease])
  dedupe := h.dedupe.set_keep row (by simp [dedupeKeys, Task.lease, Task.live, state])

theorem step {r' : Rows} {e : Event} (h : Indexed th r) (hs : Step th r e r') : Indexed th r' := by
  cases hs with
  | create fresh state free calm => exact h.create fresh state free calm
  | overwrite row state => exact h.overwrite row state _ _ _
  | delete row => exact h.delete row _
  | renew row state => exact h.renew row state _
  | retry row state => exact h.retry row state _ _
  | die row state => exact h.die row state _ _
  | restart row state free => exact h.restart row state free _ _ _
  | charge => exact ⟨h.key, h.calm, h.inProgress, h.dead, h.expiration, h.dedupe⟩
  | expire row state => exact h.expire row state
  | lease row state => exact h.lease row state _ _
  | _ => exact ⟨h.key, h.calm, h.inProgress, h.dead, h.expiration, h.dedupe⟩

theorem steps {r' : Rows} {es : List Event} (h : Indexed th r) (hs : Steps th r es r') :
    Indexed th r' :=
  hs.invariant (fun _ _ _ hi hl => hi.step hl) h

end Indexed

end Moab
