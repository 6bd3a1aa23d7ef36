import Moab.Tasks.ThreadOrder
import Moab.Tasks.Unthreaded

namespace Moab

open OrderedStore

section Store

variable [OrderedStore]

/-- The task that a restart brings back: the identity and the settings of the dead one,
and the times of the request. -/
def Task.reborn (t : Task) (now : Time) (e : RestartTasksRequestEntry) : Task where
  id := t.id
  payload := t.payload
  createdAt := t.createdAt
  scheduledAt := max e.scheduledAt now
  expiresAt := e.expiresAt
  dedupeKey := t.dedupeKey
  state := .enqueued
  attempts := 0
  visibleAt := 0
  lastFailedAt := 0
  retryStrategy := t.retryStrategy
  threadId := t.threadId

/-- No live task of the queue holds the dedupe key. -/
def KeyFree (s : State) (t : Task) : Prop :=
  t.dedupeKey ≠ [] → ∀ id u, s.tasks.get id = some u → u.live → id.queue = t.id.queue →
    u.dedupeKey ≠ t.dedupeKey

/-- What one entry of a RestartTasks does. A restart is a deletion followed by the
creation of a task that duplicates no other; anything else leaves the store alone. -/
inductive Restarted (q : QueueId) (now : Time) (s : State) (e : RestartTasksRequestEntry) :
    State → RestartTasksResponseEntry → Prop where
  | missing (row : s.tasks.get (q.task e.taskId) = none) :
    Restarted q now s e s ⟨e.taskId, .notFound, none⟩
  | alive {t : Task} (row : s.tasks.get (q.task e.taskId) = some t) (state : t.state ≠ .dead) :
    Restarted q now s e s ⟨e.taskId, .notDead, none⟩
  | forgotten {t : Task} (row : s.tasks.get (q.task e.taskId) = some t) (state : t.state = .dead)
    (late : t.expiresAt < now) : Restarted q now s e s ⟨e.taskId, .notFound, none⟩
  | held {t : Task} (row : s.tasks.get (q.task e.taskId) = some t) (state : t.state = .dead)
    (intime : ¬t.expiresAt < now) (taken : ¬KeyFree s t) :
    Restarted q now s e s ⟨e.taskId, .dedupeConflict, none⟩
  | reborn {t : Task} {s₁ s₂ : State} (row : s.tasks.get (q.task e.taskId) = some t)
    (state : t.state = .dead) (intime : ¬t.expiresAt < now) (free : KeyFree s t)
    (deleted : deleteTasks s ⟨q, [e.taskId]⟩ = .ok s₁)
    (fresh : t.dedupeKey ≠ [] → getTaskIdByDedupeKey s₁ q t.dedupeKey = none)
    (created : createTask s₁ (t.reborn now e) = .ok s₂) :
    Restarted q now s e s₂ ⟨e.taskId, .restarted, some (t.reborn now e)⟩

/-- The entries of a batch, each at the store that the ones before it left. -/
inductive RestartedAll (q : QueueId) (now : Time) :
    State → List RestartTasksRequestEntry → State → List RestartTasksResponseEntry → Prop where
  | nil (s : State) : RestartedAll q now s [] s []
  | cons {s s₁ s₂ : State} {e : RestartTasksRequestEntry} {es : List RestartTasksRequestEntry}
    {r : RestartTasksResponseEntry} {rs : List RestartTasksResponseEntry}
    (head : Restarted q now s e s₁ r) (tail : RestartedAll q now s₁ es s₂ rs) :
    RestartedAll q now s (e :: es) s₂ (r :: rs)

variable {s s' : State} {t : Task} {q : QueueId} {now : Time}

omit [OrderedStore] in
theorem notBefore_eq_max (scheduledAt now : Time) :
    notBefore scheduledAt now = max scheduledAt now := by
  change (if scheduledAt < now then now else scheduledAt) =
    if scheduledAt ≤ now then now else scheduledAt
  by_cases hlt : scheduledAt < now
  · rw [if_pos hlt, if_pos (Int64.le_of_lt hlt)]
  · rw [if_neg hlt]
    split_ifs with hle
    · exact Int64.le_antisymm hle (Int64.not_lt.mp hlt)
    · rfl

omit [OrderedStore] in
theorem Task.restart_eq_reborn (t : Task) (now : Time) (e : RestartTasksRequestEntry) :
    t.restart now e.scheduledAt e.expiresAt = t.reborn now e := by
  rw [Task.restart, notBefore_eq_max]
  rfl

/-- The dedupe keys index knows whether a live task holds the key of a dead one. -/
theorem dedupeConflict_iff (h : Indexed True s.rows) (row : s.tasks.get t.id = some t)
    (dead : t.state = .dead) : dedupeConflict s t.id.queue t = true ↔ ¬KeyFree s t := by
  have hexact := h.dedupeExact
  constructor
  · intro hconflict hfree
    simp only [dedupeConflict, decide_eq_true_eq, getTaskIdByDedupeKey, Option.any_map,
      Option.any_eq_true] at hconflict
    obtain ⟨hkey, n, hn, _⟩ := hconflict
    obtain ⟨u, hu, hlive, _, heq⟩ := (hexact _ _).mp hn
    exact hfree hkey _ u hu hlive rfl heq
  · intro htaken
    simp only [KeyFree, not_forall, not_not] at htaken
    obtain ⟨hkey, id, u, hu, hlive, hq, heq⟩ := htaken
    have hget : s.dedupeKeysIndex.get ⟨t.id.queue, t.dedupeKey⟩ = some id.taskId := by
      refine (hexact _ _).mpr ⟨u, ?_, hlive, heq ▸ hkey, heq⟩
      change s.tasks.get (t.id.queue.task id.taskId) = some u
      rw [← hq]
      exact hu
    have hne : id.taskId ≠ t.id.taskId := by
      intro he
      have hid : id = t.id := by
        rw [← TaskId.queue_task id, hq, he, TaskId.queue_task]
      rw [hid, row] at hu
      obtain rfl := Option.some.inj hu
      simp [Task.live, dead] at hlive
    simp [dedupeConflict, getTaskIdByDedupeKey, hget, hkey, hne]

theorem KeyFree.unheld (h : Indexed True s.rows) (free : KeyFree s t) (hkey : t.dedupeKey ≠ []) :
    getTaskIdByDedupeKey s t.id.queue t.dedupeKey = none := by
  unfold getTaskIdByDedupeKey
  rw [Option.map_eq_none_iff, Option.eq_none_iff_forall_ne_some]
  intro n hn
  obtain ⟨u, hu, hlive, _, heq⟩ := (h.dedupeExact _ _).mp hn
  exact free hkey _ u hu hlive rfl heq

/-- Deleting a dead task touches no thread and no dedupe key. -/
theorem deleteTasks_dead (row : s.tasks.get (q.task t.id.taskId) = some t)
    (dead : t.state = .dead) :
    deleteTasks s ⟨q, [t.id.taskId]⟩ = .ok ((((s.removeDead t).removeExpiration t).updateCounter
      t.id.queue (·.addDead (-1))).deleteRow t.id) := by
  unfold deleteTasks
  rw [List.foldlM_cons]
  unfold deleteTaskById
  dsimp only
  rw [row]
  dsimp only
  unfold deleteTask removeFromState
  rw [dead]
  rfl

/-- Creating a task overwrites the row that has its id. -/
theorem createTask_deleteRow (s : State) (t : Task) :
    createTask (s.deleteRow t.id) t = createTask s t := by
  unfold createTask
  rw [deleteRow_setTask]

/-- A restart creates the reborn task where the dead one was deleted. -/
theorem restartTask_eq (s : State) (t : Task) (now : Time) (e : RestartTasksRequestEntry) :
    restartTask s t now e.scheduledAt e.expiresAt =
      (createTask ((((s.removeDead t).removeExpiration t).updateCounter t.id.queue
        (·.addDead (-1))).deleteRow t.id) (t.reborn now e)).map
          (fun s' => (s', t.reborn now e)) := by
  have hrow := createTask_deleteRow (((s.removeDead t).removeExpiration t).updateCounter t.id.queue
    (·.addDead (-1))) (t.reborn now e)
  change createTask (State.deleteRow _ t.id) _ = _ at hrow
  rw [restartTask, Task.restart_eq_reborn, hrow]
  rfl

theorem restartEntry_restarted (h : Coherent s) (e : RestartTasksRequestEntry) :
    Ensures False (restartEntry q now s e) (fun a => Restarted q now s e a.1 a.2) := by
  have hreturns : Ensures False (restartEntry q now s e) _ := restartEntry_kept e h
  unfold restartEntry at hreturns ⊢
  cases row : s.tasks.get (q.task e.taskId) with
  | none => exact Ensures.ok (.missing row)
  | some t =>
    have hid := h.heads.keyed _ t row
    have hq : t.id.queue = q := congrArg TaskId.queue hid
    have hn : t.id.taskId = e.taskId := congrArg TaskId.taskId hid
    rw [row] at hreturns
    dsimp only at hreturns ⊢
    by_cases state : t.state = .dead
    · rw [if_neg (not_not.mpr state)] at hreturns ⊢
      by_cases late : t.expiresAt < now
      · rw [if_pos late]
        exact Ensures.ok (.forgotten row state late)
      · rw [if_neg late] at hreturns ⊢
        have hconflict := dedupeConflict_iff h.indexed (hid.symm ▸ row) state
        rw [hq] at hconflict
        by_cases taken : dedupeConflict s q t = true
        · rw [if_pos taken]
          exact Ensures.ok (.held row state late (hconflict.mp taken))
        · rw [if_neg taken] at hreturns ⊢
          have free : KeyFree s t := by
            by_contra hheld
            exact taken (hconflict.mpr hheld)
          have hdeleted := deleteTasks_dead (hn.symm ▸ row) state
          rw [hn] at hdeleted
          rw [restartTask_eq] at hreturns ⊢
          generalize hs₁ : (State.updateCounter _ t.id.queue _).deleteRow t.id = s₁ at *
          have fresh : t.dedupeKey ≠ [] → getTaskIdByDedupeKey s₁ q t.dedupeKey = none := by
            intro hkey
            have hnone := KeyFree.unheld h.indexed free hkey
            rw [← hs₁, ← hq]
            exact hnone
          cases hcreated : createTask s₁ (t.reborn now e) with
          | error err =>
            rw [hcreated] at hreturns
            exact False.elim hreturns
          | ok s₂ => exact Ensures.ok (.reborn row state late free hdeleted fresh hcreated)
    · rw [if_pos state]
      exact Ensures.ok (.alive row state)

/-- A restart is a birth: every entry of a batch is a deletion followed by a creation,
or leaves the store as it is. -/
theorem restart_is_birth (h : WellFormed s) (hr : RecordsExact s) (now : Time)
    (req : RestartTasksRequest) :
    ∃ s' rs, restartTasks s now req = .ok (s', rs) ∧
      RestartedAll req.queueId now s req.entries s' rs := by
  have hentries : ∀ (es : List RestartTasksRequestEntry) (s : State), Coherent s →
      Ensures False (restartEntries req.queueId now s es)
        (fun a => RestartedAll req.queueId now s es a.1 a.2) := by
    intro es
    induction es with
    | nil => exact fun s _ => Ensures.ok (.nil s)
    | cons e es ih =>
      intro s h
      rw [restartEntries]
      refine ((restartEntry_restarted h e).both ((restartEntry_kept e h).weaken False.elim)).bind ?_
      intro a ha
      exact (ih a.1 ha.2.coherent).bind (fun b hb => Ensures.ok (.cons ha.1 hb))
  obtain ⟨a, ha, hall⟩ := (hentries req.entries s (h.coherent hr)).returns
  exact ⟨a.1, a.2, ha, hall⟩

end Store

section Runs

/-- Two tasks of one thread and one dedupe key, the second one enqueued after the first
one died, are both dead. -/
def rebirthRun : List Call :=
  [⟨5, .enqueue ⟨threadQueue, [threadEntry 10 [1] []]⟩⟩, ⟨40, .dequeue dequeueAll⟩,
    ⟨50, .reportStatus ⟨[⟨threadQueue.task 1, 1, .failed, 60⟩], keepDead⟩⟩,
    ⟨55, .enqueue ⟨threadQueue, [threadEntry 60 [1] []]⟩⟩, ⟨70, .dequeue dequeueAll⟩,
    ⟨80, .reportStatus ⟨[⟨threadQueue.task 2, 1, .failed, 60⟩], keepDead⟩⟩]

theorem rebirthRun_wellFormed : WellFormed (run State.empty rebirthRun) :=
  run_wellFormed (by decide +kernel) (by decide +kernel) (by decide +kernel)

/-- The one that comes back first takes the key; a task that never was is not found. -/
theorem restart_is_birth_twice :
    ((restartTasks (run State.empty rebirthRun) 90 ⟨threadQueue, [⟨2, 0, 500⟩, ⟨1, 95, 500⟩,
      ⟨9, 95, 500⟩]⟩).toOption.map (fun a => a.2.map RestartTasksResponseEntry.result)) =
      some [.restarted, .dedupeConflict, .notFound] ∧
    ∃ s' rs, restartTasks (run State.empty rebirthRun) 90
        ⟨threadQueue, [⟨2, 0, 500⟩, ⟨1, 95, 500⟩, ⟨9, 95, 500⟩]⟩ = .ok (s', rs) ∧
      RestartedAll threadQueue 90 (run State.empty rebirthRun)
        [⟨2, 0, 500⟩, ⟨1, 95, 500⟩, ⟨9, 95, 500⟩] s' rs :=
  ⟨by decide +kernel, restart_is_birth rebirthRun_wellFormed (by decide +kernel) 90 _⟩

end Runs

end Moab
