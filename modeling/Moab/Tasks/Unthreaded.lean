import Moab.Framework.SortedList
import Moab.Tasks.WellFormed

namespace Moab

open OrderedStore

section Invariant

variable [OrderedStore] {s : State} {now : Time}

/-- Without threads every call is safe. -/
theorem Op.safe_of_unthreaded (op : Op) : op.Safe (s.scope False False) s now := by
  cases op with
  | enqueue req =>
    refine ⟨⟨False.elim, False.elim, False.elim⟩, ?_⟩
    exact (Along.of_mem (R := fun _ => True) (fun _ _ => trivial)).imp (fun _ _ _ => False.elim)
  | dequeue req | reportStatus req | deleteTasks req => exact False.elim
  | restartTasks req => exact ⟨False.elim, False.elim, False.elim⟩
  | purgeQueue q => trivial
  | runTasksGarbageCollection req => exact False.elim
  | runPurgeQueueGarbageCollection req => exact ⟨id, id⟩

theorem Sound.commit {op : Op} (h : Sound False False s) (hop : ¬op.threaded) :
    Sound False False (commit s now op) :=
  commit_sound h hop False.elim False.elim op.safe_of_unthreaded

/-- The state of a run without threads. -/
theorem run_unthreaded_sound (calls : List Call) (h : ∀ c ∈ calls, ¬c.op.threaded) :
    Sound False False (run State.empty calls) :=
  run_keeps (fun _ _ hs hc => hs.commit hc) calls _ (Along.of_mem h) Sound.empty

/-- Every index of a queue is exactly the rows of its state, and no row has an id
beyond the sequence. -/
structure Mirrored (s : State) : Prop where
  queue : ∀ q i, i ∈ s.queueIndex.items q ↔ ∃ t, s.tasks.get (q.task i.taskId) = some t ∧
    t.state = .enqueued ∧ t.scheduledAt = i.time
  inProgress : InProgressExact s
  dead : DeadExact s
  sequence : ∀ id t, s.tasks.get id = some t →
    id.taskId ≤ (s.getQueueState id.queue).taskIdSequence

theorem Sound.threadId_eq (h : Sound False False s) {id : TaskId} {t : Task}
    (ht : s.tasks.get id = some t) : t.threadId = [] := not_not.mp (h.heads.row id t ht).2.2

theorem Sound.mirrored (h : Sound False False s) : Mirrored s where
  queue q i := by
    constructor
    · intro hi
      obtain ⟨t, ht, hs, htime⟩ := h.heads.queue_row q i hi
      exact ⟨t, ht, hs, htime (h.threadId_eq ht)⟩
    · intro hi
      obtain ⟨t, ht, hs, htime⟩ := hi
      have hmem := h.heads.queue_free _ t ht hs (h.threadId_eq ht)
      rw [htime] at hmem
      exact hmem
  inProgress := h.indexed.inProgressExact
  dead := h.indexed.deadExact
  sequence := h.sequenced

/-- A run without threads stays well-formed. -/
theorem Sound.wellFormed (h : Sound False False s) : WellFormed s where
  key := h.indexed.key
  sequence := h.sequenced
  queue q i := by
    rw [h.mirrored.queue q i]
    constructor
    · intro hi
      obtain ⟨t, ht, hs, htime⟩ := hi
      exact ⟨t, ht, hs, htime, Or.inl (h.threadId_eq ht)⟩
    · intro hi
      obtain ⟨t, ht, hs, htime, _⟩ := hi
      exact ⟨t, ht, hs, htime⟩
  inProgress := h.indexed.inProgressExact
  dead := h.indexed.deadExact
  expiration := h.indexed.expirationExact
  dedupe := h.indexed.dedupeExact
  members k i := by
    constructor
    · intro hi
      exact absurd (h.heads.member_key k i hi).2.1 id
    · intro hi
      obtain ⟨t, ht, _, hn, _⟩ := hi
      exact absurd (h.threadId_eq ht) hn
  threads k thread hk := absurd (h.heads.thread_key k thread hk).2.2.2.1 id
  leased _ _ ht _ := Or.inl (h.threadId_eq ht)

/-- The row is the one before, or the same one overwritten while it waits. -/
def Task.Overwrote (t t' : Task) : Prop :=
  t' = t ∨ t.state = .enqueued ∧
    ∃ payload scheduledAt expiresAt, t' = t.overwrite payload scheduledAt expiresAt

omit [OrderedStore] in
theorem Task.Overwrote.overwrite {t u : Task} (h : t.Overwrote u) (hu : u.state = .enqueued)
    (payload : Bytes) (scheduledAt expiresAt : Time) :
    t.Overwrote (u.overwrite payload scheduledAt expiresAt) := by
  rcases h with rfl | ⟨hs, p, x, y, rfl⟩
  · exact Or.inr ⟨hu, payload, scheduledAt, expiresAt, rfl⟩
  · exact Or.inr ⟨hs, payload, scheduledAt, expiresAt, rfl⟩

/-- Enqueue leaves every row in place: new tasks have new ids. -/
theorem Enqueues.keeps {th : Prop} {q : QueueId} {entries : List EnqueueRequestEntry} {lo hi : Nat}
    {es : List Event} {r r' : Rows} (h : Enqueues q now entries lo hi es) (hs : Steps th r es r')
    {id : TaskId} {t : Task} (ht : r.tasks.get id = some t) :
    ∃ t', r'.tasks.get id = some t' ∧ t.Overwrote t' := by
  refine Trace.invariant_of (I := fun r => ∃ t', r.tasks.get id = some t' ∧ t.Overwrote t') hs ?_
    ⟨t, ht, Or.inl rfl⟩
  intro ev hev a b ha hab
  obtain ⟨u, hu, hover⟩ := ha
  by_cases hid : ev.task = some id
  · obtain ⟨_, _, ⟨v, v', rfl, _⟩ | ⟨n, rfl, _⟩⟩ := h ev hev
    · cases hab with
      | overwrite row state =>
        obtain rfl := Option.some.inj hid
        obtain rfl := Option.some.inj (row.symm.trans hu)
        exact ⟨_, Table.get_set_self _ _ _, hover.overwrite state _ _ _⟩
    · cases hab with
      | create fresh =>
        rw [Option.some.inj hid, hu] at fresh
        exact absurd fresh (by simp)
  · exact ⟨u, (hab.frame hid).trans hu, hover⟩

/-- What calls may rely on when the indexes mirror the rows. -/
structure Serves (s : State) : Prop where
  /-- No call fails. -/
  returns : ∀ now op, ¬op.threaded → op.refills → ∃ a, exec s now op = .ok a
  /-- What Dequeue hands out waited when its first pass was over. -/
  handsOut : ∀ now req s' ts, dequeue s now req = .ok (s', .ok ts) → ∃ mid,
    dequeueInProgressTasksBeforeTime s req.queueId now req.deadLetterQueueConfig = .ok mid ∧
    ∀ u ∈ ts, ∃ t, mid.tasks.get t.id = some t ∧ t.state = .enqueued ∧
      u = t.lease now req.keepaliveTimeoutInSeconds
  /-- Enqueue replaces no row by a new task. -/
  keeps : ∀ now req s' r, ¬(Op.enqueue req).threaded → enqueue s now req = .ok (s', r) →
    ∀ id t, s.tasks.get id = some t → ∃ t', s'.tasks.get id = some t' ∧ t.Overwrote t'

theorem Sound.serves (h : Sound False False s) : Serves s where
  returns now op hth hr := by
    have hmade : Ensures False (exec s now op) _ :=
      exec_makes h.indexed h.heads h.sequenced hth id (fun hn => hn hr)
    obtain ⟨a, ha, _⟩ := hmade.returns
    exact ⟨a, ha⟩
  handsOut now req s' ts hd := by
    have hmade : Ensures True (dequeueTasks s now req) _ :=
      dequeueTasks_makes h.indexed h.heads False.elim (fun _ => trivial)
    obtain ⟨mid, _, l, _, hok, _, _, hb, hl, hres, _⟩ := hmade.elim (dequeue_ok hd)
    dsimp only at hres
    refine ⟨mid, hok, fun u hu => ?_⟩
    rw [hres] at hu
    obtain ⟨t, ht, rfl⟩ := List.mem_map.mp hu
    have hm := List.mem_of_mem_filter ht
    exact ⟨t, hb.row t hm, (hl t hm).1, rfl⟩
  keeps now req s' r hth he id t ht := by
    have hmade : Ensures False (enqueue s now req) _ :=
      enqueue_makes h.indexed h.sequenced (fun e hm hn => hth ⟨e, hm, hn⟩)
    rcases hmade.elim he with ⟨_, _, hs⟩ | ⟨_, n, es, _, _, henq, hes, _⟩
    · obtain rfl : s' = s := hs
      exact ⟨t, ht, Or.inl rfl⟩
    · obtain ⟨r1, hes1, hlast⟩ := hes.split
      obtain ⟨t', ht', hover⟩ := henq.keeps hes1 ht
      refine ⟨t', ?_, hover⟩
      rw [← ht']
      exact Steps.frame hlast (by simp [Event.task])

/-- In every run without threads the indexes are exact in every state, and so no
call fails, hands out a task that does not wait, or overwrites a row. -/
theorem run_unthreaded (calls : List Call) (h : ∀ c ∈ calls, ¬c.op.threaded) :
    Mirrored (run State.empty calls) ∧ Serves (run State.empty calls) :=
  ⟨(run_unthreaded_sound calls h).mirrored, (run_unthreaded_sound calls h).serves⟩

end Invariant

section Runs

def plainEntry (scheduledAt expiresAt : Time) (dedupeKey : Bytes) : EnqueueRequestEntry :=
  ⟨[], scheduledAt, expiresAt, dedupeKey, some ⟨[0]⟩, [.expiresAt, .scheduledAt], []⟩

def plainQueue : QueueId := ⟨1, 2⟩

def keepDead : Option DeadLetterQueueConfig := some ⟨true, 10, 3600⟩

/-- A task is delivered, retried, dies and is restarted; others are overwritten,
swept or purged. -/
def lifeRun : List Call :=
  [⟨5, .enqueue ⟨plainQueue, [plainEntry 5 100 [], plainEntry 6 12 [1], plainEntry 9 14 [1]]⟩⟩,
    ⟨8, .dequeue ⟨plainQueue, none, 1, keepDead, 60⟩⟩,
    ⟨9, .reportStatus ⟨[⟨plainQueue.task 1, 1, .failed, 60⟩], keepDead⟩⟩,
    ⟨10, .dequeue ⟨plainQueue, none, 5, keepDead, 60⟩⟩,
    ⟨11, .reportStatus ⟨[⟨plainQueue.task 1, 2, .failed, 60⟩], keepDead⟩⟩,
    ⟨12, .restartTasks ⟨plainQueue, [⟨1, 20, 90⟩]⟩⟩,
    ⟨16, .runTasksGarbageCollection ⟨0, 0⟩⟩]

theorem run_unthreaded_life : (run State.empty lifeRun).queueIndex.items plainQueue = [⟨20, 1⟩] ∧
    Mirrored (run State.empty lifeRun) ∧ Serves (run State.empty lifeRun) :=
  ⟨by decide +kernel, run_unthreaded lifeRun (by simp [lifeRun, Op.threaded, plainEntry])⟩

end Runs

end Moab
