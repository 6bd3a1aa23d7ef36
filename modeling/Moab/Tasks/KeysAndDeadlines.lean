import Moab.Tasks.Unthreaded

namespace Moab

open OrderedStore

section Invariant

variable [OrderedStore] {s : State}

/-- No two live tasks of a queue have the same dedupe key. -/
def KeysUnique (s : State) : Prop :=
  ∀ id id' t t', s.tasks.get id = some t → s.tasks.get id' = some t' → t.live → t'.live →
    id.queue = id'.queue → t.dedupeKey = t'.dedupeKey → t.dedupeKey ≠ [] → id = id'

/-- A key in the index has one holder. -/
theorem DedupeExact.unique (h : DedupeExact s) : KeysUnique s := by
  intro id id' t t' ht ht' hl hl' hq hk hn
  have hget := (h ⟨id.queue, t.dedupeKey⟩ id.taskId).mpr ⟨t, ht, hl, hn, rfl⟩
  have hget' := (h ⟨id'.queue, t'.dedupeKey⟩ id'.taskId).mpr ⟨t', ht', hl', hk ▸ hn, rfl⟩
  rw [hq, hk, hget'] at hget
  exact TaskId.eq_of_queue hq (Option.some.inj hget).symm

/-- A task that is gone or dead holds no key. -/
theorem DedupeExact.released (h : DedupeExact s) {id : TaskId}
    (hgone : ∀ t, s.tasks.get id = some t → ¬t.live) (dedupeKey : Bytes) :
    s.dedupeKeysIndex.get ⟨id.queue, dedupeKey⟩ ≠ some id.taskId := by
  intro hget
  obtain ⟨t, ht, hl, _⟩ := (h _ _).mp hget
  exact hgone t ht hl

/-- Restarts claim keys that are free. -/
theorem Restarts.keeps {th : Prop} {q : QueueId} {now : Time}
    {entries : List RestartTasksRequestEntry} {es : List Event} {r r' : Rows}
    (h : Restarts q now entries es) (hs : Steps th r es r') {k : DedupeKey} {n : Nat}
    (hk : r.dedupeKeysIndex.get k = some n) : r'.dedupeKeysIndex.get k = some n := by
  refine Trace.invariant_of (I := fun r => r.dedupeKeysIndex.get k = some n) hs ?_ hk
  intro ev hev a b ha hab
  obtain ⟨e, _, t, he, _⟩ := h ev hev
  generalize t.restart now e.scheduledAt e.expiresAt = t' at he
  subst he
  cases hab with
  | restart row state free =>
    change (Rows.claimed a.dedupeKeysIndex t).get k = some n
    unfold Rows.claimed
    split_ifs with hd
    · exact ha
    · rw [Table.get_set_ne, ha]
      intro he
      rw [he, free hd] at ha
      exact absurd ha (by simp)

/-- Every call keeps dedupe keys unique among live tasks: the index stays exact, a
task that is no longer live has released its key, and a restart takes no key from
its holder. -/
theorem commit_keysUnique (h : WellFormed s) (now : Time) (op : Op) :
    DedupeExact (commit s now op) ∧ KeysUnique (commit s now op) ∧
    (∀ id t, s.tasks.get id = some t → t.live →
      (∀ t', (commit s now op).tasks.get id = some t' → ¬t'.live) →
        (commit s now op).dedupeKeysIndex.get t.dedupe ≠ some id.taskId) ∧
    ∀ req, op = .restartTasks req → ∀ k n, s.dedupeKeysIndex.get k = some n →
      (commit s now op).dedupeKeysIndex.get k = some n := by
  have hexact : DedupeExact (commit s now op) := by
    refine commit_keeps h.dedupe (h.exec_makes.mono (fun a ha => ?_))
    obtain ⟨_, _, _, hi⟩ := ha
    exact hi.dedupeExact
  refine ⟨hexact, hexact.unique, fun id t ht _ hgone => ?_, fun req hop k n hk => ?_⟩
  · have hid := h.key id t ht
    unfold Task.dedupe
    rw [hid]
    exact hexact.released hgone t.dedupeKey
  · subst hop
    refine commit_keeps (I := fun s => s.dedupeKeysIndex.get k = some n) hk
      (h.exec_makes.mono (fun a ha => ?_))
    obtain ⟨es, hes, hc, _⟩ := ha
    obtain ⟨s', r⟩ := a
    cases hc with
    | restartTasks hr => exact hr.keeps hes hk

/-- Every call keeps the expiration index exact: one deadline for each task that
waits or is dead, and none for a task in progress. -/
theorem commit_expirationExact (h : WellFormed s) (now : Time) (op : Op) :
    ExpirationExact (commit s now op) := by
  refine commit_keeps h.expiration (h.exec_makes.mono (fun a ha => ?_))
  obtain ⟨_, _, _, hi⟩ := ha
  exact hi.expirationExact

end Invariant

section Runs

/-- A dead task and a live one have the same key, and the dead one is restarted. -/
def sharedKeyRun : List Call :=
  [⟨5, .enqueue ⟨plainQueue, [⟨[], 5, 100, [1], none, [], []⟩]⟩⟩,
    ⟨8, .dequeue ⟨plainQueue, none, 1, keepDead, 60⟩⟩,
    ⟨9, .reportStatus ⟨[⟨plainQueue.task 1, 1, .failed, 60⟩], keepDead⟩⟩,
    ⟨10, .enqueue ⟨plainQueue, [plainEntry 11 100 [1]]⟩⟩]

theorem sharedKeyRun_wellFormed : WellFormed (run State.empty sharedKeyRun) :=
  (run_unthreaded_sound sharedKeyRun
    (by simp [sharedKeyRun, Op.threaded, plainEntry])).wellFormed

def restartDead : Op := .restartTasks ⟨plainQueue, [⟨1, 20, 90⟩]⟩

theorem commit_keysUnique_restart :
    DedupeExact (commit (run State.empty sharedKeyRun) 12 restartDead) ∧
    KeysUnique (commit (run State.empty sharedKeyRun) 12 restartDead) ∧
    (commit (run State.empty sharedKeyRun) 12 restartDead).dedupeKeysIndex.get ⟨plainQueue, [1]⟩ =
      some 2 := by
  obtain ⟨hexact, hunique, _, hkeep⟩ := commit_keysUnique sharedKeyRun_wellFormed 12 restartDead
  exact ⟨hexact, hunique, hkeep _ rfl _ _ (by decide +kernel)⟩

/-- A duplicate of the live task brings another deadline. -/
def postpone : Op := .enqueue ⟨plainQueue, [⟨[], 11, 200, [1], none, [.expiresAt], []⟩]⟩

theorem commit_expirationExact_postponed :
    ExpirationExact (commit (run State.empty sharedKeyRun) 12 postpone) ∧
    ⟨100, plainQueue.task 2⟩ ∈ (run State.empty sharedKeyRun).expiration.items () ∧
    ⟨200, plainQueue.task 2⟩ ∈
      (commit (run State.empty sharedKeyRun) 12 postpone).expiration.items () :=
  ⟨commit_expirationExact sharedKeyRun_wellFormed 12 postpone, by decide +kernel, by decide +kernel⟩

end Runs

end Moab
