import Moab.Tasks.Exec
import Moab.Tasks.Stable

namespace Moab

open OrderedStore

section Pace

variable [OrderedStore]

variable {c : Scope} {now : Time}

def maxRetryIntervalInSeconds : Time := 60 * 15

/-- The retry intervals of a strategy pass validation. -/
def RetryStrategy.valid (r : RetryStrategy) : Prop :=
  ∀ i ∈ r.retryIntervalsInSeconds, 0 ≤ i ∧ i ≤ maxRetryIntervalInSeconds

/-- The task is scheduled after the epoch and has a valid retry strategy. -/
def Task.paced (t : Task) : Prop :=
  0 ≤ t.scheduledAt ∧ ∀ strategy, t.retryStrategy = some strategy → strategy.valid

def Paced (r : Rows) : Prop := ∀ id t, r.tasks.get id = some t → t.paced

omit [OrderedStore] in
theorem retryInterval_mem {t : Task} {i : Time} (hi : retryInterval t = .ok i) :
    ∃ strategy, t.retryStrategy = some strategy ∧ i ∈ strategy.retryIntervalsInSeconds := by
  unfold retryInterval at hi
  cases hr : t.retryStrategy with
  | none => simp [hr] at hi
  | some strategy =>
    simp only [hr] at hi
    split_ifs at hi
    cases hg : strategy.retryIntervalsInSeconds[(t.attempts - 1).toNat]? with
    | none =>
      rw [hg] at hi
      exact absurd hi (by simp)
    | some j =>
      rw [hg] at hi
      exact ⟨strategy, rfl, Except.ok.inj hi ▸ List.mem_of_getElem? hg⟩

omit [OrderedStore] in
theorem retryInterval_valid {t : Task} {i : Time}
    (h : ∀ strategy, t.retryStrategy = some strategy → strategy.valid)
    (hi : retryInterval t = .ok i) : 0 ≤ i ∧ i ≤ maxRetryIntervalInSeconds := by
  obtain ⟨strategy, hstrategy, hmem⟩ := retryInterval_mem hi
  exact h strategy hstrategy i hmem

omit [OrderedStore] in
theorem Task.paced.interval {t : Task} {i : Time} (h : t.paced) (hi : retryInterval t = .ok i) :
    0 ≤ i ∧ i ≤ maxRetryIntervalInSeconds := retryInterval_valid h.2 hi

/-- The clock is not before the epoch nor before any cursor, and so early that a
retry does not overflow. -/
structure Clock (c : Scope) (now : Time) : Prop where
  nonneg : 0 ≤ now
  retry : ∀ i, 0 ≤ i → i ≤ maxRetryIntervalInSeconds → now ≤ plusSeconds now i
  front : ∀ q time, now ≤ time → c.front q time

/-- The retry strategies an operation brings in are valid. -/
def Op.valid : Op → Prop
  | .enqueue req => ∀ e ∈ req.entries, ∀ strategy ∈ e.retryStrategy, strategy.valid
  | _ => True

instance (r : RetryStrategy) : Decidable r.valid := List.decidableBAll _ _

instance (op : Op) : Decidable op.valid :=
  match op with
  | .enqueue _ => inferInstanceAs (Decidable (∀ e ∈ _, _))
  | .dequeue _ | .reportStatus _ | .deleteTasks _ | .restartTasks _ | .purgeQueue _ |
    .runTasksGarbageCollection _ | .runPurgeQueueGarbageCollection _ => .isTrue trivial

omit [OrderedStore] in
theorem le_notBefore (time now : Time) : now ≤ notBefore time now := by
  unfold notBefore
  split_ifs with h
  · exact Int64.le_refl now
  · exact Int64.not_lt.mp h

omit [OrderedStore] in
theorem Clock.failing (hc : Clock c now) (dlqConfig : Option DeadLetterQueueConfig) :
    Failing Task.paced Task.paced now dlqConfig where
  die _ _ ht _ := ht
  retry _ _ ht hi := by
    have hv := ht.interval hi
    exact ⟨Int64.le_trans hc.nonneg (hc.retry _ hv.1 hv.2), ht.2⟩

omit [OrderedStore] in
/-- A call writes no time before the epoch and no invalid retry strategy. -/
theorem Op.valid.writes {op : Op} (hv : op.valid) (hc : Clock c now) :
    op.Writes Task.paced Task.paced now := by
  have later : ∀ time, 0 ≤ notBefore time now :=
    fun time => Int64.le_trans hc.nonneg (le_notBefore time now)
  cases op with
  | enqueue req =>
    intro e he
    exact ⟨⟨fun _ ht => ht, fun _ ht => ⟨later _, ht.2⟩, fun _ ht => ht⟩, fun _ =>
      ⟨later _, hv e he⟩⟩
  | dequeue req => exact ⟨hc.failing _, fun _ ht => ht⟩
  | reportStatus req => exact ⟨hc.failing _, fun _ _ _ _ ht _ => ht⟩
  | restartTasks req => exact fun _ _ _ ht => ⟨later _, ht.2⟩
  | _ => trivial

theorem Paced.upheld : Upheld Task.paced Task.paced (fun s => Paced s.rows) :=
  Upheld.of_rows (P := fun _ t => t.paced) (fun _ _ ht => ht) (fun _ ht _ => ht) (fun _ ht => ht)

theorem Paced.exec {s : State} {op : Op} (h : Paced s.rows) (hv : op.valid) (hc : Clock c now) :
    Ensures True (exec s now op) (fun a => Paced a.1.rows) :=
  exec_rows h (hv.writes hc)

end Pace

end Moab
