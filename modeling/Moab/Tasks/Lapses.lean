import Moab.Tasks.Areas
import Moab.Tasks.FailedHeads
import Moab.Tasks.Unthreaded

namespace Moab

open OrderedStore

section Store

variable [OrderedStore] {s s' u u' : State} {t : Task} {q : QueueId} {now : Time}

/-- The tasks whose leases lapsed, in the order in which one call visits them. -/
def lapsedTasks (s : State) (q : QueueId) (now : Time) : List Task :=
  (timedOutItems s q now).filterMap (fun i => s.tasks.get (q.task i.taskId))

/-- The report of a failure of the delivery a row is at. -/
def Task.failure (t : Task) (keepalive : Time) : ReportStatusRequestEntry :=
  ⟨t.id, t.attempts, .failed, keepalive⟩

section Cursors

/-- All that is stored, the cursors, the limiters and the purge markers apart. -/
def Area.lifecycle : Area where
  task _ := True
  dedupeKey _ := True
  thread _ := True
  counter _ := True
  tally _ := False
  queue _ := False

omit [OrderedStore] in
theorem Area.lifecycle_spans : Area.lifecycle.Spans q :=
  ⟨fun _ _ => trivial, fun _ _ => trivial, fun _ _ => trivial, trivial⟩

/-- Each of two computations is in the other's place, and both leave the cursors. -/
def Abreast (s₀ u₀ s u : State) : Prop :=
  Alike Area.lifecycle s₀ s u ∧ Alike Area.lifecycle u₀ u s

theorem WellFormed.proper (h : WellFormed s) (a : Address) (v : a.Value) (hv : s.value a = some v) :
    Area.lifecycle.Proper a v := by
  cases a with
  | task id => exact h.key id v hv
  | thread k => exact ⟨trivial, (h.threads k v hv).2.1, trivial⟩
  | _ => trivial

theorem WellFormed.abreast (h : WellFormed s) (q : QueueId) (st : QueueState) :
    Abreast s (s.setQueueState q st) s (s.setQueueState q st) := by
  have hsame : ∀ a, Area.lifecycle.Owns a → s.value a = (s.setQueueState q st).value a := by
    intro a ha
    cases a <;> first | rfl | exact ha.elim
  refine ⟨⟨hsame, fun _ _ _ => rfl, fun a v _ => h.proper a v⟩, ⟨fun a ha => (hsame a ha).symm,
    fun _ _ _ => rfl, fun a v ha hv => h.proper a v ?_⟩⟩
  rw [hsame a ha]
  exact hv

theorem Abreast.setQueueState {s₀ : State} {st : QueueState}
    (h : Abreast s₀ (s₀.setQueueState q st) s u) : u = s.setQueueState q st := by
  obtain ⟨hs, hu⟩ := h
  have hkept : ∀ a, ¬Area.lifecycle.Owns a →
      u.value a = (s₀.setQueueState q st).value a ∧ s.value a = s₀.value a := by
    intro a ha
    have hno : ¬Area.lifecycle.Tallies a := by cases a <;> exact id
    exact ⟨hu.frame a ha hno, hs.frame a ha hno⟩
  have hwrote : Wrote (.queueState q) (some st) s (s.setQueueState q st) := .setQueueState q st
  have hwrote₀ : Wrote (.queueState q) (some st) s₀ (s₀.setQueueState q st) := .setQueueState q st
  refine State.ext_value (fun a => ?_)
  by_cases hq : a = .queueState q
  · subst hq
    rw [hwrote.here, (hkept _ id).1, hwrote₀.here]
  · rw [hwrote.there a hq]
    by_cases ha : Area.lifecycle.Owns a
    · exact (hs.same a ha).symm
    · rw [(hkept a ha).1, (hkept a ha).2, hwrote₀.there a hq]

/-- Failures are handled the same way whatever the cursors are. -/
theorem handleFailures_setQueueState (h : WellFormed s) (st : QueueState) (l : List Task)
    (dlqConfig : Option DeadLetterQueueConfig) :
    Related (fun u' s' => u' = s'.setQueueState q st ∧ s'.queueState = s.queueState)
      (l.foldlM (fun s t => handleTaskFailure s t now dlqConfig) (s.setQueueState q st))
      (l.foldlM (fun s t => handleTaskFailure s t now dlqConfig) s) := by
  have hfold : Related (fun u' s' => Abreast s (s.setQueueState q st) s' u')
      (l.foldlM (fun s t => handleTaskFailure s t now dlqConfig) (s.setQueueState q st))
      (l.foldlM (fun s t => handleTaskFailure s t now dlqConfig) s) := by
    refine Related.foldlM ?_ (h.abreast q st)
    intro t _ u1 s1 h1
    refine ((h1.2.handleTaskFailure Area.lifecycle_spans dlqConfig).both
      (h1.1.handleTaskFailure Area.lifecycle_spans dlqConfig)).mono ?_
    exact fun _ _ h' => ⟨h'.2, h'.1⟩
  refine hfold.mono (fun u' s' h' => ⟨h'.setQueueState, ?_⟩)
  exact Table.ext (fun p => h'.1.frame (.queueState p) id id)

end Cursors

/-- Rows that were read before any failure was handled are still the rows when their
turn comes, so failing them from the copies is reporting them. -/
theorem reportEntries_failures {th : Prop} (keepalive : Time)
    (dlqConfig : Option DeadLetterQueueConfig) (l : List Task) (s : State)
    (hi : Indexed th s.rows) (hb : Batch s.rows l) (hl : ∀ t ∈ l, t.state = .inProgress) :
    reportEntries now dlqConfig s (l.map (·.failure keepalive)) =
      (l.foldlM (fun s t => handleTaskFailure s t now dlqConfig) s).map
        (fun s' => (s', l.map (fun t => ⟨t.id, .ok⟩))) := by
  induction l generalizing s with
  | nil => rfl
  | cons t l ih =>
    obtain ⟨state, hrest⟩ := List.forall_mem_cons.mp hl
    have row : s.tasks.get t.id = some t := hb.head
    have hreport : reportStatus s t.id now .failed t.attempts keepalive dlqConfig =
        (handleTaskFailure s t now dlqConfig).map (fun s' => (s', .ok)) := by
      unfold reportStatus
      rw [row]
      dsimp only
      rw [if_neg (not_not.mpr state), if_neg (not_not.mpr rfl)]
      rfl
    have hmade : Ensures True (handleTaskFailure s t now dlqConfig) _ :=
      (handleTaskFailure_makes now dlqConfig hi hb.head state).weaken (fun _ => trivial)
    rw [List.map_cons, reportEntries, List.foldlM_cons, Task.failure, hreport]
    cases hs1 : handleTaskFailure s t now dlqConfig with
    | error e => rfl
    | ok s1 =>
      obtain ⟨es, hes, hfail⟩ := hmade.elim hs1
      have hnext := ih s1 (hi.steps hes) (hfail.batch hes hb hrest) hrest
      change (reportEntries now dlqConfig s1 _ >>= _) = Except.map _ (List.foldlM _ s1 l)
      rw [hnext]
      cases l.foldlM (fun s t => handleTaskFailure s t now dlqConfig) s1 <;> rfl

theorem lapsedTasks_eq {l : List Task}
    (hl : (timedOutItems s q now).mapM (fun i => s.getTask (q.task i.taskId)) = .ok l) :
    lapsedTasks s q now = l := by
  have hall := forall₂_of_mapM_ok hl
  unfold lapsedTasks
  clear hl
  generalize timedOutItems s q now = items at hall
  induction hall with
  | nil => rfl
  | @cons i t items l hi _ ih =>
    simp [State.getTask_eq_ok.mp hi, ih]

/-- The pass over lapsed leases leaves the store as it would be if a failure of the
current delivery were reported for each of the tasks in turn, its cursor apart. Every
one of these reports is accepted. -/
theorem lapse_is_failure (h : WellFormed s) (q : QueueId) (now keepalive : Time)
    (dlqConfig : Option DeadLetterQueueConfig) :
    Related (fun s' a => (∃ cursor, s' = a.1.visitInProgress q cursor) ∧
        a.2 = (lapsedTasks s q now).map (fun t => ⟨t.id, .ok⟩))
      (dequeueInProgressTasksBeforeTime s q now dlqConfig)
      (reportStatuses s now ⟨(lapsedTasks s q now).map (·.failure keepalive), dlqConfig⟩) := by
  obtain ⟨l, hl, hb, _, hrow⟩ := timedOutTasks s q now h.indexed
  have hreports : reportEntries now dlqConfig s _ = _ :=
    reportEntries_failures keepalive dlqConfig l s h.indexed hb (fun t ht => (hrow t ht).1)
  rw [lapsedTasks_eq hl]
  unfold reportStatuses dequeueInProgressTasksBeforeTime
  dsimp only
  rw [hl, hreports]
  generalize ((timedOutItems s q now).getLast?.map IndexItem.time).getD now = cursor
  have hfold : Related _ (l.foldlM (fun s t => handleTaskFailure s t now dlqConfig) _) _ :=
    handleFailures_setQueueState (q := q) h
      { s.getQueueState q with lastVisitedInProgress := cursor } l dlqConfig
  refine Related.map_right (hfold.mono ?_)
  intro u' s' h'
  obtain ⟨hu, hkept⟩ := h'
  refine ⟨⟨cursor, ?_⟩, rfl⟩
  rw [hu, State.visitInProgress, State.getQueueState, State.getQueueState, hkept]

end Store

section Runs

/-- A thread's head that may be retried, and a task of its own that may not. -/
def lapsingRun : List Call :=
  [⟨5, .enqueue ⟨threadQueue, [⟨[], 5, 1000000000000, [], some ⟨[7]⟩, [], [7]⟩,
      ⟨[], 6, 1000000000000, [], none, [], []⟩]⟩⟩,
    ⟨10, .dequeue dequeueAll⟩]

theorem lapsingRun_wellFormed : WellFormed (run State.empty lapsingRun) :=
  run_wellFormed (by decide +kernel) (by decide +kernel) (by decide +kernel)

/-- A minute and a half later both leases lapsed. -/
theorem lapse_is_failure_both :
    (lapsedTasks (run State.empty lapsingRun) threadQueue 90000000000).map Task.id =
      [threadQueue.task 1, threadQueue.task 2] ∧
    Related (fun s' a => (∃ cursor, s' = a.1.visitInProgress threadQueue cursor) ∧
        a.2 = (lapsedTasks (run State.empty lapsingRun) threadQueue 90000000000).map
          (fun t => ⟨t.id, .ok⟩))
      (dequeueInProgressTasksBeforeTime (run State.empty lapsingRun) threadQueue 90000000000
        keepDead)
      (reportStatuses (run State.empty lapsingRun) 90000000000
        ⟨(lapsedTasks (run State.empty lapsingRun) threadQueue 90000000000).map (·.failure 60),
          keepDead⟩) :=
  ⟨by decide +kernel, lapse_is_failure lapsingRun_wellFormed threadQueue 90000000000 60 _⟩

end Runs

end Moab
