import Moab.Tasks.Exclusion
import Moab.Tasks.Stable

namespace Moab

open OrderedStore

section Invariant

variable [OrderedStore] {s : State} {now : Time}

/-- The task heads its thread while another member is behind the cursor that the
call found. If the task hands its place over, that member is queued where no scan
looks any more. -/
def strands (found s : State) (t : Task) : Bool :=
  (s.threads.get t.threadKey).any (fun thread => thread.headTaskId = t.id ∧
    ∃ i ∈ s.threadedTasksIndex.items t.threadKey, i.taskId ≠ t.id.taskId ∧
      i.time.rank < (found.getQueueState t.id.queue).lastVisitedEnqueued.rank)

theorem unstranded_of_strands {th tr : Prop} {found : State} {t : Task}
    (h : strands found s t = false) : Unstranded (found.scope th tr) s t := by
  intro thread hk hhead i hi hne
  have hnone := (Option.any_eq_false _ _).mp h thread hk
  have hall : ∀ i ∈ s.threadedTasksIndex.items t.threadKey, i.taskId ≠ t.id.taskId →
      ¬i.time.rank < (found.getQueueState t.id.queue).lastVisitedEnqueued.rank := by
    simpa [hhead] using hnone
  exact not_lt.mp (hall i hi hne)

/-- No step of the call queues a task behind the cursor: no entry displaces a
queued head, and no head of a thread goes or is moved while it strands a member. -/
def Call.keepsReach (s : State) (c : Call) : Prop :=
  match c.op with
  | .enqueue req => Along (enqueueStep req.queueId c.now)
      (fun a e => displacesHead req.queueId c.now a.1 e = false ∧
        ∀ t ∈ (duplicateOf a.1 req.queueId e).bind a.1.tasks.get, t.state = .enqueued →
          .scheduledAt ∈ e.overwriteOnDuplicate → strands s a.1 t = false)
      (s, sequenceOf s.queueState req.queueId) req.entries
  | .dequeue req => ∀ i ∈ timedOutItems s req.queueId c.now,
      ∀ t ∈ s.tasks.get (req.queueId.task i.taskId), strands s s t = false
  | .reportStatus req => Along (reportStep c.now req.deadLetterQueueConfig)
      (fun a e => ∀ t ∈ a.tasks.get e.taskId, t.state = .inProgress → t.attempts = e.attempt →
        e.status = .failed ∨ e.status = .succeeded → strands s a t = false) s req.entries
  | .deleteTasks req => Along (deleteTaskById req.queueId)
      (fun a n => ∀ t ∈ a.tasks.get (req.queueId.task n), t.live →
        strands s a t = false) s req.taskIds
  | .runTasksGarbageCollection _ => ∀ e ∈ s.tasks.entries, e.2.state = .enqueued →
      e.2.expiresAt.rank ≤ c.now.rank → strands s s e.2 = false
  | _ => True

instance (s : State) (c : Call) : Decidable (c.keepsReach s) :=
  match c with
  | ⟨_, .enqueue _⟩ | ⟨_, .reportStatus _⟩ | ⟨_, .deleteTasks _⟩ =>
    inferInstanceAs (Decidable (Along _ _ _ _))
  | ⟨_, .dequeue _⟩ => inferInstanceAs (Decidable (∀ i ∈ timedOutItems _ _ _, _))
  | ⟨_, .runTasksGarbageCollection _⟩ => inferInstanceAs (Decidable (∀ e ∈ s.tasks.entries, _))
  | ⟨_, .restartTasks _⟩ | ⟨_, .purgeQueue _⟩ | ⟨_, .runPurgeQueueGarbageCollection _⟩ =>
    .isTrue trivial

theorem Clock.punctual {th tr : Prop} (h : Clock (s.scope th tr) now) (q : QueueId) :
    Punctual (s.scope th tr) q now where
  arrival _ time := h.front q _ (le_notBefore time now)
  idle _ _ hf := hf
  mono _ _ _ _ hle hx := le_trans hx hle

theorem Call.keepsReach.safe {th : Prop} {c : Call} (h : c.keepsReach s)
    (hp : c.op.collectsPurged = false) (hclock : Clock (s.scope th True) c.now) :
    c.op.Safe (s.scope th True) s c.now := by
  obtain ⟨now, op⟩ := c
  cases op with
  | enqueue req =>
    refine ⟨hclock.punctual _, Along.imp h (fun a e he => ?_)⟩
    intro _ id t hd row state hth hw
    have hrow : (duplicateOf a.1 req.queueId e).bind a.1.tasks.get = some t := by
      rw [hd]
      exact row
    exact ⟨displacesHead_false he.1 hd row state hth hw,
      fun _ => unstranded_of_strands (he.2 t hrow state hw)⟩
  | dequeue req => exact fun _ i hi t row => unstranded_of_strands (h i hi t row)
  | reportStatus req =>
    refine fun _ => Along.imp h (fun a e he t row hs ha hst _ => ?_)
    exact unstranded_of_strands (he t row hs ha hst)
  | deleteTasks req =>
    refine fun _ => Along.imp h (fun a n hn t row hl _ => ?_)
    exact unstranded_of_strands (hn t row hl)
  | restartTasks req => exact hclock.punctual _
  | purgeQueue q => trivial
  | runTasksGarbageCollection req =>
    intro _ id t row hs hd _
    exact unstranded_of_strands (h (id, t) (Table.mem_entries.mpr row) hs hd)
  | runPurgeQueueGarbageCollection req => simp [Op.collectsPurged] at hp

/-- The state after a call at now: no cursor is ahead of the clock and no queue
id is marked as purged. -/
structure Timed (now : Time) (s : State) : Prop where
  sound : Sound True True s
  cursor : ∀ q, (s.getQueueState q).lastVisitedEnqueued.rank ≤ now.rank
  unpurged : ∀ q, s.purgeGCRecords.get q = none

/-- The time of a request: from the epoch on, and so early that adding the longest
retry interval does not overflow. -/
def Call.inRange (c : Call) : Prop :=
  0 ≤ c.now ∧ c.now.toInt + maxRetryIntervalInSeconds.toInt * 1000000000 < 2 ^ 63

instance (c : Call) : Decidable c.inRange := inferInstanceAs (Decidable (_ ∧ _))

omit [OrderedStore] in
theorem Call.inRange.retry {c : Call} (h : c.inRange) {i : Time} (h0 : 0 ≤ i)
    (hi : i ≤ maxRetryIntervalInSeconds) : c.now ≤ plusSeconds c.now i := by
  obtain ⟨hnow, hlt⟩ := h
  have hnow' : 0 ≤ c.now.toInt := Int64.le_iff_toInt_le.mp hnow
  have h0' : 0 ≤ i.toInt := Int64.le_iff_toInt_le.mp h0
  have hi' := Int64.le_iff_toInt_le.mp hi
  rw [Int64.le_iff_toInt_le, toInt_plusSeconds ⟨by omega, by omega⟩]
  omega

theorem Timed.clock {past : Time} {c : Call} (h : Timed past s) (hpast : 0 ≤ past)
    (hle : past ≤ c.now) (hr : c.inRange) : Clock (s.scope True True) c.now where
  nonneg := hr.1
  retry _ h0 hi := hr.retry h0 hi
  front q _ ht := (h.cursor q).trans ((Time.rank_le hpast hle).trans (Time.rank_le hr.1 ht))

/-- Only Dequeue moves cursors, and not past the time of the call. -/
theorem exec_cursor {op : Op} (hle : ∀ q, (s.getQueueState q).lastVisitedEnqueued.rank ≤ now.rank) :
    Ensures True (exec s now op)
      (fun a => ∀ q, (a.1.getQueueState q).lastVisitedEnqueued.rank ≤ now.rank) := by
  apply exec_queueStates (P := fun _ st => st.lastVisitedEnqueued.rank ≤ now.rank) hle
  · exact fun req _ _ => hle req.queueId
  · intro req st st' _ hst hvisit
    rcases hvisit.cursor with hsame | hreached
    · rw [hsame]
      exact hst
    · exact hreached
  · exact fun _ _ _ => Nat.zero_le _

/-- Without purge markers the collection of purged queue ids has nothing to do. -/
theorem commit_collect_unpurged (req : RunPurgeQueueGarbageCollectionRequest)
    (h : ∀ q, s.purgeGCRecords.get q = none) :
    commit s now (.runPurgeQueueGarbageCollection req) = s := by
  have hempty : s.purgeGCRecords.entries = [] := by
    refine List.eq_nil_iff_forall_not_mem.mpr (fun e he => ?_)
    have hget := Table.mem_entries.mp he
    rw [h] at hget
    exact absurd hget (by simp)
  simp [commit, exec, runPurgeQueueGarbageCollection, hempty, drainRecords, Except.map]

omit [OrderedStore] in
theorem Op.kinds_unpurged {op : Op} (hp : op.purges = false) (hc : op.collectsPurged = false) :
    ∀ k ∈ op.kinds, k ∉ [EventKind.dropped, .purged] := by
  cases op with
  | purgeQueue => simp [Op.purges] at hp
  | runPurgeQueueGarbageCollection => simp [Op.collectsPurged] at hc
  | _ => simp [Op.kinds]

theorem commit_timed {past : Time} {c : Call} (h : Timed past s) (hpast : 0 ≤ past)
    (hle : past ≤ c.now) (hr : c.inRange) (hv : c.op.valid) (hp : c.op.purges = false)
    (hk : c.keepsReach s) : Timed c.now (commit s c.now c.op) := by
  have hnow : ∀ q, (s.getQueueState q).lastVisitedEnqueued.rank ≤ c.now.rank :=
    fun q => (h.cursor q).trans (Time.rank_le hpast hle)
  by_cases hcollect : c.op.collectsPurged
  · obtain ⟨now, op⟩ := c
    cases op with
    | runPurgeQueueGarbageCollection req =>
      rw [commit_collect_unpurged req h.unpurged]
      exact ⟨h.sound, hnow, h.unpurged⟩
    | _ => simp [Op.collectsPurged] at hcollect
  · have hcollect : c.op.collectsPurged = false := by simpa using hcollect
    have hclock := h.clock hpast hle hr
    refine ⟨commit_sound h.sound (fun _ => trivial) (fun _ => hv) (fun _ => hclock)
      (hk.safe hcollect hclock), ?_, ?_⟩
    · exact commit_keeps (I := fun s => ∀ q, (s.getQueueState q).lastVisitedEnqueued.rank ≤
        c.now.rank) hnow (exec_cursor hnow)
    · refine commit_keeps (I := fun s => ∀ q, s.purgeGCRecords.get q = none) h.unpurged ?_
      have hmade : Ensures True (exec s c.now c.op) _ :=
        exec_makes h.sound.indexed h.sound.heads h.sound.sequenced (fun _ => trivial)
          (fun _ => trivial) (fun _ => trivial)
      refine hmade.mono (fun a ha q => ?_)
      obtain ⟨es, hes, hc, _⟩ := ha
      have hsame : a.1.purgeGCRecords = s.purgeGCRecords :=
        hes.purgeGCRecords (fun e he => Op.kinds_unpurged hp hcollect _ (hc.kinds e he))
      rw [hsame]
      exact h.unpurged q

theorem run_timed (calls : List Call) (past : Time) (s : State) (h : Timed past s)
    (hpast : 0 ≤ past) (hle : ∀ c ∈ calls, past ≤ c.now)
    (hmono : calls.Pairwise (fun a b => a.now ≤ b.now))
    (hcalls : ∀ c ∈ calls, c.inRange ∧ c.op.valid ∧ c.op.purges = false)
    (hk : Along runStep Call.keepsReach s calls) : ∃ now, Timed now (run s calls) := by
  induction calls generalizing past s with
  | nil => exact ⟨past, h⟩
  | cons c calls ih =>
    obtain ⟨hr, hv, hp⟩ := hcalls c List.mem_cons_self
    obtain ⟨hfirst, hmono⟩ := List.pairwise_cons.mp hmono
    have hstep := commit_timed h hpast (hle c List.mem_cons_self) hr hv hp hk.1
    exact ih c.now _ hstep hr.1 hfirst hmono
      (fun d hd => hcalls d (List.mem_cons_of_mem _ hd)) (hk.tail rfl)

theorem Timed.empty : Timed 0 State.empty where
  sound := Sound.empty
  cursor q := by simp [State.getQueueState, State.empty, QueueState.zero]
  unpurged q := by simp [State.empty]

/-- In every run in which no step queues a task behind the cursor, no item of the
queue index is ever behind the cursor. -/
theorem run_reaches (calls : List Call) (hmono : calls.Pairwise (fun a b => a.now ≤ b.now))
    (hcalls : ∀ c ∈ calls, c.inRange ∧ c.op.valid ∧ c.op.purges = false)
    (hk : Along runStep Call.keepsReach State.empty calls) (q : QueueId) (i : IndexItem)
    (hi : i ∈ (run State.empty calls).queueIndex.items q) :
    ((run State.empty calls).getQueueState q).lastVisitedEnqueued ≤ i.time := by
  obtain ⟨now, h⟩ := run_timed calls 0 _ Timed.empty (by decide)
    (fun c hc => (hcalls c hc).1.1) hmono hcalls hk
  have hrank := h.sound.heads.queue_front trivial q i hi
  obtain ⟨t, row, _, htime⟩ := h.sound.heads.queueSound q i hi
  have hnonneg := (h.sound.paced trivial _ t row).1
  rw [htime] at hnonneg
  exact Time.le_of_rank hnonneg hrank

end Invariant

section Runs

def reportSucceeded (n : Nat) : ReportStatusRequest :=
  ⟨[⟨threadQueue.task n, 1, .succeeded, 60⟩], none⟩

/-- The head of a thread is worked and reported before the cursor passes the
member behind it. -/
def handoverRun : List Call :=
  [⟨5, .enqueue ⟨threadQueue, [threadEntry 10 [] [], threadEntry 20 [] []]⟩⟩,
    ⟨12, .dequeue dequeueAll⟩, ⟨15, .reportStatus (reportSucceeded 1)⟩,
    ⟨18, .runTasksGarbageCollection ⟨0, 0⟩⟩]

theorem run_reaches_handover : ∃ i ∈ (run State.empty handoverRun).queueIndex.items threadQueue,
    ((run State.empty handoverRun).getQueueState threadQueue).lastVisitedEnqueued ≤ i.time := by
  have hi : ⟨20, 2⟩ ∈ (run State.empty handoverRun).queueIndex.items threadQueue := by
    decide +kernel
  exact ⟨_, hi, run_reaches handoverRun (by decide +kernel) (by decide +kernel) (by decide +kernel)
    threadQueue _ hi⟩

/-- An empty poll moves the cursor past the member behind a leased head. -/
def strandingRun : List Call :=
  [⟨5, .enqueue ⟨threadQueue, [threadEntry 10 [] [], threadEntry 20 [] []]⟩⟩,
    ⟨30, .dequeue dequeueAll⟩, ⟨40, .dequeue dequeueAll⟩,
    ⟨45, .reportStatus (reportSucceeded 1)⟩]

/-- The report then queues that member behind the cursor. -/
theorem run_stranding_left_behind : strandingRun.Pairwise (fun a b => a.now ≤ b.now) ∧
    (∀ c ∈ strandingRun, c.inRange ∧ c.op.valid ∧ c.op.purges = false) ∧
    ∃ i ∈ (run State.empty strandingRun).queueIndex.items threadQueue,
      i.time < ((run State.empty strandingRun).getQueueState threadQueue).lastVisitedEnqueued :=
  ⟨by decide +kernel, by decide +kernel, ⟨20, 2⟩, by decide +kernel, by decide +kernel⟩

end Runs

end Moab
