import Moab.Tasks.ThreadOrder

namespace Moab

open OrderedStore

section Store

variable [OrderedStore]

variable {s s' : State} {t u : Task} {k : ThreadKey} {now : Time}

section Lapses

/-- A delivery that failed, may be retried, and was never counted. -/
def Task.Uncounted (t : Task) (now : Time) : Prop :=
  ¬t.expiresAt < now ∧ t.exhausted = false ∧ t.attempts < 1

/-- A lease that lapsed is of a delivery that was never counted. -/
def UncountedLapse (s : State) (q : QueueId) (now : Time) : Prop :=
  ∃ i ∈ timedOutItems s q now, ∃ u, s.tasks.get (q.task i.taskId) = some u ∧ u.Uncounted now

/-- Tasks that are worked are in different threads. -/
theorem Heads.leased_apart {c : Scope} (h : Heads c s) (rowt : s.tasks.get t.id = some t)
    (rowu : s.tasks.get u.id = some u) (statet : t.state = .inProgress)
    (stateu : u.state = .inProgress) (threaded : t.threadId ≠ [])
    (hkey : u.threadKey = t.threadKey) : u.id = t.id := by
  have hth : u.threadId = t.threadId := congrArg ThreadKey.threadId hkey
  obtain ⟨x, hx, hheadt⟩ := h.leased_head _ t rowt statet threaded
  obtain ⟨y, hy, hheadu⟩ := h.leased_head _ u rowu stateu (hth ▸ threaded)
  have hsame : s.threads.get t.threadKey = some y := by
    rw [← hkey]
    exact hy
  obtain rfl := Option.some.inj (hsame.symm.trans hx)
  exact hheadu.symm.trans hheadt

/-- Failures handled one after the other meet every thread as it was, since no two
of them are of one thread. -/
theorem handleFailures_strands {E : Prop} (dlqConfig : Option DeadLetterQueueConfig)
    (Q : Task → Strand → Prop) (l : List Task) (s : State) (h : Heads WellFormed.anyScope s)
    (hi : Indexed True s.rows) (hb : Batch s.rows l) (hl : ∀ u ∈ l, u.state = .inProgress)
    (hQ : ∀ u ∈ l, ∀ s1, Heads WellFormed.anyScope s1 → Indexed True s1.rows →
      s1.tasks.get u.id = some u →
        (u.threadId ≠ [] → s1.strand u.threadKey = s.strand u.threadKey) →
      Ensures E (handleTaskFailure s1 u now dlqConfig) (fun s2 => Local u.threadKey s1 s2 ∧
        (u.threadId ≠ [] → Q u (s2.strand u.threadKey)))) :
    Ensures E (l.foldlM (fun s t => handleTaskFailure s t now dlqConfig) s) (fun s' =>
      Heads WellFormed.anyScope s' ∧ Indexed True s'.rows ∧
      (∀ k, (∀ u ∈ l, u.threadKey ≠ k) → s'.strand k = s.strand k) ∧
      ∀ u ∈ l, u.threadId ≠ [] → Q u (s'.strand u.threadKey)) := by
  induction l generalizing s with
  | nil => exact Ensures.ok ⟨h, hi, fun _ _ => rfl, by simp⟩
  | cons t l ih =>
    obtain ⟨state, hrest⟩ := List.forall_mem_cons.mp hl
    -- a thread has one member that is worked
    have hother : ∀ u ∈ l, u.threadId ≠ [] ∨ t.threadId ≠ [] → u.threadKey ≠ t.threadKey := by
      intro u hu hne hkey
      have hth : u.threadId = t.threadId := congrArg ThreadKey.threadId hkey
      have threaded : t.threadId ≠ [] := by
        rcases hne with hne | hne
        · exact hth ▸ hne
        · exact hne
      exact hb.ne_head u hu (h.leased_apart hb.head (hb.row u (List.mem_cons_of_mem _ hu)) state
        (hrest u hu) threaded hkey)
    have hone := hQ t List.mem_cons_self s h hi hb.head (fun _ => rfl)
    have hheads := handleTaskFailure_heads now dlqConfig h hi hb.head state
      (fun hc => hc.elim) (fun hc => hc.elim)
    have hmade := (handleTaskFailure_makes now dlqConfig hi hb.head state).weaken
      (F := True) (fun _ => trivial)
    rw [List.foldlM_cons]
    refine ((hone.both hheads).both hmade).bind ?_
    intro s1 hs1
    obtain ⟨⟨⟨hlocal, hq⟩, hh1⟩, es, hes, hfail⟩ := hs1
    have hb1 : Batch s1.rows l := hfail.batch hes hb hrest
    have hstrand : ∀ u ∈ l, u.threadId ≠ [] → s1.strand u.threadKey = s.strand u.threadKey :=
      fun u hu hne => hlocal _ (hother u hu (Or.inl hne))
    refine (ih s1 hh1 (hi.steps hes) hb1 hrest ?_).mono ?_
    · intro u hu s2 hh2 hi2 row2 hsame
      exact hQ u (List.mem_cons_of_mem _ hu) s2 hh2 hi2 row2
        (fun hne => (hsame hne).trans (hstrand u hu hne))
    · intro s' hs'
      obtain ⟨hh', hi', haway, hdone⟩ := hs'
      refine ⟨hh', hi', ?_, ?_⟩
      · intro k hk
        rw [haway k (fun u hu => hk u (List.mem_cons_of_mem _ hu))]
        exact hlocal k (hk t List.mem_cons_self).symm
      · intro u hu hne
        rcases List.mem_cons.mp hu with he | hu
        · subst he
          rw [haway u.threadKey (fun v hv => hother v hv (Or.inr hne))]
          exact hq hne
        · exact hdone u hu hne

/-- The leases that lapsed, each in the thread it was given out for. -/
theorem dequeueInProgressTasksBeforeTime_strands {E : Prop} {q : QueueId}
    (dlqConfig : Option DeadLetterQueueConfig) (Q : Task → Strand → Prop)
    (h : Heads WellFormed.anyScope s) (hi : Indexed True s.rows)
    (hQ : ∀ i ∈ timedOutItems s q now, ∀ u, s.tasks.get (q.task i.taskId) = some u →
      u.state = .inProgress → ∀ s1, Heads WellFormed.anyScope s1 → Indexed True s1.rows →
      s1.tasks.get u.id = some u →
        (u.threadId ≠ [] → s1.strand u.threadKey = s.strand u.threadKey) →
      Ensures E (handleTaskFailure s1 u now dlqConfig) (fun s2 => Local u.threadKey s1 s2 ∧
        (u.threadId ≠ [] → Q u (s2.strand u.threadKey)))) :
    Ensures E (dequeueInProgressTasksBeforeTime s q now dlqConfig) (fun s' =>
      Heads WellFormed.anyScope s' ∧ Indexed True s'.rows ∧
      (∀ k, (∀ i ∈ timedOutItems s q now, ∀ u, s.tasks.get (q.task i.taskId) = some u →
        u.threadKey ≠ k) → s'.strand k = s.strand k) ∧
      ∀ i ∈ timedOutItems s q now, ∀ u, s.tasks.get (q.task i.taskId) = some u → u.threadId ≠ [] →
        Q u (s'.strand u.threadKey)) := by
  obtain ⟨l, hl, hb, hm, hrow⟩ := timedOutTasks s q now hi
  unfold dequeueInProgressTasksBeforeTime
  dsimp only
  rw [hl]
  change Ensures E (l.foldlM (fun s t => handleTaskFailure s t now dlqConfig) _) _
  generalize hs0 : s.setQueueState q _ = s0
  have hsame : SameHeads s s0 := by
    rw [← hs0]
    exact ⟨rfl, rfl, rfl, rfl⟩
  have hi0 : Indexed True s0.rows := by
    rw [← hs0]
    exact hi.step (setQueueState_step s q _ rfl)
  have hb0 : Batch s0.rows l := by
    rw [← hs0]
    exact ⟨hb.row, hb.nodup⟩
  refine (handleFailures_strands dlqConfig Q l s0 (h.same hsame) hi0 hb0
    (fun u hu => (hrow u hu).1) ?_).mono ?_
  · intro u hu s1 hh1 hi1 row1 hstrand
    obtain ⟨i, hitem, hiu⟩ := hm u hu
    refine hQ i hitem u hiu (hrow u hu).1 s1 hh1 hi1 row1 (fun hne => ?_)
    rw [hstrand hne, hsame.strand]
  · intro s' hs'
    obtain ⟨hh', hi', haway, hdone⟩ := hs'
    refine ⟨hh', hi', ?_, ?_⟩
    · intro k hk
      rw [haway k ?_, hsame.strand]
      intro u hu
      obtain ⟨i, hitem, hiu⟩ := hm u hu
      exact hk i hitem u hiu
    · intro i hitem u hiu hne
      exact hdone u ((mem_mapM_getTask hl).mpr ⟨i, hitem, hiu⟩) hne

end Lapses

section Retries

variable {interval : Time}

/-- Nobody of the thread is worked: the least member is the head, and it is the only
one in the queue index. -/
structure Strand.Waits (x : Strand) : Prop extends Ordered x where
  idle : ∀ n u, x.row n = some u → u.state = .enqueued

omit [OrderedStore] in
theorem Strand.Ordered.whole {x : Strand} (h : x.Ordered) : x.Whole where
  recorded := h.recorded
  member := h.member
  head thread hr := by
    obtain ⟨t, ht, hid, _⟩ := h.head thread hr
    exact ⟨t, ht, hid⟩
  queued thread t hr ht state := by
    obtain ⟨u, hu, _, _, _, _, hqueued⟩ := h.head thread hr
    obtain rfl := Option.some.inj (hu.symm.trans ht)
    exact (hqueued _).mpr ⟨state, rfl⟩

/-- What a retry makes of the thread of the task that failed. -/
structure Rejoins (s : State) (t : Task) (now interval : Time) (x : Strand) : Prop where
  row : x.row t.id.taskId = some (t.retry now interval)
  idle : ∀ n u, x.row n = some u → u.state = .enqueued
  sound : x.Whole ∧ x.Led ↔ ¬Stalls s t (plusSeconds now interval)

theorem Stalls.congr {time : Time} (h : s'.strand t.threadKey = s.strand t.threadKey) :
    Stalls s' t time ↔ Stalls s t time := by
  have hmembers : s'.threadedTasksIndex.items t.threadKey =
      s.threadedTasksIndex.items t.threadKey :=
    congrArg Strand.members h
  constructor
  · intro hs
    exact ⟨hs.same, hmembers ▸ hs.first⟩
  · intro hs
    exact ⟨hs.same, hmembers.symm ▸ hs.first⟩

theorem handleTaskFailure_rejoins (dlqConfig : Option DeadLetterQueueConfig)
    (h : Heads WellFormed.anyScope s) (row : s.tasks.get t.id = some t)
    (state : t.state = .inProgress) (threaded : t.threadId ≠ [])
    (hw : (s.strand t.threadKey).Whole) (unexpired : ¬t.expiresAt < now)
    (retries : t.exhausted = false) (hint : retryInterval t = .ok interval) :
    Ensures False (handleTaskFailure s t now dlqConfig) (fun s' => Local t.threadKey s s' ∧
      Rejoins s t now interval (s'.strand t.threadKey)) := by
  unfold handleTaskFailure
  rw [if_neg unexpired, if_neg (by simp [retries])]
  refine (failTaskToRetry_strands now h row state (fun _ => hw) hint (fun hc => hc)).mono ?_
  intro s' hs'
  obtain ⟨htasks, hlocal, hgood, hbad⟩ := hs'
  have hself : s'.tasks.get t.id = some (t.retry now interval) := by
    rw [htasks]
    exact Table.get_set_self ..
  refine ⟨hlocal, ⟨liveRow_eq_some.mpr ⟨hself, rfl, rfl⟩, ?_, ⟨?_, hgood threaded⟩⟩⟩
  · intro n u hu
    obtain ⟨hrow, hlive, hth⟩ := liveRow_eq_some.mp hu
    by_cases he : t.threadKey.queue.task n = t.id
    · rw [he, hself] at hrow
      rw [← Option.some.inj hrow]
      rfl
    · rw [htasks, Table.get_set_ne _ _ he] at hrow
      have hid := h.keyed _ u hrow
      -- another member that is worked would be the head as well
      have hidle : u.state ≠ .inProgress := by
        intro hst
        refine he (hid.symm.trans (h.leased_apart row (hid.symm ▸ hrow) state hst threaded ?_))
        rw [Task.threadKey, hid, hth]
        rfl
      have hor : u.state = .enqueued ∨ u.state = .inProgress := by simpa [Task.live] using hlive
      exact hor.resolve_right hidle
  · intro hwhole hs
    exact hbad threaded hs hwhole.1

/-- Once a failure of the head of a thread is handled, by a report or because the
lease lapsed, the task waits for its retry and the least member is the head and the
only one in the queue index, exactly when the retry is not for the time the head had
before while no member is earlier. -/
theorem failed_head_recompetes_iff (h : WellFormed s) (hr : RecordsExact s)
    (row : s.tasks.get t.id = some t) (state : t.state = .inProgress) (threaded : t.threadId ≠ [])
    (unexpired : ¬t.expiresAt < now) (retries : t.exhausted = false)
    (hint : retryInterval t = .ok interval) (dlqConfig : Option DeadLetterQueueConfig) :
    (∀ keepalive, Ensures False (reportStatus s t.id now .failed t.attempts keepalive dlqConfig)
      (fun a => a.1.tasks.get t.id = some (t.retry now interval) ∧
        (a.1.strand t.threadKey).Waits ↔ ¬Stalls s t (plusSeconds now interval))) ∧
    ∀ i ∈ timedOutItems s t.id.queue now, i.taskId = t.id.taskId →
      Ensures (UncountedLapse s t.id.queue now)
        (dequeueInProgressTasksBeforeTime s t.id.queue now dlqConfig)
        (fun s' => s'.tasks.get t.id = some (t.retry now interval) ∧
          (s'.strand t.threadKey).Waits ↔ ¬Stalls s t (plusSeconds now interval)) := by
  have hc := h.coherent hr
  have hw := hc.whole t.threadKey threaded
  have hdone : ∀ s', Heads WellFormed.anyScope s' →
      Rejoins s t now interval (s'.strand t.threadKey) →
      (s'.tasks.get t.id = some (t.retry now interval) ∧ (s'.strand t.threadKey).Waits ↔
        ¬Stalls s t (plusSeconds now interval)) := by
    intro s' hh' hrejoins
    constructor
    · intro hwaits
      exact hrejoins.sound.mp ⟨hwaits.2.toOrdered.whole, hwaits.2.toOrdered.led⟩
    · intro hs
      obtain ⟨hwhole, hled⟩ := hrejoins.sound.mpr hs
      exact ⟨(liveRow_eq_some.mp hrejoins.row).1, hh'.ordered threaded hwhole hled, hrejoins.idle⟩
  constructor
  · intro keepalive
    have hheads := handleTaskFailure_heads now dlqConfig hc.heads hc.indexed row state
      (fun hc => hc.elim) (fun hc => hc.elim)
    unfold reportStatus
    rw [row]
    dsimp only
    rw [if_neg (not_not.mpr state), if_neg (not_not.mpr rfl)]
    refine ((handleTaskFailure_rejoins dlqConfig hc.heads row state threaded hw unexpired retries
      hint).both hheads).bind ?_
    intro s' hs'
    exact Ensures.ok (hdone s' hs'.2 hs'.1.2)
  · intro i hi hnum
    have hrow : s.tasks.get (t.id.queue.task i.taskId) = some t := by
      rw [hnum]
      exact row
    refine (dequeueInProgressTasksBeforeTime_strands dlqConfig
      (fun u x => u = t → Rejoins s t now interval x) hc.heads hc.indexed ?_).mono ?_
    · intro j hj u hu stateu s1 hh1 hi1 row1 hstrand
      by_cases he : u = t
      · subst he
        refine ((handleTaskFailure_rejoins dlqConfig hh1 row1 state threaded ?_ unexpired retries
          hint).weaken False.elim).mono ?_
        · rw [hstrand threaded]
          exact hw
        · intro s2 hs2
          obtain ⟨hlocal, hrejoins⟩ := hs2
          refine ⟨hlocal, fun _ _ => ⟨hrejoins.row, hrejoins.idle, ?_⟩⟩
          rw [hrejoins.sound, Stalls.congr (hstrand threaded)]
      · refine ((handleTaskFailure_strands now dlqConfig hh1 hi1 row1 stateu ?_
          (fun hc => hc)).weaken ?_).mono ?_
        · intro hne
          rw [hstrand hne]
          exact hc.whole _ hne
        · intro huncounted
          exact ⟨j, hj, u, hu, huncounted⟩
        · intro s2 hs2
          exact ⟨hs2.away, fun _ heq => absurd heq he⟩
    · intro s' hs'
      exact hdone s' hs'.1 (hs'.2.2.2 i hi t hrow threaded rfl)

end Retries

end Store

section Runs

/-- A task that may be retried once, at once. -/
def retryingEntry : EnqueueRequestEntry := ⟨[], 5, 1000, [], some ⟨[0]⟩, [], [7]⟩

def retryingTask : Task := (newTask threadQueue 1 retryingEntry 5).lease 5 60

def retryingRun : List Call :=
  [⟨5, .enqueue ⟨threadQueue, [retryingEntry]⟩⟩, ⟨5, .dequeue dequeueAll⟩]

def failRetrying (now : Time) : Call :=
  ⟨now, .reportStatus ⟨[⟨threadQueue.task 1, 1, .failed, 60⟩], none⟩⟩

theorem retryingRun_wellFormed : WellFormed (run State.empty retryingRun) :=
  run_wellFormed (by decide +kernel) (by decide +kernel) (by decide +kernel)

theorem retryingRun_recordsExact : RecordsExact (run State.empty retryingRun) := by
  decide +kernel

/-- The task fails some time after it was handed out. -/
theorem failed_head_recompetes_later :
    Ensures False (reportStatus (run State.empty retryingRun) retryingTask.id 50 .failed
      retryingTask.attempts 60 none) (fun a =>
        a.1.tasks.get retryingTask.id = some (retryingTask.retry 50 0) ∧
        (a.1.strand retryingTask.threadKey).Waits) := by
  have row : (run State.empty retryingRun).tasks.get retryingTask.id = some retryingTask := by
    decide +kernel
  have unexpired : ¬retryingTask.expiresAt < (50 : Time) := by decide
  have hint : retryInterval retryingTask = .ok 0 := rfl
  have hiff := (failed_head_recompetes_iff retryingRun_wellFormed retryingRun_recordsExact row rfl
    (by decide) unexpired rfl hint none).1 60
  refine hiff.mono (fun a ha => ha.mpr (fun hs => ?_))
  exact absurd hs.same (by decide)

/-- It fails in the same nanosecond: it waits, and the queue index is empty. -/
theorem failed_head_lost :
    WellFormed (run State.empty retryingRun) ∧ RecordsExact (run State.empty retryingRun) ∧
    (run State.empty retryingRun).tasks.get (threadQueue.task 1) = some retryingTask ∧
    (run State.empty (retryingRun ++ [failRetrying 5])).tasks.get (threadQueue.task 1) =
      some (retryingTask.retry 5 0) ∧
    (run State.empty (retryingRun ++ [failRetrying 5])).queueIndex.items threadQueue = [] :=
  ⟨retryingRun_wellFormed, retryingRun_recordsExact, by decide +kernel, by decide +kernel,
    by decide +kernel⟩

end Runs

end Moab
