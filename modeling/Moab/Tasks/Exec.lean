import Moab.Tasks.HeadCalls

namespace Moab

open OrderedStore

variable [OrderedStore]

variable {th : Prop}

section Sequence

/-- No task has an id beyond the sequence of its queue. -/
def Sequenced (r : Rows) : Prop :=
  ∀ id t, r.tasks.get id = some t → id.taskId ≤ sequenceOf r.queueState id.queue

theorem Sequenced.empty : Sequenced State.empty.rows := by
  intro id t ht
  simp [State.rows, State.empty] at ht

theorem Sequenced.below {r : Rows} (h : Sequenced r) (q : QueueId) :
    Below q (sequenceOf r.queueState q) r := by
  intro id t ht hq
  exact hq ▸ h id t ht

/-- Only Enqueue gives ids out. -/
theorem Step.sequenced {r r' : Rows} {e : Event} (hs : Step th r e r') (hc : e.kind ≠ .created)
    (hn : e.kind ≠ .sequenced) (h : Sequenced r) : Sequenced r' := by
  intro id t ht
  obtain ⟨v, hv, _⟩ := hs.origin hc ht
  have hle := h id v hv
  cases hs with
  | create => simp [Event.kind] at hc
  | sequence => simp [Event.kind] at hn
  | tune queueState _ same =>
    change id.taskId ≤ sequenceOf queueState id.queue
    rw [same]
    exact hle
  | drop empty =>
    change id.taskId ≤ sequenceOf (r.queueState.delete _) id.queue
    unfold sequenceOf
    rw [Table.get_delete_ne _ (empty id v hv)]
    exact hle
  | _ => exact hle

theorem Steps.sequenced {r r' : Rows} {es : List Event} (hs : Steps th r es r')
    (hn : ∀ e ∈ es, e.kind ≠ .created ∧ e.kind ≠ .sequenced) (h : Sequenced r) : Sequenced r' :=
  Trace.invariant_of hs (fun e he _ _ hi hl => hl.sequenced (hn e he).1 (hn e he).2 hi) h

/-- Most events write no queue state. -/
theorem Steps.queueState {r r' : Rows} {es : List Event} (hs : Steps th r es r')
    (hn : ∀ e ∈ es, e.kind ∉ [EventKind.dropped, .sequenced, .tuned]) :
    r'.queueState = r.queueState := by
  refine Trace.invariant_of (I := fun x => x.queueState = r.queueState) hs ?_ rfl
  intro e he a b ha hab
  have hl := hn e he
  cases hab with
  | drop | sequence | tune => simp [Event.kind] at hl
  | _ => exact ha

/-- Only a purge and its completion write the purge markers. -/
theorem Steps.purgeGCRecords {r r' : Rows} {es : List Event} (hs : Steps th r es r')
    (hn : ∀ e ∈ es, e.kind ∉ [EventKind.dropped, .purged]) :
    r'.purgeGCRecords = r.purgeGCRecords := by
  refine Trace.invariant_of (I := fun x => x.purgeGCRecords = r.purgeGCRecords) hs ?_ rfl
  intro e he a b ha hab
  have hl := hn e he
  cases hab with
  | drop | purge => simp [Event.kind] at hl
  | _ => exact ha

end Sequence

section Enqueue

/-- Enqueue adds rows to its own queue only. -/
theorem Enqueues.origin {q : QueueId} {now : Time}
    {entries : List EnqueueRequestEntry} {lo hi : Nat} {es : List Event} {r r' : Rows}
    (h : Enqueues q now entries lo hi es) (hs : Steps th r es r') {id : TaskId} (hq : id.queue ≠ q)
    {t : Task} (ht : r'.tasks.get id = some t) : ∃ v, r.tasks.get id = some v := by
  have hkeep : ∀ t, r'.tasks.get id = some t → ∃ v, r.tasks.get id = some v := by
    refine Trace.invariant_of (I := fun x => ∀ t, x.tasks.get id = some t →
      ∃ v, r.tasks.get id = some v) hs ?_ (fun t ht => ⟨t, ht⟩)
    intro e he a b ha hab t ht
    obtain ⟨e', _, ⟨u, u', rfl, _⟩ | ⟨n, rfl, _⟩⟩ := h e he
    · obtain ⟨v, hv, _⟩ := hab.origin (by simp [Event.kind]) ht
      exact ha v hv
    · have hne : (Event.created (newTask q n e' now)).task ≠ some id := by
        intro he
        exact hq (congrArg TaskId.queue (Option.some.inj he)).symm
      rw [hab.frame hne] at ht
      exact ha t ht
  exact hkeep t ht

/-- Enqueue refuses a purged queue id, or it works through its entries and writes
the sequence back. -/
theorem enqueue_makes {s : State} {now : Time} {req : EnqueueRequest} (h : Indexed th s.rows)
    (hseq : Sequenced s.rows) (hth : ∀ e ∈ req.entries, e.threadId ≠ [] → th) :
    Ensures th (enqueue s now req) (fun a =>
      (∃ err, a.2 = .error err ∧ a.1 = s) ∨
      ∃ ts n es, a.2 = .ok ts ∧ sequenceOf s.queueState req.queueId ≤ n ∧
        Enqueues req.queueId now req.entries (sequenceOf s.queueState req.queueId) n es ∧
        Steps th s.rows (es ++ [.sequenced req.queueId n]) a.1.rows ∧ Sequenced a.1.rows) := by
  unfold enqueue
  cases hp : checkQueueNotPurged s req.queueId with
  | some err => exact Ensures.ok (Or.inl ⟨err, rfl, rfl⟩)
  | none =>
    refine (enqueueEntries_makes req.entries s _ h (hseq.below req.queueId) hth).bind
      (fun a ha => Ensures.ok (Or.inr ?_))
    obtain ⟨hle, hbelow, es, hes, henq⟩ := ha
    refine ⟨a.2.2, a.2.1, es, rfl, hle, henq, hes.append (.single ?_), ?_⟩
    · exact Step.sequence { s.getQueueState req.queueId with taskIdSequence := a.2.1 }
    · -- the rows of other queues are untouched and keep their sequence
      have hstate : a.1.rows.queueState = s.rows.queueState := by
        refine hes.queueState (fun e he => ?_)
        obtain ⟨_, _, ⟨t, t', rfl, _⟩ | ⟨n, rfl, _⟩⟩ := henq e he
        · simp [Event.kind]
        · simp [Event.kind]
      intro id t ht
      change id.taskId ≤ sequenceOf (a.1.queueState.set req.queueId _) id.queue
      unfold sequenceOf
      by_cases hq : id.queue = req.queueId
      · rw [hq, Table.get_set_self]
        exact hbelow id t ht hq
      · rw [Table.get_set_ne _ _ hq, show a.1.queueState = s.queueState from hstate]
        obtain ⟨v, hv⟩ := henq.origin hes hq ht
        exact hseq id v hv

end Enqueue

section Dequeue

/-- The refill interval of a rate limited queue is positive. -/
def Refills (settings : Option DequeuingSettings) : Prop :=
  ∀ r, rateLimitingOf settings = some r → ∃ i, getRefillInterval r = .ok i ∧ i ≠ 0

theorem rateLimiterFor_returns {s : State} {req : DequeueRequest} {now : Time}
    (h : Refills req.dequeuingSettings) :
    Ensures False (rateLimiterFor s req now) (fun _ => True) := by
  unfold rateLimiterFor
  cases hr : rateLimitingOf req.dequeuingSettings with
  | none => exact Ensures.ok trivial
  | some r =>
    obtain ⟨i, hi, hne⟩ := h r hr
    refine Ensures.bind (P := fun _ => True) ?_ (fun _ _ => Ensures.ok trivial)
    unfold refillTokens
    rw [hi]
    refine Ensures.ite (fun _ => ?_) (fun _ => Ensures.ok trivial)
    refine Ensures.bind (P := fun _ => True) ?_ (fun n _ => ?_)
    · unfold divide
      rw [if_neg hne]
      exact Ensures.ok trivial
    · exact Ensures.ite (fun _ => Ensures.ite (fun _ => Ensures.ok trivial)
        (fun _ => Ensures.ok trivial)) (fun _ => Ensures.ok trivial)

theorem chargeLimiter_step (s : State) (q : QueueId) (limiter : Option RateLimiterState) (n : Nat) :
    Step th s.rows .tuned (chargeLimiter s q limiter n).rows := by
  unfold chargeLimiter
  cases limiter with
  | none => exact Step.tune s.queueState s.rateLimiters (fun _ => rfl)
  | some st =>
    exact Step.tune s.queueState
      (s.rateLimiters.set q { st with tokens := st.tokens - Int64.ofNat n }) (fun _ => rfl)

/-- A Dequeue that is not refused is the Dequeue past the purge check. -/
theorem dequeue_ok {s s' : State} {now : Time} {req : DequeueRequest} {ts : List Task}
    (h : dequeue s now req = .ok (s', .ok ts)) : dequeueTasks s now req = .ok (s', ts) := by
  unfold dequeue at h
  cases hp : checkQueueNotPurged s req.queueId with
  | some err => simp [hp] at h
  | none =>
    cases hx : dequeueTasks s now req with
    | error e => simp [hp, hx, bind, Except.bind] at h
    | ok a =>
      simp only [hp, hx, bind, Except.bind, Except.ok.injEq, Prod.mk.injEq] at h
      obtain ⟨rfl, rfl⟩ := h
      rfl

/-- The threads without the order of their members. -/
def Scope.plain (c : Scope) : Scope := { c with tracked := False }

theorem Heads.plain {c : Scope} {s : State} (h : Heads c s) : Heads c.plain s :=
  h.rescope (fun ht => ht) (fun _ hu => hu) False.elim False.elim False.elim

/-- Dequeue past the purge check: lapsed leases are failed, and then tasks that
are enqueued are handed out. -/
theorem dequeueTasks_makes {c : Scope} {E : Prop} {s : State} {now : Time} {req : DequeueRequest}
    (h : Indexed th s.rows) (hh : Heads c s) (hE : th → E)
    (hr : ¬Refills req.dequeuingSettings → E) :
    Ensures E (dequeueTasks s now req) (fun a => ∃ mid es ts fs,
      dequeueInProgressTasksBeforeTime s req.queueId now req.deadLetterQueueConfig = .ok mid ∧
      Steps th s.rows es mid.rows ∧ Lapses req.queueId now es ∧
      Batch mid.rows ts ∧ (∀ t ∈ ts, t.state = .enqueued ∧ t.id.queue = req.queueId) ∧
      a.2 = (ts.filter (fun t => !t.overdue now)).map (·.lease now req.keepaliveTimeoutInSeconds) ∧
      HandsOut req.queueId now req.keepaliveTimeoutInSeconds ts fs ∧
      Steps th mid.rows (fs ++ [.tuned]) a.1.rows) := by
  unfold dequeueTasks
  refine Ensures.bind (P := fun _ => True) ?_ (fun limiter _ => ?_)
  · by_cases hrefill : Refills req.dequeuingSettings
    · exact (rateLimiterFor_returns hrefill).weaken False.elim
    · exact Ensures.of_eq (fun _ _ => trivial) (fun _ _ => hr hrefill)
  have hheads : Ensures True (dequeueInProgressTasksBeforeTime s req.queueId now
      req.deadLetterQueueConfig) (Heads c.plain) :=
    dequeueInProgressTasksBeforeTime_heads _ hh.plain h False.elim False.elim
  refine (((dequeueInProgressTasksBeforeTime_makes h).weaken hE).both hheads).self.bind
    (fun mid hmid => ?_)
  obtain ⟨hok, ⟨es, hes, hl⟩, hheads⟩ := hmid
  refine ((dequeueTasksBeforeTime_makes (h.steps hes) hheads.queueSound).weaken False.elim).bind
    (fun a ha => Ensures.ok ?_)
  obtain ⟨ts, hb, hts, hres, fs, hfs, hout⟩ := ha
  exact ⟨mid, es, ts, fs, hok, hes, hl, hb, hts, hres, hout,
    hfs.append (.single (chargeLimiter_step a.1 _ limiter _))⟩

end Dequeue

section Exec

/-- What a call does to the rows, and how that shows in its response. -/
inductive Caused (now : Time) : Op → Response → List Event → Prop where
  | refusedEnqueue {req : EnqueueRequest} (err : TasksError) :
    Caused now (.enqueue req) (.enqueue (.error err)) []
  | refusedDequeue {req : DequeueRequest} (err : TasksError) :
    Caused now (.dequeue req) (.dequeue (.error err)) []
  | enqueue {req : EnqueueRequest} {ts : List Task} {lo hi : Nat} {es : List Event}
    (h : Enqueues req.queueId now req.entries lo hi es) :
    Caused now (.enqueue req) (.enqueue (.ok ts)) (es ++ [.sequenced req.queueId hi])
  | dequeue {req : DequeueRequest} {ts : List Task} {es fs : List Event}
    (lapses : Lapses req.queueId now es)
    (waited : ∀ t ∈ ts, t.state = .enqueued ∧ t.id.queue = req.queueId)
    (hands : HandsOut req.queueId now req.keepaliveTimeoutInSeconds ts fs) :
    Caused now (.dequeue req) (.dequeue (.ok ((ts.filter (fun t => !t.overdue now)).map
      (·.lease now req.keepaliveTimeoutInSeconds)))) (es ++ (fs ++ [.tuned]))
  | reportStatus {req : ReportStatusRequest} {rs : List ReportStatusResponseEntry} {es : List Event}
    (h : ReportedAll now req.entries rs es) : Caused now (.reportStatus req) (.reportStatus rs) es
  | deleteTasks {req : DeleteTasksRequest} {es : List Event}
    (h : Deletes req.queueId req.taskIds es) : Caused now (.deleteTasks req) .done es
  | restartTasks {req : RestartTasksRequest} {rs : List RestartTasksResponseEntry} {es : List Event}
    (h : Restarts req.queueId now req.entries es) : Caused now (.restartTasks req)
    (.restartTasks rs) es
  | purgeQueue {q : QueueId} : Caused now (.purgeQueue q) .done [.purged q]
  | runTasksGarbageCollection {req : RunTasksGarbageCollectionRequest} {es : List Event}
    (h : Sweeps now es) : Caused now (.runTasksGarbageCollection req) .done es
  | runPurgeQueueGarbageCollection {req : RunPurgeQueueGarbageCollectionRequest} {qs : List QueueId}
    {es : List Event} (h : Purges qs es) :
    Caused now (.runPurgeQueueGarbageCollection req) .done es

/-- The threads an operation may bring in. -/
def Op.threaded : Op → Prop
  | .enqueue req => ∃ e ∈ req.entries, e.threadId ≠ []
  | _ => False

/-- Rate limiting, where an operation has it, refills. -/
def Op.refills : Op → Prop
  | .dequeue req => Refills req.dequeuingSettings
  | _ => True

/-- The call marks a queue id as purged. -/
def Op.purges : Op → Bool
  | .purgeQueue _ => true
  | _ => false

/-- The call collects the rows of purged queue ids. -/
def Op.collectsPurged : Op → Bool
  | .runPurgeQueueGarbageCollection _ => true
  | _ => false

variable {c : Scope} {E : Prop} {s : State} {now : Time} {op : Op}

/-- The kinds of events an operation can cause. -/
def Op.kinds : Op → List EventKind
  | .enqueue _ => [.created, .overwritten, .sequenced]
  | .dequeue _ => [.tuned, .deleted, .retried, .died, .charged, .expired, .leased]
  | .reportStatus _ => [.renewed, .deleted, .retried, .died]
  | .deleteTasks _ => [.deleted]
  | .restartTasks _ => [.restarted]
  | .purgeQueue _ => [.purged]
  | .runTasksGarbageCollection _ => [.deleted]
  | .runPurgeQueueGarbageCollection _ => [.deleted, .dropped]

omit [OrderedStore] in
theorem Failed.kinds {t : Task} {es : List Event} (h : Failed t now es) :
    ∀ e ∈ es, e.kind ∈ [EventKind.deleted, .retried, .died] := by
  cases h with
  | expired | dropped | retried => simp [Event.kind]
  | died _ dlq hev =>
    obtain ⟨l, rfl, _⟩ := hev
    refine List.forall_mem_cons.mpr ⟨by simp [Event.kind], fun e he => ?_⟩
    obtain ⟨u, _, rfl⟩ := List.mem_map.mp he
    simp [Event.kind]

omit [OrderedStore] in
theorem Reported.kinds {t : Task} {status : ReportStatus} {es : List Event}
    (h : Reported now t status es) :
    ∀ e ∈ es, e.kind ∈ [EventKind.renewed, .deleted, .retried, .died] := by
  cases h with
  | renewed => simp [Event.kind]
  | failed hf => exact fun e he => List.mem_cons_of_mem _ (hf.kinds e he)
  | succeeded => simp [Event.kind]

omit [OrderedStore] in
theorem Lapses.kinds {q : QueueId} {es : List Event} (h : Lapses q now es) :
    ∀ e ∈ es, e.kind ∈ [EventKind.tuned, .deleted, .retried, .died] := by
  obtain ⟨l, es, rfl, hl, _⟩ := h
  refine List.forall_mem_cons.mpr ⟨by simp [Event.kind], hl.all (fun _ _ _ hf e he => ?_)⟩
  exact List.mem_cons_of_mem _ (hf.kinds e he)

omit [OrderedStore] in
theorem HandsOut.kinds {q : QueueId} {keepalive : Time} {ts : List Task} {es : List Event}
    (h : HandsOut q now keepalive ts es) :
    ∀ e ∈ es, e.kind ∈ [EventKind.tuned, .charged, .expired, .leased] := by
  intro e he
  rw [h] at he
  simp only [List.mem_cons, List.mem_append, List.mem_map] at he
  rcases he with rfl | rfl | ⟨t, _, rfl⟩ | ⟨t, _, rfl⟩ <;> simp [Event.kind]

omit [OrderedStore] in
theorem Caused.kinds {r : Response} {es : List Event} (h : Caused now op r es) :
    ∀ e ∈ es, e.kind ∈ op.kinds := by
  cases h with
  | refusedEnqueue => simp
  | refusedDequeue => simp
  | enqueue h =>
    refine List.forall_mem_append.mpr ⟨fun e he => ?_, by simp [Event.kind, Op.kinds]⟩
    obtain ⟨_, _, ⟨t, t', rfl, _⟩ | ⟨n, rfl, _⟩⟩ := h e he
    · simp [Event.kind, Op.kinds]
    · simp [Event.kind, Op.kinds]
  | dequeue lapses _ hands =>
    rename_i req _ _ _ _
    have hsub : ∀ k ∈ [EventKind.tuned, .deleted, .retried, .died] ++
        [EventKind.tuned, .charged, .expired, .leased], k ∈ Op.kinds (.dequeue req) := by
      simp [Op.kinds]
    refine List.forall_mem_append.mpr ⟨fun e he => ?_, List.forall_mem_append.mpr
      ⟨fun e he => ?_, by simp [Event.kind, Op.kinds]⟩⟩
    · exact hsub _ (List.mem_append_left _ (lapses.kinds e he))
    · exact hsub _ (List.mem_append_right _ (hands.kinds e he))
  | reportStatus h => exact h.all (fun _ _ _ hr => hr.kinds)
  | deleteTasks h | runTasksGarbageCollection h =>
    intro e he
    obtain ⟨t, rfl, _⟩ := h e he
    simp [Event.kind, Op.kinds]
  | restartTasks h =>
    intro e he
    obtain ⟨_, _, t, rfl, _⟩ := h e he
    simp [Event.kind, Op.kinds]
  | purgeQueue => simp [Event.kind, Op.kinds]
  | runPurgeQueueGarbageCollection h =>
    intro e he
    rcases h e he with ⟨t, rfl, _⟩ | ⟨q, _, rfl⟩ <;> simp [Event.kind, Op.kinds]

/-- Every call is a path of row changes. It fails only where E allows it: on a
threaded task, or for a rate limit that does not refill. -/
theorem exec_makes (h : Indexed th s.rows) (hh : Heads c s) (hseq : Sequenced s.rows)
    (hth : op.threaded → th) (hE : th → E) (hr : ¬op.refills → E) :
    Ensures E (exec s now op) (fun a => ∃ es, Steps th s.rows es a.1.rows ∧ Caused now op a.2 es ∧
      Sequenced a.1.rows) := by
  have keep : ∀ {s' : State} {r : Response} {es : List Event}, Steps th s.rows es s'.rows →
      Caused now op r es → .created ∉ op.kinds ∧ .sequenced ∉ op.kinds →
      ∃ es, Steps th s.rows es s'.rows ∧ Caused now op r es ∧ Sequenced s'.rows := by
    intro s' r es hes hc hk
    refine ⟨es, hes, hc, hes.sequenced (fun e he => ⟨fun hcr => hk.1 ?_, fun hsq => hk.2 ?_⟩) hseq⟩
    · exact hcr ▸ hc.kinds e he
    · exact hsq ▸ hc.kinds e he
  cases op with
  | enqueue req =>
    refine Ensures.map (((enqueue_makes h hseq (fun e he hn => hth ⟨e, he, hn⟩)).weaken hE).mono ?_)
    intro a ha
    rcases ha with ⟨err, hres, hs⟩ | ⟨ts, n, es, hres, _, henq, hes, hseq'⟩
    · rw [hres, hs]
      exact ⟨[], .nil _, .refusedEnqueue err, hseq⟩
    · rw [hres]
      exact ⟨_, hes, .enqueue henq, hseq'⟩
  | dequeue req =>
    refine Ensures.map ?_
    unfold dequeue
    cases hp : checkQueueNotPurged s req.queueId with
    | some err => exact Ensures.ok ⟨[], .nil _, .refusedDequeue err, hseq⟩
    | none =>
      refine (dequeueTasks_makes h hh hE hr).bind (fun a ha => Ensures.ok ?_)
      obtain ⟨mid, es, ts, fs, _, hes, hl, _, hts, hres, hout, hfs⟩ := ha
      rw [hres]
      exact keep (hes.append hfs) (.dequeue hl hts hout) (by simp [Op.kinds])
  | reportStatus req =>
    refine Ensures.map (((reportEntries_makes req.entries s h).weaken hE).mono (fun a ha => ?_))
    obtain ⟨es, hes, hrep⟩ := ha
    exact keep hes (.reportStatus hrep) (by simp [Op.kinds])
  | deleteTasks req =>
    refine Ensures.map (((deleteTasks_makes h).weaken hE).mono (fun a ha => ?_))
    obtain ⟨es, hes, hdel⟩ := ha
    exact keep hes (.deleteTasks hdel) (by simp [Op.kinds])
  | restartTasks req =>
    refine Ensures.map (((restartEntries_makes req.entries s h).weaken hE).mono (fun a ha => ?_))
    obtain ⟨es, hes, hres⟩ := ha
    exact keep hes (.restartTasks hres) (by simp [Op.kinds])
  | purgeQueue q =>
    exact Ensures.ok (keep (.single .purge) .purgeQueue (by simp [Op.kinds]))
  | runTasksGarbageCollection req =>
    refine Ensures.map (((runTasksGarbageCollection_makes h).weaken hE).mono (fun a ha => ?_))
    obtain ⟨es, hes, hsw⟩ := ha
    exact keep hes (.runTasksGarbageCollection hsw) (by simp [Op.kinds])
  | runPurgeQueueGarbageCollection req =>
    refine Ensures.map (((runPurgeQueueGarbageCollection_makes h).weaken hE).mono (fun a ha => ?_))
    obtain ⟨es, hes, hpu⟩ := ha
    exact keep hes (.runPurgeQueueGarbageCollection hpu) (by simp [Op.kinds])

/-- A property of states that every successful call keeps, a committed call keeps. -/
theorem commit_keeps {I : State → Prop} (hI : I s)
    (h : Ensures True (exec s now op) (fun a => I a.1)) : I (commit s now op) := by
  unfold commit
  cases hx : exec s now op with
  | ok a => exact h.elim hx
  | error e => exact hI

/-- One call of a run. -/
def runStep (s : State) (c : Call) : Except CoreError State := .ok (commit s c.now c.op)

theorem run_append (s : State) (before after : List Call) :
    run s (before ++ after) = run (run s before) after := List.foldl_append

/-- Run rule: what every call keeps that meets P in the state it finds, a run of
such calls keeps. -/
theorem run_keeps {I : State → Prop} {P : State → Call → Prop}
    (step : ∀ s c, I s → P s c → I (commit s c.now c.op)) (calls : List Call) (s : State)
    (h : Along runStep P s calls) (hI : I s) : I (run s calls) := by
  induction calls generalizing s with
  | nil => exact hI
  | cons a calls ih => exact ih _ (h.tail rfl) (step s a hI h.1)

end Exec

end Moab
