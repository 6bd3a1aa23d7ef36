import Moab.Server.Runs

namespace Moab.Server

open Coreapis

section Handlers

variable [Base62] {req : Moabpb.EnqueueRequest} {accountId : Nat} {limits : ServiceLimits}
  {es : List Event} {outcome : Outcome}

section Paused

omit [Base62]

/-- No Dequeue of a core carries the id of a queue that was paused when its name was
resolved, by an event before it or to one of those already seen. -/
def Unpaused (seen : List Queue) : List Event → Prop
  | [] => True
  | e :: es =>
    (∀ d, request e = some (.dequeue d) → ∀ q ∈ seen, q.id = d.queueId → paused q = false) ∧
      Unpaused (seen ++ (resolution e).toList) es

theorem unpaused_append {seen : List Queue} {es es' : List Event} :
    Unpaused seen (es ++ es') ↔ Unpaused seen es ∧ Unpaused (seen ++ resolved es) es' := by
  induction es generalizing seen with
  | nil => simp [Unpaused]
  | cons e es ih =>
    have hcons : resolved (e :: es) = (resolution e).toList ++ resolved es := by
      cases hr : resolution e <;> simp [resolved, hr]
    rw [List.cons_append, Unpaused, Unpaused, ih, hcons, and_assoc, List.append_assoc]

theorem Lookup.unpaused {queueName : Bytes} {seen : List Queue} {es : List Event}
    (h : Lookup accountId queueName es) : Unpaused seen es := by
  induction es generalizing seen with
  | nil => trivial
  | cons e es ih =>
    refine ⟨?_, ih (fun req hreq => h req (List.mem_filterMap.mpr ?_))⟩
    · intro d hd
      exact absurd (h _ (List.mem_filterMap.mpr ⟨e, List.mem_cons_self, hd⟩)) (by simp)
    · obtain ⟨e', he', hr⟩ := List.mem_filterMap.mp hreq
      exact ⟨e', List.mem_cons_of_mem _ he', hr⟩

/-- A single Dequeue. -/
theorem unpaused_dequeue {d : DequeueRequest} (seen : List Queue) {es : List Event}
    {r : Except Error (Reply (List Task))} (h : (call (.dequeue d)).Runs es r) :
    resolved es = [] ∧
      (Unpaused seen es ↔ ∀ q ∈ seen, q.id = d.queueId → paused q = false) := by
  obtain ⟨r, rest, rfl, rfl, _⟩ := h
  refine ⟨rfl, ?_⟩
  simp [Unpaused, request]

end Paused

/-- For whatever the cache and the cores answer, no core Dequeue carries the id of a paused
queue, and a paused queue that was resolved last gives an empty success, exactly if the
queue that the name is resolved to anew, after NotFound, is not paused. -/
theorem dequeue_unpaused_iff {req : Moabpb.DequeueRequest}
    (h : (dequeue req accountId limits).Runs es outcome) :
    (Unpaused [] es ∧
      ∀ q, (resolved es).getLast? = some q → paused q = true → outcome = .ok (.tasks [] 0)) ↔
      ∀ q freshQueue, resolved es = [q, freshQueue] → paused freshQueue = false := by
  unfold dequeue at h
  split_ifs at h with hbatch
  · obtain ⟨rfl, rfl⟩ := h
    simp [Unpaused]
  obtain ⟨lookup, rest, found, rfl, hlookup, hrest⟩ := Program.runs_bind.mp h
  obtain ⟨hsent, hresolved⟩ := getQueue_runs hlookup
  have hquiet : Unpaused [] lookup := hsent.unpaused
  cases found with
  | error err =>
    obtain ⟨rfl, rfl⟩ := hrest
    replace hresolved : resolved lookup = [] := hresolved
    simp [hresolved, hquiet]
  | ok queue =>
    replace hresolved : resolved lookup = [queue] := hresolved
    dsimp only at hrest
    split_ifs at hrest with hpaused
    · obtain ⟨rfl, rfl⟩ := hrest
      simp [hresolved, hquiet]
    · rw [Bool.not_eq_true] at hpaused
      obtain ⟨first, again, second, r, rfl, hfirst, hagain, hend⟩ :=
        sendToQueue_runs (fun _ => silent_pure _) hrest
      obtain ⟨hfirst, hopen⟩ := unpaused_dequeue [queue] hfirst
      replace hopen : Unpaused [queue] first := hopen.mpr (by simpa using fun _ => hpaused)
      rcases hend with ⟨hnone, rfl⟩ | ⟨freshQueue, r', hfresh, hsecond⟩
      · simp [unpaused_append, hresolved, hfirst, hnone, hquiet, hopen, hagain.unpaused, hpaused]
      · obtain ⟨hsecond, hclosed⟩ := unpaused_dequeue [queue, freshQueue] hsecond
        have hall : resolved (lookup ++ (first ++ (again ++ second))) = [queue, freshQueue] := by
          simp [hresolved, hfirst, hfresh, hsecond]
        have hsplit : Unpaused [] (lookup ++ (first ++ (again ++ second))) ↔
            Unpaused [queue, freshQueue] second := by
          simp [unpaused_append, hresolved, hfirst, hfresh, hquiet, hopen, hagain.unpaused]
        rw [hall, hsplit, hclosed]
        constructor
        · intro hopen q q' heq
          obtain ⟨_, rfl⟩ : queue = q ∧ freshQueue = q' := by simpa using heq
          exact hopen.1 freshQueue (by simp) rfl
        · intro hopen
          have hunpaused := hopen queue freshQueue rfl
          refine ⟨by simp [hpaused, hunpaused], ?_⟩
          intro q hlast hq
          obtain rfl : freshQueue = q := by simpa using hlast
          exact absurd hq (by simp [hunpaused])

section Fresh

omit [Base62]

/-- The entry of the core with what the queue gives by default. -/
def entryFor (now : Time) (queue : Queue) (e : Moabpb.EnqueueRequestEntry) :
    EnqueueRequestEntry where
  payload := e.payload
  scheduledAt := e.scheduledAt
  expiresAt := deadline now queue e.scheduledAt e.expiresAt
  dedupeKey := e.dedupeKey
  retryStrategy := e.retryStrategy.or queue.retryStrategy
  overwriteOnDuplicate := e.overwriteOnDuplicate
  threadId := e.threadId

theorem coreEnqueueEntry_ok_iff {now : Time} {queue : Queue} {i : Nat}
    {e : Moabpb.EnqueueRequestEntry} {entry : EnqueueRequestEntry} :
    coreEnqueueEntry now limits queue i e = .ok entry ↔
      Near now limits e.scheduledAt ∧ entry = entryFor now queue e := by
  unfold coreEnqueueEntry
  by_cases hnear : Near now limits e.scheduledAt
  · rw [resolve_near hnear]
    simp only [hnear, true_and, Except.ok.injEq]
    exact eq_comm
  · rw [resolve_far hnear]
    simp [hnear]

/-- Whether a batch is accepted does not depend on the queue. -/
theorem coreEnqueueEntries_ok_iff {now : Time} {queue : Queue} {i : Nat}
    {es : List Moabpb.EnqueueRequestEntry} {entries : List EnqueueRequestEntry} :
    coreEnqueueEntries now limits queue i es = .ok entries ↔
      (∀ e ∈ es, Near now limits e.scheduledAt) ∧ entries = es.map (entryFor now queue) := by
  induction es generalizing i entries with
  | nil => simp [coreEnqueueEntries, eq_comm]
  | cons e es ih =>
    rw [coreEnqueueEntries, List.forall_mem_cons, List.map_cons]
    cases hentry : coreEnqueueEntry now limits queue i e with
    | error status =>
      have hfar : ¬Near now limits e.scheduledAt := fun hnear =>
        absurd (hentry.symm.trans (coreEnqueueEntry_ok_iff.mpr ⟨hnear, rfl⟩)) (by simp)
      simp [bind, Except.bind, hfar]
    | ok entry =>
      obtain ⟨hnear, rfl⟩ := coreEnqueueEntry_ok_iff.mp hentry
      cases hrest : coreEnqueueEntries now limits queue (i + 1) es with
      | error status =>
        have hfar : ¬∀ e ∈ es, Near now limits e.scheduledAt := fun hall =>
          absurd (hrest.symm.trans (ih.mpr ⟨hall, rfl⟩)) (by simp)
        simp only [bind, Except.bind, reduceCtorEq, false_iff]
        exact fun h => hfar h.1.2
      | ok rest =>
        obtain ⟨hall, rfl⟩ := ih.mp hrest
        simp only [bind, Except.bind, Except.ok.injEq]
        constructor
        · intro h
          exact ⟨⟨hnear, hall⟩, h.symm⟩
        · intro h
          exact h.2.symm

/-- The two queues give an entry the same retry strategy, if it has none of its own, and
the same deadline: they allow the same one, or both allow the one it asks for. -/
def SameTerms (now : Time) (q q' : Queue) (e : Moabpb.EnqueueRequestEntry) : Prop :=
  (e.retryStrategy = none → q.retryStrategy = q'.retryStrategy) ∧
    (ceiling now q e.scheduledAt = ceiling now q' e.scheduledAt ∨
      e.expiresAt ≠ 0 ∧ e.expiresAt ≤ ceiling now q e.scheduledAt ∧
        e.expiresAt ≤ ceiling now q' e.scheduledAt)

theorem deadline_eq_iff {now scheduledAt expiresAt : Time} {q q' : Queue} :
    deadline now q scheduledAt expiresAt = deadline now q' scheduledAt expiresAt ↔
      ceiling now q scheduledAt = ceiling now q' scheduledAt ∨
        expiresAt ≠ 0 ∧ expiresAt ≤ ceiling now q scheduledAt ∧
          expiresAt ≤ ceiling now q' scheduledAt := by
  unfold deadline
  generalize ceiling now q scheduledAt = c
  generalize ceiling now q' scheduledAt = c'
  simp only [gt_iff_lt, ne_eq, Int64.lt_iff_toInt_lt, Int64.le_iff_toInt_le, ← Int64.toInt_inj]
  split_ifs with h h' <;> omega

theorem entryFor_eq_iff {now : Time} {q q' : Queue} {e : Moabpb.EnqueueRequestEntry} :
    entryFor now q e = entryFor now q' e ↔ SameTerms now q q' e := by
  have hretry : e.retryStrategy.or q.retryStrategy = e.retryStrategy.or q'.retryStrategy ↔
      (e.retryStrategy = none → q.retryStrategy = q'.retryStrategy) := by
    cases e.retryStrategy <;> simp
  rw [SameTerms, ← deadline_eq_iff, ← hretry]
  simp [entryFor, and_comm]

/-- The Enqueues that a run sends to the core. -/
def enqueues (es : List Event) : List EnqueueRequest :=
  (sent es).filterMap (fun | .enqueue req => some req | _ => none)

/-- The time that the handler reads. -/
def clock : List Event → Option Time
  | ⟨.now, now⟩ :: _ => some now
  | _ => none

@[simp] theorem enqueues_append (es es' : List Event) :
    enqueues (es ++ es') = enqueues es ++ enqueues es' := by
  rw [enqueues, sent_append, List.filterMap_append]
  rfl

theorem Lookup.enqueues {queueName : Bytes} {es : List Event} (h : Lookup accountId queueName es) :
    enqueues es = [] := by
  apply List.filterMap_eq_nil_iff.mpr
  intro req hreq
  rw [h req hreq]

/-- The Enqueue for one queue with the entries as another one has them. -/
def requestFor (now : Time) (queue terms : Queue) (req : Moabpb.EnqueueRequest) : EnqueueRequest :=
  ⟨queue.id, req.entries.map (entryFor now terms)⟩

/-- What a run of Enqueue comes to: the name is not resolved, the batch is rejected, the
core is called once, or it is called again, for another queue. -/
inductive Enqueued (req : Moabpb.EnqueueRequest) (limits : ServiceLimits)
    (es : List Event) : Prop where
  | unresolved (unknown : resolved es = []) (silent : enqueues es = [])
  | rejected (now : Time) (queue : Queue) (time : clock es = some now) (one : resolved es = [queue])
    (far : ¬∀ e ∈ req.entries, Near now limits e.scheduledAt) (silent : enqueues es = [])
  | once (now : Time) (queue : Queue) (time : clock es = some now) (one : resolved es = [queue])
    (near : ∀ e ∈ req.entries, Near now limits e.scheduledAt)
    (calls : enqueues es = [requestFor now queue queue req])
  | twice (now : Time) (queue freshQueue : Queue) (time : clock es = some now)
    (two : resolved es = [queue, freshQueue])
    (near : ∀ e ∈ req.entries, Near now limits e.scheduledAt)
    (calls : enqueues es = [requestFor now queue queue req, requestFor now freshQueue queue req])

end Fresh

theorem enqueue_runs (h : (enqueue req accountId limits).Runs es outcome) :
    Enqueued req limits es := by
  unfold enqueue at h
  split_ifs at h with hbatch
  · obtain ⟨rfl, rfl⟩ := h
    exact .unresolved rfl rfl
  obtain ⟨now, rest, rfl, hrest⟩ := perform_runs.mp h
  obtain ⟨lookup, rest, found, rfl, hlookup, hfound⟩ := Program.runs_bind.mp hrest
  obtain ⟨hsent, hresolved⟩ := getQueue_runs hlookup
  have htime : ∀ es', clock (⟨.now, now⟩ :: es') = some now := fun _ => rfl
  have hevent : ∀ es', resolved (⟨.now, now⟩ :: es') = resolved es' ∧
      enqueues (⟨.now, now⟩ :: es') = enqueues es' := fun _ => ⟨rfl, rfl⟩
  cases found with
  | error err =>
    obtain ⟨rfl, rfl⟩ := hfound
    refine .unresolved ?_ ?_
    · rw [(hevent _).1, List.append_nil, hresolved]
      rfl
    · rw [(hevent _).2, List.append_nil, hsent.enqueues]
  | ok queue =>
    replace hresolved : resolved lookup = [queue] := hresolved
    dsimp only at hfound
    cases hentries : coreEnqueueEntries now limits queue 0 req.entries with
    | error status =>
      rw [hentries] at hfound
      obtain ⟨rfl, rfl⟩ := hfound
      refine .rejected now queue (htime _) ?_ ?_ ?_
      · rw [(hevent _).1, List.append_nil, hresolved]
      · intro hnear
        rw [coreEnqueueEntries_ok_iff.mpr ⟨hnear, rfl⟩] at hentries
        exact absurd hentries (by simp)
      · rw [(hevent _).2, List.append_nil, hsent.enqueues]
    | ok entries =>
      obtain ⟨hnear, rfl⟩ := coreEnqueueEntries_ok_iff.mp hentries
      rw [hentries] at hfound
      obtain ⟨first, again, second, r, rfl, hfirst, hagain, hend⟩ :=
        sendToQueue_runs (fun _ => silent_pure _) hfound
      obtain ⟨_, _, rfl, rfl, _⟩ := hfirst
      rcases hend with ⟨hnone, rfl⟩ | ⟨freshQueue, r', hfresh, hsecond⟩
      · refine .once now queue (htime _) ?_ hnear ?_
        · rw [(hevent _).1, resolved_append, hresolved, List.append_nil, resolved_append, hnone]
          rfl
        · rw [(hevent _).2, enqueues_append, hsent.enqueues, List.append_nil, enqueues_append,
            hagain.enqueues]
          rfl
      · obtain ⟨_, _, rfl, rfl, _⟩ := hsecond
        refine .twice now queue freshQueue (htime _) ?_ hnear ?_
        · rw [(hevent _).1, resolved_append, hresolved, resolved_append, resolved_append, hfresh]
          rfl
        · rw [(hevent _).2, enqueues_append, hsent.enqueues, enqueues_append, enqueues_append,
            hagain.enqueues]
          rfl

/-- A handler that finds the queue in its cache calls the core with its terms. -/
theorem enqueue_cached (accountId : Nat) {now : Time} (queue : Queue)
    (near : ∀ e ∈ req.entries, Near now limits e.scheduledAt)
    (hbatch : ¬int32 req.entries.length > limits.maxEnqueueBatchSize) :
    ∃ es outcome, (enqueue req accountId limits).Runs es outcome ∧ clock es = some now ∧
      resolved es = [queue] ∧ enqueues es = [requestFor now queue queue req] := by
  refine ⟨[⟨.now, now⟩, ⟨.cached (cacheKey accountId req.queueName), some (.ok queue)⟩,
    ⟨.call (.enqueue (requestFor now queue queue req)), .ok ⟨[], now⟩⟩], .ok (.tasks [] now), ?_,
    rfl, rfl, rfl⟩
  unfold enqueue
  rw [if_neg hbatch]
  refine perform_runs.mpr ⟨now, _, rfl, ?_⟩
  refine Program.runs_bind.mpr ⟨[_], [_], .ok queue, rfl, ⟨_, _, rfl, rfl, rfl⟩, ?_⟩
  dsimp only
  rw [coreEnqueueEntries_ok_iff.mpr ⟨near, rfl⟩]
  exact ⟨_, _, rfl, rfl, rfl⟩

/-- The Enqueue that is sent again after NotFound, for the queue that the name is resolved
to then, is the one that the handler sends if it resolves the name to that queue in the
first place, exactly if both queues have the same terms for every entry. -/
theorem enqueue_retry_iff {now : Time} {queue freshQueue : Queue}
    (h : (enqueue req accountId limits).Runs es outcome) (htime : clock es = some now)
    (htwo : resolved es = [queue, freshQueue]) :
    (∀ es' outcome', (enqueue req accountId limits).Runs es' outcome' → clock es' = some now →
        (resolved es').head? = some freshQueue →
        (enqueues es').head? = (enqueues es).getLast?) ↔
      ∀ e ∈ req.entries, SameTerms now queue freshQueue e := by
  have hbatch : ¬int32 req.entries.length > limits.maxEnqueueBatchSize := by
    intro hbatch
    unfold enqueue at h
    rw [if_pos hbatch] at h
    rw [h.1] at htwo
    cases htwo
  cases enqueue_runs h with
  | unresolved unknown _ => simp [unknown] at htwo
  | rejected _ _ _ one | once _ _ _ one => simp [one] at htwo
  | twice now' q q' htime' htwo' hnear hcalls =>
    obtain rfl : now' = now := Option.some.inj (htime'.symm.trans htime)
    obtain ⟨rfl, rfl⟩ : q = queue ∧ q' = freshQueue := by simpa using htwo'.symm.trans htwo
    have hterms : requestFor now' q' q' req = requestFor now' q' q req ↔
        ∀ e ∈ req.entries, SameTerms now' q q' e := by
      simp only [requestFor, EnqueueRequest.mk.injEq, true_and, List.map_inj_left]
      refine forall_congr' (fun e => imp_congr_right (fun _ => ?_))
      rw [eq_comm, entryFor_eq_iff]
    rw [← hterms, hcalls]
    constructor
    · intro hfresh
      obtain ⟨es', outcome', hruns, ht, hone, hcall⟩ := enqueue_cached accountId q' hnear hbatch
      have hlast := hfresh es' outcome' hruns ht (by rw [hone]; rfl)
      rw [hcall] at hlast
      exact Option.some.inj hlast
    · intro heq es' outcome' hruns ht hhead
      -- a run that resolves the queue first is not rejected either
      cases enqueue_runs hruns with
      | unresolved unknown _ => simp [unknown] at hhead
      | rejected now queue htime one far =>
        obtain rfl : now = now' := Option.some.inj (htime.symm.trans ht)
        exact absurd hnear far
      | once now queue htime one near calls =>
        obtain rfl : now = now' := Option.some.inj (htime.symm.trans ht)
        obtain rfl : queue = q' := by simpa [one] using hhead
        rw [calls, heq]
        rfl
      | twice now queue fresh htime two near calls =>
        obtain rfl : now = now' := Option.some.inj (htime.symm.trans ht)
        obtain rfl : queue = q' := by simpa [two] using hhead
        rw [calls, heq]
        rfl

end Handlers

section Runs

/-- A queue under one of its ids. -/
def jobs (id : Nat) (expiresInSeconds : Time) (dequeuingPaused : Bool) : Queue where
  id := ⟨0, id⟩
  name := [106]
  description := []
  createdAt := 0
  updatedAt := 0
  version := 1
  keepaliveTimeoutInSeconds := 30
  retryStrategy := none
  dequeuingSettings := some ⟨0, none, dequeuingPaused⟩
  deadLetterQueueConfig := none
  expiresInSeconds := expiresInSeconds
  schedulesCount := 0

/-- The name is found in the cache, the core has purged the id, and the name is resolved to
another queue, for which the request is sent again. -/
def purgedMeanwhile (queue freshQueue : Queue) (send : Queue → Request)
    (answer : ∀ q, Except Error (Reply (send q).Response)) : List Event :=
  [⟨.cached (cacheKey 0 [106]), some (.ok queue)⟩,
    ⟨.call (send queue), .error (.tasks (.queueIdPurged queue.id))⟩,
    ⟨.uncache (cacheKey 0 [106]), ()⟩,
    ⟨.cached (cacheKey 0 [106]), none⟩,
    ⟨.call (.getQueueByName ⟨0, [106]⟩), .ok ⟨freshQueue, 1⟩⟩,
    ⟨.cache (cacheKey 0 [106]) (.ok freshQueue), ()⟩,
    ⟨.call (send freshQueue), answer freshQueue⟩]

def dequeueOne : Moabpb.DequeueRequest := ⟨[106], 1, 0⟩

/-- The task that the core hands out. -/
def job : Task := newTask ⟨0, 2⟩ 1 ⟨[], 0, minute, [], none, [], []⟩ 1

def dequeueEvents (queue freshQueue : Queue) : List Event :=
  purgedMeanwhile queue freshQueue (fun q => .dequeue (coreDequeueRequest dequeueOne q))
    (fun _ => .ok ⟨[job], 1⟩)

/-- A task is handed out of a queue that is paused. -/
theorem dequeue_paused_again :
    (dequeue dequeueOne 0 defaultServiceLimits).Runs
        (dequeueEvents (jobs 1 60 false) (jobs 2 60 true)) (.ok (.tasks [taskToFront job] 1)) ∧
      ¬Unpaused [] (dequeueEvents (jobs 1 60 false) (jobs 2 60 true)) := by
  refine ⟨⟨_, _, rfl, _, _, rfl, _, _, rfl, _, _, rfl, _, _, rfl, _, _, rfl, _, _, rfl,
    rfl, rfl⟩, ?_⟩
  intro h
  exact absurd (h.2.2.2.2.2.2.1 _ rfl (jobs 2 60 true) (by decide) rfl) (by decide)

/-- The queue was purged, and is not paused. -/
theorem dequeue_unpaused_purged :
    Unpaused [] (dequeueEvents (jobs 1 60 false) (jobs 2 60 false)) := by
  have hruns : (dequeue dequeueOne 0 defaultServiceLimits).Runs
      (dequeueEvents (jobs 1 60 false) (jobs 2 60 false)) (.ok (.tasks [taskToFront job] 1)) :=
    ⟨_, _, rfl, _, _, rfl, _, _, rfl, _, _, rfl, _, _, rfl, _, _, rfl, _, _, rfl, rfl, rfl⟩
  refine ((dequeue_unpaused_iff hruns).mpr ?_).1
  intro q freshQueue hboth
  replace hboth : [jobs 1 60 false, jobs 2 60 false] = [q, freshQueue] := hboth
  obtain ⟨_, rfl⟩ : jobs 1 60 false = q ∧ jobs 2 60 false = freshQueue := by simpa using hboth
  rfl

def enqueueOne : Moabpb.EnqueueRequest := ⟨[106], [⟨[], 0, 0, [], [], none, []⟩]⟩

/-- The handler reads the clock before it looks for the queue. -/
def enqueueEvents (queue freshQueue : Queue) : List Event :=
  ⟨.now, second⟩ :: purgedMeanwhile queue freshQueue
    (fun q => .enqueue (requestFor second q queue enqueueOne)) (fun _ => .ok ⟨[job], 1⟩)

theorem enqueueOne_near :
    ∀ e ∈ enqueueOne.entries, Near second defaultServiceLimits e.scheduledAt := by
  decide +kernel

theorem enqueueOne_batch :
    ¬int32 enqueueOne.entries.length > defaultServiceLimits.maxEnqueueBatchSize := by decide +kernel

theorem enqueueEvents_runs (queue freshQueue : Queue) :
    (enqueue enqueueOne 0 defaultServiceLimits).Runs (enqueueEvents queue freshQueue)
      (.ok (.tasks [taskToFront job] 1)) := by
  unfold enqueue
  rw [if_neg enqueueOne_batch]
  refine perform_runs.mpr ⟨second, _, rfl, ?_⟩
  refine Program.runs_bind.mpr ⟨[_], _, .ok queue, rfl, ⟨_, _, rfl, rfl, rfl⟩, ?_⟩
  dsimp only
  rw [coreEnqueueEntries_ok_iff.mpr ⟨enqueueOne_near, rfl⟩]
  exact ⟨_, _, rfl, _, _, rfl, _, _, rfl, _, _, rfl, _, _, rfl, _, _, rfl, rfl, rfl⟩

/-- A queue that was created anew allows its tasks one minute. The one that is sent to it
again has the two weeks of the queue before. -/
theorem enqueue_retry_two_weeks :
    (enqueue enqueueOne 0 defaultServiceLimits).Runs
        (enqueueEvents (jobs 1 1209600 false) (jobs 2 60 false))
        (.ok (.tasks [taskToFront job] 1)) ∧
      (∃ es outcome, (enqueue enqueueOne 0 defaultServiceLimits).Runs es outcome ∧
        clock es = some second ∧ (resolved es).head? = some (jobs 2 60 false) ∧
        (enqueues es).head?.map (·.entries.map (·.expiresAt)) = some [61 * second]) ∧
      (enqueues (enqueueEvents (jobs 1 1209600 false) (jobs 2 60 false))).getLast?.map
        (·.entries.map (·.expiresAt)) = some [1209601 * second] := by
  refine ⟨enqueueEvents_runs _ _, ?_, by decide +kernel⟩
  obtain ⟨es, outcome, hruns, htime, hone, hcalls⟩ :=
    enqueue_cached 0 (jobs 2 60 false) enqueueOne_near enqueueOne_batch
  refine ⟨es, outcome, hruns, htime, ?_, ?_⟩
  · rw [hone]
    rfl
  · rw [hcalls]
    decide +kernel

/-- A purge leaves the terms of the queue as they are. -/
theorem enqueue_retry_purged :
    ∃ es outcome, (enqueue enqueueOne 0 defaultServiceLimits).Runs es outcome ∧
      (resolved es).head? = some (jobs 2 60 false) ∧
      (enqueues es).head? =
        (enqueues (enqueueEvents (jobs 1 60 false) (jobs 2 60 false))).getLast? := by
  obtain ⟨es, outcome, hruns, htime, hone, _⟩ :=
    enqueue_cached 0 (jobs 2 60 false) enqueueOne_near enqueueOne_batch
  have hhead : (resolved es).head? = some (jobs 2 60 false) := by
    rw [hone]
    rfl
  refine ⟨es, outcome, hruns, hhead, ?_⟩
  refine (enqueue_retry_iff (enqueueEvents_runs (jobs 1 60 false) (jobs 2 60 false)) rfl rfl).mpr ?_
    es outcome hruns htime hhead
  intro e _
  exact ⟨fun _ => rfl, Or.inl rfl⟩

end Runs

end Moab.Server
