import Moab.Tasks.Pace

namespace Moab

open OrderedStore

variable [OrderedStore]

variable {th tr : Prop} {c : Scope} {s s' : State} {now : Time}

section Lending

/-- Every task that strands no one may hand its place over. -/
def Scope.lend (c : Scope) (s : State) : Scope :=
  { c with handed := fun id => ∃ t, s.tasks.get id = some t ∧ Unstranded c s t }

theorem Heads.lend (h : Heads c s) : Heads (c.lend s) s := by
  refine h.rescope (fun ht => ht) (fun _ hu => hu) (fun hd => hd) h.queue_front ?_
  intro _ k thread hk hh i hi hne
  obtain ⟨t, row, hu⟩ := hh
  have hid := (h.row _ _ row).1
  obtain rfl := h.head_key hk row
  refine hu thread hk hid.symm i hi (fun he => hne ?_)
  rw [he, ← hid]
  exact TaskId.queue_task t.id

theorem Heads.reclaim {s₀ : State} (h : Heads (c.lend s₀) s)
    (hidle : c.tracked → ∀ id, ¬c.handed id) : Heads c s :=
  h.rescope (fun ht => ht) (fun _ hu => hu) (fun hd => hd) h.queue_front
    (fun hc _ thread _ hh => absurd hh (hidle hc thread.headTaskId))

end Lending

section Batches

/-- An applied report that ends the lease may hand the head of its thread over. -/
def ReportSafe (c : Scope) (s : State) (e : ReportStatusRequestEntry) : Prop :=
  ∀ t, s.tasks.get e.taskId = some t → t.state = .inProgress → t.attempts = e.attempt →
    e.status = .failed ∨ e.status = .succeeded → t.threadId ≠ [] → Unstranded c s t

def reportStep (now : Time) (dlqConfig : Option DeadLetterQueueConfig) (s : State)
    (e : ReportStatusRequestEntry) : Except CoreError State :=
  (reportStatus s e.taskId now e.status e.attempt e.keepaliveTimeoutInSeconds dlqConfig).map
    Prod.fst

theorem reportEntries_heads (dlqConfig : Option DeadLetterQueueConfig)
    (es : List ReportStatusRequestEntry) (s : State) (h : Heads c s) (hi : Indexed th s.rows)
    (hidle : c.tracked → ∀ id, ¬c.handed id) (hpace : c.tracked → Paced s.rows)
    (hclock : c.tracked → Clock c now)
    (hsafe : c.tracked → Along (reportStep now dlqConfig) (ReportSafe c) s es) :
    Ensures True (reportEntries now dlqConfig s es) (fun a => Heads c a.1) := by
  induction es generalizing s with
  | nil => exact Ensures.ok h
  | cons e es ih =>
    rw [reportEntries]
    have hstep : Ensures True (reportStatus s e.taskId now e.status e.attempt
        e.keepaliveTimeoutInSeconds dlqConfig) (fun a => Heads (c.lend s) a.1) := by
      refine reportStatus_heads e.status e.attempt e.keepaliveTimeoutInSeconds dlqConfig
        h.lend hi ?_ ?_
      · intro hc id t interval row hint
        have hv := (hpace hc id t row).interval hint
        exact (hclock hc).front _ _ ((hclock hc).retry interval hv.1 hv.2)
      · intro hc t row hs ha hst hth
        exact ⟨t, row, (hsafe hc).1 t row hs ha hst hth⟩
    have hmade : Ensures True (reportStatus s e.taskId now e.status e.attempt
        e.keepaliveTimeoutInSeconds dlqConfig) _ := (reportStatus_makes hi).weaken
        (fun _ => trivial)
    refine (hstep.and hmade).self.bind (fun a ha => ?_)
    obtain ⟨heq, hheads, hcase⟩ := ha
    have hi' : Indexed th a.1.rows := by
      rcases hcase with ⟨_, hsame⟩ | ⟨_, t, _, _, _, es', hes', _⟩
      · rw [hsame]
        exact hi
      · exact hi.steps hes'
    have hpace' : c.tracked → Paced a.1.rows := fun hc =>
      (Paced.upheld.reportStatus (hpace hc) ((hclock hc).failing _)
        (fun _ _ ht _ => ht) _ _).elim heq
    refine (ih a.1 (hheads.reclaim hidle) hi' hpace' (fun hc => (hsafe hc).tail ?_)).bind
      (fun b hb => Ensures.ok hb)
    rw [reportStep, heq]
    rfl

/-- A deletion of a live task may hand the head of its thread over. -/
def DeleteSafe (c : Scope) (q : QueueId) (s : State) (n : Nat) : Prop :=
  ∀ t, s.tasks.get (q.task n) = some t → t.live → t.threadId ≠ [] → Unstranded c s t

theorem deleteTasks_heads (req : DeleteTasksRequest) (h : Heads c s)
    (hidle : c.tracked → ∀ id, ¬c.handed id)
    (hsafe : c.tracked → Along (deleteTaskById req.queueId)
      (DeleteSafe c req.queueId) s req.taskIds) :
    Ensures True (deleteTasks s req) (Heads c) := by
  unfold deleteTasks
  generalize req.taskIds = l at hsafe ⊢
  induction l generalizing s with
  | nil => exact Ensures.pure h
  | cons n l ih =>
    rw [List.foldlM_cons]
    refine (deleteTaskById_heads n h.lend (fun hc t row hl hth =>
      ⟨t, row, (hsafe hc).1 t row hl hth⟩)).self.bind (fun a ha => ?_)
    exact ih (ha.2.reclaim hidle) (fun hc => (hsafe hc).tail ha.1)

theorem restartEntries_heads {q : QueueId} (es : List RestartTasksRequestEntry) (s : State)
    (h : Heads c s) (hp : Punctual c q now) :
    Ensures True (restartEntries q now s es) (fun a => Heads c a.1) := by
  induction es generalizing s with
  | nil => exact Ensures.ok h
  | cons e es ih =>
    rw [restartEntries]
    refine (restartEntry_heads e h (fun hc => hp.arrival hc _) hp.idle).bind (fun a ha => ?_)
    exact (ih a.1 ha).bind (fun b hb => Ensures.ok hb)

end Batches

section Cursor

/-- Handling tasks one by one takes their items out of the queue index. -/
theorem foldl_unqueues {q q' : QueueId} {f : State → Task → State}
    (hf : ∀ s t, (f s t).queueIndex = s.queueIndex.remove q t.queueIndexItem) (l : List Task)
    (s : State) {i : IndexItem} : i ∈ (l.foldl f s).queueIndex.items q' ↔
      i ∈ s.queueIndex.items q' ∧ ∀ t ∈ l, ¬(q' = q ∧ i = t.queueIndexItem) := by
  induction l generalizing s with
  | nil => simp
  | cons t l ih => rw [List.foldl_cons, ih, hf, Index.mem_remove, List.forall_mem_cons, and_assoc]

/-- What a scan leaves in the queue index is what was there and was not met. -/
theorem applyScan_items {q q' : QueueId} {keepalive cursor last : Time} {ts : List Task} {b : Scan}
    (hv : Visited now ts ⟨[], [], last, s.getCounter q, 0⟩ b) {i : IndexItem} :
    i ∈ (applyScan s q now keepalive cursor b).queueIndex.items q' ↔
      i ∈ s.queueIndex.items q' ∧ ∀ t ∈ ts, ¬(q' = q ∧ i = t.queueIndexItem) := by
  obtain ⟨hd, hx, _⟩ := hv
  rw [List.nil_append] at hd hx
  unfold applyScan
  dsimp only
  rw [hd, hx, foldl_unqueues (f := leaseTask q now keepalive) (fun _ _ => rfl),
    foldl_unqueues (f := dropExpired q) (fun _ _ => rfl), and_assoc]
  refine and_congr_right (fun _ => ?_)
  constructor
  · intro h t ht
    by_cases ho : t.overdue now
    · exact h.1 t (List.mem_filter.mpr ⟨ht, ho⟩)
    · exact h.2 t (List.mem_filter.mpr ⟨ht, by simpa using ho⟩)
  · intro h
    exact ⟨fun t ht => h t (List.mem_of_mem_filter ht), fun t ht => h t (List.mem_of_mem_filter ht)⟩

/-- The scan never steps over an item: what it leaves behind is not before its
new cursor. -/
theorem Scanned.cursor_le {q : QueueId} {items : List IndexItem} {b : Scan} {ts : List Task}
    (hs : Scanned s q now items b ts)
    (hitems : items = listInRange s.queueIndex q (s.getQueueState q).lastVisitedEnqueued now)
    (hfront : ∀ i ∈ s.queueIndex.items q,
      (s.getQueueState q).lastVisitedEnqueued.rank ≤ i.time.rank) {i : IndexItem}
    (hi : i ∈ s.queueIndex.items q) (hn : ∀ t ∈ ts, i ≠ t.queueIndexItem) :
    (if items = [] then now else b.lastVisitedEnqueued).rank ≤ i.time.rank := by
  have hlate : i ∉ items → now.rank < i.time.rank := by
    intro hout
    by_contra hle
    exact hout (hitems ▸ mem_listInRange.mpr ⟨hi, hfront i hi, not_lt.mp hle⟩)
  split_ifs with hempty
  · exact le_of_lt (hlate (by simp [hempty]))
  · rw [hs.last]
    cases hl : (items.take ts.length).getLast? with
    | none => exact hfront i hi
    | some j =>
      have hj : j ∈ items.take ts.length := List.mem_of_getLast? hl
      change j.time.rank ≤ i.time.rank
      by_cases hin : i ∈ items
      · -- the items met are a first part of the sorted range
        have hnot : i ∉ items.take ts.length := by
          intro hm
          rw [← hs.met] at hm
          obtain ⟨t, ht, he⟩ := List.mem_map.mp hm
          exact hn t ht he.symm
        have hsorted : items.Pairwise (· < ·) := by
          rw [hitems]
          exact (s.queueIndex.items_sorted q).filter _
        rw [← List.take_append_drop ts.length items] at hin hsorted
        have hdrop := (List.mem_append.mp hin).resolve_left hnot
        exact IndexItem.rank_time_le (le_of_lt ((List.pairwise_append.mp hsorted).2.2 j hj i hdrop))
      · have hjr := mem_listInRange.mp (hitems ▸ List.mem_of_mem_take hj)
        exact hjr.2.2.trans (le_of_lt (hlate hin))

end Cursor

section Exec

/-- The scope of a state: ids up to the sequences, times from the cursors on. -/
def State.scope (th tr : Prop) (s : State) : Scope where
  threaded := th
  used id := id.taskId ≤ sequenceOf s.queueState id.queue
  tracked := tr
  front q time := (s.getQueueState q).lastVisitedEnqueued.rank ≤ time.rank
  handed _ := False

theorem scope_eq (h : s'.queueState = s.queueState) : s'.scope th tr = s.scope th tr := by
  unfold State.scope State.getQueueState
  rw [h]

/-- A task that is due for the sweep may hand the head of its thread over. -/
def SweepSafe (c : Scope) (now : Time) (s : State) : Prop :=
  ∀ id t, s.tasks.get id = some t → t.state = .enqueued → Time.rank t.expiresAt ≤ Time.rank now →
    t.threadId ≠ [] → Unstranded c s t

/-- What an operation has to meet for the threads to stay in order. The purge of a
queue may leave thread records behind, so it is safe only without threads. -/
def Op.Safe (c : Scope) (s : State) (now : Time) : Op → Prop
  | .enqueue req => Punctual c req.queueId now ∧
    Along (enqueueStep req.queueId now) (fun a e => Overwritable c req.queueId now a.1 e)
      (s, sequenceOf s.queueState req.queueId) req.entries
  | .dequeue req => c.tracked →
    ∀ i ∈ timedOutItems s req.queueId now, ∀ t, s.tasks.get (req.queueId.task i.taskId) = some t →
      Unstranded c s t
  | .reportStatus req => c.tracked →
    Along (reportStep now req.deadLetterQueueConfig) (ReportSafe c) s req.entries
  | .deleteTasks req => c.tracked →
    Along (deleteTaskById req.queueId) (DeleteSafe c req.queueId) s req.taskIds
  | .restartTasks req => Punctual c req.queueId now
  | .purgeQueue _ => True
  | .runTasksGarbageCollection _ => c.tracked → SweepSafe c now s
  | .runPurgeQueueGarbageCollection _ => ¬c.tracked ∧ ¬c.threaded

/-- Writing the sequence back keeps the rest of a queue state. -/
theorem setSequence_field {α : Type} (f : QueueState → α)
    (hf : ∀ st n, f { st with taskIdSequence := n } = f st) (h : s'.queueState = s.queueState)
    (q r : QueueId) (n : Nat) :
    f ((s'.setQueueState q { s.getQueueState q with taskIdSequence := n }).getQueueState r) =
      f (s.getQueueState r) := by
  unfold State.setQueueState State.getQueueState
  rw [h]
  by_cases hr : r = q
  · rw [hr]
    simp [hf]
  · simp [hr]

theorem setSequence_cursor (h : s'.queueState = s.queueState) (q r : QueueId) (n : Nat) :
    ((s'.setQueueState q { s.getQueueState q with taskIdSequence := n }).getQueueState
      r).lastVisitedEnqueued = (s.getQueueState r).lastVisitedEnqueued :=
  setSequence_field QueueState.lastVisitedEnqueued (fun _ _ => rfl) h q r n

theorem Enqueues.queueState {q : QueueId} {r r' : Rows} {entries : List EnqueueRequestEntry}
    {lo hi : Nat} {es : List Event} (h : Enqueues q now entries lo hi es) (hs : Steps th r es r') :
    r'.queueState = r.queueState := by
  refine hs.queueState (fun e he => ?_)
  obtain ⟨_, _, ⟨t, t', rfl, _⟩ | ⟨n, rfl, _⟩⟩ := h e he
  · simp [Event.kind]
  · simp [Event.kind]

theorem enqueue_heads {req : EnqueueRequest} (h : Heads (s.scope th tr) s) (hi : Indexed th s.rows)
    (hseq : Sequenced s.rows) (hth : ∀ e ∈ req.entries, e.threadId ≠ [] → th)
    (hsafe : Op.Safe (s.scope th tr) s now (.enqueue req)) :
    Ensures True (enqueue s now req) (fun a => Heads (a.1.scope th tr) a.1) := by
  unfold enqueue
  cases hp : checkQueueNotPurged s req.queueId with
  | some err => exact Ensures.ok h
  | none =>
    have hup :
        Heads ((s.scope th tr).upTo req.queueId (sequenceOf s.queueState req.queueId)) s := by
      refine h.rescope (fun ht => ht) (fun id hu => ?_) (fun hd => hd) h.queue_front h.ahead
      simp only [Scope.upTo]
      split_ifs with hq
      · exact hq ▸ hu
      · exact hu
    have hheads := enqueueEntries_heads hsafe.1 req.entries s _ hup hi (hseq.below req.queueId)
      (fun e he hn => ⟨hth e he hn, hth e he hn⟩) hsafe.2
    have hmade : Ensures True (enqueueEntries req.queueId now s
        (sequenceOf s.queueState req.queueId) req.entries) _ :=
      (enqueueEntries_makes req.entries s _ hi (hseq.below req.queueId) hth).weaken
        (fun _ => trivial)
    refine (hheads.and hmade).bind (fun a ha => Ensures.ok ?_)
    obtain ⟨ha, _, _, es, hes, henq⟩ := ha
    have hstate : a.1.queueState = s.queueState := henq.queueState hes
    have hsame : Heads ((s.scope th tr).upTo req.queueId a.2.1) (a.1.setQueueState req.queueId
        { s.getQueueState req.queueId with taskIdSequence := a.2.1 }) :=
          ha.same ⟨rfl, rfl, rfl, rfl⟩
    refine hsame.rescope (fun ht => ht) (fun id hu => ?_) (fun hd => hd) (fun hd q i hm => ?_) ?_
    · simp only [Scope.upTo] at hu
      simp only [State.scope, State.setQueueState, sequenceOf, hstate]
      split_ifs at hu with hq
      · rw [hq, Table.get_set_self]
        exact hu
      · rw [Table.get_set_ne _ _ hq]
        exact hu
    · simp only [State.scope, setSequence_cursor hstate]
      exact hsame.queue_front hd q i hm
    · intro _ k thread _ hh
      exact absurd hh id

/-- The first pass of a Dequeue moves its own cursor only. -/
theorem dequeueInProgressTasksBeforeTime_queueState {q : QueueId}
    {dlqConfig : Option DeadLetterQueueConfig} (hi : Indexed th s.rows) :
    Ensures True (dequeueInProgressTasksBeforeTime s q now dlqConfig) (fun s' =>
      s'.queueState = s.queueState.set q { s.getQueueState q with
        lastVisitedInProgress :=
          ((timedOutItems s q now).getLast?.map IndexItem.time).getD now }) := by
  obtain ⟨l, hl, hb, _, hrow⟩ := timedOutTasks s q now hi
  unfold dequeueInProgressTasksBeforeTime
  dsimp only
  rw [hl]
  generalize ((timedOutItems s q now).getLast?.map IndexItem.time).getD now = time
  have hi' := hi.step (setQueueState_step s q { s.getQueueState q with
    lastVisitedInProgress := time } rfl)
  refine ((failAll_makes now dlqConfig l _ hi' ⟨hb.row, hb.nodup⟩
    (fun t ht => (hrow t ht).1)).weaken (fun _ => trivial)).mono (fun s' hs => ?_)
  obtain ⟨es, hes, hf⟩ := hs
  refine hes.queueState (fun e he => ?_)
  have hkinds : ∀ k ∈ [EventKind.deleted, .retried, .died],
      k ∉ [EventKind.dropped, .sequenced, .tuned] := by decide
  exact hkinds _ (hf.all (fun _ _ _ hf => hf.kinds) e he)

/-- What no task of a batch changes, the batch does not change. -/
theorem foldl_keeps {α : Type} (g : State → α) {f : State → Task → State}
    (hf : ∀ s t, g (f s t) = g s) (l : List Task) (s : State) : g (l.foldl f s) = g s := by
  induction l generalizing s with
  | nil => rfl
  | cons t l ih => rw [List.foldl_cons, ih, hf]

theorem applyScan_queueState (s : State) (q : QueueId) (now keepalive cursor : Time) (b : Scan) :
    (applyScan s q now keepalive cursor b).queueState =
      s.queueState.set q { s.getQueueState q with lastVisitedEnqueued := cursor } := by
  unfold applyScan
  dsimp only
  rw [foldl_keeps State.queueState (f := leaseTask q now keepalive) (fun _ _ => rfl),
    foldl_keeps State.queueState (f := dropExpired q) (fun _ _ => rfl)]
  rfl

theorem chargeLimiter_same (s : State) (q : QueueId) (limiter : Option RateLimiterState) (n : Nat) :
    SameHeads s (chargeLimiter s q limiter n) ∧
      (chargeLimiter s q limiter n).queueState = s.queueState := by
  unfold chargeLimiter
  cases limiter with
  | none | some st => exact ⟨⟨rfl, rfl, rfl, rfl⟩, rfl⟩

/-- Dequeue past the purge check, in terms of its two passes: mid is the state
between them, and only the two cursors of the queue have moved at the end. -/
theorem dequeueTasks_scans {req : DequeueRequest} (h : Heads c s) (hi : Indexed th s.rows) :
    Ensures True (dequeueTasks s now req) (fun a => ∃ mid items b ts, ∃ cursor : Time,
      dequeueInProgressTasksBeforeTime s req.queueId now req.deadLetterQueueConfig = .ok mid ∧
      (mid.getQueueState req.queueId).lastVisitedEnqueued =
        (s.getQueueState req.queueId).lastVisitedEnqueued ∧
      items = listInRange mid.queueIndex req.queueId
        (s.getQueueState req.queueId).lastVisitedEnqueued now ∧
      Scanned mid req.queueId now items b ts ∧
      cursor = (if items = [] then now else b.lastVisitedEnqueued) ∧
      SameHeads (applyScan mid req.queueId now req.keepaliveTimeoutInSeconds cursor b) a.1 ∧
      ∀ q, a.1.queueState.get q = if q = req.queueId then some { s.getQueueState q with
        lastVisitedInProgress := ((timedOutItems s q now).getLast?.map IndexItem.time).getD now,
        lastVisitedEnqueued := cursor } else s.queueState.get q) := by
  unfold dequeueTasks
  refine Ensures.bind_any (fun limiter => ?_)
  have hheads : Ensures True (dequeueInProgressTasksBeforeTime s req.queueId now
      req.deadLetterQueueConfig) (Heads c.plain) :=
    dequeueInProgressTasksBeforeTime_heads _ h.plain hi False.elim False.elim
  have hmade : Ensures True (dequeueInProgressTasksBeforeTime s req.queueId now
      req.deadLetterQueueConfig) _ :=
    (dequeueInProgressTasksBeforeTime_makes hi).weaken (fun _ => trivial)
  refine ((hheads.and hmade).and (dequeueInProgressTasksBeforeTime_queueState hi)).self.bind
    (fun mid hmid => ?_)
  obtain ⟨hok, ⟨hmid, hmakes⟩, hqs⟩ := hmid
  have hst : mid.getQueueState req.queueId = { s.getQueueState req.queueId with
      lastVisitedInProgress :=
        ((timedOutItems s req.queueId now).getLast?.map IndexItem.time).getD now } := by
    unfold State.getQueueState
    rw [hqs, Table.get_set_self]
    rfl
  have hcursor := congrArg QueueState.lastVisitedEnqueued hst
  obtain ⟨items, b, ts, hitems, hscan, hscans, _⟩ :=
    dequeueTasksBeforeTime_scans (hmakes.indexed hi) hmid.queueSound
  rw [hscans]
  refine Ensures.ok ⟨mid, items, b, ts, _, hok, hcursor, hcursor ▸ hitems, hscan, rfl,
    (chargeLimiter_same _ _ _ _).1, fun q => ?_⟩
  rw [(chargeLimiter_same _ _ _ _).2, applyScan_queueState, Table.get_set]
  by_cases hq : q = req.queueId
  · rw [if_pos hq, if_pos hq, hst, hq]
  · rw [if_neg hq, if_neg hq, hqs, Table.get_set_ne _ _ hq]

theorem dequeueTasks_heads {req : DequeueRequest} (h : Heads (s.scope th tr) s)
    (hi : Indexed th s.rows) (hpace : tr → Paced s.rows)
    (hclock : tr → Clock (s.scope th tr) now)
    (hsafe : Op.Safe (s.scope th tr) s now (.dequeue req)) :
    Ensures True (dequeueTasks s now req) (fun a => Heads (a.1.scope th tr) a.1) := by
  have hmid : Ensures True (dequeueInProgressTasksBeforeTime s req.queueId now
      req.deadLetterQueueConfig) (Heads (s.scope th tr)) := by
    refine (dequeueInProgressTasksBeforeTime_heads _ h.lend hi ?_ (fun hc i hm => ?_)).mono
      (fun s' hs' => hs'.reclaim (fun _ _ hf => hf))
    · intro hc id t interval row hint
      have hv := (hpace hc id t row).interval hint
      exact (hclock hc).front _ _ ((hclock hc).retry interval hv.1 hv.2)
    · obtain ⟨t, row, _⟩ := hi.of_inProgress_item (List.mem_of_mem_filter (List.mem_of_mem_take hm))
      exact ⟨t, row, hsafe hc i hm t row⟩
  refine (dequeueTasks_scans h hi).mono (fun a ha => ?_)
  obtain ⟨mid, items, b, ts, cursor, hok, hold, hitems, hscan, hcur, hsame, hget⟩ := ha
  have hmid := hmid.elim hok
  have hlast : Heads (s.scope th tr) (applyScan mid req.queueId now req.keepaliveTimeoutInSeconds
    cursor b) := applyScan_heads hmid hscan.queued hscan.visited
  refine (hlast.same hsame).rescope (fun ht => ht) (fun id hu => ?_) (fun hd => hd)
    (fun hc q i hm => ?_) (fun _ _ _ _ hh => absurd hh id)
  · change id.taskId ≤ sequenceOf s.queueState id.queue at hu
    change id.taskId ≤ sequenceOf _ id.queue
    unfold sequenceOf at hu ⊢
    rw [hget]
    split_ifs
    · exact hu
    · exact hu
  · change ((_ : State).getQueueState q).lastVisitedEnqueued.rank ≤ i.time.rank
    rw [hsame.queueIndex] at hm
    obtain ⟨hin, hnot⟩ := (applyScan_items hscan.visited).mp hm
    have hfront := hmid.queue_front hc
    unfold State.getQueueState
    rw [hget]
    split_ifs with hq
    · subst hq
      have hle := hscan.cursor_le (hold ▸ hitems)
        (fun j hj => by rw [hold]; exact hfront _ j hj) hin (fun t ht he => hnot t ht ⟨rfl, he⟩)
      rw [← hcur] at hle
      exact hle
    · exact hfront q i hin

/-- Without threads only the rows say which ids are given out. -/
theorem Heads.reuse {used : TaskId → Prop} (h : Heads c s) (hth : ¬c.threaded)
    (hrow : ∀ id t, s.tasks.get id = some t → used id) : Heads { c with used := used } s :=
  ⟨⟨fun id t ht => ⟨(h.row id t ht).1, hrow id t ht, (h.row id t ht).2.2⟩,
    h.queue_row, h.queue_free, h.queue_head, h.queue_front, h.leased_head,
    fun k thread hk => absurd (h.thread_key k thread hk).2.2.2.1 hth, h.head_live,
    fun k i hi => absurd (h.member_key k i hi).2.1 hth, h.member_live, h.ahead⟩,
    fun k => ⟨(h.settled k).record, (h.settled k).time, (h.settled k).first⟩⟩

/-- Every safe call keeps the threads in order. -/
theorem exec_heads {op : Op} (h : Heads (s.scope th tr) s) (hi : Indexed th s.rows)
    (hseq : Sequenced s.rows) (hth : op.threaded → th) (hpace : tr → Paced s.rows)
    (hclock : tr → Clock (s.scope th tr) now) (hsafe : op.Safe (s.scope th tr) s now) :
    Ensures True (exec s now op) (fun a => Heads (a.1.scope th tr) a.1) := by
  have hmade : Ensures True (exec s now op) _ :=
    exec_makes hi h hseq hth (fun _ => trivial) (fun _ => trivial)
  -- operations that write no queue state keep the scope
  have keep : ∀ {x : Except CoreError (State × Response)}, exec s now op = x →
      Ensures True x (fun a => Heads (s.scope th tr) a.1) →
      (∀ k ∈ op.kinds, k ∉ [EventKind.dropped, .sequenced, .tuned]) →
      Ensures True x (fun a => Heads (a.1.scope th tr) a.1) := by
    intro x hx hheads hk
    rw [hx] at hmade
    refine (hheads.and hmade).mono (fun a ha => ?_)
    obtain ⟨ha, es, hes, hc, _⟩ := ha
    rw [scope_eq (hes.queueState (fun e he => hk _ (hc.kinds e he)))]
    exact ha
  cases op with
  | enqueue req =>
    exact Ensures.map (enqueue_heads h hi hseq (fun e he hn => hth ⟨e, he, hn⟩) hsafe)
  | dequeue req =>
    refine Ensures.map ?_
    unfold dequeue
    cases checkQueueNotPurged s req.queueId with
    | some err => exact Ensures.ok h
    | none =>
      exact (dequeueTasks_heads h hi hpace hclock hsafe).bind (fun a ha => Ensures.ok ha)
  | reportStatus req =>
    refine keep rfl (Ensures.map ?_) (by simp [Op.kinds])
    exact reportEntries_heads req.deadLetterQueueConfig req.entries s h hi (fun _ _ hf => hf) hpace
      hclock hsafe
  | deleteTasks req =>
    exact keep rfl (Ensures.map (deleteTasks_heads req h (fun _ _ hf => hf) hsafe))
      (by simp [Op.kinds])
  | restartTasks req =>
    exact keep rfl (Ensures.map (restartEntries_heads req.entries s h hsafe)) (by simp [Op.kinds])
  | purgeQueue q => exact Ensures.ok (h.same ⟨rfl, rfl, rfl, rfl⟩)
  | runTasksGarbageCollection req =>
    refine keep rfl (Ensures.map ?_) (by simp [Op.kinds])
    exact (runTasksGarbageCollection_heads req h.lend hi (fun hc id t row hs hd hn =>
      ⟨t, row, hsafe hc id t row hs hd hn⟩)).mono (fun s' hs' => hs'.reclaim (fun _ _ hf => hf))
  | runPurgeQueueGarbageCollection req =>
    have hheads : Ensures True (exec s now (.runPurgeQueueGarbageCollection req))
        (fun a => Heads (s.scope th tr) a.1) :=
      Ensures.map (runPurgeQueueGarbageCollection_heads req h hi hsafe.1)
    refine (hheads.and hmade).mono (fun a ha => ?_)
    obtain ⟨ha, _, _, _, hseq'⟩ := ha
    exact (ha.reuse hsafe.2 hseq').rescope (fun ht => ht) (fun _ hu => hu) (fun hd => hd)
      (fun hd => absurd hd hsafe.1) (fun hd => absurd hd hsafe.1)

/-- The state of the tasks core between two calls. -/
structure Sound (th tr : Prop) (s : State) : Prop where
  indexed : Indexed th s.rows
  heads : Heads (s.scope th tr) s
  sequenced : Sequenced s.rows
  paced : tr → Paced s.rows

theorem Sound.empty : Sound th tr State.empty where
  indexed := Indexed.empty
  heads := Heads.empty
  sequenced := Sequenced.empty
  paced _ id t ht := by simp [State.rows, State.empty] at ht

theorem exec_sound {op : Op} (h : Sound th tr s) (hth : op.threaded → th) (hv : tr → op.valid)
    (hclock : tr → Clock (s.scope th tr) now) (hsafe : op.Safe (s.scope th tr) s now) :
    Ensures True (exec s now op) (fun a => Sound th tr a.1) := by
  have hmade : Ensures True (exec s now op) _ :=
    exec_makes h.indexed h.heads h.sequenced hth (fun _ => trivial) (fun _ => trivial)
  refine (hmade.and (exec_heads h.heads h.indexed h.sequenced hth h.paced hclock hsafe)).self.mono
    ?_
  intro a ha
  obtain ⟨heq, ⟨es, hes, _, hseq⟩, hheads⟩ := ha
  exact ⟨h.indexed.steps hes, hheads, hseq,
    fun ht => ((h.paced ht).exec (hv ht) (hclock ht)).elim heq⟩

theorem commit_sound {op : Op} (h : Sound th tr s) (hth : op.threaded → th) (hv : tr → op.valid)
    (hclock : tr → Clock (s.scope th tr) now) (hsafe : op.Safe (s.scope th tr) s now) :
    Sound th tr (commit s now op) :=
  commit_keeps h (exec_sound h hth hv hclock hsafe)

end Exec

end Moab
