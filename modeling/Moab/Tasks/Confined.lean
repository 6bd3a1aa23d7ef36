import Moab.Tasks.Areas

namespace Moab

open OrderedStore

variable [OrderedStore]

/-- What a row must say of itself for a call that acts on it to stay in its queue. -/
def Address.Proper : (a : Address) → a.Value → Prop
  | .task id, (t : Task) => t.id = id
  | .thread k, (x : Thread) => x.headTaskId.queue = k.queue
  | _, _ => True

/-- A call on queue q that started in s₀ is in s, and the same call on another
store is in u: the two agree on q, and the rest of s is as it was. -/
structure Paired (q : QueueId) (s₀ s u : State) : Prop where
  same : ∀ a, a.queue = q → s.value a = u.value a
  frame : ∀ a, a.queue ≠ q → s.value a = s₀.value a
  proper : ∀ a v, a.queue = q → s.value a = some v → a.Proper v

/-- All that is stored for one queue. -/
def Area.ofQueue (q : QueueId) : Area where
  task id := id.queue = q
  dedupeKey k := k.queue = q
  thread k := k.queue = q
  counter p := p = q
  tally _ := False
  queue p := p = q

omit [OrderedStore] in
theorem Area.ofQueue_owns {q : QueueId} {a : Address} : (Area.ofQueue q).Owns a ↔ a.queue = q := by
  cases a <;> exact Iff.rfl

omit [OrderedStore] in
theorem Area.ofQueue_spans {q : QueueId} : (Area.ofQueue q).Spans q :=
  ⟨fun _ h => h, fun _ h => h, fun _ h => h, rfl⟩

/-- The same with an answer. -/
def PairedWith {α : Type} (q : QueueId) (s₀ : State) (a b : State × α) : Prop :=
  Paired q s₀ a.1 b.1 ∧ a.2 = b.2

namespace Paired

variable {q : QueueId} {s₀ s u : State} {t : Task}

theorem alike (h : Paired q s₀ s u) : Alike (Area.ofQueue q) s₀ s u where
  same a ha := h.same a (Area.ofQueue_owns.mp ha)
  frame a ha _ := h.frame a (fun hq => ha (Area.ofQueue_owns.mpr hq))
  proper a v ha hv := by
    have hq := Area.ofQueue_owns.mp ha
    have hp := h.proper a v hq hv
    cases a with
    | task id => exact hp
    | thread k => exact ⟨hq, hp, hp.trans hq⟩
    | member k i => exact hq
    | _ => trivial

theorem of_alike (h : Alike (Area.ofQueue q) s₀ s u) : Paired q s₀ s u where
  same a ha := h.same a (Area.ofQueue_owns.mpr ha)
  frame a ha := by
    refine h.frame a (fun hq => ha (Area.ofQueue_owns.mp hq)) ?_
    cases a <;> exact id
  proper a v ha hv := by
    have hp := h.proper a v (Area.ofQueue_owns.mpr ha) hv
    cases a with
    | task id => exact hp
    | thread k => exact hp.queue
    | _ => trivial

section Writes

theorem write {s' u' : State} {a : Address} {v : Option a.Value} (h : Paired q s₀ s u)
    (hs : Wrote a v s s') (hu : Wrote a v u u') (ha : a.queue = q)
    (hv : ∀ x, v = some x → a.Proper x) : Paired q s₀ s' u' where
  same b hb := by
    by_cases hba : b = a
    · subst hba
      rw [hs.here, hu.here]
    · rw [hs.there b hba, hu.there b hba]
      exact h.same b hb
  frame b hb := by
    have hba : b ≠ a := by
      rintro rfl
      exact hb ha
    rw [hs.there b hba]
    exact h.frame b hb
  proper b x hb hx := by
    by_cases hba : b = a
    · subst hba
      rw [hs.here] at hx
      exact hv x hx
    · rw [hs.there b hba] at hx
      exact h.proper b x hb hx

theorem put {s' u' : State} {a : Address} {x : a.Value} (h : Paired q s₀ s u)
    (hs : Wrote a (some x) s s') (hu : Wrote a (some x) u u') (ha : a.queue = q)
    (hx : a.Proper x) : Paired q s₀ s' u' :=
  h.write hs hu ha (fun _ hy => Option.some.inj hy ▸ hx)

theorem drop {s' u' : State} {a : Address} (h : Paired q s₀ s u) (hs : Wrote a none s s')
    (hu : Wrote a none u u') (ha : a.queue = q) : Paired q s₀ s' u' :=
  h.write hs hu ha (fun _ hy => nomatch hy)

theorem setTask (h : Paired q s₀ s u) (ht : t.id.queue = q) :
    Paired q s₀ (s.setTask t) (u.setTask t) :=
  h.put (.setTask t) (.setTask t) ht rfl

theorem deleteRow {id : TaskId} (h : Paired q s₀ s u) (hid : id.queue = q) :
    Paired q s₀ (s.deleteRow id) (u.deleteRow id) :=
  h.drop (.deleteTask id) (.deleteTask id) hid

theorem addQueued (h : Paired q s₀ s u) (i : IndexItem) :
    Paired q s₀ { s with queueIndex := s.queueIndex.add q i }
      { u with queueIndex := u.queueIndex.add q i } :=
  h.put (.addQueued q i) (.addQueued q i) rfl trivial

theorem removeQueued (h : Paired q s₀ s u) (i : IndexItem) :
    Paired q s₀ { s with queueIndex := s.queueIndex.remove q i }
      { u with queueIndex := u.queueIndex.remove q i } :=
  h.drop (.removeQueued q i) (.removeQueued q i) rfl

theorem addInProgress (h : Paired q s₀ s u) (i : IndexItem) :
    Paired q s₀ { s with inProgressIndex := s.inProgressIndex.add q i }
      { u with inProgressIndex := u.inProgressIndex.add q i } :=
  h.put (.addInProgress q i) (.addInProgress q i) rfl trivial

theorem addExpiration (h : Paired q s₀ s u) (ht : t.id.queue = q) :
    Paired q s₀ (s.addExpiration t) (u.addExpiration t) :=
  h.put (.addExpiration t.expirationItem) (.addExpiration t.expirationItem) ht trivial

theorem removeExpiration (h : Paired q s₀ s u) (ht : t.id.queue = q) :
    Paired q s₀ (s.removeExpiration t) (u.removeExpiration t) :=
  h.drop (.removeExpiration t.expirationItem) (.removeExpiration t.expirationItem) ht

theorem setCounter (h : Paired q s₀ s u) (c : TasksCounter) :
    Paired q s₀ (s.setCounter q c) (u.setCounter q c) :=
  h.put (.setCounter q c) (.setCounter q c) rfl trivial

theorem setQueueState (h : Paired q s₀ s u) (st : QueueState) :
    Paired q s₀ (s.setQueueState q st) (u.setQueueState q st) :=
  h.put (.setQueueState q st) (.setQueueState q st) rfl trivial

end Writes

section Reads

theorem task (h : Paired q s₀ s u) {id : TaskId} (hid : id.queue = q) :
    s.tasks.get id = u.tasks.get id := h.same (.task id) hid

theorem getTask (h : Paired q s₀ s u) {id : TaskId} (hid : id.queue = q) :
    s.getTask id = u.getTask id := by
  unfold State.getTask
  rw [h.task hid]

theorem getCounter (h : Paired q s₀ s u) : s.getCounter q = u.getCounter q :=
  congrArg (fun c : Option TasksCounter => c.getD .zero) (h.same (.counter q) rfl)

theorem getQueueState (h : Paired q s₀ s u) : s.getQueueState q = u.getQueueState q :=
  congrArg (fun c : Option QueueState => c.getD .zero) (h.same (.queueState q) rfl)

theorem queueItems (h : Paired q s₀ s u) : s.queueIndex.items q = u.queueIndex.items q :=
  Index.items_ext (fun i => presence_inj (h.same (.queued q i) rfl))

theorem inProgressItems (h : Paired q s₀ s u) :
    s.inProgressIndex.items q = u.inProgressIndex.items q :=
  Index.items_ext (fun i => presence_inj (h.same (.inProgress q i) rfl))

theorem deadItems (h : Paired q s₀ s u) : s.deadTasksIndex.items q = u.deadTasksIndex.items q :=
  Index.items_ext (fun i => presence_inj (h.same (.dead q i) rfl))

/-- A task that was read belongs to the queue. -/
theorem queue_of_get (h : Paired q s₀ s u) {id : TaskId} (hid : id.queue = q)
    (row : u.tasks.get id = some t) : t.id.queue = q := by
  rw [← h.task hid] at row
  have ht : t.id = id := h.proper (.task id) t hid row
  rw [ht, hid]

theorem queue_of_getTask (h : Paired q s₀ s u) {id : TaskId} (hid : id.queue = q)
    (ht : u.getTask id = .ok t) : t.id.queue = q :=
  h.queue_of_get hid (State.getTask_eq_ok.mp ht)

/-- The rows behind a page of index items. -/
theorem getTasks (h : Paired q s₀ s u) (items : List IndexItem) :
    items.mapM (fun i => s.getTask (q.task i.taskId)) =
      items.mapM (fun i => u.getTask (q.task i.taskId)) :=
  mapM_congr (fun _ _ => h.getTask rfl)

theorem queue_of_getTasks (h : Paired q s₀ s u) {items : List IndexItem} {ts : List Task}
    (hts : items.mapM (fun i => u.getTask (q.task i.taskId)) = .ok ts) :
    ∀ t ∈ ts, t.id.queue = q := by
  intro t ht
  obtain ⟨i, _, hi⟩ := exists_of_mem_right (forall₂_of_mapM_ok hts) ht
  exact h.queue_of_getTask rfl hi

end Reads

section Lifecycle

variable {now : Time}

theorem rescheduleTaskInThread (h : Paired q s₀ s u) (ht : t.id.queue = q) (oldScheduledAt : Time) :
    Related (Paired q s₀) (rescheduleTaskInThread s t oldScheduledAt)
      (rescheduleTaskInThread u t oldScheduledAt) :=
  (h.alike.rescheduleTaskInThread ht ht oldScheduledAt).mono (fun _ _ => of_alike)

theorem createTask (h : Paired q s₀ s u) (ht : t.id.queue = q) :
    Related (Paired q s₀) (createTask s t) (createTask u t) :=
  (h.alike.createTask (Area.ofQueue_spans.covers ht)).mono (fun _ _ => of_alike)

theorem deleteTask (h : Paired q s₀ s u) (ht : t.id.queue = q) (reason : TaskDeletionReason) :
    Related (Paired q s₀) (deleteTask s t reason) (deleteTask u t reason) :=
  (h.alike.deleteTask (Area.ofQueue_spans.covers ht) reason).mono (fun _ _ => of_alike)

theorem heartbeatTask (h : Paired q s₀ s u) (ht : t.id.queue = q) (keepalive : Time) :
    Related (Paired q s₀) (heartbeatTask s t now keepalive) (heartbeatTask u t now keepalive) :=
  (h.alike.heartbeatTask (Area.ofQueue_spans.covers ht) keepalive).mono (fun _ _ => of_alike)

theorem handleTaskFailure (h : Paired q s₀ s u) (ht : t.id.queue = q)
    (dlqConfig : Option DeadLetterQueueConfig) :
    Related (Paired q s₀) (handleTaskFailure s t now dlqConfig)
      (handleTaskFailure u t now dlqConfig) :=
  (h.alike.handleTaskFailure (ht.symm ▸ Area.ofQueue_spans) dlqConfig).mono (fun _ _ => of_alike)

theorem restartTask (h : Paired q s₀ s u) (ht : t.id.queue = q) (scheduledAt expiresAt : Time) :
    Related (PairedWith q s₀) (restartTask s t now scheduledAt expiresAt)
      (restartTask u t now scheduledAt expiresAt) :=
  (h.alike.restartTask (Area.ofQueue_spans.covers ht) scheduledAt expiresAt).mono
    (fun _ _ h' => ⟨of_alike h'.1, h'.2⟩)

end Lifecycle

section Calls

variable {now : Time}

theorem checkQueueNotPurged (h : Paired q s₀ s u) :
    checkQueueNotPurged s q = checkQueueNotPurged u q :=
  congrArg (Option.map _) (h.same (.purgeGCRecord q) rfl)

theorem getTaskIdByDedupeKey (h : Paired q s₀ s u) (dedupeKey : Bytes) :
    getTaskIdByDedupeKey s q dedupeKey = getTaskIdByDedupeKey u q dedupeKey :=
  congrArg (Option.map q.task) (h.same (.dedupeKey ⟨q, dedupeKey⟩) rfl)

theorem overwriteField (scheduledAt : Time) (payload : Bytes) (expiresAt : Time)
    (o : OverwriteOnDuplicate) {a b : State × Task}
    (h : PairedWith q s₀ a b ∧ a.2.id.queue = q) :
    Related (fun a b => PairedWith q s₀ a b ∧ a.2.id.queue = q)
      (overwriteField scheduledAt payload expiresAt a o)
      (overwriteField scheduledAt payload expiresAt b o) := by
  obtain ⟨s, t⟩ := a
  obtain ⟨u, t'⟩ := b
  obtain ⟨⟨h, rfl⟩, ht⟩ := h
  change Paired q s₀ s u at h
  change t.id.queue = q at ht
  subst ht
  cases o with
  | invalid | payload => exact .ok ⟨⟨h, rfl⟩, rfl⟩
  | expiresAt => exact .ok ⟨⟨(h.removeExpiration rfl).addExpiration rfl, rfl⟩, rfl⟩
  | scheduledAt =>
    apply Related.ite
    · exact fun _ => .ok ⟨⟨(h.removeQueued _).addQueued _, rfl⟩, rfl⟩
    · intro _
      let t' : Task := { t with scheduledAt := scheduledAt }
      refine ((h.setTask (t := t') rfl).rescheduleTaskInThread (t := t') rfl t.scheduledAt).bind ?_
      intro s' u' h'
      exact .ok ⟨⟨h', rfl⟩, rfl⟩

theorem overwriteDuplicate (h : Paired q s₀ s u) {id : TaskId} (hid : id.queue = q)
    (overwrites : List OverwriteOnDuplicate) (scheduledAt : Time) (payload : Bytes)
    (expiresAt : Time) :
    Related (PairedWith q s₀) (overwriteDuplicate s id overwrites scheduledAt payload expiresAt)
      (overwriteDuplicate u id overwrites scheduledAt payload expiresAt) := by
  apply Related.ite
  · exact fun _ => .ok ⟨h, rfl⟩
  · intro _
    refine .bind_same (h.getTask hid) ?_
    intro duplicate hduplicate
    apply Related.ite
    · intro _
      have hstart : PairedWith q s₀ (s, duplicate) (u, duplicate) ∧ duplicate.id.queue = q :=
        ⟨⟨h, rfl⟩, h.queue_of_getTask hid hduplicate⟩
      refine (Related.foldlM (fun o _ _ _ hab => overwriteField scheduledAt payload expiresAt o hab)
        hstart).bind ?_
      rintro ⟨s', t⟩ ⟨u', _⟩ ⟨⟨h', rfl⟩, ht⟩
      exact .ok ⟨h'.setTask ht, rfl⟩
    · exact fun _ => .ok ⟨h, rfl⟩

theorem enqueueEntry (h : Paired q s₀ s u) (sequence : Nat) (e : EnqueueRequestEntry) :
    Related (PairedWith q s₀) (enqueueEntry q now s sequence e)
      (enqueueEntry q now u sequence e) := by
  have hduplicate : duplicateOf s q e = duplicateOf u q e := by
    unfold duplicateOf
    rw [h.getTaskIdByDedupeKey]
  unfold Moab.enqueueEntry
  rw [hduplicate]
  cases hd : duplicateOf u q e with
  | none =>
    refine (h.createTask (t := newTask q (sequence + 1) e now) rfl).bind ?_
    intro s' u' h'
    exact .ok ⟨h', rfl⟩
  | some id =>
    have hid : id.queue = q := by
      unfold duplicateOf Moab.getTaskIdByDedupeKey at hd
      split_ifs at hd
      obtain ⟨n, _, rfl⟩ := Option.map_eq_some_iff.mp hd
      rfl
    refine (h.overwriteDuplicate hid _ _ _ _).bind ?_
    rintro ⟨s', t⟩ ⟨u', _⟩ ⟨h', rfl⟩
    exact .ok ⟨h', rfl⟩

theorem enqueueEntries (h : Paired q s₀ s u) (sequence : Nat) (es : List EnqueueRequestEntry) :
    Related (PairedWith q s₀) (enqueueEntries q now s sequence es)
      (enqueueEntries q now u sequence es) := by
  induction es generalizing s u sequence with
  | nil => exact .ok ⟨h, rfl⟩
  | cons e es ih =>
    refine (h.enqueueEntry sequence e).bind ?_
    rintro ⟨s', n, t⟩ ⟨u', _⟩ ⟨h', rfl⟩
    refine (ih h' n).bind ?_
    rintro ⟨s'', m, ts⟩ ⟨u'', _⟩ ⟨h'', rfl⟩
    exact .ok ⟨h'', rfl⟩

theorem enqueue {req : EnqueueRequest} (h : Paired q s₀ s u) (hreq : req.queueId = q) :
    Related (PairedWith q s₀) (enqueue s now req) (enqueue u now req) := by
  subst hreq
  unfold Moab.enqueue
  rw [h.checkQueueNotPurged]
  cases Moab.checkQueueNotPurged u req.queueId with
  | some e => exact .ok ⟨h, rfl⟩
  | none =>
    dsimp only
    rw [h.getQueueState]
    refine (h.enqueueEntries _ req.entries).bind ?_
    rintro ⟨s', n, ts⟩ ⟨u', _⟩ ⟨h', rfl⟩
    exact .ok ⟨h'.setQueueState _, rfl⟩

theorem rateLimiterFor {req : DequeueRequest} (h : Paired q s₀ s u) (hreq : req.queueId = q) :
    rateLimiterFor s req now = rateLimiterFor u req now := by
  subst hreq
  have hrow : s.rateLimiters.get req.queueId = u.rateLimiters.get req.queueId :=
    h.same (.rateLimiter req.queueId) rfl
  unfold Moab.rateLimiterFor State.getRateLimiter
  rw [hrow]

theorem dequeueInProgressTasksBeforeTime (h : Paired q s₀ s u)
    (dlqConfig : Option DeadLetterQueueConfig) :
    Related (Paired q s₀) (dequeueInProgressTasksBeforeTime s q now dlqConfig)
      (dequeueInProgressTasksBeforeTime u q now dlqConfig) := by
  have hitems : timedOutItems s q now = timedOutItems u q now := by
    unfold timedOutItems listInRange
    rw [h.inProgressItems, h.getQueueState]
  unfold Moab.dequeueInProgressTasksBeforeTime
  dsimp only
  rw [hitems, h.getQueueState]
  refine .bind_same (h.getTasks _) ?_
  intro timedOut htimedOut
  exact .foldlM
    (fun t ht _ _ h' => h'.handleTaskFailure (h.queue_of_getTasks htimedOut t ht) dlqConfig)
    (h.setQueueState _)

/-- What a scan has collected so far is of its queue. -/
def ScanOf (q : QueueId) (a : Scan) : Prop :=
  (∀ t ∈ a.expiredTasks, t.id.queue = q) ∧ ∀ t ∈ a.dequeuedTasks, t.id.queue = q

omit [OrderedStore] in
theorem ScanOf.visit {a : Scan} (ha : ScanOf q a) (i : IndexItem) (ht : t.id.queue = q) :
    ScanOf q (a.visit i t now) := by
  unfold Scan.visit
  split_ifs
  · refine ⟨?_, ha.2⟩
    intro x hx
    rcases List.mem_append.mp hx with hx | hx
    · exact ha.1 x hx
    · obtain rfl := List.mem_singleton.mp hx
      exact ht
  · refine ⟨ha.1, ?_⟩
    intro x hx
    rcases List.mem_append.mp hx with hx | hx
    · exact ha.2 x hx
    · obtain rfl := List.mem_singleton.mp hx
      exact ht

theorem scanQueue (h : Paired q s₀ s u) (limit : Time) (settings : Option DequeuingSettings)
    (items : List IndexItem) {a : Scan} (ha : ScanOf q a) :
    Related (fun a b => a = b ∧ ScanOf q a) (scanQueue s q now limit settings a items)
      (scanQueue u q now limit settings a items) := by
  induction items generalizing a with
  | nil => exact .ok ⟨rfl, ha⟩
  | cons i items ih =>
    apply Related.ite
    · exact fun _ => .ok ⟨rfl, ha⟩
    · intro _
      refine .bind_same (h.getTask rfl) ?_
      intro t ht
      exact ih (ha.visit i (h.queue_of_getTask rfl ht))

theorem dropExpired (h : Paired q s₀ s u) (ht : t.id.queue = q) :
    Paired q s₀ (dropExpired q s t) (dropExpired q u t) := by
  have hrow := ((h.removeQueued t.queueIndexItem).removeExpiration ht).deleteRow ht
  subst ht
  unfold Moab.dropExpired
  split_ifs
  · exact hrow
  · exact hrow.drop (.deleteDedupeKey t.dedupe) (.deleteDedupeKey t.dedupe) rfl

theorem leaseTask (h : Paired q s₀ s u) (ht : t.id.queue = q) (keepalive : Time) :
    Paired q s₀ (leaseTask q now keepalive s t) (leaseTask q now keepalive u t) :=
  (((h.removeQueued t.queueIndexItem).removeExpiration ht).setTask
    (t := t.lease now keepalive) ht).addInProgress _

theorem applyScan (h : Paired q s₀ s u) (keepalive cursor : Time) {a : Scan} (ha : ScanOf q a) :
    Paired q s₀ (applyScan s q now keepalive cursor a) (applyScan u q now keepalive cursor a) := by
  unfold Moab.applyScan
  dsimp only
  rw [h.getQueueState]
  have hdrop : ∀ t ∈ a.expiredTasks, ∀ s' u', Paired q s₀ s' u' →
      Paired q s₀ (Moab.dropExpired q s' t) (Moab.dropExpired q u' t) :=
    fun t ht _ _ h' => h'.dropExpired (ha.1 t ht)
  have hlease : ∀ t ∈ a.dequeuedTasks, ∀ s' u', Paired q s₀ s' u' →
      Paired q s₀ (Moab.leaseTask q now keepalive s' t) (Moab.leaseTask q now keepalive u' t) :=
    fun t ht _ _ h' => h'.leaseTask (ha.2 t ht) keepalive
  exact Related.foldl hlease (Related.foldl hdrop ((h.setQueueState _).setCounter _))

theorem dequeueTasksBeforeTime (h : Paired q s₀ s u) (limit : Time)
    (settings : Option DequeuingSettings) (keepalive : Time) :
    Related (PairedWith q s₀) (dequeueTasksBeforeTime s q now limit settings keepalive)
      (dequeueTasksBeforeTime u q now limit settings keepalive) := by
  unfold Moab.dequeueTasksBeforeTime listInRange
  dsimp only
  rw [h.getQueueState, h.getCounter, h.queueItems]
  have hnone : ScanOf q ⟨[], [], (u.getQueueState q).lastVisitedEnqueued, u.getCounter q, 0⟩ := by
    simp [ScanOf]
  refine (h.scanQueue limit settings _ hnone).bind ?_
  rintro a _ ⟨rfl, ha⟩
  exact .ok ⟨h.applyScan keepalive _ ha, rfl⟩

theorem chargeLimiter (h : Paired q s₀ s u) (limiter : Option RateLimiterState) (n : Nat) :
    Paired q s₀ (chargeLimiter s q limiter n) (chargeLimiter u q limiter n) := by
  cases limiter with
  | none => exact h
  | some st => exact h.put (.setRateLimiter q _) (.setRateLimiter q _) rfl trivial

theorem dequeue {req : DequeueRequest} (h : Paired q s₀ s u) (hreq : req.queueId = q) :
    Related (PairedWith q s₀) (dequeue s now req) (dequeue u now req) := by
  subst hreq
  unfold Moab.dequeue
  rw [h.checkQueueNotPurged]
  cases Moab.checkQueueNotPurged u req.queueId with
  | some e => exact .ok ⟨h, rfl⟩
  | none =>
    have htasks : Related (PairedWith req.queueId s₀) (dequeueTasks s now req)
        (dequeueTasks u now req) := by
      refine .bind_same (h.rateLimiterFor rfl) ?_
      intro limiter _
      refine (h.dequeueInProgressTasksBeforeTime _).bind ?_
      intro s' u' h'
      refine (h'.dequeueTasksBeforeTime _ _ _).bind ?_
      rintro ⟨s'', ts⟩ ⟨u'', _⟩ ⟨h'', rfl⟩
      exact .ok ⟨h''.chargeLimiter limiter _, rfl⟩
    refine htasks.bind ?_
    rintro ⟨s', ts⟩ ⟨u', _⟩ ⟨h', rfl⟩
    exact .ok ⟨h', rfl⟩

theorem reportStatus (h : Paired q s₀ s u) {id : TaskId} (hid : id.queue = q)
    (status : ReportStatus) (attempt : Int) (keepalive : Time)
    (dlqConfig : Option DeadLetterQueueConfig) :
    Related (PairedWith q s₀) (reportStatus s id now status attempt keepalive dlqConfig)
      (reportStatus u id now status attempt keepalive dlqConfig) := by
  unfold Moab.reportStatus
  rw [h.task hid]
  cases row : u.tasks.get id with
  | none => exact .ok ⟨h, rfl⟩
  | some t =>
    have ht := h.queue_of_get hid row
    refine .ite (fun _ => .ok ⟨h, rfl⟩) (fun _ => .ite (fun _ => .ok ⟨h, rfl⟩) (fun _ => ?_))
    cases status with
    | invalid => exact .ok ⟨h, rfl⟩
    | inProgress => exact (h.heartbeatTask ht keepalive).bind (fun _ _ h' => .ok ⟨h', rfl⟩)
    | failed => exact (h.handleTaskFailure ht dlqConfig).bind (fun _ _ h' => .ok ⟨h', rfl⟩)
    | succeeded => exact (h.deleteTask ht .succeeded).bind (fun _ _ h' => .ok ⟨h', rfl⟩)

theorem reportEntries (h : Paired q s₀ s u) (dlqConfig : Option DeadLetterQueueConfig)
    (es : List ReportStatusRequestEntry) (hes : ∀ e ∈ es, e.taskId.queue = q) :
    Related (PairedWith q s₀) (reportEntries now dlqConfig s es)
      (reportEntries now dlqConfig u es) := by
  induction es generalizing s u with
  | nil => exact .ok ⟨h, rfl⟩
  | cons e es ih =>
    refine (h.reportStatus (hes e List.mem_cons_self) _ _ _ _).bind ?_
    rintro ⟨s', r⟩ ⟨u', _⟩ ⟨h', rfl⟩
    refine (ih h' (fun e' he' => hes e' (List.mem_cons_of_mem _ he'))).bind ?_
    rintro ⟨s'', rs⟩ ⟨u'', _⟩ ⟨h'', rfl⟩
    exact .ok ⟨h'', rfl⟩

theorem deleteTasks {req : DeleteTasksRequest} (h : Paired q s₀ s u) (hreq : req.queueId = q) :
    Related (Paired q s₀) (deleteTasks s req) (deleteTasks u req) := by
  subst hreq
  refine Related.foldlM ?_ h
  intro n _ s' u' h'
  unfold deleteTaskById
  rw [h'.task rfl]
  cases row : u'.tasks.get (req.queueId.task n) with
  | none => exact .ok h'
  | some t => exact h'.deleteTask (h'.queue_of_get rfl row) .none

theorem restartEntry (h : Paired q s₀ s u) (e : RestartTasksRequestEntry) :
    Related (PairedWith q s₀) (restartEntry q now s e) (restartEntry q now u e) := by
  unfold Moab.restartEntry dedupeConflict
  rw [h.task rfl]
  cases row : u.tasks.get (q.task e.taskId) with
  | none => exact .ok ⟨h, rfl⟩
  | some t =>
    dsimp only
    rw [h.getTaskIdByDedupeKey]
    refine .ite (fun _ => .ok ⟨h, rfl⟩) (fun _ => .ite (fun _ => .ok ⟨h, rfl⟩) (fun _ =>
      .ite (fun _ => .ok ⟨h, rfl⟩) (fun _ => ?_)))
    refine (h.restartTask (h.queue_of_get rfl row) _ _).bind ?_
    rintro ⟨s', t'⟩ ⟨u', _⟩ ⟨h', rfl⟩
    exact .ok ⟨h', rfl⟩

theorem restartEntries (h : Paired q s₀ s u) (es : List RestartTasksRequestEntry) :
    Related (PairedWith q s₀) (restartEntries q now s es) (restartEntries q now u es) := by
  induction es generalizing s u with
  | nil => exact .ok ⟨h, rfl⟩
  | cons e es ih =>
    refine (h.restartEntry e).bind ?_
    rintro ⟨s', r⟩ ⟨u', _⟩ ⟨h', rfl⟩
    refine (ih h').bind ?_
    rintro ⟨s'', rs⟩ ⟨u'', _⟩ ⟨h'', rfl⟩
    exact .ok ⟨h'', rfl⟩

end Calls

end Paired

end Moab
