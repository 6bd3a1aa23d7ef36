import Moab.Tasks.Unthreaded

namespace Moab

open OrderedStore

section Waiting

variable [OrderedStore] {th : Prop} {F : TaskId → Time → Prop} {q : QueueId} {now : Time}

/-- What holds of the times at which enqueued tasks wait. -/
def Waiting (F : TaskId → Time → Prop) (r : Rows) : Prop :=
  ∀ id t, r.tasks.get id = some t → t.state = .enqueued → F id t.scheduledAt

/-- A task that waits because of the event does so at such a time. -/
def Event.waits (F : TaskId → Time → Prop) : Event → Prop
  | .created t => F t.id t.scheduledAt
  | .overwritten t t' => F t.id t.scheduledAt → F t.id t'.scheduledAt
  | .retried t t' => F t.id t'.scheduledAt
  | .restarted t t' => F t.id t'.scheduledAt
  | _ => True

theorem Waiting.step {r r' : Rows} {e : Event} (h : Waiting F r) (hs : Step th r e r')
    (he : e.waits F) : Waiting F r' := by
  cases hs with
  | create => exact rows_set h (fun _ => he)
  | overwrite row state => exact rows_set h (fun _ => he (h _ _ row state))
  | delete => exact rows_delete h
  | renew _ state => exact rows_set h (fun hst => by simp [state] at hst)
  | retry => exact rows_set h (fun _ => he)
  | die => exact rows_set h (fun hst => by simp [Task.die] at hst)
  | restart => exact rows_set h (fun _ => he)
  | expire => exact rows_delete h
  | lease => exact rows_set h (fun hst => by simp [Task.lease] at hst)
  | _ => exact h

theorem Waiting.steps {r r' : Rows} {es : List Event} (h : Waiting F r) (hs : Steps th r es r')
    (he : ∀ e ∈ es, e.waits F) : Waiting F r' :=
  hs.invariant_of (fun e hm _ _ hw hstep => hw.step hstep (he e hm)) h

/-- The lease of the task lapses at now and the task would be retried. -/
def Task.lapses (q : QueueId) (now : Time) (t : Task) : Prop :=
  t.state = .inProgress ∧ t.id.queue = q ∧ t.visibleAt.rank ≤ now.rank ∧ ¬t.expiresAt < now

instance (t : Task) : Decidable (t.lapses q now) :=
  inferInstanceAs (Decidable (_ ∧ _ ∧ _ ∧ _))

/-- A task that waits is none of the business of the first pass of a Dequeue. -/
theorem Lapses.keeps {r r' : Rows} {es : List Event} {id : TaskId} {t : Task} (hl : Lapses q now es)
    (hs : Steps th r es r') (ht : r.tasks.get id = some t) (hst : t.state = .enqueued) :
    r'.tasks.get id = some t := by
  obtain ⟨l, fs, rfl, hfailed, hl⟩ := hl
  have hdeleted : ∀ e ∈ fs, e.kind ∈ [EventKind.deleted, .retried, .died] ∧
      ∀ u reason, e = .deleted u reason → u.state ≠ .enqueued := by
    refine hfailed.all (fun v hv es hf e he => ⟨hf.kinds e he, ?_⟩)
    have hleased := (hl v hv).1
    rintro u reason rfl
    cases hf with
    | expired | dropped =>
      obtain ⟨rfl, _⟩ := Event.deleted.inj (List.mem_singleton.mp he)
      simp [hleased]
    | retried => simp at he
    | died late dlq hev =>
      obtain ⟨dead, rfl, hdead⟩ := hev
      simp only [List.mem_cons, reduceCtorEq, List.mem_map, Event.deleted.injEq, false_or] at he
      obtain ⟨w, hw, rfl, _⟩ := he
      simp [hdead w hw]
  cases hs with
  | cons htune hs =>
    cases htune with
    | tune =>
      refine hs.invariant_of (I := fun r => r.tasks.get id = some t) ?_ ht
      intro e he a b hrow hstep
      by_cases hid : e.task = some id
      · obtain ⟨hkind, hdel⟩ := hdeleted e he
        cases hstep with
        | delete row =>
          rw [Option.some.inj hid, hrow] at row
          exact absurd (Option.some.inj row ▸ hst) (hdel _ _ rfl)
        | retry row state | die row state =>
          rw [Option.some.inj hid, hrow] at row
          rw [← Option.some.inj row, hst] at state
          simp at state
        | _ => simp [Event.kind] at hkind
      · rw [hstep.frame hid]
        exact hrow

/-- A task that expires on a path stays gone, unless tasks are created. -/
theorem Steps.expired {r r' : Rows} {es : List Event} {t : Task} (hs : Steps th r es r')
    (he : .expired t ∈ es) (hc : ∀ e ∈ es, e.kind ≠ .created) : r'.tasks.get t.id = none := by
  induction hs with
  | nil => simp at he
  | cons hstep hs ih =>
    have hrest := fun e hm => hc e (List.mem_cons_of_mem _ hm)
    rcases List.mem_cons.mp he with rfl | he
    · cases hstep with
      | expire row state =>
        by_contra hsome
        obtain ⟨u, hu⟩ := Option.ne_none_iff_exists'.mp hsome
        obtain ⟨v, hv, _⟩ := Steps.origin hs hrest hu
        simp [Rows.expire] at hv
    · exact ih he hrest

/-- The first pass of a Dequeue adds the retries of lapsed leases to what waits. -/
theorem Lapses.waiting {r r' : Rows} {es : List Event} (hl : Lapses q now es)
    (hs : Steps th r es r') (h : Waiting F r)
    (hretry : ∀ id t interval, r.tasks.get id = some t → t.lapses q now →
      retryInterval t = .ok interval → F t.id (plusSeconds now interval)) : Waiting F r' := by
  obtain ⟨l, fs, rfl, hfailed, hl⟩ := hl
  have hevent : ∀ e ∈ fs, e.kind ∈ [EventKind.deleted, .retried, .died] ∧
    ∀ t t', e = .retried t t' →
      t.lapses q now ∧ ∃ interval, retryInterval t = .ok interval ∧ t' = t.retry now interval := by
    refine hfailed.all (fun t ht es hf e he => ?_)
    refine ⟨hf.kinds e he, ?_⟩
    rintro u u' rfl
    cases hf with
    | expired => simp at he
    | dropped => simp at he
    | retried late hint =>
      obtain ⟨rfl, rfl⟩ := Event.retried.inj (List.mem_singleton.mp he)
      obtain ⟨hstate, hq, hlapsed⟩ := hl _ ht
      exact ⟨⟨hstate, hq, hlapsed, late⟩, _, hint, rfl⟩
    | died late dlq hev =>
      obtain ⟨dead, rfl, _⟩ := hev
      simp at he
  -- no event of the pass makes a lease, so what is retried was leased before
  have hrun : Waiting F r' ∧
      ∀ id t, r'.tasks.get id = some t → t.state = .inProgress → r.tasks.get id = some t := by
    cases hs with
    | cons htune hs =>
      cases htune with
      | tune =>
        refine hs.invariant_of (I := fun r' => Waiting F r' ∧ ∀ id t, r'.tasks.get id = some t →
          t.state = .inProgress → r.tasks.get id = some t) ?_ ⟨h, fun _ _ ht _ => ht⟩
        intro e he a b hab hstep
        obtain ⟨hkind, hretried⟩ := hevent e he
        obtain ⟨hw, hleased⟩ := hab
        have hnext := hw.step hstep
        cases hstep with
        | delete row => exact ⟨hnext trivial, rows_delete hleased⟩
        | retry row state =>
          obtain ⟨hlapses, interval, hint, heq⟩ := hretried _ _ rfl
          have hfront := hretry _ _ _ (hleased _ _ row state) hlapses hint
          refine ⟨hnext ?_, rows_set hleased (fun hst => ?_)⟩
          · rw [heq]
            exact hfront
          · simp [Task.retry] at hst
        | die row state =>
          refine ⟨hnext trivial, rows_set hleased (fun hst => ?_)⟩
          simp [Task.die] at hst
        | _ => simp [Event.kind] at hkind
  exact hrun.1

end Waiting

section Arrivals

variable [OrderedStore] {s : State} {q : QueueId} {now : Time}

/-- A Dequeue of the queue still looks at tasks of that time. -/
def State.reaches (s : State) (id : TaskId) (time : Time) : Prop :=
  (s.getQueueState id.queue).lastVisitedEnqueued ≤ time

/-- The entry makes a task wait at a time that is already behind the cursor: a new
one, or a duplicate that it reschedules. -/
def lags (q : QueueId) (now : Time) (s : State) (e : EnqueueRequestEntry) : Bool :=
  notBefore e.scheduledAt now < (s.getQueueState q).lastVisitedEnqueued ∧
    ((duplicateOf s q e).bind s.tasks.get).all
      (fun t => t.state = .enqueued ∧ .scheduledAt ∈ e.overwriteOnDuplicate)

/-- Overwrites that leave the time alone do not depend on the time asked for. -/
theorem overwriteDuplicate_unmoved (id : TaskId) {l : List OverwriteOnDuplicate}
    (h : .scheduledAt ∉ l) (a b : Time) (payload : Bytes) (expiresAt : Time) :
    overwriteDuplicate s id l a payload expiresAt =
      overwriteDuplicate s id l b payload expiresAt := by
  have hfold : ∀ x, l.foldlM (overwriteField a payload expiresAt) x =
      l.foldlM (overwriteField b payload expiresAt) x := by
    induction l with
    | nil => simp
    | cons o l ih =>
      intro x
      have hfield : overwriteField a payload expiresAt x o =
          overwriteField b payload expiresAt x o := by
        cases o with
        | scheduledAt => simp at h
        | _ => rfl
      have hrest := ih (fun hm => h (List.mem_cons_of_mem _ hm))
      simp only [List.foldlM_cons, hfield, hrest]
  simp only [overwriteDuplicate, hfold]

theorem enqueueEntry_waiting {n : Nat} {e : EnqueueRequestEntry} (hi : Indexed False s.rows)
    (h : Waiting s.reaches s.rows) (hlags : lags q now s e = false) :
    Ensures True (enqueueEntry q now s n e) (fun a => Waiting s.reaches a.1.rows) := by
  unfold enqueueEntry
  cases hd : duplicateOf s q e with
  | some id =>
    obtain ⟨t, row, _, hq⟩ := duplicateOf_row hi hd
    -- the wanted time may be replaced by one that is in reach
    have hmoves : ∀ wanted, s.reaches id wanted → Ensures True (overwriteDuplicate s id
        e.overwriteOnDuplicate wanted e.payload e.expiresAt)
        (fun a => Waiting s.reaches a.1.rows) := by
      intro wanted hwanted
      apply ((overwriteDuplicate_makes hi row _ _ _ _).weaken False.elim).mono
      intro a ha
      obtain ⟨es, hes, hover⟩ := ha
      apply h.steps hes
      intro ev hev
      obtain ⟨u, u', rfl, hid, htime⟩ := hover ev hev
      intro hu
      rcases htime with htime | htime
      · exact htime ▸ hu
      · rw [htime, hid]
        exact hwanted
    have hover : Ensures True (overwriteDuplicate s id e.overwriteOnDuplicate
        (notBefore e.scheduledAt now) e.payload e.expiresAt)
        (fun a => Waiting s.reaches a.1.rows) := by
      by_cases hreach : s.reaches id (notBefore e.scheduledAt now)
      · exact hmoves _ hreach
      have hrow : s.tasks.get id = some t := row
      have hstays : ¬(t.state = .enqueued ∧ .scheduledAt ∈ e.overwriteOnDuplicate) := by
        intro hmove
        unfold State.reaches at hreach
        rw [hq] at hreach
        simp [lags, hd, hrow, hmove, Int64.not_le.mp hreach] at hlags
      by_cases hst : t.state = .enqueued
      · rw [overwriteDuplicate_unmoved id (fun hm => hstays ⟨hst, hm⟩) _ t.scheduledAt]
        exact hmoves _ (h id t row hst)
      · have hg : s.getTask id = .ok t := State.getTask_eq_ok.mpr hrow
        unfold overwriteDuplicate
        rw [hg]
        apply Ensures.ite
        · exact fun _ => Ensures.ok h
        · exact fun _ => Ensures.ite (fun hx => absurd hx hst) (fun _ => Ensures.ok h)
    exact hover.bind (fun a ha => Ensures.ok ha)
  | none =>
    have hreach : s.reaches (q.task (n + 1)) (notBefore e.scheduledAt now) := by
      simpa [lags, hd, State.reaches, Int64.not_lt] using hlags
    apply ((createTask_rows s (newTask q (n + 1) e now)).weaken (fun _ => trivial)).bind
    intro s' hs'
    apply Ensures.ok
    change Waiting s.reaches s'.rows
    rw [hs']
    exact rows_set h (fun _ => hreach)

theorem enqueueEntries_waiting (es : List EnqueueRequestEntry) (s : State) (n : Nat)
    (hi : Indexed False s.rows) (hb : Below q n s.rows) (hth : ∀ e ∈ es, e.threadId = [])
    (h : Waiting s.reaches s.rows)
    (hm : Along (enqueueStep q now) (fun a e => lags q now a.1 e = false) (s, n) es) :
    Ensures True (enqueueEntries q now s n es) (fun a => Waiting s.reaches a.1.rows) := by
  induction es generalizing s n with
  | nil => exact Ensures.ok h
  | cons e es ih =>
    rw [enqueueEntries]
    have he := hth e List.mem_cons_self
    have hmade : Ensures True (enqueueEntry q now s n e) _ :=
      (enqueueEntry_makes hi hb (fun hn => hn he)).weaken False.elim
    apply ((enqueueEntry_waiting hi h hm.1).and hmade).self.bind
    intro a ha
    obtain ⟨heq, hw, _, hbelow, fs, hfs, henq⟩ := ha
    have hcursor : a.1.queueState = s.queueState := henq.queueState hfs
    have hreaches : a.1.reaches = s.reaches := by
      unfold State.reaches State.getQueueState
      rw [hcursor]
    rw [← hreaches] at hw ⊢
    have htail := hm.tail (t := (a.1, a.2.1)) (by rw [enqueueStep, heq]; rfl)
    apply (ih a.1 a.2.1 (hi.steps hfs) hbelow (fun e he => hth e (List.mem_cons_of_mem _ he)) hw
      htail).bind
    exact fun b hb => Ensures.ok hb

end Arrivals

section Polls

variable [OrderedStore] {s : State} {now : Time}

/-- The state of a run in which no task waits behind the cursor of its queue. -/
structure Drifting (s : State) : Prop where
  sound : Sound False False s
  cursor : ∀ q, 0 ≤ (s.getQueueState q).lastVisitedEnqueued
  waiting : Waiting s.reaches s.rows
  unpurged : ∀ q, s.purgeGCRecords.get q = none

/-- The retry of no lease that lapses at now is scheduled before now. -/
def retriesAhead (s : State) (q : QueueId) (now : Time) : Prop :=
  ∀ e ∈ s.tasks.entries, e.2.lapses q now →
    Ensures True (retryInterval e.2) (fun interval => now ≤ plusSeconds now interval)

instance (s : State) (q : QueueId) (now : Time) : Decidable (retriesAhead s q now) :=
  inferInstanceAs (Decidable (∀ e ∈ s.tasks.entries, _))

theorem Drifting.empty : Drifting State.empty where
  sound := Sound.empty
  cursor q := by simp [State.getQueueState, State.empty, QueueState.zero]
  waiting id t ht := by simp [State.rows, State.empty] at ht
  unpurged q := by simp [State.empty]

theorem Drifting.item {q : QueueId} {i : IndexItem} (h : Drifting s)
    (hi : i ∈ s.queueIndex.items q) : (s.getQueueState q).lastVisitedEnqueued ≤ i.time := by
  obtain ⟨t, ht, hst, htime⟩ := h.sound.heads.queueSound q i hi
  rw [← htime]
  exact h.waiting (q.task i.taskId) t ht hst

/-- What waits between the two passes of a Dequeue: what waited before, and
retries that are not before now. -/
theorem Drifting.mid {q : QueueId} {dlqConfig : Option DeadLetterQueueConfig} {mid : State}
    (h : Drifting s) (hretry : retriesAhead s q now)
    (hok : dequeueInProgressTasksBeforeTime s q now dlqConfig = .ok mid) (q' : QueueId)
    (i : IndexItem) (hi : i ∈ mid.queueIndex.items q') :
    i ∈ s.queueIndex.items q' ∨ q' = q ∧ now ≤ i.time := by
  have hheads : Ensures True (dequeueInProgressTasksBeforeTime s q now dlqConfig)
      (Heads (s.scope False False)) :=
    dequeueInProgressTasksBeforeTime_heads _ h.sound.heads h.sound.indexed False.elim False.elim
  have hmade : Ensures False (dequeueInProgressTasksBeforeTime s q now dlqConfig) _ :=
    dequeueInProgressTasksBeforeTime_makes h.sound.indexed
  obtain ⟨es, hes, hlapses⟩ := hmade.elim hok
  have hwaiting : Waiting (fun id time => ⟨time, id.taskId⟩ ∈ s.queueIndex.items id.queue ∨
      id.queue = q ∧ now ≤ time) mid.rows := by
    refine hlapses.waiting hes ?_ ?_
    · intro id t ht hst
      exact Or.inl (h.sound.heads.queue_free id t ht hst (h.sound.threadId_eq ht))
    · intro id t interval ht hl hint
      exact Or.inr ⟨hl.2.1, (hretry (id, t) (Table.mem_entries.mpr ht) hl).elim hint⟩
  obtain ⟨t, ht, hst, htime⟩ := (hheads.elim hok).queueSound q' i hi
  have hwaits := hwaiting (q'.task i.taskId) t ht hst
  rw [htime] at hwaits
  exact hwaits

theorem Drifting.dequeue {req : DequeueRequest} (h : Drifting s) (hnow : 0 ≤ now)
    (hretry : retriesAhead s req.queueId now) :
    Ensures True (exec s now (.dequeue req)) (fun a =>
      (∀ q, 0 ≤ (a.1.getQueueState q).lastVisitedEnqueued) ∧
      ∀ q, ∀ i ∈ a.1.queueIndex.items q, (a.1.getQueueState q).lastVisitedEnqueued ≤ i.time) := by
  refine Ensures.map ?_
  unfold Moab.dequeue
  cases checkQueueNotPurged s req.queueId with
  | some err => exact Ensures.ok ⟨h.cursor, fun _ _ hi => h.item hi⟩
  | none =>
    apply (dequeueTasks_scans h.sound.heads h.sound.indexed).bind
    intro a ha
    apply Ensures.ok
    obtain ⟨mid, items, b, ts, cursor, hok, hold, hitems, hscan, hcur, hsame, hget⟩ := ha
    have hmid : ∀ q, ∀ i ∈ mid.queueIndex.items q,
        (s.getQueueState q).lastVisitedEnqueued ≤ i.time ∨ q = req.queueId ∧ now ≤ i.time :=
      fun q i hi => (h.mid hretry hok q i hi).imp_left h.item
    have hold0 := h.cursor req.queueId
    have hlate : ∀ i ∈ mid.queueIndex.items req.queueId, 0 ≤ i.time := by
      intro i hi
      rcases hmid _ i hi with hr | ⟨_, hle⟩
      · exact Int64.le_trans hold0 hr
      · exact Int64.le_trans hnow hle
    have hcursor0 : 0 ≤ cursor := by
      rw [hcur, hscan.last, hold]
      split_ifs
      · exact hnow
      · cases hl : (items.take ts.length).getLast? with
        | none => exact hold0
        | some j =>
          have hj := List.mem_of_mem_take (List.mem_of_getLast? hl)
          exact hlate j (mem_listInRange.mp (hitems ▸ hj)).1
    have hqueue : ∀ q, (a.1.getQueueState q).lastVisitedEnqueued =
        if q = req.queueId then cursor else (s.getQueueState q).lastVisitedEnqueued := by
      intro q
      unfold State.getQueueState
      rw [hget]
      split_ifs <;> rfl
    constructor
    · intro q
      rw [hqueue]
      split_ifs
      · exact hcursor0
      · exact h.cursor q
    · intro q i hi
      rw [hsame.queueIndex] at hi
      obtain ⟨hin, hnot⟩ := (applyScan_items hscan.visited).mp hi
      rw [hqueue]
      split_ifs with hq
      · subst hq
        by_cases hle : (s.getQueueState req.queueId).lastVisitedEnqueued ≤ now
        · -- the scan starts behind everything that waits
          have hfront : ∀ j ∈ mid.queueIndex.items req.queueId,
              (mid.getQueueState req.queueId).lastVisitedEnqueued.rank ≤ j.time.rank := by
            intro j hj
            rw [hold]
            rcases hmid _ j hj with hr | ⟨_, hr⟩
            · exact Time.rank_le hold0 hr
            · exact Time.rank_le hold0 (Int64.le_trans hle hr)
          have hrank := hscan.cursor_le (hold ▸ hitems) hfront hin
            (fun t ht he => hnot t ht ⟨rfl, he⟩)
          rw [← hcur] at hrank
          exact Time.le_of_rank (hlate i hin) hrank
        · -- a clock behind the cursor finds nothing and pulls the cursor back
          have hlt := Int64.not_le.mp hle
          have hempty : items = [] := by
            rw [hitems]
            apply List.eq_nil_iff_forall_not_mem.mpr
            intro j hj
            obtain ⟨_, hlo, hhi⟩ := mem_listInRange.mp hj
            exact hle (Time.le_of_rank hnow (hlo.trans hhi))
          rw [hcur, if_pos hempty]
          rcases hmid _ i hin with hr | ⟨_, hr⟩
          · exact Int64.le_trans (Int64.le_of_lt hlt) hr
          · exact hr
      · rcases hmid _ i hin with hr | ⟨he, _⟩
        · exact hr
        · exact absurd he hq

/-- A call of the traffic between gateways and the core, on tasks without threads. -/
def Call.plainTraffic (c : Call) : Prop :=
  match c.op with
  | .enqueue req => ∀ e ∈ req.entries, e.threadId = []
  | .dequeue _ => True
  | _ => False

instance (c : Call) : Decidable c.plainTraffic :=
  match c with
  | ⟨_, .enqueue _⟩ => inferInstanceAs (Decidable (∀ e ∈ _, _))
  | ⟨_, .dequeue _⟩ => .isTrue trivial
  | ⟨_, .reportStatus _⟩ | ⟨_, .deleteTasks _⟩ | ⟨_, .restartTasks _⟩ | ⟨_, .purgeQueue _⟩ |
    ⟨_, .runTasksGarbageCollection _⟩ | ⟨_, .runPurgeQueueGarbageCollection _⟩ => .isFalse id

/-- No step of the call makes a task wait behind the cursor it finds: no entry lags,
and no retry overflows. -/
def Call.keepsPace (s : State) (c : Call) : Prop :=
  match c.op with
  | .enqueue req => Along (enqueueStep req.queueId c.now)
      (fun a e => lags req.queueId c.now a.1 e = false)
      (s, sequenceOf s.queueState req.queueId) req.entries
  | .dequeue req => retriesAhead s req.queueId c.now
  | _ => True

instance (s : State) (c : Call) : Decidable (c.keepsPace s) :=
  match c with
  | ⟨_, .enqueue _⟩ => inferInstanceAs (Decidable (Along _ _ _ _))
  | ⟨_, .dequeue _⟩ => inferInstanceAs (Decidable (retriesAhead _ _ _))
  | ⟨_, .reportStatus _⟩ | ⟨_, .deleteTasks _⟩ | ⟨_, .restartTasks _⟩ | ⟨_, .purgeQueue _⟩ |
    ⟨_, .runTasksGarbageCollection _⟩ | ⟨_, .runPurgeQueueGarbageCollection _⟩ => .isTrue trivial

theorem Drifting.enqueue {req : EnqueueRequest} (h : Drifting s)
    (hth : ∀ e ∈ req.entries, e.threadId = [])
    (hm : Along (enqueueStep req.queueId now) (fun a e => lags req.queueId now a.1 e = false)
      (s, sequenceOf s.queueState req.queueId) req.entries) :
    Ensures True (exec s now (.enqueue req)) (fun a =>
      (∀ q, 0 ≤ (a.1.getQueueState q).lastVisitedEnqueued) ∧ Waiting a.1.reaches a.1.rows) := by
  refine Ensures.map ?_
  unfold Moab.enqueue
  cases checkQueueNotPurged s req.queueId with
  | some err => exact Ensures.ok ⟨h.cursor, h.waiting⟩
  | none =>
    have hi := h.sound.indexed
    have hbelow := h.sound.sequenced.below req.queueId
    have hmade : Ensures True (enqueueEntries req.queueId now s
        (sequenceOf s.queueState req.queueId) req.entries) _ :=
      (enqueueEntries_makes req.entries s _ hi hbelow (fun e he hn => hn (hth e he))).weaken
        False.elim
    refine ((enqueueEntries_waiting req.entries s _ hi hbelow hth h.waiting hm).and hmade).bind ?_
    intro a ha
    obtain ⟨hw, _, _, es, hes, henq⟩ := ha
    have hcursor := setSequence_cursor (henq.queueState hes) req.queueId
    refine Ensures.ok ⟨fun q => ?_, fun id t ht hst => ?_⟩
    · rw [hcursor]
      exact h.cursor q
    · have hreach : s.reaches id t.scheduledAt := hw id t ht hst
      unfold State.reaches
      rw [hcursor]
      exact hreach

theorem Drifting.exec {c : Call} (h : Drifting s) (hop : c.plainTraffic) (hnow : 0 ≤ c.now)
    (hk : c.keepsPace s) : Ensures True (exec s c.now c.op) (fun a => Drifting a.1) := by
  obtain ⟨now, op⟩ := c
  have hth : ¬op.threaded := by
    rintro hth
    cases op with
    | enqueue req =>
      obtain ⟨e, he, hne⟩ := hth
      exact hne (hop e he)
    | _ => exact hth
  have hkinds : ∀ k ∈ op.kinds, k ∉ [EventKind.dropped, .purged] := by
    cases op with
    | enqueue req => simp [Op.kinds]
    | dequeue req => simp [Op.kinds]
    | _ => exact hop.elim
  have hmade : Ensures True (Moab.exec s now op) _ :=
    exec_makes h.sound.indexed h.sound.heads h.sound.sequenced hth False.elim (fun _ => trivial)
  have hsound : Ensures True (Moab.exec s now op) (fun a => Sound False False a.1) :=
    exec_sound h.sound hth False.elim False.elim op.safe_of_unthreaded
  have hfront : Ensures True (Moab.exec s now op) (fun a => Sound False False a.1 →
      (∀ q, 0 ≤ (a.1.getQueueState q).lastVisitedEnqueued) ∧ Waiting a.1.reaches a.1.rows) := by
    cases op with
    | enqueue req => exact (h.enqueue hop hk).mono (fun a ha _ => ha)
    | dequeue req =>
      apply (h.dequeue hnow hk).mono
      intro a ha hs
      refine ⟨ha.1, fun id t ht hst => ?_⟩
      exact ha.2 id.queue _ (hs.heads.queue_free id t ht hst (hs.threadId_eq ht))
    | _ => exact hop.elim
  apply ((hmade.and hsound).and hfront).mono
  intro a ha
  obtain ⟨⟨⟨es, hes, hc, _⟩, hs⟩, hf⟩ := ha
  have hmarks : a.1.purgeGCRecords = s.purgeGCRecords :=
    hes.purgeGCRecords (fun e he => hkinds _ (hc.kinds e he))
  exact ⟨hs, (hf hs).1, (hf hs).2, fun q => by rw [hmarks]; exact h.unpurged q⟩

theorem Drifting.run (calls : List Call) (h : Drifting s)
    (hcalls : ∀ c ∈ calls, c.plainTraffic ∧ 0 ≤ c.now)
    (hk : Along runStep Call.keepsPace s calls) : Drifting (run s calls) :=
  run_keeps (fun _ _ hs hc => commit_keeps hs (hs.exec hc.2.1 hc.2.2 hc.1)) calls s
    (hk.and_forall hcalls) h

end Polls

section Progress

variable [OrderedStore] {s : State} {id : TaskId} {t : Task}

/-- A Dequeue of the queue after the given time that asks for tasks and that no
setting limits. -/
def Call.pollsAfter (q : QueueId) (time : Time) (c : Call) : Prop :=
  time < c.now ∧ match c.op with
  | .dequeue req => req.queueId = q ∧ req.dequeuingSettings = none ∧ 0 < req.dequeueLimit
  | _ => False

omit [OrderedStore] in
theorem Call.pollsAfter.plainTraffic {q : QueueId} {time : Time} {c : Call}
    (h : c.pollsAfter q time) : c.plainTraffic := by
  obtain ⟨now, op⟩ := c
  cases op with
  | dequeue req => trivial
  | _ => exact h.2.elim

/-- The call hands the task out, or finds it expired and removes it. -/
def Call.serves (s : State) (c : Call) (t : Task) : Prop :=
  ∃ req s' ts, c.op = .dequeue req ∧ Moab.dequeue s c.now req = .ok (s', .ok ts) ∧
    (t.lease c.now req.keepaliveTimeoutInSeconds ∈ ts ∨
      t.expiresAt < c.now ∧ s'.tasks.get t.id = none)

/-- The items a scan meets up to that of the task. -/
def upTo (s : State) (t : Task) : List IndexItem :=
  (s.queueIndex.items t.id.queue).filter (· ≤ t.queueIndexItem)

theorem length_upTo_lt {s s' : State} {i : IndexItem} (hi : i ∈ upTo s t) (hgone : i ∉ upTo s' t)
    (hsub : ∀ j ∈ upTo s' t, j ∈ upTo s t) : (upTo s' t).length < (upTo s t).length := by
  have hnodup : (i :: upTo s' t).Nodup :=
    List.nodup_cons.mpr ⟨hgone, (s'.queueIndex.items_nodup _).filter _⟩
  exact (List.subperm_of_subset hnodup (List.cons_subset.mpr ⟨hi, hsub⟩)).length_le

/-- A scan that meets a task at all meets the first one in range. -/
theorem Scanned.first {q : QueueId} {now lower upper : Time} {items : List IndexItem} {b : Scan}
    {ts : List Task} (hs : Scanned s q now items b ts)
    (hitems : items = listInRange s.queueIndex q lower upper) (hne : ts ≠ []) {i : IndexItem}
    (hi : i ∈ items) : ∃ u ∈ ts, u.queueIndexItem ∈ items ∧ u.queueIndexItem ≤ i := by
  have hsorted : items.Pairwise (· < ·) := by
    rw [hitems]
    exact (s.queueIndex.items_sorted q).filter _
  have hmet := hs.met
  cases ts with
  | nil => exact absurd rfl hne
  | cons u us =>
    cases items with
    | nil => simp at hi
    | cons j items =>
      have hj : u.queueIndexItem = j := by
        rw [List.length_cons, List.take_succ_cons, List.map_cons] at hmet
        exact (List.cons.inj hmet).1
      refine ⟨u, List.mem_cons_self, hj ▸ List.mem_cons_self, ?_⟩
      rw [hj]
      rcases List.mem_cons.mp hi with rfl | hi
      · exact le_refl _
      · exact le_of_lt ((List.pairwise_cons.mp hsorted).1 i hi)

/-- The state between the two passes of a Dequeue. -/
theorem Drifting.between (h : Drifting s) (q : QueueId) (now : Time)
    (dlqConfig : Option DeadLetterQueueConfig) :
    ∃ mid, dequeueInProgressTasksBeforeTime s q now dlqConfig = .ok mid ∧ Indexed False mid.rows ∧
      Heads (s.scope False False) mid ∧
      (mid.getQueueState q).lastVisitedEnqueued = (s.getQueueState q).lastVisitedEnqueued ∧
      ∀ id t, s.tasks.get id = some t → t.state = .enqueued → mid.tasks.get id = some t := by
  have hi := h.sound.indexed
  have hmade : Ensures False (dequeueInProgressTasksBeforeTime s q now dlqConfig) _ :=
    dequeueInProgressTasksBeforeTime_makes hi
  have hheads : Ensures True (dequeueInProgressTasksBeforeTime s q now dlqConfig)
      (Heads (s.scope False False)) :=
    dequeueInProgressTasksBeforeTime_heads _ h.sound.heads hi False.elim False.elim
  have hstate : Ensures True (dequeueInProgressTasksBeforeTime s q now dlqConfig) _ :=
    dequeueInProgressTasksBeforeTime_queueState hi
  obtain ⟨mid, hok, es, hes, hlapses⟩ := hmade.returns
  have hqueue := hstate.elim hok
  refine ⟨mid, hok, hi.steps hes, hheads.elim hok, ?_, fun id t ht hst => hlapses.keeps hes ht hst⟩
  unfold State.getQueueState
  rw [hqueue, Table.get_set_self]
  rfl

/-- An unlimited poll after the time of a task serves it, or serves one of those
before it. -/
theorem Drifting.poll {c : Call} (h : Drifting s) (ht : s.tasks.get t.id = some t)
    (hst : t.state = .enqueued) (hc : c.pollsAfter t.id.queue t.scheduledAt) (hk : c.keepsPace s) :
    c.serves s t ∨ ((commit s c.now c.op).tasks.get t.id = some t ∧
      (upTo (commit s c.now c.op) t).length < (upTo s t).length) := by
  obtain ⟨now, op⟩ := c
  obtain ⟨hlater, hop⟩ := hc
  cases op with
  | dequeue req =>
    obtain ⟨hq, hsettings, hlimit⟩ := hop
    change t.scheduledAt < now at hlater
    have htime0 : 0 ≤ t.scheduledAt := Int64.le_trans (h.cursor _) (h.waiting _ t ht hst)
    have hrank : t.scheduledAt.rank < now.rank :=
      (Time.rank_lt_rank htime0 (Int64.le_trans htime0 (Int64.le_of_lt hlater))).mpr hlater
    obtain ⟨mid, hok, hi, hheads, hcursor, hkept⟩ :=
      h.between req.queueId now req.deadLetterQueueConfig
    obtain ⟨items, b, ts, hitems, hscan, hsecond, _, hstop⟩ :=
      @dequeueTasksBeforeTime_scans _ False mid req.queueId now req.dequeueLimit
        req.keepaliveTimeoutInSeconds none hi hheads.queueSound
    have hmem : t.queueIndexItem ∈ items := by
      have hthread : t.threadId = [] := h.sound.threadId_eq ht
      have hitem := hheads.queue_free t.id t (hkept _ _ ht hst) hst hthread
      have hreach := h.waiting _ t ht hst
      rw [hitems, hcursor, hq]
      exact mem_listInRange.mpr ⟨hitem, Time.rank_le (h.cursor _) hreach, le_of_lt hrank⟩
    generalize hlast : applyScan mid req.queueId now req.keepaliveTimeoutInSeconds
      (if items = [] then now else b.lastVisitedEnqueued) b = last at hsecond
    have hdequeue : Moab.dequeue s now req = .ok (last,
      .ok ((ts.filter (fun t => !t.overdue now)).map
        (·.lease now req.keepaliveTimeoutInSeconds))) := by
      have hfree : checkQueueNotPurged s req.queueId = none := by
        simp [checkQueueNotPurged, h.unpurged]
      have hlimiter : rateLimiterFor s req now = .ok none := by
        simp [rateLimiterFor, rateLimitingOf, hsettings]
      simp only [Moab.dequeue, hfree, dequeueTasks, hlimiter, hok, effectiveLimit,
        hsettings, hsecond, chargeLimiter, bind, Except.bind]
    have hmakes : Makes False
        (HandsOut req.queueId now req.keepaliveTimeoutInSeconds ts) mid last :=
      hlast ▸ applyScan_makes hscan.queued.batch hscan.queued.state hscan.visited
    obtain ⟨fs, hfs, hout⟩ := hmakes
    by_cases hserved : t ∈ ts
    · refine Or.inl ⟨req, last, _, rfl, hdequeue, ?_⟩
      by_cases hlate : t.overdue now
      · have hexpired : .expired t ∈ fs := by
          rw [hout]
          simp [hserved, hlate]
        have hkinds : ∀ e ∈ fs, e.kind ≠ .created := by
          intro e he hkind
          have hk := hout.kinds e he
          rw [hkind] at hk
          simp at hk
        exact Or.inr ⟨of_decide_eq_true hlate, Steps.expired hfs hexpired hkinds⟩
      · exact Or.inl (List.mem_map_of_mem (List.mem_filter.mpr ⟨hserved, by simpa using hlate⟩))
    · have hcommit : commit s now (.dequeue req) = last := by
        simp [commit, Moab.exec, hdequeue, Except.map]
      rw [hcommit]
      have hrow := hkept _ _ ht hst
      have hother : ∀ u ∈ ts, u.id ≠ t.id := by
        intro u hu he
        have hrow' := hscan.queued.batch.row u hu
        rw [he] at hrow'
        obtain rfl := Option.some.inj (hrow.symm.trans hrow')
        exact hserved hu
      refine Or.inr ⟨?_, ?_⟩
      · rw [← hrow]
        refine Steps.frame hfs (fun e he => ?_)
        rw [hout] at he
        simp only [List.mem_cons, List.mem_append, List.mem_map, List.mem_filter] at he
        rcases he with rfl | rfl | ⟨u, ⟨hu, _⟩, rfl⟩ | ⟨u, ⟨hu, _⟩, rfl⟩
        · simp [Event.task]
        · simp [Event.task]
        · simpa [Event.task] using hother u hu
        · simpa [Event.task] using hother u hu
      · have hnow0 : 0 ≤ now := Int64.le_trans htime0 (Int64.le_of_lt hlater)
        -- what is retried comes after the task
        have hbefore : ∀ j ∈ mid.queueIndex.items t.id.queue, j ≤ t.queueIndexItem →
            j ∈ s.queueIndex.items t.id.queue := by
          intro j hj hle
          rcases h.mid hk hok _ j hj with hmem | ⟨_, hnow⟩
          · exact hmem
          · have hlo := Time.rank_le hnow0 hnow
            have hhi : j.time.rank ≤ t.scheduledAt.rank := IndexItem.rank_time_le hle
            omega
        have hleft : ∀ j ∈ upTo last t, j ∈ mid.queueIndex.items t.id.queue ∧
            ∀ u ∈ ts, j ≠ u.queueIndexItem := by
          intro j hj
          have hmem := List.mem_of_mem_filter hj
          rw [← hlast, ← hq] at hmem
          obtain ⟨hin, hnot⟩ := (applyScan_items hscan.visited).mp hmem
          rw [hq] at hin
          exact ⟨hin, fun u hu he => hnot u hu ⟨rfl, he⟩⟩
        obtain ⟨u, hu, hitem, hfirst⟩ : ∃ u ∈ ts, u.queueIndexItem ∈ items ∧
            u.queueIndexItem ≤ t.queueIndexItem := by
          refine hscan.first hitems ?_ hmem
          intro hnone
          rw [hnone] at hstop
          rcases hstop with hempty | hfull
          · rw [List.eq_nil_of_length_eq_zero hempty.symm] at hmem
            simp at hmem
          · have hpos := Int64.lt_iff_toInt_lt.mp hlimit
            exact hfull ⟨hpos, by simp [maxVisitedTasksForDequeuing], by simp⟩
        have hitem' : u.queueIndexItem ∈ mid.queueIndex.items t.id.queue := by
          rw [← hq]
          exact (mem_listInRange.mp (hitems ▸ hitem)).1
        apply length_upTo_lt (i := u.queueIndexItem)
        · exact List.mem_filter.mpr ⟨hbefore _ hitem' hfirst, by simpa using hfirst⟩
        · exact fun hmem => (hleft _ hmem).2 u hu rfl
        · intro j hj
          have hle : j ≤ t.queueIndexItem := by simpa using List.of_mem_filter hj
          exact List.mem_filter.mpr ⟨hbefore j (hleft j hj).1 hle, by simpa using hle⟩
  | _ => exact hop.elim

/-- As many unlimited polls as tasks wait up to a task are enough to serve it. -/
theorem Drifting.polled (polls : List Call) (s : State) (h : Drifting s)
    (ht : s.tasks.get t.id = some t) (hst : t.state = .enqueued)
    (hp : ∀ c ∈ polls, c.pollsAfter t.id.queue t.scheduledAt)
    (hk : Along runStep Call.keepsPace s polls) (hlen : (upTo s t).length ≤ polls.length) :
    ∃ pre c post, polls = pre ++ c :: post ∧ c.serves (Moab.run s pre) t := by
  induction polls generalizing s with
  | nil =>
    have hmem := h.sound.heads.queue_free t.id t ht hst (h.sound.threadId_eq ht)
    have hitem : t.queueIndexItem ∈ upTo s t := List.mem_filter.mpr ⟨hmem, by simp⟩
    rw [List.length_nil, Nat.le_zero, List.length_eq_zero_iff] at hlen
    simp [hlen] at hitem
  | cons c polls ih =>
    have hc := hp c List.mem_cons_self
    rcases h.poll ht hst hc hk.1 with hserved | ⟨hrow, hless⟩
    · exact ⟨[], c, polls, rfl, hserved⟩
    · have hnow : 0 ≤ c.now := by
        have htime := Int64.le_trans (h.cursor _) (h.waiting _ t ht hst)
        exact Int64.le_trans htime (Int64.le_of_lt hc.1)
      have hnext := commit_keeps h (h.exec hc.plainTraffic hnow hk.1)
      rw [List.length_cons] at hlen
      obtain ⟨pre, d, post, rfl, hserved⟩ := ih _ hnext hrow
        (fun d hd => hp d (List.mem_cons_of_mem _ hd)) (hk.tail rfl) (by omega)
      exact ⟨c :: pre, d, post, rfl, hserved⟩

/-- In every run of Enqueue and Dequeue calls, in whatever order their clocks are, in
which no call makes a task wait behind the cursor it finds, every enqueued task stays
in reach, and enough unlimited polls after its time serve it. -/
theorem run_drift_reaches (calls : List Call)
    (hcalls : ∀ c ∈ calls, c.plainTraffic ∧ 0 ≤ c.now)
    (hk : Along runStep Call.keepsPace State.empty calls) (id : TaskId) (t : Task)
    (ht : (run State.empty calls).tasks.get id = some t) (hst : t.state = .enqueued) :
    t.queueIndexItem ∈ (run State.empty calls).queueIndex.items id.queue ∧
    ((run State.empty calls).getQueueState id.queue).lastVisitedEnqueued ≤ t.scheduledAt ∧
    ∀ polls : List Call, (∀ c ∈ polls, c.pollsAfter id.queue t.scheduledAt) →
      Along runStep Call.keepsPace (run State.empty calls) polls →
      ((run State.empty calls).queueIndex.items id.queue).length ≤ polls.length →
      ∃ pre c post, polls = pre ++ c :: post ∧ c.serves (run State.empty (calls ++ pre)) t := by
  have h := Drifting.empty.run calls hcalls hk
  obtain rfl := h.sound.indexed.key _ _ ht
  have hmem := h.sound.heads.queue_free t.id t ht hst (h.sound.threadId_eq ht)
  refine ⟨hmem, h.waiting t.id t ht hst, ?_⟩
  intro polls hp hpace hlen
  have hfew : (upTo (run State.empty calls) t).length ≤ polls.length :=
    (List.length_filter_le _ _).trans hlen
  obtain ⟨pre, c, post, hsplit, hserved⟩ := h.polled polls _ ht hst hp hpace hfew
  refine ⟨pre, c, post, hsplit, ?_⟩
  rw [run_append]
  exact hserved

end Progress

section Runs

def pollAll (now : Time) : Call := ⟨now, .dequeue ⟨plainQueue, none, 10, none, 60⟩⟩

/-- An empty poll, and then an entry from a gateway whose clock is behind. -/
def slowClockRun (scheduledAt : Time) : List Call :=
  [⟨50, .enqueue ⟨plainQueue, [plainEntry 60 500 []]⟩⟩, pollAll 55,
    ⟨40, .enqueue ⟨plainQueue, [plainEntry scheduledAt 500 []]⟩⟩]

theorem run_drift_reaches_slow :
    ∃ t, (run State.empty (slowClockRun 70)).tasks.get (plainQueue.task 2) = some t ∧
      ((run State.empty (slowClockRun 70)).getQueueState plainQueue).lastVisitedEnqueued ≤
        t.scheduledAt ∧
      ∃ pre c post, [pollAll 100, pollAll 101] = pre ++ c :: post ∧
        c.serves (run State.empty (slowClockRun 70 ++ pre)) t := by
  have hsome : ((run State.empty (slowClockRun 70)).tasks.get (plainQueue.task 2)).any
      (fun t => t.state = .enqueued ∧ t.scheduledAt = 70) = true := by decide +kernel
  obtain ⟨t, ht, hp⟩ := (Option.any_eq_true _ _).mp hsome
  obtain ⟨hst, htime⟩ := of_decide_eq_true hp
  obtain ⟨_, hcursor, hserved⟩ := run_drift_reaches (slowClockRun 70) (by decide +kernel)
    (by decide +kernel) _ t ht hst
  refine ⟨t, ht, hcursor, hserved _ ?_ (by decide +kernel) (by decide +kernel)⟩
  intro c hc
  rw [htime]
  rcases List.mem_cons.mp hc with rfl | hc
  · exact ⟨by decide, rfl, rfl, by decide⟩
  · obtain rfl := List.mem_singleton.mp hc
    exact ⟨by decide, rfl, rfl, by decide⟩

/-- The entry of the slow gateway waits behind the cursor, and later polls miss it. -/
theorem run_drift_loses : (∀ c ∈ slowClockRun 50, c.plainTraffic ∧ 0 ≤ c.now) ∧
    (∃ t, (run State.empty (slowClockRun 50)).tasks.get (plainQueue.task 2) = some t ∧
      t.state = .enqueued ∧ t.scheduledAt <
        ((run State.empty (slowClockRun 50)).getQueueState plainQueue).lastVisitedEnqueued) ∧
    ∃ t, (run State.empty (slowClockRun 50 ++ [pollAll 100, pollAll 101, pollAll 400])).tasks.get
      (plainQueue.task 2) = some t ∧ t.state = .enqueued := by
  refine ⟨by decide +kernel, ?_, ?_⟩
  · have hsome : ((run State.empty (slowClockRun 50)).tasks.get (plainQueue.task 2)).any
        (fun t => t.state = .enqueued ∧ t.scheduledAt < ((run State.empty
          (slowClockRun 50)).getQueueState plainQueue).lastVisitedEnqueued) = true := by
      decide +kernel
    obtain ⟨t, ht, hp⟩ := (Option.any_eq_true _ _).mp hsome
    exact ⟨t, ht, of_decide_eq_true hp⟩
  · have hsome : ((run State.empty (slowClockRun 50 ++ [pollAll 100, pollAll 101,
        pollAll 400])).tasks.get (plainQueue.task 2)).any
        (fun t => t.state = .enqueued) = true := by
      decide +kernel
    obtain ⟨t, ht, hp⟩ := (Option.any_eq_true _ _).mp hsome
    exact ⟨t, ht, of_decide_eq_true hp⟩

end Runs

end Moab
