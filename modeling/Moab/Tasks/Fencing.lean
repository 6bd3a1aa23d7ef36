import Moab.Framework.SortedList
import Moab.Tasks.Unthreaded

namespace Moab

open OrderedStore

section Fences

variable [OrderedStore] {th : Prop} {id : TaskId} {n : Int} {r r' : Rows} {e : Event}
  {es : List Event}

/-- The task is not to come, and as long as it is there it has been handed out n
times. -/
structure Fenced (id : TaskId) (n : Int) (r : Rows) : Prop where
  used : id.taskId ≤ sequenceOf r.queueState id.queue
  attempts : ∀ t, r.tasks.get id = some t → n ≤ t.attempts

/-- The count of a task starts over only when it is created or restarted. -/
def Event.Counts (id : TaskId) (e : Event) : Prop :=
  e.kind ∉ [EventKind.dropped, .sequenced] ∧
    (e.kind ∈ [EventKind.created, .restarted] → e.task ≠ some id)

omit [OrderedStore] in
theorem Event.counts_of_kind (h : e.kind ∉ [EventKind.dropped, .sequenced, .created, .restarted]) :
    e.Counts id := by
  simp only [List.mem_cons, List.not_mem_nil, or_false, not_or] at h
  refine ⟨by simp [h], fun hk => ?_⟩
  simp [h] at hk

theorem Step.fenced (hs : Step th r e r') (he : e.Counts id) (h : Fenced id n r) :
    Fenced id n r' := by
  obtain ⟨hk, hnew⟩ := he
  refine ⟨?_, ?_⟩
  · have hused := h.used
    cases hs with
    | drop | sequence => simp [Event.kind] at hk
    | tune queueState _ same =>
      change id.taskId ≤ sequenceOf queueState id.queue
      rw [same]
      exact hused
    | _ => exact hused
  · by_cases hid : e.task = some id
    · intro t ht
      have hset : ∀ {u u' : Task}, some u.id = some id → r.tasks.get u.id = some u →
          (r.tasks.set u.id u').get id = some t → u.attempts ≤ u'.attempts → n ≤ t.attempts := by
        intro u u' hu row hget hle
        obtain rfl := Option.some.inj hu
        rw [Table.get_set_self] at hget
        obtain rfl := Option.some.inj hget
        exact le_trans (h.attempts u row) hle
      have hdel : ∀ {u : Task}, some u.id = some id → (r.tasks.delete u.id).get id = some t →
          n ≤ t.attempts := by
        intro u hu hget
        obtain rfl := Option.some.inj hu
        rw [Table.get_delete_self] at hget
        exact absurd hget (by simp)
      cases hs with
      | create | restart => exact absurd hid (hnew (by simp [Event.kind]))
      | overwrite row | renew row | retry row | die row => exact hset hid row ht (le_refl _)
      | lease row => exact hset hid row ht (Int.le_add_one (le_refl _))
      | delete | expire => exact hdel hid ht
      | _ => simp [Event.task] at hid
    · intro t ht
      rw [hs.frame hid] at ht
      exact h.attempts t ht

theorem Steps.fenced (hs : Steps th r es r') (he : ∀ e ∈ es, e.Counts id) (h : Fenced id n r) :
    Fenced id n r' :=
  Trace.invariant_of hs (fun e hm _ _ hi hl => hl.fenced (he e hm) hi) h

/-- A lease counts. -/
theorem Steps.fenced_lease (hs : Steps th r es r') (he : ∀ e ∈ es, e.Counts id) {t t' : Task}
    (hm : .leased t t' ∈ es) (hid : t.id = id) (h : Fenced id n r) : Fenced id (n + 1) r' := by
  obtain ⟨es₁, es₂, rfl⟩ := List.append_of_mem hm
  obtain ⟨r₁, hs₁, hs₂⟩ := hs.split
  have h₁ : Fenced id n r₁ := Steps.fenced hs₁ (fun e hm => he e (List.mem_append_left _ hm)) h
  cases hs₂ with
  | @cons _ r₂ _ _ _ hlease hs₂ =>
    refine Steps.fenced hs₂ (fun e hm => he e (by simp [hm])) ⟨?_, ?_⟩
    · exact (hlease.fenced (he _ (by simp)) h₁).used
    · intro u hu
      cases hlease with
      | @lease _ now keepalive row =>
        subst hid
        have hget : (r₁.tasks.set t.id (t.lease now keepalive)).get t.id = some u := hu
        rw [Table.get_set_self] at hget
        obtain rfl := Option.some.inj hget
        have hle := h₁.attempts t row
        simpa [Task.lease] using hle

end Fences

section Calls

variable [OrderedStore] {s : State} {now : Time} {c : Call} {id : TaskId} {n : Int}

/-- The tasks that the response of a call hands out. -/
def Call.handOuts (s : State) (c : Call) : List Task :=
  match exec s c.now c.op with
  | .ok (_, .dequeue (.ok ts)) => ts
  | _ => []

/-- The call has a report for the task that quotes attempt n, and applies it. -/
def Call.accepts (id : TaskId) (n : Int) (s : State) (c : Call) : Bool :=
  match c.op, exec s c.now c.op with
  | .reportStatus req, .ok (_, .reportStatus rs) =>
    (req.entries.zip rs).any (fun p => p.1.taskId = id ∧ p.1.attempt = n ∧ p.2.result = .ok)
  | _, _ => false

/-- The entry finds the task dead, and may restart it. -/
def restartable (id : TaskId) (q : QueueId) (now : Time) (s : State)
    (e : RestartTasksRequestEntry) : Bool :=
  q.task e.taskId = id ∧ (s.tasks.get id).any
    (fun t => t.state = .dead ∧ ¬t.expiresAt < now ∧ dedupeConflict s q t = false)

def restartStep (q : QueueId) (now : Time) (s : State) (e : RestartTasksRequestEntry) :
    Except CoreError State :=
  (restartEntry q now s e).map Prod.fst

/-- The call does not restart the task. -/
def Call.restartsOthers (id : TaskId) (s : State) (c : Call) : Prop :=
  match c.op with
  | .restartTasks req => Along (restartStep req.queueId c.now)
      (fun s e => restartable id req.queueId c.now s e = false) s req.entries
  | _ => True

instance (s : State) (c : Call) : Decidable (c.restartsOthers id s) :=
  match c with
  | ⟨_, .restartTasks _⟩ => inferInstanceAs (Decidable (Along _ _ _ _))
  | ⟨_, .enqueue _⟩ | ⟨_, .dequeue _⟩ | ⟨_, .reportStatus _⟩ | ⟨_, .deleteTasks _⟩ |
    ⟨_, .purgeQueue _⟩ | ⟨_, .runTasksGarbageCollection _⟩ |
    ⟨_, .runPurgeQueueGarbageCollection _⟩ => .isTrue trivial

theorem restartEntry_fenced {q : QueueId} {e : RestartTasksRequestEntry}
    (h : Indexed False s.rows) (hf : Fenced id n s.rows)
    (hr : restartable id q now s e = false) :
    Ensures True (restartEntry q now s e)
      (fun a => Indexed False a.1.rows ∧ Fenced id n a.1.rows) := by
  by_cases hid : q.task e.taskId = id
  · have hkeep : Ensures True (restartEntry q now s e) (fun a => a.1 = s) := by
      unfold restartEntry
      rw [hid]
      cases row : s.tasks.get id with
      | none => exact Ensures.ok rfl
      | some t =>
        refine Ensures.ite (fun _ => Ensures.ok rfl) (fun hs => ?_)
        refine Ensures.ite (fun _ => Ensures.ok rfl) (fun hx => ?_)
        refine Ensures.ite (fun _ => Ensures.ok rfl) (fun hc => ?_)
        have hdead : restartable id q now s e = true := by
          simp only [restartable, hid, row, Option.any_some, Bool.decide_and, decide_true,
            Bool.true_and, Bool.and_eq_true, decide_eq_true_eq]
          exact ⟨not_not.mp hs, hx, Bool.eq_false_iff.mpr hc⟩
        rw [hr] at hdead
        exact absurd hdead (by simp)
    refine hkeep.mono (fun a ha => ?_)
    rw [ha]
    exact ⟨h, hf⟩
  · refine ((restartEntry_makes h).weaken (fun _ => trivial)).mono (fun a ha => ?_)
    rcases ha with ⟨_, ha⟩ | ⟨_, t, row, _, _, hm⟩
    · rw [ha]
      exact ⟨h, hf⟩
    · refine ⟨hm.indexed h, ?_⟩
      obtain ⟨es, hes, rfl⟩ := hm
      refine Steps.fenced hes ?_ hf
      intro ev hev
      rw [List.mem_singleton.mp hev]
      refine ⟨by simp [Event.kind], fun _ he => hid ?_⟩
      have hkey := h.key _ _ row
      exact hkey.symm.trans (Option.some.inj he)

theorem restartEntries_fenced {q : QueueId} (es : List RestartTasksRequestEntry) (s : State)
    (h : Indexed False s.rows) (hf : Fenced id n s.rows)
    (hr : Along (restartStep q now) (fun s e => restartable id q now s e = false) s es) :
    Ensures True (restartEntries q now s es) (fun a => Fenced id n a.1.rows) := by
  induction es generalizing s with
  | nil => exact Ensures.ok hf
  | cons e es ih =>
    rw [restartEntries]
    refine (restartEntry_fenced h hf hr.1).self.bind (fun a ha => ?_)
    obtain ⟨hok, hindexed, hfenced⟩ := ha
    have htail := hr.tail (show restartStep q now s e =
      .ok a.1 by simp [restartStep, hok, Except.map])
    exact (ih a.1 hindexed hfenced htail).bind (fun b hb => Ensures.ok hb)

/-- A report with an older attempt is turned down. -/
theorem reportEntries_fenced (now : Time) (dlqConfig : Option DeadLetterQueueConfig)
    (es : List ReportStatusRequestEntry) (s : State) (h : Indexed False s.rows)
    (hf : Fenced id (n + 1) s.rows) :
    Ensures True (reportEntries now dlqConfig s es) (fun a =>
      (es.zip a.2).any (fun p => p.1.taskId = id ∧ p.1.attempt = n ∧
        p.2.result = .ok) = false) := by
  induction es generalizing s with
  | nil => exact Ensures.ok rfl
  | cons e es ih =>
    rw [reportEntries]
    refine ((reportStatus_makes h).weaken (fun _ => trivial)).bind (fun a ha => ?_)
    rcases ha with ⟨hne, ha⟩ | ⟨_, t, row, _, hatt, hm⟩
    · rw [ha]
      refine (ih s h hf).bind (fun b hb => Ensures.ok ?_)
      rw [List.zip_cons_cons, List.any_cons, hb]
      simp [hne]
    · have hfenced : Fenced id (n + 1) a.1.rows := by
        obtain ⟨evs, hevs, hrep⟩ := hm
        have hquiet : ∀ k ∈ [EventKind.renewed, .deleted, .retried, .died],
            k ∉ [EventKind.dropped, .sequenced, .created, .restarted] := by decide
        exact Steps.fenced hevs
          (fun ev hev => Event.counts_of_kind (hquiet _ (hrep.kinds ev hev))) hf
      refine (ih a.1 (hm.indexed h) hfenced).bind (fun b hb => Ensures.ok ?_)
      rw [List.zip_cons_cons, List.any_cons, hb]
      -- the row has been handed out more often than the report says
      have hold : ¬(e.taskId = id ∧ e.attempt = n) := by
        rintro ⟨rfl, rfl⟩
        have hle := hf.attempts t row
        omega
      simp only [Bool.or_false, decide_eq_false_iff_not]
      exact fun hall => hold ⟨hall.1, hall.2.1⟩

theorem Fenced.commit {op : Op} (hs : Sound False False s) (hop : ¬op.threaded)
    (hp : op.collectsPurged = false) (hr : Call.restartsOthers id s ⟨now, op⟩)
    (h : Fenced id n s.rows) : Fenced id n (commit s now op).rows := by
  have hquiet : (∀ k ∈ op.kinds, k ∉ [EventKind.dropped, .sequenced, .created, .restarted]) →
      Fenced id n (Moab.commit s now op).rows := by
    intro hk
    refine commit_keeps (I := fun s => Fenced id n s.rows) h ?_
    refine (exec_makes hs.indexed hs.heads hs.sequenced hop False.elim
      (fun _ => trivial) : Ensures True (exec s now op) _).mono (fun a ha => ?_)
    obtain ⟨es, hes, hcaused, _⟩ := ha
    exact Steps.fenced hes (fun e he => Event.counts_of_kind (hk _ (hcaused.kinds e he))) h
  cases op with
  | enqueue req =>
    refine commit_keeps (I := fun s => Fenced id n s.rows) h (Ensures.map ?_)
    refine ((enqueue_makes hs.indexed hs.sequenced (fun e he hn => hop ⟨e, he, hn⟩)).weaken
      False.elim).mono (fun a ha => ?_)
    rcases ha with ⟨_, _, ha⟩ | ⟨_, m, es, _, hle, henq, hes, _⟩
    · change Fenced id n a.1.rows
      rw [ha]
      exact h
    · obtain ⟨r, hes, hlast⟩ := hes.split
      -- new tasks get ids beyond the sequence, and the sequence only grows
      have hfenced : Fenced id n r := by
        refine Steps.fenced hes (fun ev hev => ?_) h
        obtain ⟨e, _, ⟨t, t', rfl, _⟩ | ⟨k, rfl, hlt, _⟩⟩ := henq ev hev
        · exact Event.counts_of_kind (by simp [Event.kind])
        · refine ⟨by simp [Event.kind], fun _ hid => ?_⟩
          have hid : req.queueId.task k = id := Option.some.inj hid
          have hused := h.used
          rw [← hid] at hused
          exact absurd hlt (not_lt.mpr hused)
      cases hlast with
      | cons hstep hnil =>
        cases hnil
        generalize a.1.rows = last at hstep
        cases hstep with
        | sequence st =>
          refine ⟨?_, hfenced.attempts⟩
          change id.taskId ≤ sequenceOf (r.queueState.set req.queueId st) id.queue
          unfold sequenceOf
          by_cases hq : id.queue = req.queueId
          · rw [hq, Table.get_set_self]
            have hused := h.used
            rw [hq] at hused
            exact le_trans hused hle
          · rw [Table.get_set_ne _ _ hq]
            exact hfenced.used
  | restartTasks req =>
    refine commit_keeps (I := fun s => Fenced id n s.rows) h (Ensures.map ?_)
    exact restartEntries_fenced req.entries s hs.indexed h hr
  | runPurgeQueueGarbageCollection req => simp [Op.collectsPurged] at hp
  | _ => exact hquiet (by simp [Op.kinds])

/-- Only a Dequeue hands tasks out. -/
theorem Call.handOuts_dequeue {u : Task} (hu : u ∈ c.handOuts s) : ∃ req s' ts,
    dequeue s c.now req = .ok (s', .ok ts) ∧ commit s c.now c.op = s' ∧ u ∈ ts := by
  unfold Call.handOuts at hu
  unfold commit
  cases hop : c.op with
  | dequeue req =>
    rw [hop] at hu
    simp only [exec] at hu ⊢
    cases hd : dequeue s c.now req with
    | error err => simp [hd, Except.map] at hu
    | ok a =>
      obtain ⟨s', response⟩ := a
      cases response with
      | error err => simp [hd, Except.map] at hu
      | ok ts =>
        simp only [hd, Except.map] at hu
        exact ⟨req, s', ts, hd, rfl, hu⟩
  | purgeQueue q => simp [hop, exec] at hu
  | enqueue req => cases hx : enqueue s c.now req <;> simp [hop, exec, hx, Except.map] at hu
  | reportStatus req =>
    cases hx : reportStatuses s c.now req <;> simp [hop, exec, hx, Except.map] at hu
  | deleteTasks req => cases hx : deleteTasks s req <;> simp [hop, exec, hx, Except.map] at hu
  | restartTasks req =>
    cases hx : restartTasks s c.now req <;> simp [hop, exec, hx, Except.map] at hu
  | runTasksGarbageCollection req =>
    cases hx : runTasksGarbageCollection s c.now req <;> simp [hop, exec, hx, Except.map] at hu
  | runPurgeQueueGarbageCollection req =>
    cases hx : runPurgeQueueGarbageCollection s req <;> simp [hop, exec, hx, Except.map] at hu

/-- A task that is handed out waited after the first pass, and the second pass
leases it. -/
theorem Call.handOuts_trace (h : Sound False False s) {u : Task} (hu : u ∈ c.handOuts s) :
    ∃ r t es fs, Steps False s.rows es r ∧ Sequenced r ∧ r.tasks.get t.id = some t ∧
      t.id = u.id ∧ u.attempts = t.attempts + 1 ∧ .leased t u ∈ fs ∧
      Steps False r fs (commit s c.now c.op).rows ∧
      (∀ e ∈ es, e.Counts u.id) ∧ ∀ e ∈ fs, e.Counts u.id := by
  obtain ⟨req, s', ts, hd, hs', hu⟩ := Call.handOuts_dequeue hu
  have hmade : Ensures True (dequeueTasks s c.now req) _ :=
    dequeueTasks_makes h.indexed h.heads False.elim (fun _ => trivial)
  obtain ⟨mid, es, us, fs, _, hes, hlapses, hb, hus, hres, hout, hfs⟩ := hmade.elim (dequeue_ok hd)
  dsimp only at hres hfs
  rw [hres] at hu
  obtain ⟨t, ht, rfl⟩ := List.mem_map.mp hu
  have hlapsed : ∀ k ∈ [EventKind.tuned, .deleted, .retried, .died],
      k ∉ [EventKind.dropped, .sequenced, .created, .restarted] := by decide
  have hhanded : ∀ k ∈ [EventKind.tuned, .charged, .expired, .leased],
      k ∉ [EventKind.dropped, .sequenced, .created, .restarted] := by decide
  have hleased : Event.leased t (t.lease c.now req.keepaliveTimeoutInSeconds) ∈ fs := by
    rw [hout]
    simp only [List.mem_cons, List.mem_append, List.mem_map]
    exact Or.inr (Or.inr (Or.inr ⟨t, ht, rfl⟩))
  refine ⟨mid.rows, t, es, fs ++ [.tuned], hes, ?_, hb.row t (List.mem_of_mem_filter ht), rfl, rfl,
    List.mem_append_left _ hleased, hs' ▸ hfs, ?_, ?_⟩
  · refine Steps.sequenced hes (fun e he => ?_) h.sequenced
    have hk := hlapsed _ (hlapses.kinds e he)
    simp only [List.mem_cons, List.not_mem_nil, or_false, not_or] at hk
    exact ⟨hk.2.2.1, hk.2.1⟩
  · intro e he
    exact Event.counts_of_kind (hlapsed _ (hlapses.kinds e he))
  · refine List.forall_mem_append.mpr ⟨fun e he => ?_, ?_⟩
    · exact Event.counts_of_kind (hhanded _ (hout.kinds e he))
    · intro e he
      rw [List.mem_singleton.mp he]
      exact Event.counts_of_kind (by simp [Event.kind])

/-- From its hand-out on, a task has been handed out as often as the response says. -/
theorem Fenced.start (h : Sound False False s) {u : Task} (hu : u ∈ c.handOuts s) :
    Fenced u.id u.attempts (Moab.commit s c.now c.op).rows := by
  obtain ⟨r, t, es, fs, _, hseq, row, hid, hatt, hm, hfs, _, hcounts⟩ := Call.handOuts_trace h hu
  rw [hatt]
  refine Steps.fenced_lease hfs hcounts hm hid ⟨?_, ?_⟩
  · rw [← hid]
    exact hseq _ t row
  · intro t' ht'
    rw [← hid, row] at ht'
    exact le_of_eq (congrArg Task.attempts (Option.some.inj ht'))

theorem Fenced.again (h : Sound False False s) {u : Task} (hu : u ∈ c.handOuts s)
    (hf : Fenced u.id n s.rows) : Fenced u.id (n + 1) (Moab.commit s c.now c.op).rows := by
  obtain ⟨r, t, es, fs, hes, _, _, hid, _, hm, hfs, hlapses, hcounts⟩ := Call.handOuts_trace h hu
  exact Steps.fenced_lease hfs hcounts hm hid (Steps.fenced hes hlapses hf)

theorem Fenced.rejects (h : Sound False False s) (hf : Fenced id (n + 1) s.rows) :
    c.accepts id n s = false := by
  unfold Call.accepts
  split
  · next req s' rs hop hx =>
    rw [hop] at hx
    have hrejects := reportEntries_fenced c.now req.deadLetterQueueConfig req.entries s h.indexed hf
    change (reportEntries c.now req.deadLetterQueueConfig s req.entries).map _ = _ at hx
    cases ha : reportEntries c.now req.deadLetterQueueConfig s req.entries with
    | error err => simp [ha, Except.map] at hx
    | ok a =>
      simp only [ha, Except.map, Except.ok.injEq, Prod.mk.injEq, Response.reportStatus.injEq] at hx
      rw [← hx.2]
      exact hrejects.elim ha
  · rfl

/-- A call without threads. Collecting a purged queue id would give its task ids out
anew. -/
def Call.plain (c : Call) : Prop := ¬c.op.threaded ∧ c.op.collectsPurged = false

instance (op : Op) : Decidable op.threaded :=
  match op with
  | .enqueue _ => inferInstanceAs (Decidable (∃ e ∈ _, _))
  | .dequeue _ | .reportStatus _ | .deleteTasks _ | .restartTasks _ | .purgeQueue _ |
    .runTasksGarbageCollection _ | .runPurgeQueueGarbageCollection _ =>
    inferInstanceAs (Decidable False)

instance (c : Call) : Decidable c.plain := inferInstanceAs (Decidable (¬_ ∧ _ = false))

theorem run_fenced_from (calls : List Call) (s : State) (hs : Sound False False s)
    (hc : ∀ c ∈ calls, c.plain) (hr : Along runStep (fun s c => c.restartsOthers id s) s calls)
    (hf : Fenced id n s.rows) : Fenced id n (run s calls).rows ∧ Sound False False
    (run s calls) := by
  refine run_keeps (I := fun s => Fenced id n s.rows ∧ Sound False False s)
    (P := fun s c => c.restartsOthers id s ∧ c.plain) ?_ calls s (hr.and_forall hc) ⟨hf, hs⟩
  intro s c hi hc
  exact ⟨hi.1.commit hi.2 hc.2.1 hc.2.2 hc.1, hi.2.commit hc.2.1⟩

theorem run_unleased (calls : List Call) (report : Call) (s : State) (hs : Sound False False s)
    (hc : ∀ c ∈ calls, c.plain) (hr : Along runStep (fun s c => c.restartsOthers id s) s calls)
    (hf : Fenced id n s.rows) (ha : report.accepts id n (run s calls) = true) :
    Along runStep (fun s c => ∀ u ∈ c.handOuts s, u.id ≠ id) s calls := by
  induction calls generalizing s with
  | nil => trivial
  | cons c calls ih =>
    obtain ⟨hplain, hc⟩ := List.forall_mem_cons.mp hc
    have hs' : Sound False False (commit s c.now c.op) := hs.commit hplain.1
    refine ⟨?_, ih _ hs' hc (hr.tail rfl) (hf.commit hs hplain.1 hplain.2 hr.1) ha⟩
    rintro u hu rfl
    -- handed out again, the task is beyond the attempt of the report
    obtain ⟨hlater, hsound⟩ := run_fenced_from calls _ hs' hc (hr.tail rfl) (hf.again hs hu)
    have hrejects := hlater.rejects hsound (c := report)
    rw [show run s (c :: calls) = run (commit s c.now c.op) calls from rfl, hrejects] at ha
    exact absurd ha (by simp)

/-- In every run in which the task is not restarted after a lease, a report that
quotes the lease is applied only if the task has not been handed out again. -/
theorem run_fenced (before between : List Call) (lease report : Call) (t : Task)
    (hcalls : ∀ c ∈ before ++ lease :: between, c.plain)
    (hlease : t ∈ lease.handOuts (run State.empty before))
    (hrestarts : Along runStep (fun s c => c.restartsOthers t.id s)
      (run State.empty (before ++ [lease])) between)
    (hreport : report.accepts t.id t.attempts
      (run State.empty (before ++ lease :: between)) = true) :
    Along runStep (fun s c => ∀ u ∈ c.handOuts s, u.id ≠ t.id)
      (run State.empty (before ++ [lease])) between := by
  obtain ⟨hbefore, hafter⟩ := List.forall_mem_append.mp hcalls
  obtain ⟨hplain, hbetween⟩ := List.forall_mem_cons.mp hafter
  have hs := run_unthreaded_sound before (fun c hc => (hbefore c hc).1)
  rw [run_append] at hrestarts ⊢
  rw [run_append] at hreport
  exact run_unleased between report _ (hs.commit hplain.1) hbetween hrestarts
    (Fenced.start hs hlease) hreport

end Calls

section Runs

/-- A task that dies on its first failure. -/
def fragileEntry : EnqueueRequestEntry := ⟨[], 5, 9000000000000, [], none, [], []⟩

def enqueueFragile : Call := ⟨5, .enqueue ⟨plainQueue, [fragileEntry]⟩⟩

def leaseAt (now : Time) : Call := ⟨now, .dequeue ⟨plainQueue, none, 10, keepDead, 60⟩⟩

/-- The worker of a first lease is done. -/
def doneAt (now : Time) : Call :=
  ⟨now, .reportStatus ⟨[⟨plainQueue.task 1, 1, .succeeded, 60⟩], keepDead⟩⟩

def fragileLease : Task :=
  (newTask plainQueue 1 fragileEntry 5).lease 10 60

theorem run_fenced_in_time :
    Along runStep (fun s c => ∀ u ∈ c.handOuts s, u.id ≠ plainQueue.task 1)
      (run State.empty [enqueueFragile, leaseAt 10]) [leaseAt 20] :=
  run_fenced [enqueueFragile] [leaseAt 20] (leaseAt 10) (doneAt 30) fragileLease (by decide +kernel)
    (by decide +kernel) (by decide +kernel) (by decide +kernel)

/-- The lease lapses, the task dies, and it is restarted and handed out again. -/
def restartedRun : List Call :=
  [leaseAt 60000000010, ⟨60000000020, .restartTasks ⟨plainQueue, [⟨1, 0, 9000000000000⟩]⟩⟩,
    leaseAt 60000000030]

/-- The first worker's report then completes the task of the second one. -/
theorem run_restarted_accepts_stale :
    fragileLease ∈ (leaseAt 10).handOuts (run State.empty [enqueueFragile]) ∧
    (∃ u ∈ (leaseAt 60000000030).handOuts (run State.empty
      ([enqueueFragile, leaseAt 10] ++ restartedRun.take 2)), u.id = fragileLease.id) ∧
    (doneAt 60000000040).accepts fragileLease.id fragileLease.attempts
      (run State.empty ([enqueueFragile, leaseAt 10] ++ restartedRun)) = true := by
  decide +kernel

end Runs

end Moab
