import Mathlib.Algebra.Ring.Int.Defs
import Moab.Tasks.Unthreaded

namespace Moab

open OrderedStore

section Gauges

variable [OrderedStore] {th : Prop} {r r' : Rows} {q : QueueId} {st : TaskState}

/-- The gauge of the tasks in a state. -/
def TasksCounter.gauge (c : TasksCounter) : TaskState → Int
  | .enqueued => c.enqueuedTasksCount
  | .inProgress => c.inProgressTasksCount
  | .dead => c.deadTasksCount
  | .invalid => 0

/-- How many rows of a queue are in a state. -/
def rowCount (tasks : Table TaskId Task) (q : QueueId) (st : TaskState) : Nat :=
  tasks.count (fun id t => id.queue = q ∧ t.state = st)

/-- One row of the queue in the state, or none. -/
def Task.counts (t : Task) (q : QueueId) (st : TaskState) : Nat :=
  if t.id.queue = q ∧ t.state = st then 1 else 0

omit [OrderedStore] in
theorem Task.counts_eq (t : Task) (q : QueueId) (st : TaskState) :
    (decide (t.id.queue = q ∧ t.state = st)).toNat = t.counts q st := by
  unfold Task.counts
  split_ifs with h
  · simp [h]
  · simp [h]

theorem rowCount_new {tasks : Table TaskId Task} {t : Task} (h : tasks.get t.id = none) :
    rowCount (tasks.set t.id t) q st = rowCount tasks q st + t.counts q st := by
  have hset := Table.count_set (fun id t => decide (id.queue = q ∧ t.state = st)) tasks t.id t
  rw [h, Task.counts_eq] at hset
  exact hset

theorem rowCount_set {tasks : Table TaskId Task} {t t' : Task} (h : tasks.get t.id = some t)
    (hid : t'.id = t.id) : rowCount (tasks.set t.id t') q st + t.counts q st =
      rowCount tasks q st + t'.counts q st := by
  have hset := Table.count_set (fun id t => decide (id.queue = q ∧ t.state = st)) tasks t.id t'
  rw [h, ← hid] at hset
  simp only [Table.hit] at hset
  rw [Task.counts_eq t', hid, Task.counts_eq t] at hset
  exact hset

theorem rowCount_delete {tasks : Table TaskId Task} {t : Task} (h : tasks.get t.id = some t) :
    rowCount (tasks.delete t.id) q st + t.counts q st = rowCount tasks q st := by
  have hdel := Table.count_delete (fun id t => decide (id.queue = q ∧ t.state = st)) tasks t.id
  rw [h] at hdel
  simp only [Table.hit] at hdel
  rw [Task.counts_eq] at hdel
  exact hdel

/-- How far the gauge of a state is off. -/
def drift (r : Rows) (q : QueueId) (st : TaskState) : Int :=
  (r.counter q).gauge st - rowCount r.tasks q st

/-- What charging a scan does to the gauge of a state. -/
def chargeGauge (expired leased : Nat) : TaskState → Int
  | .enqueued => -(expired + leased)
  | .inProgress => leased
  | _ => 0

/-- A scan is charged before its rows change; every other event keeps the gauges. -/
def Event.drift (q : QueueId) (st : TaskState) : Event → Int
  | .charged q' x n => if q' = q then chargeGauge x n st else 0
  | .expired t => t.counts q st
  | .leased t t' => t.counts q st - t'.counts q st
  | _ => 0

theorem counter_set (counters : Table QueueId TasksCounter) (q' : QueueId) (c : TasksCounter) :
    ((counters.set q' c).get q).getD .zero = if q = q' then c else (counters.get q).getD .zero := by
  rw [Table.get_set]
  split_ifs <;> rfl

section GaugeLemmas

omit [OrderedStore]

variable (c : TasksCounter) (n : Int)

theorem gauge_addEnqueued :
    (c.addEnqueued n).gauge st = c.gauge st + if st = .enqueued then n else 0 := by
  cases st <;> simp [TasksCounter.gauge, TasksCounter.addEnqueued]

theorem gauge_addInProgress :
    (c.addInProgress n).gauge st = c.gauge st + if st = .inProgress then n else 0 := by
  cases st <;> simp [TasksCounter.gauge, TasksCounter.addInProgress]

theorem gauge_addDead : (c.addDead n).gauge st = c.gauge st + if st = .dead then n else 0 := by
  cases st <;> simp [TasksCounter.gauge, TasksCounter.addDead]

theorem gauge_countDeletion (reason : TaskDeletionReason) :
    (c.countDeletion reason).gauge st = c.gauge st := by
  cases reason <;> cases st <;> rfl

theorem gauge_leave (left : TaskState) (hst : st ≠ .invalid) :
    (Rows.leave c left).gauge st = c.gauge st - if left = st then 1 else 0 := by
  cases left with
  | enqueued => simp only [Rows.leave, gauge_addEnqueued, eq_comm]; split_ifs <;> omega
  | inProgress => simp only [Rows.leave, gauge_addInProgress, eq_comm]; split_ifs <;> omega
  | dead => simp only [Rows.leave, gauge_addDead, eq_comm]; split_ifs <;> omega
  | invalid => simp [Rows.leave, Ne.symm hst]

theorem gauge_chargeScan (expired leased : Nat) :
    (Rows.chargeScan c expired leased).gauge st = c.gauge st + chargeGauge expired leased st := by
  cases st <;> simp [TasksCounter.gauge, Rows.chargeScan, chargeGauge]
  omega

end GaugeLemmas

theorem counter_gauge {t : Task} {c : TasksCounter} {d : Int}
    (hc : c.gauge st = (r.counter t.id.queue).gauge st + d) :
    (((r.counters.set t.id.queue c).get q).getD .zero).gauge st =
      (r.counter q).gauge st + if t.id.queue = q then d else 0 := by
  rw [counter_set]
  by_cases hq : q = t.id.queue
  · rw [if_pos hq, if_pos hq.symm, hc, hq]
  · rw [if_neg hq, if_neg (Ne.symm hq), add_zero]
    rfl

/-- A task that moves from one state to another moves the gauges with it. -/
theorem drift_moves {t t' : Task} {c : TasksCounter} (row : r.tasks.get t.id = some t)
    (htasks : r'.tasks = r.tasks.set t.id t') (hid : t'.id = t.id)
    (hcounters : r'.counters = r.counters.set t.id.queue c)
    (hc : c.gauge st = (r.counter t.id.queue).gauge st +
      ((if t'.state = st then 1 else 0) - if t.state = st then 1 else 0)) :
    drift r' q st = drift r q st + 0 := by
  have hrows : rowCount (r.tasks.set t.id t') q st + t.counts q st = _ := rowCount_set row hid
  have hgauge := counter_gauge (q := q) hc
  unfold drift Rows.counter at *
  rw [htasks, hcounters, hgauge]
  simp only [Task.counts, hid] at hrows
  by_cases hq : t.id.queue = q
  · simp only [hq, true_and, if_true] at hrows ⊢
    split_ifs at hrows ⊢ <;> omega
  · simp only [hq, false_and, if_false] at hrows ⊢
    omega

/-- A row that is rewritten in its state leaves the gauges alone. -/
theorem drift_stays {t t' : Task} (row : r.tasks.get t.id = some t)
    (htasks : r'.tasks = r.tasks.set t.id t') (hid : t'.id = t.id)
    (hcounters : r'.counters = r.counters) (hs : t'.state = t.state) :
    drift r' q st = drift r q st + 0 := by
  have hrows : rowCount (r.tasks.set t.id t') q st + t.counts q st = _ := rowCount_set row hid
  unfold drift Rows.counter
  rw [htasks, hcounters]
  simp only [Task.counts, hid, hs] at hrows
  omega

/-- A row that comes or goes in a state moves the gauge of that state. -/
theorem drift_counts {t : Task} {c : TasksCounter} {k : Int}
    (hrows : (rowCount r'.tasks q st : Int) = rowCount r.tasks q st + k * t.counts q st)
    (hcounters : r'.counters = r.counters.set t.id.queue c)
    (hc : c.gauge st = (r.counter t.id.queue).gauge st + if t.state = st then k else 0) :
    drift r' q st = drift r q st + 0 := by
  have hgauge := counter_gauge (q := q) hc
  unfold drift Rows.counter at *
  rw [hcounters, hgauge, hrows]
  unfold Task.counts
  by_cases hq : t.id.queue = q
  · by_cases hs : t.state = st
    · simp [hq, hs]
    · simp [hq, hs]
  · simp [hq]

theorem Step.drift {e : Event} (hs : Step th r e r') (hk : e.kind ≠ .dropped)
    (hst : st ≠ .invalid) : drift r' q st = drift r q st + e.drift q st := by
  cases hs with
  | create fresh state free calm =>
    rename_i t
    have hrows : rowCount (r.create t).tasks q st = _ := rowCount_new fresh
    refine drift_counts (k := 1) (t := t) (by rw [hrows, one_mul]; rfl) rfl ?_
    rw [gauge_addEnqueued, state]
    simp only [eq_comm]
  | overwrite row state => exact drift_stays row rfl rfl rfl rfl
  | delete row =>
    rename_i t reason
    have hrows : rowCount (r.delete t reason).tasks q st + t.counts q st = _ := rowCount_delete row
    refine drift_counts (k := -1) (t := t) (by omega) rfl ?_
    rw [gauge_leave _ _ hst, gauge_countDeletion]
    split_ifs <;> omega
  | renew row state => exact drift_stays row rfl rfl rfl rfl
  | retry row state =>
    refine drift_moves row rfl rfl rfl ?_
    rw [gauge_addEnqueued, gauge_addInProgress, state]
    cases st <;> simp [Task.retry]
  | die row state =>
    refine drift_moves row rfl rfl rfl ?_
    rw [gauge_addDead, gauge_addInProgress, state]
    cases st <;> simp [Task.die]
  | restart row state =>
    refine drift_moves row rfl rfl rfl ?_
    rw [gauge_addEnqueued, gauge_addDead, state]
    cases st <;> simp [Task.restart]
  | charge =>
    rename_i q' x n
    change ((((r.counters.set q' _).get q).getD .zero).gauge st - rowCount r.tasks q st : Int) =
      _ - _ + if q' = q then chargeGauge x n st else 0
    rw [counter_set]
    by_cases hq : q' = q
    · rw [if_pos hq.symm, if_pos hq, gauge_chargeScan, hq]
      omega
    · rw [if_neg (Ne.symm hq), if_neg hq, add_zero]
      rfl
  | expire row state =>
    rename_i t
    have hrows : rowCount (r.expire t).tasks q st + t.counts q st = _ := rowCount_delete row
    change ((r.counter q).gauge st - _ : Int) = _ - _ + (t.counts q st : Int)
    omega
  | lease row state =>
    rename_i t now keepalive
    have hrows : rowCount (r.lease t (t.lease now keepalive)).tasks q st + t.counts q st = _ :=
      rowCount_set row rfl
    change ((r.counter q).gauge st - _ : Int) = _ - _ + (t.counts q st - Task.counts _ q st : Int)
    omega
  | drop => simp [Event.kind] at hk
  | sequence | purge | tune => exact (add_zero _).symm

/-- The gauges over a whole path. -/
theorem Steps.drift {es : List Event} (hs : Steps th r es r') (hk : ∀ e ∈ es, e.kind ≠ .dropped)
    (hst : st ≠ .invalid) : Moab.drift r' q st = Moab.drift r q st + (es.map (·.drift q st)).sum :=
  Trace.total (fun r => Moab.drift r q st) (·.drift q st) hs
    (fun e he _ _ hstep => hstep.drift (hk e he) hst)

omit [OrderedStore] in
theorem Event.drift_eq_zero {e : Event} (h : e.kind ∉ [EventKind.charged, .expired, .leased]) :
    e.drift q st = 0 := by
  cases e with
  | charged | expired | leased => simp [Event.kind] at h
  | _ => rfl

/-- No gauge is off. -/
def Balanced (r : Rows) : Prop := ∀ q st, st ≠ .invalid → Moab.drift r q st = 0

/-- The end of a purge forgets the gauges of a queue that has no rows. -/
theorem Step.balanced {e : Event} (hs : Step th r e r')
    (he : e.kind ∉ [EventKind.charged, .expired, .leased]) (h : Balanced r) : Balanced r' := by
  intro q st hst
  by_cases hk : e.kind = .dropped
  · cases hs with
    | drop empty =>
      rename_i q'
      by_cases hq : q = q'
      · subst hq
        have hrows : rowCount r.tasks q st = 0 :=
          Table.count_eq_zero.mpr (fun id t ht => by simp [empty id t ht])
        have hzero : (r.drop q).counter q = .zero := by simp [Rows.counter, Rows.drop]
        unfold Moab.drift
        rw [hzero, show rowCount (r.drop q).tasks q st = rowCount r.tasks q st from rfl, hrows]
        cases st <;> rfl
      · have hsame : (r.drop q').counter q = r.counter q := by
          unfold Rows.counter Rows.drop
          rw [Table.get_delete_ne _ hq]
        have hd := h q st hst
        unfold Moab.drift at hd ⊢
        rw [hsame]
        exact hd
    | _ => simp [Event.kind] at hk
  · rw [hs.drift hk hst, h q st hst, Event.drift_eq_zero he]
    rfl

end Gauges

section Scan

variable [OrderedStore] {now keepalive : Time} {q : QueueId} {st : TaskState}

omit [OrderedStore] in
theorem sum_map_eq {α : Type} {f : α → Int} {c : Int} {l : List α} (h : ∀ a ∈ l, f a = c) :
    (l.map f).sum = l.length * c := by
  have hsum := List.sum_eq_card_nsmul (l.map f) c (by simpa using h)
  rwa [List.length_map, Int.nsmul_eq_mul] at hsum

omit [OrderedStore] in
/-- What a scan is charged is what its rows then do. -/
theorem HandsOut.drift {ts : List Task} {es : List Event} {q' : QueueId}
    (h : HandsOut q' now keepalive ts es)
    (hts : ∀ t ∈ ts, t.state = .enqueued ∧ t.id.queue = q') : (es.map (·.drift q st)).sum = 0 := by
  have hcounts : ∀ t ∈ ts, t.counts q st = if q' = q ∧ TaskState.enqueued = st then 1 else 0 := by
    intro t ht
    obtain ⟨hs, hq⟩ := hts t ht
    rw [Task.counts, hs, hq]
  have hleased : ∀ t ∈ ts, (t.lease now keepalive).counts q st =
      if q' = q ∧ TaskState.inProgress = st then 1 else 0 := by
    intro t ht
    obtain ⟨_, hq⟩ := hts t ht
    rw [Task.counts, ← hq]
    rfl
  have hx : ((ts.filter (·.overdue now)).map (fun t => (t.counts q st : Int))).sum = _ :=
    sum_map_eq (fun t ht => congrArg Nat.cast (hcounts t (List.mem_of_mem_filter ht)))
  have hl : ((ts.filter (fun t => !t.overdue now)).map (fun t => (t.counts q st : Int) -
      (t.lease now keepalive).counts q st)).sum = _ :=
    sum_map_eq (fun t ht => congrArg₂ (fun a b : Nat => (a : Int) - b)
      (hcounts t (List.mem_of_mem_filter ht)) (hleased t (List.mem_of_mem_filter ht)))
  rw [h]
  simp only [List.map_cons, List.map_append, List.map_map, List.sum_cons, List.sum_append,
    Function.comp_def, Event.drift, hx, hl]
  by_cases hq : q' = q
  · cases st <;> simp [hq, chargeGauge]
  · simp [hq]

end Scan

section Lifetime

variable [OrderedStore] {th : Prop} {r r' : Rows} {q : QueueId} {now keepalive : Time}

/-- A counter that only grows: by d for a deletion, and by k for each task that a
scan finds expired. -/
structure Lifetime (f : TasksCounter → Int) (d : TaskDeletionReason → Nat) (k : Nat) : Prop where
  enqueued : ∀ c n, f (c.addEnqueued n) = f c
  inProgress : ∀ c n, f (c.addInProgress n) = f c
  dead : ∀ c n, f (c.addDead n) = f c
  deletion : ∀ c reason, f (c.countDeletion reason) = f c + d reason
  charge : ∀ c expired leased, f (Rows.chargeScan c expired leased) = f c + k * expired

def processedBy : TaskDeletionReason → Nat
  | .succeeded => 1
  | _ => 0

def expiredBy : TaskDeletionReason → Nat
  | .expired => 1
  | _ => 0

omit [OrderedStore] in
theorem processed_lifetime : Lifetime TasksCounter.processedTasksCount processedBy 0 where
  enqueued _ _ := rfl
  inProgress _ _ := rfl
  dead _ _ := rfl
  deletion _ reason := by cases reason <;> simp [TasksCounter.countDeletion, processedBy]
  charge _ _ _ := by simp [Rows.chargeScan]

omit [OrderedStore] in
theorem expired_lifetime : Lifetime TasksCounter.expiredTasksCount expiredBy 1 where
  enqueued _ _ := rfl
  inProgress _ _ := rfl
  dead _ _ := rfl
  deletion _ reason := by cases reason <;> simp [TasksCounter.countDeletion, expiredBy]
  charge _ _ _ := by simp [Rows.chargeScan]

variable {f : TasksCounter → Int} {d : TaskDeletionReason → Nat} {k : Nat}

omit [OrderedStore] in
theorem Lifetime.leave (hf : Lifetime f d k) (c : TasksCounter) (st : TaskState) :
    f (Rows.leave c st) = f c := by
  cases st with
  | enqueued => exact hf.enqueued _ _
  | inProgress => exact hf.inProgress _ _
  | dead => exact hf.dead _ _
  | invalid => rfl

/-- What an event adds to a lifetime counter. -/
def Event.lifetime (d : TaskDeletionReason → Nat) (k : Nat) (q : QueueId) : Event → Int
  | .deleted t reason => if t.id.queue = q then d reason else 0
  | .charged q' n _ => if q' = q then k * n else 0
  | _ => 0

theorem counter_lifetime {q' : QueueId} {c : TasksCounter} {x : Int}
    (hc : f c = f (r.counter q') + x) :
    f (((r.counters.set q' c).get q).getD .zero) = f (r.counter q) + if q' = q then x else 0 := by
  rw [counter_set]
  by_cases hq : q = q'
  · rw [if_pos hq, if_pos hq.symm, hc, hq]
  · rw [if_neg hq, if_neg (Ne.symm hq), add_zero]
    rfl

theorem Step.lifetime {e : Event} (hf : Lifetime f d k) (hs : Step th r e r')
    (hk : e.kind ≠ .dropped) : f (r'.counter q) = f (r.counter q) + e.lifetime d k q := by
  have same : ∀ {q' c}, f c = f (r.counter q') →
      f (((r.counters.set q' c).get q).getD .zero) = f (r.counter q) + 0 := by
    intro q' c hc
    have hset := counter_lifetime (q := q) (x := 0) (hc.trans (add_zero _).symm)
    rw [ite_self] at hset
    exact hset
  cases hs with
  | create => exact same (hf.enqueued _ _)
  | overwrite => exact (add_zero _).symm
  | delete => exact counter_lifetime ((hf.leave _ _).trans (hf.deletion _ _))
  | renew => exact (add_zero _).symm
  | retry => exact same ((hf.enqueued _ _).trans (hf.inProgress _ _))
  | die => exact same ((hf.dead _ _).trans (hf.inProgress _ _))
  | restart => exact same ((hf.enqueued _ _).trans (hf.dead _ _))
  | charge => exact counter_lifetime (hf.charge _ _ _)
  | expire | lease => exact (add_zero _).symm
  | drop => simp [Event.kind] at hk
  | sequence | purge | tune => exact (add_zero _).symm

theorem Steps.lifetime {es : List Event} (hf : Lifetime f d k) (hs : Steps th r es r')
    (hk : ∀ e ∈ es, e.kind ≠ .dropped) :
    f (r'.counter q) = f (r.counter q) + (es.map (·.lifetime d k q)).sum :=
  Trace.total (fun r => f (r.counter q)) (·.lifetime d k q) hs
    (fun e he _ _ hstep => hstep.lifetime hf (hk e he))

end Lifetime

section Causes

variable {now keepalive : Time} {q : QueueId} {op : Op} {response : Response} {es : List Event}

/-- A task of the queue was removed because its deadline had passed. -/
def Event.expires (q : QueueId) : Event → Bool
  | .deleted t .expired => t.id.queue = q
  | .expired t => t.id.queue = q
  | _ => false

/-- The operation removes tasks whatever their deadline. -/
def Op.removes : Op → Bool
  | .deleteTasks _ => true
  | .runPurgeQueueGarbageCollection _ => true
  | _ => false

/-- The operation lets leases fail, and with them tasks die. -/
def Op.fails : Op → Bool
  | .dequeue _ => true
  | .reportStatus _ => true
  | _ => false

/-- Removals are labelled by their cause: an expired task is past its deadline. One
without a reason was asked for, or it is a failure that is not past its deadline or
a dead task evicted. -/
def Event.truthful (now : Time) (op : Op) : Event → Prop
  | .deleted t .expired => t.expiresAt < now ∨ t.expiresAt.rank ≤ now.rank
  | .deleted t .none => op.removes ∨ op.fails ∧ (t.live → ¬t.expiresAt < now)
  | .expired t => t.expiresAt < now
  | _ => True

/-- The SUCCEEDED reports of a call for a queue that were applied. -/
def Op.succeeded (q : QueueId) : Op → Response → Nat
  | .reportStatus req, .reportStatus rs => (req.entries.zip rs).countP (fun a =>
      a.1.status = .succeeded ∧ a.2.result = .ok ∧ a.1.taskId.queue = q)
  | _, _ => 0

theorem Failed.truthful {t : Task} (hop : op.fails) (h : Failed t now es) :
    ∀ e ∈ es, e.truthful now op := by
  cases h with
  | expired late => exact List.forall_mem_singleton.mpr (Or.inl late)
  | dropped late => exact List.forall_mem_singleton.mpr (Or.inr ⟨hop, fun _ => late⟩)
  | retried => exact List.forall_mem_singleton.mpr trivial
  | died _ _ evicted =>
    obtain ⟨l, rfl, hdead⟩ := evicted
    refine List.forall_mem_cons.mpr ⟨trivial, fun e he => ?_⟩
    obtain ⟨u, hu, rfl⟩ := List.mem_map.mp he
    exact Or.inr ⟨hop, fun hl => by simp [Task.live, hdead u hu] at hl⟩

theorem Reported.truthful {t : Task} {status : ReportStatus} (hop : op.fails)
    (h : Reported now t status es) : ∀ e ∈ es, e.truthful now op := by
  cases h with
  | renewed | succeeded => exact List.forall_mem_singleton.mpr trivial
  | failed hf => exact hf.truthful hop

theorem HandsOut.truthful {ts : List Task} (h : HandsOut q now keepalive ts es) :
    ∀ e ∈ es, e.truthful now op := by
  intro e he
  rw [h] at he
  simp only [List.mem_cons, List.mem_append, List.mem_map] at he
  rcases he with rfl | rfl | ⟨t, ht, rfl⟩ | ⟨t, _, rfl⟩
  · trivial
  · trivial
  · have hlate : t.overdue now = true := (List.mem_filter.mp ht).2
    have hpast : t.expiresAt < now := of_decide_eq_true hlate
    exact hpast
  · trivial

theorem Caused.truthful (h : Caused now op response es) : ∀ e ∈ es, e.truthful now op := by
  cases h with
  | refusedEnqueue => simp
  | refusedDequeue => simp
  | enqueue h =>
    refine List.forall_mem_append.mpr ⟨fun e he => ?_, List.forall_mem_singleton.mpr trivial⟩
    obtain ⟨_, _, ⟨t, t', rfl, _⟩ | ⟨n, rfl, _⟩⟩ := h e he <;> trivial
  | dequeue lapses _ hands =>
    obtain ⟨l, es, rfl, hl, _⟩ := lapses
    exact List.forall_mem_append.mpr ⟨List.forall_mem_cons.mpr ⟨trivial,
      hl.all (fun _ _ _ hf => hf.truthful rfl)⟩,
      List.forall_mem_append.mpr ⟨hands.truthful, List.forall_mem_singleton.mpr trivial⟩⟩
  | reportStatus h => exact h.all (fun _ _ _ hr => hr.truthful rfl)
  | deleteTasks h =>
    intro e he
    obtain ⟨t, rfl, _⟩ := h e he
    exact Or.inl rfl
  | restartTasks h =>
    intro e he
    obtain ⟨_, _, t, rfl, _⟩ := h e he
    trivial
  | purgeQueue => exact List.forall_mem_singleton.mpr trivial
  | runTasksGarbageCollection h =>
    intro e he
    obtain ⟨t, rfl, _, hdue⟩ := h e he
    exact Or.inr hdue
  | runPurgeQueueGarbageCollection h =>
    intro e he
    rcases h e he with ⟨t, rfl, _⟩ | ⟨q, _, rfl⟩
    · exact Or.inl rfl
    · trivial

end Causes

section Sums

variable {now keepalive : Time} {q : QueueId} {op : Op} {response : Response} {es : List Event}

theorem sum_eq_countP {α : Type} {f : α → Int} {p : α → Bool} (l : List α)
    (h : ∀ a ∈ l, f a = if p a then 1 else 0) : (l.map f).sum = l.countP p := by
  induction l with
  | nil => rfl
  | cons a l ih =>
    rw [List.map_cons, List.sum_cons, h a List.mem_cons_self,
      ih (fun b hb => h b (List.mem_cons_of_mem _ hb)), List.countP_cons]
    split_ifs <;> omega

theorem Event.lifetime_expired {e : Event} (h : e.kind ∉ [EventKind.charged, .expired]) :
    e.lifetime expiredBy 1 q = if e.expires q then 1 else 0 := by
  cases e with
  | charged | expired => simp [Event.kind] at h
  | deleted t reason => cases reason <;> simp [Event.lifetime, Event.expires, expiredBy]
  | _ => rfl

/-- A scan is charged one expired task for each that it then drops. -/
theorem HandsOut.expired {q' : QueueId} {ts : List Task} (h : HandsOut q' now keepalive ts es)
    (hts : ∀ t ∈ ts, t.id.queue = q') :
    (es.map (·.lifetime expiredBy 1 q)).sum = es.countP (·.expires q) := by
  have hx : (ts.filter (·.overdue now)).countP (fun t => t.id.queue = q) =
      if q' = q then (ts.filter (·.overdue now)).length else 0 := by
    split_ifs with hq
    · exact List.countP_eq_length.mpr (fun t ht => by simp [hts t (List.mem_of_mem_filter ht), hq])
    · exact List.countP_eq_zero.mpr (fun t ht => by simp [hts t (List.mem_of_mem_filter ht), hq])
  rw [h]
  simp only [List.map_cons, List.map_append, List.map_map, List.sum_cons, List.sum_append,
    List.countP_cons, List.countP_append, List.countP_map, Function.comp_def, Event.lifetime,
    Event.expires, hx, List.map_const', List.sum_replicate, List.countP_false, Bool.false_eq_true,
    if_false]
  split_ifs <;> simp

theorem Caused.expired (h : Caused now op response es) :
    (es.map (·.lifetime expiredBy 1 q)).sum = es.countP (·.expires q) := by
  have plain : (∀ k ∈ op.kinds, k ∉ [EventKind.charged, .expired]) →
      (es.map (·.lifetime expiredBy 1 q)).sum = es.countP (·.expires q) :=
    fun hk => sum_eq_countP es (fun e he => Event.lifetime_expired (hk _ (h.kinds e he)))
  cases h with
  | refusedEnqueue => rfl
  | refusedDequeue => rfl
  | enqueue => exact plain (by simp [Op.kinds])
  | dequeue lapses waited hands =>
    rename_i l fs
    have hkinds : ∀ k ∈ [EventKind.tuned, .deleted, .retried, .died],
        k ∉ [EventKind.charged, .expired] := by decide
    rw [List.map_append, List.map_append, List.sum_append, List.sum_append, List.countP_append,
      List.countP_append, sum_eq_countP l (fun e he =>
        Event.lifetime_expired (hkinds _ (lapses.kinds e he))),
      hands.expired (fun t ht => (waited t ht).2)]
    rfl
  | _ => exact plain (by simp [Op.kinds])

theorem Failed.unprocessed {t : Task} (h : Failed t now es) :
    ∀ e ∈ es, e.lifetime processedBy 0 q = 0 := by
  cases h with
  | expired | dropped => simp [Event.lifetime, processedBy]
  | retried => simp [Event.lifetime]
  | died _ _ evicted =>
    obtain ⟨l, rfl, _⟩ := evicted
    refine List.forall_mem_cons.mpr ⟨rfl, fun e he => ?_⟩
    obtain ⟨u, _, rfl⟩ := List.mem_map.mp he
    simp [Event.lifetime, processedBy]

theorem Reported.processed {t : Task} {status : ReportStatus} (h : Reported now t status es) :
    (es.map (·.lifetime processedBy 0 q)).sum =
      if status = .succeeded ∧ t.id.queue = q then 1 else 0 := by
  cases h with
  | renewed => simp [Event.lifetime]
  | failed hf =>
    rw [List.sum_eq_zero (by simpa using hf.unprocessed)]
    simp
  | succeeded => simp [Event.lifetime, processedBy]

theorem ReportedAll.processed {entries : List ReportStatusRequestEntry}
    {rs : List ReportStatusResponseEntry} (h : ReportedAll now entries rs es) :
    (es.map (·.lifetime processedBy 0 q)).sum = ((entries.zip rs).countP (fun a =>
      a.1.status = .succeeded ∧ a.2.result = .ok ∧ a.1.taskId.queue = q) : Nat) := by
  induction h with
  | nil => rfl
  | skip hne _ ih => simp [ih, hne]
  | apply id _ _ hr _ ih =>
    rw [List.map_append, List.sum_append, hr.processed, ih, List.zip_cons_cons,
      List.countP_cons, id]
    simp only [true_and]
    split_ifs <;> simp_all
    omega

theorem Caused.processed (h : Caused now op response es) :
    (es.map (·.lifetime processedBy 0 q)).sum = op.succeeded q response := by
  have none : (∀ e ∈ es, e.lifetime processedBy 0 q = 0) →
      (es.map (·.lifetime processedBy 0 q)).sum = 0 :=
    fun hz => List.sum_eq_zero (by simpa using hz)
  cases h with
  | refusedEnqueue => rfl
  | refusedDequeue => rfl
  | enqueue h =>
    refine none (List.forall_mem_append.mpr ⟨fun e he => ?_, by simp [Event.lifetime]⟩)
    obtain ⟨_, _, ⟨t, t', rfl, _⟩ | ⟨n, rfl, _⟩⟩ := h e he <;> rfl
  | dequeue lapses _ hands =>
    obtain ⟨l, es, rfl, hl, _⟩ := lapses
    refine none (List.forall_mem_append.mpr ⟨List.forall_mem_cons.mpr ⟨rfl,
      hl.all (fun _ _ _ hf => hf.unprocessed)⟩, List.forall_mem_append.mpr ⟨fun e he => ?_,
        by simp [Event.lifetime]⟩⟩)
    rw [hands] at he
    simp only [List.mem_cons, List.mem_append, List.mem_map] at he
    rcases he with rfl | rfl | ⟨t, _, rfl⟩ | ⟨t, _, rfl⟩ <;> simp [Event.lifetime]
  | reportStatus h => exact h.processed
  | deleteTasks h | runTasksGarbageCollection h =>
    refine none (fun e he => ?_)
    obtain ⟨t, rfl, _⟩ := h e he
    simp [Event.lifetime, processedBy]
  | restartTasks h =>
    refine none (fun e he => ?_)
    obtain ⟨_, _, t, rfl, _⟩ := h e he
    rfl
  | purgeQueue => rfl
  | runPurgeQueueGarbageCollection h =>
    refine none (fun e he => ?_)
    rcases h e he with ⟨t, rfl, _⟩ | ⟨q, _, rfl⟩ <;> simp [Event.lifetime, processedBy]

end Sums

section Calls

variable [OrderedStore] {s s' : State} {now : Time} {op : Op} {response : Response}

/-- The gauges of every queue equal its row counts. -/
def Counted (s : State) : Prop :=
  ∀ q, (s.getCounter q).enqueuedTasksCount = rowCount s.tasks q .enqueued ∧
    (s.getCounter q).inProgressTasksCount = rowCount s.tasks q .inProgress ∧
    (s.getCounter q).deadTasksCount = rowCount s.tasks q .dead

theorem counted_iff_balanced : Counted s ↔ Balanced s.rows := by
  constructor
  · intro h q st hst
    obtain ⟨he, hp, hd⟩ := h q
    cases st with
    | enqueued => exact sub_eq_zero.mpr he
    | inProgress => exact sub_eq_zero.mpr hp
    | dead => exact sub_eq_zero.mpr hd
    | invalid => exact absurd rfl hst
  · intro h q
    exact ⟨sub_eq_zero.mp (h q .enqueued (by simp)), sub_eq_zero.mp (h q .inProgress (by simp)),
      sub_eq_zero.mp (h q .dead (by simp))⟩

theorem Lapses.balanced {th : Prop} {r r' : Rows} {q : QueueId} {es : List Event}
    (h : Lapses q now es) (hs : Steps th r es r') (hb : Balanced r) : Balanced r' := by
  have hkinds : ∀ k ∈ [EventKind.tuned, .deleted, .retried, .died],
      k ∉ [EventKind.charged, .expired, .leased] := by decide
  exact Trace.invariant_of hs (fun e he _ _ hi hl => hl.balanced (hkinds _ (h.kinds e he)) hi) hb

theorem Caused.balanced {th : Prop} {r r' : Rows} {es : List Event}
    (h : Caused now op response es) (hs : Steps th r es r') (hb : Balanced r) : Balanced r' := by
  have plain : (∀ k ∈ op.kinds, k ∉ [EventKind.charged, .expired, .leased]) → Balanced r' :=
    fun hk => Trace.invariant_of hs (fun e he _ _ hi hl => hl.balanced (hk _ (h.kinds e he)) hi) hb
  cases h with
  | refusedEnqueue => exact plain (by simp [Op.kinds])
  | refusedDequeue =>
    cases hs with
    | nil => exact hb
  | enqueue => exact plain (by simp [Op.kinds])
  | dequeue lapses waited hands =>
    rename_i l fs
    obtain ⟨r1, hlapses, hhands⟩ := hs.split
    have h1 : Balanced r1 := lapses.balanced hlapses hb
    intro q st hst
    have hkinds : ∀ k ∈ [EventKind.tuned, .charged, .expired, .leased], k ≠ .dropped := by decide
    have hdrift := Steps.drift (q := q) hhands (List.forall_mem_append.mpr
      ⟨fun e he => hkinds _ (hands.kinds e he), by simp [Event.kind]⟩) hst
    rw [List.map_append, List.sum_append, hands.drift waited, h1 q st hst] at hdrift
    exact hdrift
  | _ => exact plain (by simp [Op.kinds])

/-- The lifetime counters of a queue grow by the reports that succeeded and by the
tasks that expired. -/
structure Accounted (q : QueueId) (op : Op) (response : Response) (es : List Event) (s s' : State) :
    Prop where
  processed : (s'.getCounter q).processedTasksCount =
    (s.getCounter q).processedTasksCount + op.succeeded q response
  expired : (s'.getCounter q).expiredTasksCount =
    (s.getCounter q).expiredTasksCount + es.countP (·.expires q)

theorem Caused.accounted {th : Prop} {es : List Event} (q : QueueId) (h : Caused now op response es)
    (hs : Steps th s.rows es s'.rows) (hk : ∀ e ∈ es, e.kind ≠ .dropped) :
    Accounted q op response es s s' where
  processed := (hs.lifetime processed_lifetime hk).trans (by rw [h.processed]; rfl)
  expired := (hs.lifetime expired_lifetime hk).trans (by rw [h.expired]; rfl)

/-- The collection of a purged queue id adds nothing to the lifetime counters, until
it drops the whole row. -/
theorem Purges.unaccounted {th : Prop} {r r' : Rows} {qs : List QueueId} {es : List Event}
    (q : QueueId) (h : Purges qs es) (hs : Steps th r es r') :
    r'.counters.get q = none ∨ ((r'.counter q).processedTasksCount =
      (r.counter q).processedTasksCount ∧
        (r'.counter q).expiredTasksCount = (r.counter q).expiredTasksCount) := by
  -- once the row is dropped the queue has no tasks, so it is not written again
  have hinv : (r'.counters.get q = none ∧ ∀ id t, r'.tasks.get id = some t → id.queue ≠ q) ∨
      ((r'.counter q).processedTasksCount = (r.counter q).processedTasksCount ∧
        (r'.counter q).expiredTasksCount = (r.counter q).expiredTasksCount) := by
    refine Trace.invariant_of (I := fun x => (x.counters.get q = none ∧
      ∀ id t, x.tasks.get id = some t → id.queue ≠ q) ∨ ((x.counter q).processedTasksCount =
        (r.counter q).processedTasksCount ∧ (x.counter q).expiredTasksCount =
          (r.counter q).expiredTasksCount)) hs ?_ (Or.inr ⟨rfl, rfl⟩)
    intro e he a b ha hab
    rcases h e he with ⟨t, rfl, _⟩ | ⟨q', _, rfl⟩
    · rcases ha with ⟨hnone, hempty⟩ | ⟨hp, hx⟩
      · refine Or.inl ?_
        cases hab with
        | delete row =>
          refine ⟨?_, rows_delete hempty⟩
          change (a.counters.set t.id.queue _).get q = none
          rw [Table.get_set_ne _ _ (Ne.symm (hempty _ t row)), hnone]
      · refine Or.inr ⟨?_, ?_⟩
        · rw [hab.lifetime processed_lifetime (by simp [Event.kind]), hp]
          simp [Event.lifetime, processedBy]
        · rw [hab.lifetime expired_lifetime (by simp [Event.kind]), hx]
          simp [Event.lifetime, expiredBy]
    · cases hab with
      | drop empty =>
        by_cases hq : q = q'
        · subst hq
          exact Or.inl ⟨Table.get_delete_self _ _, empty⟩
        · have hget : (a.counters.delete q').get q = a.counters.get q := Table.get_delete_ne _ hq
          unfold Rows.counter Rows.drop at *
          dsimp only at *
          rw [hget]
          exact ha
  exact hinv.imp_left And.left

theorem Caused.accounted_or_dropped {th : Prop} {es : List Event} (q : QueueId)
    (h : Caused now op response es) (hs : Steps th s.rows es s'.rows) :
    (op.collectsPurged ∧ s'.counters.get q = none) ∨ Accounted q op response es s s' := by
  by_cases hp : op.collectsPurged
  · cases h with
    | runPurgeQueueGarbageCollection hpu =>
      have hcount : es.countP (·.expires q) = 0 := by
        refine List.countP_eq_zero.mpr (fun e he => ?_)
        rcases hpu e he with ⟨t, rfl, _⟩ | ⟨q', _, rfl⟩ <;> simp [Event.expires]
      rcases hpu.unaccounted q hs with hnone | ⟨hproc, hexp⟩
      · exact Or.inl ⟨hp, hnone⟩
      · refine Or.inr ⟨hproc.trans (add_zero _).symm, ?_⟩
        rw [hcount]
        exact hexp.trans (add_zero _).symm
    | _ => simp [Op.collectsPurged] at hp
  · refine Or.inr (h.accounted q hs (fun e he => ?_))
    intro hk
    have hmem := h.kinds e he
    rw [hk] at hmem
    cases op with
    | runPurgeQueueGarbageCollection => simp [Op.collectsPurged] at hp
    | _ => simp [Op.kinds] at hmem

theorem Counted.exec (hc : Counted s) (h : WellFormed s) :
    Ensures True (exec s now op) (fun a => Counted a.1) := by
  apply h.exec_makes.mono
  intro a ha
  obtain ⟨es, hes, hcause, _⟩ := ha
  exact counted_iff_balanced.mpr (hcause.balanced hes (counted_iff_balanced.mp hc))

/-- Every call on a well-formed state keeps the gauges equal to the row counts. The
processed counter grows by the SUCCEEDED reports that were applied, the expired
counter by the tasks removed past their deadline, until the row is dropped. -/
theorem commit_counted (h : WellFormed s) (hc : Counted s) (now : Time) (op : Op) :
    Counted (commit s now op) ∧ ∀ s' response, exec s now op = .ok (s', response) →
      ∃ es, Steps True s.rows es s'.rows ∧ Caused now op response es ∧
        (∀ e ∈ es, e.truthful now op) ∧
        ∀ q, (op.collectsPurged ∧ s'.counters.get q = none) ∨ Accounted q op response es s s' := by
  refine ⟨commit_keeps hc (hc.exec h), fun s' response hx => ?_⟩
  obtain ⟨es, hes, hcause, _⟩ := h.exec_makes.elim hx
  exact ⟨es, hes, hcause, hcause.truthful, fun q => hcause.accounted_or_dropped q hes⟩

end Calls

section Runs

theorem Counted.empty [OrderedStore] : Counted State.empty := by
  intro q
  have hrows : ∀ st, rowCount (State.empty.tasks) q st = 0 :=
    fun st => Table.count_eq_zero.mpr (fun id t h => by simp [State.empty] at h)
  have hcounter : State.empty.getCounter q = .zero := by simp [State.getCounter, State.empty]
  rw [hcounter, hrows, hrows, hrows]
  exact ⟨rfl, rfl, rfl⟩

/-- The gauges are right in every run without threads. -/
theorem run_unthreaded_counted [OrderedStore] (calls : List Call)
    (h : ∀ c ∈ calls, ¬c.op.threaded) : Counted (run State.empty calls) := by
  have hrun := run_keeps (I := fun s => Sound False False s ∧ Counted s)
    (fun s c hs hc => ⟨hs.1.commit hc, commit_keeps hs.2 (hs.2.exec hs.1.wellFormed)⟩)
    calls _ (Along.of_mem h) ⟨Sound.empty, Counted.empty⟩
  exact hrun.2

/-- The task restarted in the run is past its deadline. -/
def lateDequeue : Op := .dequeue ⟨plainQueue, none, 1, keepDead, 60⟩

theorem commit_counted_late : Counted (commit (run State.empty lifeRun) 95 lateDequeue) ∧
    ((run State.empty lifeRun).getCounter plainQueue).enqueuedTasksCount = 1 ∧
    ((commit (run State.empty lifeRun) 95 lateDequeue).getCounter plainQueue).expiredTasksCount =
      ((run State.empty lifeRun).getCounter plainQueue).expiredTasksCount + 1 := by
  have hun : ∀ c ∈ lifeRun, ¬c.op.threaded := by simp [lifeRun, Op.threaded, plainEntry]
  have hcounted := commit_counted (run_unthreaded_sound lifeRun hun).wellFormed
    (run_unthreaded_counted lifeRun hun) 95 lateDequeue
  exact ⟨hcounted.1, by decide +kernel, by decide +kernel⟩

end Runs

end Moab
