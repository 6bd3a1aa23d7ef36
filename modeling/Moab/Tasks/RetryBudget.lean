import Moab.Tasks.Exclusion
import Moab.Tasks.Fencing
import Moab.Tasks.Lived

namespace Moab

open OrderedStore

section Calls

variable [OrderedStore] {id : TaskId} {m n : Nat} {s : State} {t u : Task}
    {now : Time} {q : QueueId}

/-- The tasks that a response hands out. -/
def Response.deliveredTasks : Response → List Task
  | .dequeue (.ok ts) => ts
  | _ => []

/-- How often a call fails the task: reports that are applied, and lapsed leases that a
Dequeue meets. -/
def Op.failures (id : TaskId) (s : State) (now : Time) : Op → Response → Nat
  | .reportStatus req, .reportStatus rs => (req.entries.zip rs).countP (reportsFailure id)
  | .dequeue req, .dequeue (.ok _) =>
    (timedOutItems s req.queueId now).countP (fun i => req.queueId.task i.taskId = id)
  | _, _ => 0

/-- A call that fails as a whole does nothing. -/
def Call.failures (id : TaskId) (s : State) (c : Call) : Nat :=
  match exec s c.now c.op with
  | .ok a => c.op.failures id s c.now a.2
  | .error _ => 0

def Call.deliveries (id : TaskId) (s : State) (c : Call) : Nat := (c.handOuts s).countP (·.id = id)

/-- The call asks for a restart of the task. -/
def Op.Restarts (id : TaskId) : Op → Prop
  | .restartTasks req => ∃ e ∈ req.entries, req.queueId.task e.taskId = id
  | _ => False

namespace Stands

/-- What one call makes of an unthreaded task. -/
theorem exec (h : Stands id m (some t) s) (hm : id.taskId ≤ m) {op : Op} (hop : ¬op.Restarts id) :
    Ensures True (exec s now op)
      (fun a => ∃ m' o, Stands id m' o a.1 ∧ (o ≠ none → id.taskId ≤ m') ∧
      Fate now t (op.failures id s now a.2) (a.2.deliveredTasks.countP (·.id = id)) o) := by
  have hid := (h.plain t rfl).1
  have hfate : ∀ {o : Option Task}, OrGone (some t) o → Fate now t 0 0 o := by
    rintro o (rfl | rfl)
    · exact .kept (.refl t)
    · exact .gone
  have hkept : ∀ {s' : State}, Became id m (OrGone (some t)) s' → ∃ m' o, Stands id m' o s' ∧
      (o ≠ none → id.taskId ≤ m') ∧ Fate now t 0 0 o :=
    fun hs => hs.elim (fun o ho => ⟨m, o, ho.2, fun _ => hm, hfate ho.1⟩)
  cases op with
  | enqueue req =>
    apply Ensures.map
    apply (h.enqueue hm req).mono
    intro a ha
    obtain ⟨m', t', hm', turned, h'⟩ := ha
    exact ⟨m', some t', h', fun _ => hm', .kept turned⟩
  | dequeue req =>
    apply Ensures.map
    unfold Moab.dequeue
    cases checkQueueNotPurged s req.queueId with
    | some err => exact Ensures.ok (hkept ⟨_, Or.inl rfl, h⟩)
    | none =>
      subst hid
      apply (h.dequeueTasks req).bind
      intro a ha
      obtain ⟨o, h', hmet⟩ := ha
      exact Ensures.ok ⟨m, o, h', fun _ => hm, hmet⟩
  | reportStatus req =>
    apply Ensures.map
    apply (h.reportEntries req.entries).mono
    intro a ha
    obtain ⟨o, hr, h'⟩ := ha
    refine ⟨m, o, h', fun _ => hm, ?_⟩
    by_cases leased : t.state = .inProgress
    · exact hr.leased t rfl leased
    · obtain ⟨hcount, hevicted⟩ := hr.idle (fun u hu => Option.some.inj hu ▸ leased)
      simp only [Op.failures, Response.deliveredTasks, hcount]
      exact .evicted hevicted
  | deleteTasks req =>
    apply Ensures.map
    exact (h.deleteTasks req).mono (fun _ => hkept)
  | restartTasks req =>
    apply Ensures.map
    apply (h.restartEntries (q := req.queueId) req.entries (fun e he hid => hop ⟨e, he, hid⟩)).mono
    exact fun a h' => hkept ⟨_, Or.inl rfl, h'⟩
  | purgeQueue q => exact Ensures.ok (hkept ⟨_, Or.inl rfl, { h.shows with }, h.plain⟩)
  | runTasksGarbageCollection req =>
    apply Ensures.map
    exact (h.sweepRounds _ _ _).mono (fun _ => hkept)
  | runPurgeQueueGarbageCollection req =>
    apply Ensures.map
    apply (h.drainRecords (orDefault_pos _ (by decide)) _ _ _).mono
    intro s' hs
    obtain ⟨m', o, ho, h', hm'⟩ := hs
    exact ⟨m', o, h', fun hsome => by rw [hm' hsome]; exact hm, hfate ho⟩

theorem commit (h : Stands id m (some t) s) (hm : id.taskId ≤ m) {c : Call}
    (hop : ¬c.op.Restarts id) :
    ∃ m' o, Stands id m' o (commit s c.now c.op) ∧ (o ≠ none → id.taskId ≤ m') ∧
      Fate c.now t (c.failures id s) (c.deliveries id s) o := by
  have hexec : Ensures True (Moab.exec s c.now c.op) _ := h.exec hm hop
  unfold Call.failures Call.deliveries Call.handOuts Moab.commit
  cases hx : Moab.exec s c.now c.op with
  | error e => exact ⟨m, some t, h, fun _ => hm, .kept (.refl t)⟩
  | ok a =>
    obtain ⟨m', o, h', hm', hfate⟩ := hexec.elim hx
    refine ⟨m', o, h', hm', ?_⟩
    obtain ⟨s', r⟩ := a
    cases r with
    | dequeue r => cases r <;> exact hfate
    | _ => exact hfate

end Stands

end Calls

section Birth

variable [OrderedStore] {id : TaskId} {m n : Nat} {s : State} {t : Task} {now : Time} {q : QueueId}

/-- Nothing in the store refers to the task. -/
structure Vacant (id : TaskId) (s : State) : Prop where
  queued : ∀ i ∈ s.queueIndex.items id.queue, i.taskId ≠ id.taskId
  inProgress : ∀ i ∈ s.inProgressIndex.items id.queue, i.taskId ≠ id.taskId
  dead : ∀ i ∈ s.deadTasksIndex.items id.queue, i.taskId ≠ id.taskId
  thread : ∀ k thread, s.threads.get k = some thread → thread.headTaskId ≠ id
  member : ∀ k, ∀ i ∈ s.threadedTasksIndex.items k, k.queue.task i.taskId ≠ id

theorem Vacant.stands (h : Vacant id s) (hfiled : Filed s.spine) (hrow : s.tasks.get id = none) :
    Stands id (s.sequence id.queue) none s := by
  have hlisted : ∀ {x : Index QueueId IndexItem}, (∀ i ∈ x.items id.queue, i.taskId ≠ id.taskId) →
      Listed x id none := by
    intro x hx i hi
    simp only [reduceCtorEq, iff_false]
    exact fun hm => hx i hm hi
  refine ⟨?_, by simp⟩
  constructor
  · exact fun j u _ hu => (hfiled.row j u hu).1
  · exact fun k thread hk => ⟨(hfiled.thread k thread hk).2, h.thread k thread hk⟩
  · exact h.member
  · exact hrow
  · exact hlisted h.queued
  · exact hlisted h.inProgress
  · exact hlisted h.dead
  · rfl

/-- How far a batch has come with the task: it has not got to it, or it has created it
without a thread, or in one. -/
inductive Birth (id : TaskId) (q : QueueId) (m n : Nat) (s : State) : Prop where
  | pending (h : Stands id m none s)
  | born {t : Task} (h : Stands id m (some t) s) (attempts : t.attempts = 0)
    (state : t.state = .enqueued) (queue : id.queue = q) (used : id.taskId ≤ n)
  | threaded (h : ∀ j u, s.tasks.get j = some u → u.id = j ∧ (u.id = id → u.threadId ≠ []))
    (used : id.taskId ≤ n)

namespace Birth

theorem enqueueEntry (h : Birth id q m n s) (e : EnqueueRequestEntry) :
    Ensures True (enqueueEntry q now s n e) (fun a => Birth id q m a.2.1 a.1) := by
  have hrows : Upheld (fun u => u.id = id → u.threadId ≠ []) (fun u => u.id = id → u.threadId ≠ [])
      (fun s => ∀ j u, s.tasks.get j = some u → u.id = j ∧ (u.id = id → u.threadId ≠ [])) :=
    Upheld.of_rows (fun _ _ hu => hu.2) (fun _ hu _ => hu) (fun _ hu => ⟨rfl, hu⟩)
  cases h with
  | born h attempts state queue used =>
    apply (h.enqueueEntry (task_succ_ne (fun _ => used)) e).mono
    intro a ha
    obtain ⟨hle, _, ⟨turned⟩, h'⟩ := ha
    refine .born h' ?_ (turned.state.trans state) queue (Nat.le_trans used hle)
    rw [turned.attempts, attempts]
    rfl
  | threaded h used =>
    have hamending : Amending (fun u => u.id = id → u.threadId ≠ []) now e :=
      ⟨fun _ hu => hu, fun _ hu => hu, fun _ hu => hu⟩
    unfold Moab.enqueueEntry
    cases duplicateOf s q e with
    | some duplicateId =>
      apply (hrows.overwriteDuplicate hamending h duplicateId).bind
      exact fun a ha => Ensures.ok (.threaded ha.1 used)
    | none =>
      apply (hrows.createTask h (fun hid => absurd hid (task_succ_ne (fun _ => used)))).bind
      exact fun s' hs => Ensures.ok (.threaded hs (Nat.le_succ_of_le used))
  | pending h =>
    by_cases hid : q.task (n + 1) = id
    · unfold Moab.enqueueEntry
      cases duplicateOf s q e with
      | some duplicateId =>
        apply (h.overwriteDuplicate duplicateId _).bind
        intro a ha
        obtain ⟨_, ⟨⟩, h'⟩ := ha
        exact Ensures.ok (.pending h')
      | none =>
        subst hid
        by_cases plain : e.threadId = []
        · have hcreate := Stands.createTask (t := newTask q (n + 1) e now) h rfl plain
          apply hcreate.bind
          exact fun s' hs => Ensures.ok (.born hs rfl rfl rfl (Nat.le_refl _))
        · have habsent : ∀ j u, s.tasks.get j = some u →
              u.id = j ∧ (u.id = q.task (n + 1) → u.threadId ≠ []) := by
            intro j u hu
            have huid := h.id_of_get hu
            refine ⟨huid, fun he => ?_⟩
            rw [← huid, he, h.row] at hu
            cases hu
          apply (hrows.createTask (t := newTask q (n + 1) e now) habsent (fun _ => plain)).bind
          exact fun s' hs => Ensures.ok (.threaded hs (Nat.le_refl _))
    · apply (h.enqueueEntry hid e).mono
      intro a ha
      obtain ⟨_, _, ⟨⟩, h'⟩ := ha
      exact .pending h'

theorem enqueueEntries (es : List EnqueueRequestEntry) (h : Birth id q m n s) :
    Ensures True (enqueueEntries q now s n es) (fun a => Birth id q m a.2.1 a.1) := by
  induction es generalizing s n with
  | nil => exact Ensures.ok h
  | cons e es ih =>
    rw [Moab.enqueueEntries]
    apply (h.enqueueEntry e).bind
    intro a ha
    apply (ih ha).bind
    exact fun b hb => Ensures.ok hb

end Birth

/-- A task that an Enqueue creates without a thread, where nothing referred to it before. -/
theorem Stands.born (h : Stands id m none s) (req : EnqueueRequest)
    (hrow : (Moab.commit s now (.enqueue req)).tasks.get id = some t) (plain : t.threadId = []) :
    ∃ m', id.taskId ≤ m' ∧ Stands id m' (some t) (Moab.commit s now (.enqueue req)) ∧
      t.attempts = 0 ∧ t.state = .enqueued := by
  have habsent : s.tasks.get id ≠ some t := by
    rw [h.row]
    simp
  refine commit_keeps (I := fun s' => s'.tasks.get id = some t → ∃ m', id.taskId ≤ m' ∧
    Stands id m' (some t) s' ∧ t.attempts = 0 ∧ t.state = .enqueued)
    (fun hget => absurd hget habsent) (Ensures.map ?_) hrow
  unfold Moab.enqueue
  cases checkQueueNotPurged s req.queueId with
  | some err => exact Ensures.ok (fun hget => absurd hget habsent)
  | none =>
    apply (Birth.enqueueEntries req.entries (.pending h)).bind
    intro a ha
    refine Ensures.ok (fun hget => ?_)
    change a.1.tasks.get id = some t at hget
    cases ha with
    | pending h' => exact absurd (h'.row.symm.trans hget) (by simp)
    | threaded h' _ =>
      obtain ⟨hid, hthread⟩ := h' id t hget
      exact absurd plain (hthread hid)
    | born h' attempts state queue used =>
      obtain rfl := Option.some.inj (h'.row.symm.trans hget)
      refine ⟨_, ?_, h'.setQueueState _, attempts, state⟩
      rw [if_pos queue]
      exact used

end Birth

section Runs

variable [OrderedStore] {id : TaskId} {m d f : Nat} {s : State} {t : Task}
  {strategy : Option RetryStrategy}

/-- What the calls of a run add up to, as long as the task has its row. -/
def whileThere (id : TaskId) (count : State → Call → Nat) : State → List Call → Nat
  | _, [] => 0
  | s, c :: cs =>
    if (s.tasks.get id).isSome then count s c + whileThere id count (commit s c.now c.op) cs else 0

def deliveries (id : TaskId) : State → List Call → Nat :=
  whileThere id (fun s c => c.deliveries id s)

def failures (id : TaskId) : State → List Call → Nat := whileThere id (fun s c => c.failures id s)

/-- The task has its row all through the run. -/
def Lives (id : TaskId) (s : State) (calls : List Call) : Prop :=
  ∀ l, l <+: calls → (run s l).tasks.get id ≠ none

theorem whileThere_gone {count : State → Call → Nat} (h : s.tasks.get id = none)
    (calls : List Call) : whileThere id count s calls = 0 := by
  cases calls with
  | nil => rfl
  | cons c cs => simp [whileThere, h]

theorem whileThere_cons (count : State → Call → Nat) (h : s.tasks.get id = some t) (c : Call)
    (cs : List Call) :
    whileThere id count s (c :: cs) = count s c + whileThere id count (commit s c.now c.op) cs := by
  simp [whileThere, h]

namespace Stands

/-- No run hands the task out more often than its budget allows, and the books are kept over
a run that it lives through. -/
theorem run (h : Stands id m (some t) s) (hm : id.taskId ≤ m) (hw : Within strategy d f t)
    (calls : List Call) (hcalls : ∀ c ∈ calls, ¬c.op.Restarts id) :
    d + deliveries id s calls ≤ (intervalsOf strategy).length + 1 ∧ (Lives id s calls →
      ∃ m' t', id.taskId ≤ m' ∧ Stands id m' (some t') (run s calls) ∧
        Within strategy (d + deliveries id s calls) (f + failures id s calls) t') := by
  induction calls generalizing s t m d f with
  | nil => exact ⟨hw.spent, fun _ => ⟨m, t, hm, h, hw⟩⟩
  | cons c cs ih =>
    obtain ⟨m', o, h', hm', hfate⟩ := h.commit hm (hcalls c List.mem_cons_self)
    have hd := whileThere_cons (fun s c => c.deliveries id s) h.row c cs
    have hf := whileThere_cons (fun s c => c.failures id s) h.row c cs
    rw [deliveries, failures, hd, hf]
    cases o with
    | none =>
      rw [whileThere_gone h'.row]
      exact ⟨hw.fate_spent hfate, fun hlives => absurd h'.row (hlives [c] ⟨cs, rfl⟩)⟩
    | some t' =>
      obtain ⟨hspent, hbooks⟩ := ih h' (hm' (by simp)) (hw.fate hfate)
        (fun c' hc => hcalls c' (List.mem_cons_of_mem _ hc))
      rw [← Nat.add_assoc, ← Nat.add_assoc]
      refine ⟨hspent, fun hlives => hbooks (fun l hl => ?_)⟩
      exact hlives (c :: l) (List.cons_prefix_cons.mpr ⟨rfl, hl⟩)

end Stands

/-- What the k-th failure of a task with these intervals comes to. One before the deadline
puts the task back at the time of the k-th interval, from where the same Dequeue may hand it
out again; one after the last interval leaves it dead or deleted. -/
structure KthFailure (intervals : List Time) (id : TaskId) (s : State) (c : Call)
    (k : Nat) : Prop where
  once : c.failures id s = 1
  attempt : ∀ u, s.tasks.get id = some u → u.state = .inProgress ∧ u.attempts = k
  budget : k ≤ intervals.length + 1
  retried : ∀ u, s.tasks.get id = some u → ¬u.expiresAt < c.now → k ≤ intervals.length →
    ∃ interval u', intervals[k - 1]? = some interval ∧
      (commit s c.now c.op).tasks.get id = some u' ∧
      u'.scheduledAt = plusSeconds c.now interval ∧
      (u'.state = .enqueued ∧ c.deliveries id s = 0 ∨
        u'.state = .inProgress ∧ c.deliveries id s = 1)
  last : k = intervals.length + 1 → ∀ u', (commit s c.now c.op).tasks.get id = some u' →
    u'.state = .dead

theorem Stands.failure (h : Stands id m (some t) s) (hm : id.taskId ≤ m)
    (hw : Within strategy d f t) {c : Call} (hop : ¬c.op.Restarts id)
    (hfails : c.failures id s ≠ 0) : KthFailure (intervalsOf strategy) id s c (f + 1) := by
  obtain ⟨m', o, h', _, hfate⟩ := h.commit hm hop
  have hrow : ∀ u, s.tasks.get id = some u → u = t :=
    fun u hu => Option.some.inj (hu.symm.trans h.row)
  obtain ⟨hone, state, hend⟩ := hfate.of_failures hfails
  have hbooks := hw.inProgress state
  have hexhausted := hw.exhausted_iff state
  refine ⟨hone, ?_, by omega, ?_, ?_⟩
  · intro u hu
    rw [hrow u hu, hw.attempts]
    exact ⟨state, by omega⟩
  · intro u hu unexpired hk
    rw [hrow u hu] at unexpired
    have hleft : t.exhausted ≠ true := by
      rw [ne_eq, hexhausted]
      omega
    rcases hend with ⟨hd, hfailure⟩ | ⟨hd, interval, keepalive, hr, rfl⟩
    · cases hfailure with
      | retried hr =>
        exact ⟨_, _, hw.interval_eq state hr.interval, h'.row, rfl, Or.inl ⟨rfl, hd⟩⟩
      | buried hx _ => exact absurd hx hleft
      | gone hx => exact absurd hx (not_or.mpr ⟨unexpired, hleft⟩)
    · exact ⟨interval, _, hw.interval_eq state hr.interval, h'.row, rfl, Or.inr ⟨rfl, hd⟩⟩
  · intro hk u' hu'
    have hspent : t.exhausted = true := hexhausted.mpr (by omega)
    obtain rfl := h'.row.symm.trans hu'
    rcases hend with ⟨_, hfailure⟩ | ⟨_, interval, _, hr, _⟩
    · cases hfailure with
      | retried hr => exact absurd hspent (by simp [hr.exhausted])
      | buried _ turned => exact turned.state
    · exact absurd hspent (by simp [hr.exhausted])

/-- The retry budget of an unthreaded task, in every run that does not restart it. It holds
of a task that nothing referred to before it was created. -/
theorem retry_budget (before : List Call) (now : Time) (req : EnqueueRequest)
    (vacant : Vacant id (run State.empty before))
    (absent : (run State.empty before).tasks.get id = none)
    (born : (run State.empty (before ++ [⟨now, .enqueue req⟩])).tasks.get id = some t)
    (plain : t.threadId = []) (calls : List Call) (hcalls : ∀ c ∈ calls, ¬c.op.Restarts id) :
    let s := run State.empty (before ++ [⟨now, .enqueue req⟩])
    let intervals := intervalsOf t.retryStrategy
    deliveries id s calls ≤ intervals.length + 1 ∧
    (∀ l c r, calls = l ++ c :: r → Lives id s l → c.failures id (run s l) ≠ 0 →
      KthFailure intervals id (run s l) c (failures id s l + 1)) ∧
    (∀ l r, calls = l ++ r → Lives id s l → ∀ u, (run s l).tasks.get id = some u →
      u.state = .inProgress → u.exhausted = false →
        ∃ interval, retryInterval u = .ok interval) := by
  intro s intervals
  have hs : s = commit (run State.empty before) now (.enqueue req) := by
    rw [show s = _ from run_append _ _ _]
    rfl
  have hborn : s.tasks.get id = some t := born
  rw [hs] at hborn
  obtain ⟨m, hm, h, attempts, state⟩ :=
    (vacant.stands (run_filed before) absent).born req hborn plain
  rw [← hs] at h
  have hnew := Within.new attempts state
  have hpart : ∀ l r, calls = l ++ r → ∀ c ∈ l, ¬c.op.Restarts id := by
    intro l r hl c hc
    exact hcalls c (hl ▸ List.mem_append_left _ hc)
  refine ⟨?_, ?_, ?_⟩
  · have hle := (h.run hm hnew calls hcalls).1
    rwa [Nat.zero_add] at hle
  · intro l c r hl hlives hfails
    obtain ⟨m', t', hm', h', hw⟩ := (h.run hm hnew l (hpart l _ hl)).2 hlives
    have hop : ¬c.op.Restarts id := hcalls c (by simp [hl])
    rw [Nat.zero_add, Nat.zero_add] at hw
    exact h'.failure hm' hw hop hfails
  · intro l r hl hlives u hu leased hx
    obtain ⟨m', t', _, h', hw⟩ := (h.run hm hnew l (hpart l r hl)).2 hlives
    obtain rfl := Option.some.inj (h'.row.symm.trans hu)
    have hbooks := hw.inProgress leased
    have hattempts := hw.attempts
    exact retryInterval_returns hx (by omega)

end Runs

section Samples

def budgetQueue : QueueId := ⟨1, 1⟩

def budgetTask : TaskId := budgetQueue.task 1

def budgetEntry (expiresAt : Time) (retryStrategy : Option RetryStrategy) : EnqueueRequestEntry :=
  ⟨[], 0, expiresAt, [], retryStrategy, [], []⟩

def budgetDequeue (now : Time) : Call := ⟨now, .dequeue ⟨budgetQueue, none, 10, none, 60⟩⟩

/-- A head that is moved behind another member keeps its old item, which outlives the purge
of the queue id. -/
def staleItemRun : List Call :=
  [⟨5, .enqueue ⟨budgetQueue, [threadEntry 10 [1] [], threadEntry 20 [] []]⟩⟩,
    ⟨5, .enqueue ⟨budgetQueue, [threadEntry 30 [1] [.scheduledAt]]⟩⟩,
    ⟨10, .purgeQueue budgetQueue⟩, ⟨10, .runPurgeQueueGarbageCollection ⟨100, 100, 100⟩⟩]

def bornOverStaleItem : List Call :=
  staleItemRun ++ [⟨30, .enqueue ⟨budgetQueue, [budgetEntry 1000 none]⟩⟩]

/-- An unthreaded task without a retry is handed out twice, by one Dequeue. -/
theorem redelivered_without_retry :
    (run State.empty staleItemRun).tasks.get budgetTask = none ∧
    ((run State.empty bornOverStaleItem).tasks.get budgetTask).map
      (fun t => (t.threadId, t.retryStrategy)) = some ([], none) ∧
    deliveries budgetTask (run State.empty bornOverStaleItem) [budgetDequeue 40] = 2 := by
  decide +kernel

def budgetRequest : EnqueueRequest :=
  ⟨budgetQueue, [budgetEntry 9000000000 (some ⟨[5]⟩)]⟩

def budgetReport (now : Time) (attempt : Int) : Call :=
  ⟨now, .reportStatus ⟨[⟨budgetTask, attempt, .failed, 0⟩], none⟩⟩

/-- A first delivery that is reported failed, and a second one after the interval. -/
def budgetRun : List Call :=
  [budgetDequeue 2, budgetReport 3 1, budgetDequeue 6000000000, budgetReport 6000000001 2]

theorem retry_budget_spent :
    deliveries budgetTask (run State.empty ([] ++ [⟨1, .enqueue budgetRequest⟩])) budgetRun = 2 ∧
    deliveries budgetTask (run State.empty ([] ++ [⟨1, .enqueue budgetRequest⟩])) budgetRun ≤
      (intervalsOf (some ⟨[5]⟩)).length + 1 := by
  refine ⟨by decide +kernel, ?_⟩
  have hcalls : ∀ c ∈ budgetRun, ¬c.op.Restarts budgetTask := by
    simp [budgetRun, budgetDequeue, budgetReport, Op.Restarts]
  refine (retry_budget [] 1 budgetRequest
    (t := newTask budgetQueue 1 (budgetEntry 9000000000 (some ⟨[5]⟩)) 1) ?_ ?_ ?_ rfl
    budgetRun hcalls).1
  · constructor <;> simp [run, State.empty]
  · decide +kernel
  · decide +kernel

end Samples

end Moab
