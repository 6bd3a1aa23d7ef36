import Moab.Tasks.Collect

namespace Moab

open OrderedStore

variable [OrderedStore]

variable {th : Prop}

/-- Every item of the queue index is an enqueued task under its own time. -/
def QueueSound (s : State) : Prop :=
  ∀ q, ∀ i ∈ s.queueIndex.items q, ∃ t, s.tasks.get (q.task i.taskId) = some t ∧
    t.state = .enqueued ∧ t.scheduledAt = i.time

/-- Rewriting the cursors of a queue keeps its sequence. -/
theorem setQueueState_step (s : State) (q : QueueId) (st : QueueState)
    (hst : st.taskIdSequence = (s.getQueueState q).taskIdSequence) :
    Step th s.rows .tuned (s.setQueueState q st).rows := by
  refine Step.tune (s.queueState.set q st) s.rateLimiters (fun q' => ?_)
  unfold sequenceOf
  by_cases hq : q' = q
  · rw [hq, Table.get_set_self]
    exact hst
  · rw [Table.get_set_ne _ _ hq]
    rfl

/-- The events of the first pass of a Dequeue: leases that lapsed, in order. -/
def Lapses (q : QueueId) (now : Time) (evs : List Event) : Prop :=
  ∃ l es, evs = .tuned :: es ∧ FailedAll now l es ∧ ∀ t ∈ l, t.state = .inProgress ∧
    t.id.queue = q ∧ Time.rank t.visibleAt ≤ Time.rank now

/-- Moves the cursor of the leases. -/
def State.visitInProgress (s : State) (q : QueueId) (cursor : Time) : State :=
  s.setQueueState q { s.getQueueState q with lastVisitedInProgress := cursor }

/-- The tasks whose leases lapsed can all be read back. -/
theorem timedOutTasks (s : State) (q : QueueId) (now : Time) (h : Indexed th s.rows) :
    ∃ l, (timedOutItems s q now).mapM (fun i => s.getTask (q.task i.taskId)) = .ok l ∧
      Batch s.rows l ∧
      (∀ t ∈ l, ∃ i ∈ timedOutItems s q now, s.rows.tasks.get (q.task i.taskId) = some t) ∧
      ∀ t ∈ l, t.state = .inProgress ∧ t.id.queue = q ∧ Time.rank t.visibleAt ≤ Time.rank now := by
  have hsub : (timedOutItems s q now).Sublist (s.inProgressIndex.items q) :=
    (List.take_sublist _ _).trans List.filter_sublist
  have hitem : ∀ i ∈ timedOutItems s q now, ∃ t, s.rows.tasks.get (q.task i.taskId) = some t ∧
      t.id = q.task i.taskId ∧ t.state = .inProgress ∧ t.visibleAt = i.time :=
    fun i hi => h.of_inProgress_item (hsub.subset hi)
  have hnd := taskIds_nodup Task.visibleAt
    (fun i hi => (hitem i hi).imp (fun t ht => ⟨ht.1, ht.2.2.2⟩))
    ((s.inProgressIndex.items_nodup q).sublist hsub)
  obtain ⟨l, hl, hb, hm⟩ := mapM_getTask _ (fun i hi => (hitem i hi).imp (fun t ht =>
    ⟨ht.1, ht.2.1⟩)) hnd
  refine ⟨l, hl, hb, hm, fun t ht => ?_⟩
  obtain ⟨i, hi, hit⟩ := hm t ht
  obtain ⟨u, hu, hid, hs, hv⟩ := hitem i hi
  obtain rfl := Option.some.inj (hu.symm.trans hit)
  refine ⟨hs, by rw [hid]; rfl, ?_⟩
  rw [hv]
  exact (mem_listInRange.mp (List.mem_of_mem_take hi)).2.2

theorem dequeueInProgressTasksBeforeTime_makes {s : State} {q : QueueId} {now : Time}
    {dlqConfig : Option DeadLetterQueueConfig} (h : Indexed th s.rows) :
    Ensures th (dequeueInProgressTasksBeforeTime s q now dlqConfig)
      (Makes th (Lapses q now) s) := by
  obtain ⟨l, hl, hb, _, hrow⟩ := timedOutTasks s q now h
  unfold dequeueInProgressTasksBeforeTime
  dsimp only
  rw [hl]
  have htune : ∀ st : QueueState, st.taskIdSequence = (s.getQueueState q).taskIdSequence →
      Makes th (· = [.tuned]) s (s.setQueueState q st) :=
    fun st hst => Makes.one rfl (setQueueState_step s q st hst) rfl
  have hm' := htune { s.getQueueState q with
    lastVisitedInProgress := ((timedOutItems s q now).getLast?.map IndexItem.time).getD now } rfl
  refine (failAll_makes now dlqConfig l _ (hm'.indexed h) ⟨hb.row, hb.nodup⟩
    (fun t ht => (hrow t ht).1)).mono (fun s' hs => hm'.trans hs ?_)
  intro es fs he hf
  rw [he]
  exact ⟨l, fs, rfl, hf, hrow⟩

section Visit

/-- A task met by the scan is past its deadline. -/
def Task.overdue (now : Time) (t : Task) : Bool := t.expiresAt < now

/-- What a scan has collected after visiting the tasks ts. -/
structure Visited (now : Time) (ts : List Task) (a b : Scan) : Prop where
  dequeued : b.dequeuedTasks = a.dequeuedTasks ++ ts.filter (fun t => !t.overdue now)
  expired : b.expiredTasks = a.expiredTasks ++ ts.filter (·.overdue now)
  visited : b.visitedTasks = a.visitedTasks + ts.length
  enqueuedCount : b.counters.enqueuedTasksCount = a.counters.enqueuedTasksCount - ts.length
  inProgressCount : b.counters.inProgressTasksCount =
    a.counters.inProgressTasksCount + (ts.filter (fun t => !t.overdue now)).length
  deadCount : b.counters.deadTasksCount = a.counters.deadTasksCount
  processedCount : b.counters.processedTasksCount = a.counters.processedTasksCount
  expiredCount : b.counters.expiredTasksCount = a.counters.expiredTasksCount

omit [OrderedStore] in
theorem Visited.nil (now : Time) (a : Scan) : Visited now [] a a := by
  constructor <;> simp

omit [OrderedStore] in
theorem Visited.cons {now : Time} {t : Task} {ts : List Task} {a b : Scan} {i : IndexItem}
    (h : Visited now ts (a.visit i t now) b) : Visited now (t :: ts) a b := by
  obtain ⟨h1, h2, h3, h4, h5, h6, h7, h8⟩ := h
  by_cases hx : t.expiresAt < now
  · simp only [Scan.visit, hx, if_true, TasksCounter.addEnqueued] at h1 h2 h3 h4 h5 h6 h7 h8
    constructor <;> simp [Task.overdue, *] <;> omega
  · simp only [Scan.visit, hx, if_false, TasksCounter.addEnqueued, TasksCounter.addInProgress]
      at h1 h2 h3 h4 h5 h6 h7 h8
    constructor <;> simp [Task.overdue, *] <;> omega

/-- Having met the tasks ts, the scan looks at another item: no cap is used up yet. -/
def Scan.goesOn (a : Scan) (now limit : Time) (settings : Option DequeuingSettings)
    (ts : List Task) : Prop :=
  (a.dequeuedTasks.length + (ts.filter (fun t => !t.overdue now)).length : Int) < limit.toInt ∧
  a.visitedTasks + ts.length < maxVisitedTasksForDequeuing ∧
  ∀ d ∈ settings, 0 < d.maxInProgressTasks → a.counters.inProgressTasksCount +
    (ts.filter (fun t => !t.overdue now)).length < d.maxInProgressTasks

omit [OrderedStore] in
theorem Scan.goesOn_nil {a : Scan} {now limit : Time} {settings : Option DequeuingSettings} :
    a.goesOn now limit settings [] ↔ a.saturated limit settings = false := by
  unfold Scan.goesOn Scan.saturated atMaxInProgress
  cases settings <;> simp

omit [OrderedStore] in
theorem Scan.goesOn_cons {a : Scan} {now limit : Time} {settings : Option DequeuingSettings}
    {i : IndexItem} {t : Task} {ts : List Task} :
    a.goesOn now limit settings (t :: ts) ↔ (a.visit i t now).goesOn now limit settings ts := by
  unfold Scan.goesOn Scan.visit
  by_cases hx : t.expiresAt < now
  · simp [hx, Task.overdue, TasksCounter.addEnqueued, Nat.add_assoc, Nat.add_comm 1]
  · simp [hx, Task.overdue, TasksCounter.addEnqueued, TasksCounter.addInProgress, Nat.add_assoc,
      Int.add_assoc, Nat.add_comm 1, Int.add_comm 1]

/-- The scan visits a first part of its items and never fails on a sound index. -/
theorem scanQueue_visits {s : State} {q : QueueId} {now limit : Time}
    {settings : Option DequeuingSettings} (items : List IndexItem) (a : Scan)
    (h : ∀ i ∈ items, ∃ t, s.tasks.get (q.task i.taskId) = some t) :
    ∃ b ts, scanQueue s q now limit settings a items = .ok b ∧ Visited now ts a b ∧
      List.Forall₂ (fun i t => s.tasks.get (q.task i.taskId) = some t) (items.take ts.length) ts ∧
      b.lastVisitedEnqueued =
        ((items.take ts.length).getLast?.map IndexItem.time).getD a.lastVisitedEnqueued ∧
      (∀ n < ts.length, a.goesOn now limit settings (ts.take n)) ∧
      (ts.length = items.length ∨ ¬a.goesOn now limit settings ts) := by
  induction items generalizing a with
  | nil => exact ⟨a, [], rfl, Visited.nil now a, by simp, by simp, by simp, Or.inl rfl⟩
  | cons i items ih =>
    rw [scanQueue]
    by_cases hsat : a.saturated limit settings
    · have hstop : ¬a.goesOn now limit settings [] := by
        rw [Scan.goesOn_nil]
        simp [hsat]
      exact ⟨a, [], by simp [hsat], Visited.nil now a, by simp, by simp, by simp, Or.inr hstop⟩
    · obtain ⟨t, ht⟩ := h i List.mem_cons_self
      obtain ⟨b, ts, hb, hv, hf, hlast, hopen, hstop⟩ := ih (a.visit i t now)
        (fun j hj => h j (List.mem_cons_of_mem _ hj))
      refine ⟨b, t :: ts, ?_, hv.cons, ?_, ?_, ?_, ?_⟩
      · have hg : s.getTask (q.task i.taskId) = .ok t := State.getTask_eq_ok.mpr ht
        simp only [hsat, Bool.false_eq_true, if_false, hg]
        exact hb
      · simpa using ⟨ht, hf⟩
      · have hvis : (a.visit i t now).lastVisitedEnqueued = i.time := by
          unfold Scan.visit
          split_ifs <;> rfl
        rw [hlast, hvis, List.length_cons, List.take_succ_cons, List.getLast?_cons]
        cases (items.take ts.length).getLast? <;> rfl
      · intro n hn
        cases n with
        | zero => exact Scan.goesOn_nil.mpr (by simpa using hsat)
        | succ n => exact Scan.goesOn_cons.mpr (hopen n (by simpa using hn))
      · exact hstop.imp (fun he => by simp [he]) (fun hn hg => hn (Scan.goesOn_cons.mp hg))

end Visit

section HandOut

theorem dropAll_makes {q : QueueId} (l : List Task) (s : State) (hb : Batch s.rows l)
    (hl : ∀ t ∈ l, t.state = .enqueued ∧ t.id.queue = q) :
    Makes th (· = l.map Event.expired) s (l.foldl (dropExpired q) s) := by
  induction l generalizing s with
  | nil => exact Makes.none rfl rfl
  | cons t l ih =>
    rw [List.foldl_cons]
    obtain ⟨state, hq⟩ := hl t List.mem_cons_self
    have hr : (dropExpired q s t).rows = s.rows.expire t := by
      unfold dropExpired
      rw [← hq]
      rfl
    have hs : Makes th (· = [.expired t]) s (dropExpired q s t) :=
      Makes.one hr (.expire hb.head state) rfl
    have hb' : Batch (dropExpired q s t).rows l := by
      obtain ⟨es, hes, rfl⟩ := id hs
      exact hb.tail (fun u hu => hes.frame (by simpa [Event.task] using (hb.ne_head u hu).symm))
    exact hs.append (ih _ hb' (fun u hu => hl u (List.mem_cons_of_mem _ hu)))

theorem leaseAll_makes {q : QueueId} (now keepalive : Time) (l : List Task) (s : State)
    (hb : Batch s.rows l) (hl : ∀ t ∈ l, t.state = .enqueued ∧ t.id.queue = q) :
    Makes th (· = l.map (fun t => .leased t (t.lease now keepalive))) s
      (l.foldl (leaseTask q now keepalive) s) := by
  induction l generalizing s with
  | nil => exact Makes.none rfl rfl
  | cons t l ih =>
    rw [List.foldl_cons]
    obtain ⟨state, hq⟩ := hl t List.mem_cons_self
    have hr : (leaseTask q now keepalive s t).rows = s.rows.lease t (t.lease now keepalive) := by
      unfold leaseTask
      rw [← hq]
      rfl
    have hs : Makes th (· = [.leased t (t.lease now keepalive)]) s
        (leaseTask q now keepalive s t) :=
      Makes.one hr (.lease hb.head state) rfl
    have hb' : Batch (leaseTask q now keepalive s t).rows l := by
      obtain ⟨es, hes, rfl⟩ := id hs
      exact hb.tail (fun u hu => hes.frame (by simpa [Event.task] using (hb.ne_head u hu).symm))
    exact hs.append (ih _ hb' (fun u hu => hl u (List.mem_cons_of_mem _ hu)))

/-- The events of handing out: the tasks met were due and enqueued. -/
def HandsOut (q : QueueId) (now keepalive : Time) (ts : List Task) (evs : List Event) : Prop :=
  evs = .tuned :: .charged q (ts.filter (·.overdue now)).length
      (ts.filter (fun t => !t.overdue now)).length ::
    ((ts.filter (·.overdue now)).map Event.expired ++
      (ts.filter (fun t => !t.overdue now)).map (fun t => .leased t (t.lease now keepalive)))

theorem applyScan_makes {s : State} {q : QueueId} {now keepalive cursor last : Time}
    {ts : List Task} {b : Scan} (hb : Batch s.rows ts)
    (hts : ∀ t ∈ ts, t.state = .enqueued ∧ t.id.queue = q)
    (hv : Visited now ts ⟨[], [], last, s.getCounter q, 0⟩ b) :
    Makes th (HandsOut q now keepalive ts) s (applyScan s q now keepalive cursor b) := by
  obtain ⟨hd, hx, _, h4, h5, h6, h7, h8⟩ := hv
  rw [List.nil_append] at hd hx
  have hlen : (ts.filter (·.overdue now)).length + (ts.filter (fun t => !t.overdue now)).length =
      ts.length := (List.length_eq_length_filter_add _).symm
  have hcount : ({ b.counters with
      expiredTasksCount := b.counters.expiredTasksCount + b.expiredTasks.length } : TasksCounter) =
      Rows.chargeScan (s.getCounter q) (ts.filter (·.overdue now)).length
        (ts.filter (fun t => !t.overdue now)).length := by
    unfold Rows.chargeScan
    simp only [hx, h4, h5, h6, h7, h8, ← hlen, Int.natCast_add]
  unfold applyScan
  simp only [hcount]
  generalize hs1 : s.setQueueState q { s.getQueueState q with lastVisitedEnqueued := cursor } = s1
  have h1 : Makes th (· = [.tuned]) s s1 := by
    rw [← hs1]
    exact Makes.one rfl (setQueueState_step s q _ rfl) rfl
  generalize hs2 : s1.setCounter q (Rows.chargeScan (s.getCounter q)
    (ts.filter (·.overdue now)).length (ts.filter (fun t => !t.overdue now)).length) = s2
  have h2 : Makes th (· = [.charged q (ts.filter (·.overdue now)).length
      (ts.filter (fun t => !t.overdue now)).length]) s1 s2 := by
    rw [← hs2, ← hs1]
    exact Makes.one rfl .charge rfl
  have hsub : ∀ (p : Task → Bool), Batch s2.rows (ts.filter p) := by
    intro p
    rw [← hs2, ← hs1]
    exact ⟨fun t ht => hb.row t (List.mem_of_mem_filter ht),
      hb.nodup.sublist (List.Sublist.map _ List.filter_sublist)⟩
  have hen : ∀ (p : Task → Bool), ∀ t ∈ ts.filter p, t.state = .enqueued ∧ t.id.queue = q :=
    fun p t ht => hts t (List.mem_of_mem_filter ht)
  rw [hx, hd]
  have h3 : Makes th _ s2 _ := dropAll_makes _ s2 (hsub (·.overdue now)) (hen _)
  have hlive : Batch ((ts.filter (·.overdue now)).foldl (dropExpired q) s2).rows
      (ts.filter (fun t => !t.overdue now)) := by
    obtain ⟨es, hes, rfl⟩ := id h3
    refine ⟨fun t ht => ?_, (hsub _).nodup⟩
    rw [hes.frame, (hsub _).row t ht]
    intro ev hev he
    obtain ⟨u, hu, rfl⟩ := List.mem_map.mp hev
    simp only [Event.task, Option.some.injEq] at he
    have hut : u = t := List.inj_on_of_nodup_map hb.nodup (List.mem_of_mem_filter hu)
      (List.mem_of_mem_filter ht) he
    rw [hut] at hu
    have hp := List.of_mem_filter ht
    rw [List.of_mem_filter hu] at hp
    exact absurd hp (by simp)
  have h4 : Makes th _ _ _ := leaseAll_makes now keepalive _ _ hlive (hen _)
  exact h1.append (h2.append (h3.append h4))

/-- Distinct tasks of a queue that wait in its index, as they stand in the table. -/
structure Queued (q : QueueId) (s : State) (l : List Task) : Prop where
  batch : Batch s.rows l
  state : ∀ t ∈ l, t.state = .enqueued ∧ t.id.queue = q
  item : ∀ t ∈ l, t.queueIndexItem ∈ s.queueIndex.items q

/-- The rows met by a scan, one for each item. -/
theorem queued_of_items {s : State} {q : QueueId} (h : Indexed th s.rows) (hq : QueueSound s)
    {items : List IndexItem} {ts : List Task} (hsub : items.Sublist (s.queueIndex.items q))
    (hf : List.Forall₂ (fun i t => s.tasks.get (q.task i.taskId) = some t) items ts) :
    Queued q s ts ∧ ts.map Task.queueIndexItem = items := by
  have hitem := fun i (hi : i ∈ items) => hq q i (hsub.subset hi)
  have hnd := taskIds_nodup Task.scheduledAt
    (fun i hi => (hitem i hi).imp (fun t ht => ⟨ht.1, ht.2.2⟩))
    ((s.queueIndex.items_nodup q).sublist hsub)
  have hmet : ∀ {i t}, i ∈ items → s.tasks.get (q.task i.taskId) = some t →
      t.id = q.task i.taskId ∧ t.state = .enqueued ∧ t.queueIndexItem = i := by
    intro i t hi hit
    have hid := h.key _ _ hit
    obtain ⟨u, hu, hs, htime⟩ := hitem i hi
    obtain rfl := Option.some.inj (hu.symm.trans hit)
    refine ⟨hid, hs, ?_⟩
    rw [Task.queueIndexItem, htime, hid]
    rfl
  have hitems : ts.map Task.queueIndexItem = items := by
    clear hnd hitem hsub
    induction hf with
    | nil => rfl
    | cons hit _ ih =>
      rw [List.map_cons, (hmet List.mem_cons_self hit).2.2,
        ih (fun hi => hmet (List.mem_cons_of_mem _ hi))]
  have hids : ts.map Task.id = (items.map IndexItem.taskId).map q.task := by
    clear hnd hitem hsub hitems
    induction hf with
    | nil => rfl
    | cons hit _ ih =>
      rw [List.map_cons, (hmet List.mem_cons_self hit).1,
        ih (fun hi => hmet (List.mem_cons_of_mem _ hi))]
      rfl
  have hrow : ∀ t ∈ ts, ∃ i ∈ items, s.tasks.get (q.task i.taskId) = some t := by
    intro t ht
    obtain ⟨n, hn, rfl⟩ := List.mem_iff_getElem.mp ht
    have hlen := hf.length_eq
    exact ⟨items[n], List.getElem_mem _, (List.forall₂_iff_get.mp hf).2 n (by omega) hn⟩
  refine ⟨⟨⟨fun t ht => ?_, ?_⟩, fun t ht => ?_, fun t ht => ?_⟩, hitems⟩
  · obtain ⟨i, _, hit⟩ := hrow t ht
    rw [h.key _ _ hit]
    exact hit
  · rw [hids]
    exact hnd.map (fun m n hmn => (QueueId.task_inj hmn).2)
  · obtain ⟨i, hi, hit⟩ := hrow t ht
    obtain ⟨hid, hs, _⟩ := hmet hi hit
    exact ⟨hs, by rw [hid]; rfl⟩
  · exact hsub.subset (hitems ▸ List.mem_map_of_mem ht)

/-- What the second pass of a Dequeue does on a sound queue index: it returns,
having met the tasks ts of a first part of the items in range. -/
structure Scanned (s : State) (q : QueueId) (now : Time) (items : List IndexItem) (b : Scan)
    (ts : List Task) : Prop where
  queued : Queued q s ts
  visited : Visited now ts ⟨[], [], (s.getQueueState q).lastVisitedEnqueued, s.getCounter q, 0⟩ b
  met : ts.map Task.queueIndexItem = items.take ts.length
  last : b.lastVisitedEnqueued = ((items.take ts.length).getLast?.map IndexItem.time).getD
    (s.getQueueState q).lastVisitedEnqueued

theorem dequeueTasksBeforeTime_scans {s : State} {q : QueueId} {now limit keepalive : Time}
    {settings : Option DequeuingSettings} (h : Indexed th s.rows) (hq : QueueSound s) :
    ∃ items b ts, items = listInRange s.queueIndex q (s.getQueueState q).lastVisitedEnqueued now ∧
      Scanned s q now items b ts ∧
      dequeueTasksBeforeTime s q now limit settings keepalive =
        .ok (applyScan s q now keepalive (if items = [] then now else b.lastVisitedEnqueued) b,
          (ts.filter (fun t => !t.overdue now)).map (·.lease now keepalive)) ∧
      (∀ n < ts.length,
        Scan.goesOn ⟨[], [], (s.getQueueState q).lastVisitedEnqueued, s.getCounter q, 0⟩
          now limit settings (ts.take n)) ∧
      (ts.length = items.length ∨
        ¬Scan.goesOn ⟨[], [], (s.getQueueState q).lastVisitedEnqueued, s.getCounter q, 0⟩
          now limit settings ts) := by
  generalize hitems : listInRange s.queueIndex q (s.getQueueState q).lastVisitedEnqueued now = items
  have hsub : items.Sublist (s.queueIndex.items q) := by
    rw [← hitems]
    exact List.filter_sublist
  obtain ⟨b, ts, hb, hv, hf, hlast, hlongest⟩ := scanQueue_visits (s := s) (q := q) items
    ⟨[], [], (s.getQueueState q).lastVisitedEnqueued, s.getCounter q, 0⟩
    (fun i hi => (hq q i (hsub.subset hi)).imp (fun _ ht => ht.1))
  obtain ⟨hqueued, hmet⟩ := queued_of_items h hq ((List.take_sublist _ _).trans hsub) hf
  refine ⟨items, b, ts, rfl, ⟨hqueued, hv, hmet, hlast⟩, ?_, hlongest⟩
  unfold dequeueTasksBeforeTime
  dsimp only
  rw [hitems, hb]
  have hd := hv.dequeued
  rw [List.nil_append] at hd
  change Except.ok _ = _
  rw [← hd]

/-- On a sound queue index the second pass returns, and hands out tasks that
were enqueued. -/
theorem dequeueTasksBeforeTime_makes {s : State} {q : QueueId} {now limit keepalive : Time}
    {settings : Option DequeuingSettings} (h : Indexed th s.rows) (hq : QueueSound s) :
    Ensures False (dequeueTasksBeforeTime s q now limit settings keepalive) (fun a =>
      ∃ ts, Batch s.rows ts ∧ (∀ t ∈ ts, t.state = .enqueued ∧ t.id.queue = q) ∧
        a.2 = (ts.filter (fun t => !t.overdue now)).map (·.lease now keepalive) ∧
        Makes th (HandsOut q now keepalive ts) s a.1) := by
  obtain ⟨items, b, ts, _, hs, hok, _⟩ := dequeueTasksBeforeTime_scans h hq
  rw [hok]
  exact Ensures.ok ⟨ts, hs.queued.batch, hs.queued.state, rfl,
    applyScan_makes hs.queued.batch hs.queued.state hs.visited⟩

end HandOut

end Moab
