import Moab.Tasks.HeadSteps

namespace Moab

open OrderedStore

variable [OrderedStore]

variable {c : Scope} {s : State} {t : Task} {q : QueueId}

section HandOut

/-- A queued task is leased. If it has a thread it stays the head. -/
theorem leaseTask_heads (now keepalive : Time) (h : Heads c s) (row : s.tasks.get t.id = some t)
    (hq : t.id.queue = q) (hi : t.queueIndexItem ∈ s.queueIndex.items q) :
    Heads c (leaseTask q now keepalive s t) := by
  subst hq
  have hself : t.id.queue.task t.queueIndexItem.taskId = t.id := TaskId.queue_task t.id
  have hitem : ∀ {q i}, i ∈ (s.queueIndex.remove t.id.queue t.queueIndexItem).items q →
      i ∈ s.queueIndex.items q ∧ q.task i.taskId ≠ t.id := by
    intro q i hi
    obtain ⟨hi, hne⟩ := Index.mem_remove.mp hi
    exact ⟨hi, fun he => hne (h.queueItem_eq row hi he).2⟩
  have hrow : ∀ {j u}, (leaseTask t.id.queue now keepalive s t).tasks.get j = some u →
      (j = t.id ∧ u = t.lease now keepalive) ∨ (j ≠ t.id ∧ s.tasks.get j = some u) :=
    fun hj => get_setTask (t := t.lease now keepalive) hj
  refine ⟨⟨?_, ?_, ?_, ?_, ?_, ?_, h.thread_key, ?_, h.member_key, ?_, h.ahead⟩, fun k => ?_⟩
  · intro j u hj
    rcases hrow hj with ⟨rfl, rfl⟩ | ⟨_, hj⟩
    · exact h.row _ t row
    · exact h.row j u hj
  · intro q i hi
    obtain ⟨hi, hne⟩ := hitem hi
    obtain ⟨u, hu, hrest⟩ := h.queue_row q i hi
    exact ⟨u, (Table.get_set_ne _ _ hne).trans hu, hrest⟩
  · intro j u hj hs hth
    rcases hrow hj with ⟨_, rfl⟩ | ⟨hne, hj⟩
    · simp [Task.lease] at hs
    · refine Index.mem_remove.mpr ⟨h.queue_free j u hj hs hth, fun he => hne ?_⟩
      exact TaskId.eq_of_queue he.1 (congrArg IndexItem.taskId he.2)
  · intro q i hi u hu
    obtain ⟨hi, hne⟩ := hitem hi
    rcases hrow hu with ⟨he, _⟩ | ⟨_, hu⟩
    · exact absurd he hne
    · exact h.queue_head q i hi u hu
  · intro hc q i hi
    exact h.queue_front hc q i (hitem hi).1
  · intro j u hj hs hth
    rcases hrow hj with ⟨rfl, rfl⟩ | ⟨_, hj⟩
    · obtain ⟨thread, hk, hhead, _⟩ := h.queue_head _ _ hi t (by rw [hself]; exact row) hth
      exact ⟨thread, hk, hhead.trans hself⟩
    · exact h.leased_head j u hj hs hth
  · intro k thread u hk hu
    rcases hrow hu with ⟨he, rfl⟩ | ⟨_, hu⟩
    · exact ⟨by simp [Task.live, Task.lease], (h.head_live k thread t hk (he ▸ row)).2⟩
    · exact h.head_live k thread u hk hu
  · intro k i hi u hu
    rcases hrow hu with ⟨he, rfl⟩ | ⟨_, hu⟩
    · exact ⟨by simp [Task.live, Task.lease], (h.member_live k i hi t (he ▸ row)).2⟩
    · exact h.member_live k i hi u hu
  · refine ⟨(h.settled k).record, fun thread u hk hu => ?_, fun hc thread u hk hu hs => ?_⟩
    · rcases hrow hu with ⟨he, rfl⟩ | ⟨_, hu⟩
      · exact (h.settled k).time thread t hk (he ▸ row)
      · exact (h.settled k).time thread u hk hu
    · rcases hrow hu with ⟨_, rfl⟩ | ⟨_, hu⟩
      · simp [Task.lease] at hs
      · exact (h.settled k).first hc thread u hk hu hs

theorem dropExpired_heads (h : Heads c s) (row : s.tasks.get t.id = some t) (hq : t.id.queue = q) :
    Heads c (dropExpired q s t) := by
  subst hq
  exact (h.forget row).same ⟨rfl, rfl, rfl, rfl⟩

/-- The rest of the queued tasks outlives what happens to the first. -/
theorem Queued.tail {l : List Task} {s' : State} (h : Queued q s (t :: l))
    (hr : ∀ id, id ≠ t.id → s'.tasks.get id = s.tasks.get id)
    (hx : s'.queueIndex = s.queueIndex.remove q t.queueIndexItem) : Queued q s' l := by
  refine ⟨h.batch.tail (fun u hu => hr u.id (h.batch.ne_head u hu)),
    fun u hu => h.state u (List.mem_cons_of_mem _ hu), fun u hu => ?_⟩
  rw [hx]
  refine Index.mem_remove.mpr ⟨h.item u (List.mem_cons_of_mem _ hu), fun he => ?_⟩
  have hq := (h.state u (List.mem_cons_of_mem _ hu)).2.trans (h.state t List.mem_cons_self).2.symm
  exact h.batch.ne_head u hu (TaskId.eq_of_queue hq (congrArg IndexItem.taskId he.2))

theorem leaseAll_heads (now keepalive : Time) (l : List Task) (s : State) (h : Heads c s)
    (hl : Queued q s l) : Heads c (l.foldl (leaseTask q now keepalive) s) := by
  induction l generalizing s with
  | nil => exact h
  | cons t l ih =>
    rw [List.foldl_cons]
    refine ih _ ?_ (hl.tail (fun id hne => Table.get_set_ne _ _ hne) rfl)
    exact leaseTask_heads now keepalive h hl.batch.head (hl.state t List.mem_cons_self).2
      (hl.item t List.mem_cons_self)

/-- Dropping some queued tasks keeps the others queued. -/
theorem dropAll_heads {rest : List Task} (l : List Task) (s : State) (h : Heads c s)
    (hl : Queued q s l) (hr : Queued q s rest) (hd : ∀ t ∈ l, ∀ u ∈ rest, u.id ≠ t.id) :
    Heads c (l.foldl (dropExpired q) s) ∧ Queued q (l.foldl (dropExpired q) s) rest := by
  induction l generalizing s with
  | nil => exact ⟨h, hr⟩
  | cons t l ih =>
    rw [List.foldl_cons]
    have hne := hd t List.mem_cons_self
    have hget : ∀ id, id ≠ t.id → (dropExpired q s t).tasks.get id = s.tasks.get id :=
      fun id hid => Table.get_delete_ne _ hid
    have hcons : Queued q s (t :: rest) := by
      refine ⟨⟨?_, ?_⟩, ?_, ?_⟩
      · exact List.forall_mem_cons.mpr ⟨hl.batch.head, hr.batch.row⟩
      · rw [List.map_cons, List.nodup_cons]
        refine ⟨fun hm => ?_, hr.batch.nodup⟩
        obtain ⟨u, hu, he⟩ := List.mem_map.mp hm
        exact hne u hu he
      · exact List.forall_mem_cons.mpr ⟨hl.state t List.mem_cons_self, hr.state⟩
      · exact List.forall_mem_cons.mpr ⟨hl.item t List.mem_cons_self, hr.item⟩
    refine ih _ ?_ (hl.tail hget rfl) (hcons.tail hget rfl)
      (fun v hv => hd v (List.mem_cons_of_mem _ hv))
    exact dropExpired_heads h hl.batch.head (hl.state t List.mem_cons_self).2

theorem applyScan_heads {now keepalive cursor last : Time} {ts : List Task} {b : Scan}
    (h : Heads c s) (hts : Queued q s ts)
    (hv : Visited now ts ⟨[], [], last, s.getCounter q, 0⟩ b) :
    Heads c (applyScan s q now keepalive cursor b) := by
  obtain ⟨hd, hx, _⟩ := hv
  rw [List.nil_append] at hd hx
  unfold applyScan
  dsimp only
  rw [hd, hx]
  generalize hs1 : (s.setQueueState q { s.getQueueState q with
    lastVisitedEnqueued := cursor }).setCounter q _ = s1
  have hsame : SameHeads s s1 := by
    rw [← hs1]
    exact ⟨rfl, rfl, rfl, rfl⟩
  have hsub : ∀ p : Task → Bool, Queued q s1 (ts.filter p) := by
    intro p
    refine ⟨⟨fun t ht => ?_, ?_⟩, fun t ht => ?_, fun t ht => ?_⟩
    · have hrow : s1.rows.tasks = s.rows.tasks := hsame.tasks
      rw [hrow]
      exact hts.batch.row t (List.mem_of_mem_filter ht)
    · exact hts.batch.nodup.sublist (List.Sublist.map _ List.filter_sublist)
    · exact hts.state t (List.mem_of_mem_filter ht)
    · rw [hsame.queueIndex]
      exact hts.item t (List.mem_of_mem_filter ht)
  obtain ⟨hheads, hqueued⟩ := dropAll_heads _ s1 (h.same hsame) (hsub (·.overdue now))
    (hsub (fun t => !t.overdue now)) (by
      intro t ht u hu he
      have hut : u = t := List.inj_on_of_nodup_map hts.batch.nodup (List.mem_of_mem_filter hu)
        (List.mem_of_mem_filter ht) he
      have hp := List.of_mem_filter ht
      rw [← hut] at hp
      simp [hp] at hu)
  exact leaseAll_heads now keepalive _ _ hheads hqueued

end HandOut

section Calls

variable {th : Prop} {now : Time}

theorem failAll_heads (dlqConfig : Option DeadLetterQueueConfig) (l : List Task) (s : State)
    (h : Heads c s) (hi : Indexed th s.rows) (hb : Batch s.rows l)
    (hl : ∀ t ∈ l, t.state = .inProgress)
    (hf : c.tracked → ∀ t ∈ l, ∀ interval, retryInterval t = .ok interval →
      c.front t.id.queue (plusSeconds now interval))
    (hhand : c.tracked → ∀ t ∈ l, t.threadId ≠ [] → c.handed t.id) :
    Ensures True (l.foldlM (fun s t => handleTaskFailure s t now dlqConfig) s) (Heads c) := by
  induction l generalizing s with
  | nil => exact Ensures.pure h
  | cons t l ih =>
    rw [List.foldlM_cons]
    have ht := hl t List.mem_cons_self
    have hrest := fun u hu => hl u (List.mem_cons_of_mem t hu)
    have hmade := (handleTaskFailure_makes now dlqConfig hi hb.head ht).weaken
      (F := True) (fun _ => trivial)
    refine ((handleTaskFailure_heads now dlqConfig h hi hb.head ht
      (fun hc => hf hc t List.mem_cons_self) (fun hc => hhand hc t List.mem_cons_self)).and
        hmade).bind (fun s' hs => ?_)
    obtain ⟨hs', hm⟩ := hs
    have hb' : Batch s'.rows l := by
      obtain ⟨es, hes, hfail⟩ := id hm
      exact hfail.batch hes hb hrest
    exact ih s' hs' (hm.indexed hi) hb' hrest
      (fun hc u hu => hf hc u (List.mem_cons_of_mem _ hu))
      (fun hc u hu => hhand hc u (List.mem_cons_of_mem _ hu))

/-- The first pass of a Dequeue. -/
theorem dequeueInProgressTasksBeforeTime_heads (dlqConfig : Option DeadLetterQueueConfig)
    (h : Heads c s) (hi : Indexed th s.rows)
    (hf : c.tracked → ∀ id t interval, s.tasks.get id = some t → retryInterval t = .ok interval →
      c.front t.id.queue (plusSeconds now interval))
    (hhand : c.tracked → ∀ i ∈ timedOutItems s q now, c.handed (q.task i.taskId)) :
    Ensures True (dequeueInProgressTasksBeforeTime s q now dlqConfig) (Heads c) := by
  obtain ⟨l, hl, hb, hm, hrow⟩ := timedOutTasks s q now hi
  unfold dequeueInProgressTasksBeforeTime
  dsimp only
  rw [hl]
  refine failAll_heads dlqConfig l _ (h.same ⟨rfl, rfl, rfl, rfl⟩)
    (hi.step (setQueueState_step s q _ rfl)) ⟨hb.row, hb.nodup⟩ (fun t ht => (hrow t ht).1) ?_ ?_
  · intro hc t ht interval hint
    exact hf hc t.id t interval (hb.row t ht) hint
  · intro hc t ht _
    obtain ⟨i, hi', hit⟩ := hm t ht
    rw [(h.row _ _ hit).1]
    exact hhand hc i hi'

/-- A report: only one that ends a lease may hand the head of a thread over. -/
theorem reportStatus_heads {id : TaskId} (status : ReportStatus) (attempt : Int) (keepalive : Time)
    (dlqConfig : Option DeadLetterQueueConfig) (h : Heads c s) (hi : Indexed th s.rows)
    (hf : c.tracked → ∀ id t interval, s.tasks.get id = some t → retryInterval t = .ok interval →
      c.front t.id.queue (plusSeconds now interval))
    (hhand : c.tracked → ∀ t, s.tasks.get id = some t → t.state = .inProgress →
      t.attempts = attempt → status = .failed ∨ status = .succeeded → t.threadId ≠ [] →
        c.handed id) :
    Ensures True (reportStatus s id now status attempt keepalive dlqConfig)
      (fun a => Heads c a.1) := by
  unfold reportStatus
  cases row : s.tasks.get id with
  | none => exact Ensures.ok h
  | some t =>
    have hid := (h.row _ _ row).1
    subst hid
    refine Ensures.ite (fun _ => Ensures.ok h) (fun hs => Ensures.ite (fun _ => Ensures.ok h)
      (fun ha => ?_))
    have state : t.state = .inProgress := not_not.mp hs
    have hgive := fun hst hc => hhand hc t row state (not_not.mp ha) hst
    cases status with
    | invalid => exact Ensures.ok h
    | inProgress =>
      exact (heartbeatTask_heads now keepalive h row).bind (fun s' hs' => Ensures.ok hs')
    | failed =>
      exact (handleTaskFailure_heads now dlqConfig h hi row state
        (fun hc interval hint => hf hc _ t interval row hint) (hgive (Or.inl rfl))).bind
          (fun s' hs' => Ensures.ok hs')
    | succeeded =>
      exact (deleteTask_heads h row .succeeded (fun hc _ => hgive (Or.inr rfl) hc)).bind
        (fun s' hs' => Ensures.ok hs')

theorem deleteTaskById_heads (n : Nat) (h : Heads c s)
    (hhand : c.tracked → ∀ t, s.tasks.get (q.task n) = some t → t.live → t.threadId ≠ [] →
      c.handed (q.task n)) :
    Ensures True (deleteTaskById q s n) (Heads c) := by
  unfold deleteTaskById
  cases row : s.tasks.get (q.task n) with
  | none => exact Ensures.ok h
  | some t =>
    have hid := (h.row _ _ row).1
    rw [← hid] at row
    refine deleteTask_heads h row .none (fun hc hl hth => ?_)
    rw [hid] at row ⊢
    exact hhand hc t row hl hth

/-- A restarted task joins its thread as a new member. -/
theorem restartEntry_heads (e : RestartTasksRequestEntry) (h : Heads c s)
    (hf : c.tracked → c.front q (notBefore e.scheduledAt now))
    (hhand : c.tracked → ∀ id, ¬c.handed id) :
    Ensures True (restartEntry q now s e) (fun a => Heads c a.1) := by
  unfold restartEntry
  cases row : s.tasks.get (q.task e.taskId) with
  | none => exact Ensures.ok h
  | some t =>
    obtain ⟨hid, hused, hthr⟩ := h.row _ _ row
    have hq : t.id.queue = q := by rw [hid]; rfl
    rw [← hid] at row hused
    refine Ensures.ite (fun _ => Ensures.ok h) (fun hs => Ensures.ite (fun _ => Ensures.ok h)
      (fun _ => Ensures.ite (fun _ => Ensures.ok h) (fun _ => ?_)))
    have state : t.state = .dead := not_not.mp hs
    have hidle : ∀ q, ∀ i ∈ s.queueIndex.items q, q.task i.taskId ≠ t.id := by
      intro q i hi he
      exact absurd (h.queueItem_eq row hi he).1 (by simp [state])
    have hn := h.unnamed row (Or.inl (by simp [Task.live, state])) hidle
    have hgone := h.eraseIdle row (by simp [state])
    refine Ensures.bind (P := fun a => Heads c a.1) ?_ (fun a ha => Ensures.ok ha)
    have hgone' : Heads c ((((s.removeDead t).removeExpiration t).updateCounter t.id.queue
        (·.addDead (-1))).deleteRow t.id) := hgone.same ⟨rfl, rfl, rfl, rfl⟩
    unfold restartTask
    refine (createTask_heads (t := t.restart now e.scheduledAt e.expiresAt) hgone'
      ⟨hn.queue, hn.head, hn.member⟩ hused hthr rfl ?_ hhand).bind (fun s' hs' => Ensures.ok hs')
    intro hc
    change c.front t.id.queue _
    rw [hq]
    exact hf hc

/-- The sweep deletes tasks that wait or are dead. -/
theorem runTasksGarbageCollection_heads (req : RunTasksGarbageCollectionRequest) (h : Heads c s)
    (hi : Indexed th s.rows)
    (hhand : c.tracked → ∀ id t, s.tasks.get id = some t → t.state = .enqueued →
      Time.rank t.expiresAt ≤ Time.rank now → t.threadId ≠ [] → c.handed id) :
    Ensures True (runTasksGarbageCollection s now req) (Heads c) := by
  have hstep : ∀ a t, Indexed th a.rows →
      (Heads c a ∧ ∀ id u, a.tasks.get id = some u → s.tasks.get id = some u) →
      a.rows.tasks.get t.id = some t → t.state = .enqueued ∨ t.state = .dead →
      Time.rank t.expiresAt ≤ Time.rank now → Ensures True (deleteTask a t .expired)
        (fun b => Heads c b ∧ ∀ id u, b.tasks.get id = some u → s.tasks.get id = some u) := by
    intro a t _ ha row hstate hdue
    have hrow := ha.2 _ _ row
    refine (deleteTask_heads ha.1 row .expired (fun hc hl hth => ?_)).and ?_
    · refine hhand hc t.id t hrow (hstate.resolve_right (fun hd => ?_)) hdue hth
      simp [Task.live, hd] at hl
    · refine ((deleteTask_rows a t .expired).weaken (fun _ => trivial)).mono
        (fun b hs id u hu => ?_)
      have hget : b.tasks = a.tasks.delete t.id := congrArg Rows.tasks hs
      rw [hget, Table.get_delete] at hu
      split_ifs at hu
      exact ha.2 id u hu
  exact (sweepRounds_keeps hstep _ _ _ s hi ⟨h, fun _ _ ht => ht⟩).mono (fun _ hs => hs.1)

/-- Purging keeps the threads in order; it does not follow the cursor. -/
theorem runPurgeQueueGarbageCollection_heads (req : RunPurgeQueueGarbageCollectionRequest)
    (h : Heads c s) (hi : Indexed th s.rows) (hc : ¬c.tracked) :
    Ensures True (runPurgeQueueGarbageCollection s req) (Heads c) :=
  runPurgeQueueGarbageCollection_keeps
    (fun _ _ hs row => deleteTask_heads hs row .none (fun ht => absurd ht hc))
    (fun _ _ hs => hs.same ⟨rfl, rfl, rfl, rfl⟩) hi h

end Calls

section Enqueue

variable {th : Prop} {now : Time}

/-- The ids of the queue up to n are given out. -/
def Scope.upTo (c : Scope) (q : QueueId) (n : Nat) : Scope :=
  { c with used := fun id => if id.queue = q then id.taskId ≤ n else c.used id }

/-- If the entry overwrites the time of a threaded task, that task can be moved. -/
def Overwritable (c : Scope) (q : QueueId) (now : Time) (s : State)
    (e : EnqueueRequestEntry) : Prop :=
  c.threaded → ∀ id t, duplicateOf s q e = some id → s.tasks.get id = some t → t.state = .enqueued →
    t.threadId ≠ [] → OverwriteOnDuplicate.scheduledAt ∈ e.overwriteOnDuplicate →
      Movable c s t (notBefore e.scheduledAt now)

/-- One entry of an Enqueue, as a step on the state and the sequence. -/
def enqueueStep (q : QueueId) (now : Time) (a : State × Nat) (e : EnqueueRequestEntry) :
    Except CoreError (State × Nat) :=
  (enqueueEntry q now a.1 a.2 e).map (fun b => (b.1, b.2.1))

/-- What an Enqueue needs to know about times. -/
structure Punctual (c : Scope) (q : QueueId) (now : Time) : Prop where
  arrival : c.tracked → ∀ time, c.front q (notBefore time now)
  idle : c.tracked → ∀ id, ¬c.handed id
  mono : c.tracked → ∀ q x y, Time.rank x ≤ Time.rank y → c.front q x → c.front q y

theorem enqueueEntry_heads {n : Nat} {e : EnqueueRequestEntry} (hp : Punctual c q now)
    (h : Heads (c.upTo q n) s) (hi : Indexed th s.rows) (hth : e.threadId ≠ [] → c.threaded)
    (hm : Overwritable c q now s e) :
    Ensures True (enqueueEntry q now s n e) (fun a => Heads (c.upTo q a.2.1) a.1) := by
  unfold enqueueEntry
  cases hd : duplicateOf s q e with
  | some id =>
    obtain ⟨t, row, _, hq⟩ := duplicateOf_row hi hd
    have hid := (h.row _ _ row).1
    refine (overwriteDuplicate_heads (notBefore e.scheduledAt now) h row _ _ _
      (fun hst hn hw => ?_) (fun hc => ?_) hp.idle hp.mono).bind (fun a ha => Ensures.ok ha)
    · have hmov := hm ((h.row _ _ row).2.2 hn) id t hd row hst hn hw
      exact ⟨hmov.place, hmov.ahead⟩
    · rw [hid, hq]
      exact hp.arrival hc _
  | none =>
    have hunused : ¬(c.upTo q n).used (newTask q (n + 1) e now).id := by
      simp [Scope.upTo, newTask]
    obtain ⟨hrow, hn⟩ := h.unused hunused
    have hup : Heads (c.upTo q (n + 1)) s := by
      refine h.rescope (fun ht => ht) (fun id hu => ?_) (fun ht => ht) h.queue_front h.ahead
      simp only [Scope.upTo] at hu ⊢
      split_ifs at hu ⊢
      · omega
      · exact hu
    have hgone : Heads (c.upTo q (n + 1)) (s.deleteRow (newTask q (n + 1) e now).id) := by
      exact hup.same ⟨Table.delete_absent hrow, rfl, rfl, rfl⟩
    refine (createTask_heads hgone hn ?_ hth rfl (fun hc => hp.arrival hc _) hp.idle).bind
      (fun s' hs' => Ensures.ok hs')
    simp [Scope.upTo, newTask]

theorem enqueueEntries_heads (hp : Punctual c q now) (es : List EnqueueRequestEntry) (s : State)
    (n : Nat) (h : Heads (c.upTo q n) s) (hi : Indexed th s.rows) (hb : Below q n s.rows)
    (hth : ∀ e ∈ es, e.threadId ≠ [] → c.threaded ∧ th)
    (hm : Along (enqueueStep q now) (fun a e => Overwritable c q now a.1 e) (s, n) es) :
    Ensures True (enqueueEntries q now s n es) (fun a => Heads (c.upTo q a.2.1) a.1) := by
  induction es generalizing s n with
  | nil => exact Ensures.ok h
  | cons e es ih =>
    rw [enqueueEntries]
    have he := hth e List.mem_cons_self
    have hmade : Ensures True (enqueueEntry q now s n e) _ :=
      (enqueueEntry_makes hi hb (fun hn => (he hn).2)).weaken (fun _ => trivial)
    refine ((enqueueEntry_heads hp h hi (fun hn => (he hn).1) hm.1).and hmade).self.bind
      (fun a ha => ?_)
    obtain ⟨heq, hheads, _, hbelow, hmakes⟩ := ha
    refine (ih a.1 a.2.1 hheads (hmakes.indexed hi) hbelow
      (fun e he => hth e (List.mem_cons_of_mem _ he)) (hm.tail ?_)).bind (fun b hb => Ensures.ok hb)
    rw [enqueueStep, heq]
    rfl

end Enqueue

end Moab
