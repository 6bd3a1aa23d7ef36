import Moab.Tasks.Drift
import Moab.Tasks.Exclusion
import Moab.Tasks.Filed

namespace Moab

open OrderedStore

section Roots

variable [OrderedStore] {c : Scope} {s : State} {th : Prop}

/-- The threads of the queues are named by tasks that exist. -/
structure Roots (Q : QueueId → Prop) (s : State) : Prop where
  head : ∀ k thread, Q k.queue → s.threads.get k = some thread →
    s.tasks.get thread.headTaskId ≠ none
  member : ∀ k, Q k.queue → ∀ i ∈ s.threadedTasksIndex.items k,
    s.tasks.get (k.queue.task i.taskId) ≠ none

/-- Which ids are given out only matters for the ids that are in use. -/
theorem Heads.respend {used : TaskId → Prop} (h : Heads c s)
    (hrow : ∀ id t, s.tasks.get id = some t → used id)
    (hhead : ∀ k thread, s.threads.get k = some thread → used thread.headTaskId)
    (hmember : ∀ k, ∀ i ∈ s.threadedTasksIndex.items k, used (k.queue.task i.taskId)) :
    Heads { c with used := used } s where
  row id t ht := ⟨(h.row id t ht).1, hrow id t ht, (h.row id t ht).2.2⟩
  queue_row := h.queue_row
  queue_free := h.queue_free
  queue_head := h.queue_head
  queue_front := h.queue_front
  leased_head := h.leased_head
  thread_key k thread hk :=
    have hkey := h.thread_key k thread hk
    ⟨hkey.1, hkey.2.1, hkey.2.2.1, hkey.2.2.2.1, hhead k thread hk⟩
  head_live := h.head_live
  member_key k i hi :=
    have hkey := h.member_key k i hi
    ⟨hkey.1, hkey.2.1, hmember k i hi⟩
  member_live := h.member_live
  ahead := h.ahead
  settled k := ⟨(h.settled k).record, (h.settled k).time, (h.settled k).first⟩

/-- Deleting a task takes its name out of its thread with its row. -/
theorem deleteTask_roots {Q : QueueId → Prop} {t : Task} {reason : TaskDeletionReason}
    (h : Heads c s) (hr : Roots Q s) (hc : ¬c.tracked) (row : s.tasks.get t.id = some t) :
    Ensures True (deleteTask s t reason) (fun s' => Heads c s' ∧ Roots Q s') := by
  have hrooted : Heads { c with used := fun id => Q id.queue → s.tasks.get id ≠ none } s := by
    apply h.respend
    · intro id u hu _
      simp [hu]
    · intro k thread hk hq
      rw [(h.thread_key k thread hk).2.1] at hq
      exact hr.head k thread hq hk
    · exact fun k i hi hq => hr.member k hq i hi
  have hgone := deleteTask_unnamed hrooted row reason (fun ht => absurd ht hc)
  have hheads := deleteTask_heads h row reason (fun ht => absurd ht hc)
  have hrows := (deleteTask_rows s t reason).weaken (F := True) (fun _ => trivial)
  apply ((hheads.and hgone).and hrows).mono
  intro s' hs'
  obtain ⟨⟨hs, hnames, hun⟩, hrow⟩ := hs'
  have htasks : ∀ id, id ≠ t.id → s'.tasks.get id = s.tasks.get id := by
    intro id hne
    have hdelete : s'.tasks = s.tasks.delete t.id := congrArg Rows.tasks hrow
    rw [hdelete, Table.get_delete_ne _ hne]
  refine ⟨hs, ?_, ?_⟩
  · intro k thread hq hk
    have hkey := hnames.thread_key k thread hk
    rw [htasks _ (hun.head k thread hk)]
    exact hkey.2.2.2.2 (hkey.2.1 ▸ hq)
  · intro k hq i hi
    rw [htasks _ (hun.member k i hi)]
    exact (hnames.member_key k i hi).2.2 hq

/-- Queues that are not dropped keep their sequence. -/
theorem Steps.sequenceOf {r r' : Rows} {qs : List QueueId} {es : List Event} {q : QueueId}
    (hs : Steps th r es r') (he : Purges qs es) (hq : q ∉ qs) :
    Moab.sequenceOf r'.queueState q = Moab.sequenceOf r.queueState q := by
  refine hs.invariant_of (I := fun x => Moab.sequenceOf x.queueState q =
    Moab.sequenceOf r.queueState q) ?_ rfl
  intro e hm a b ha hstep
  rcases he e hm with ⟨t, rfl, _⟩ | ⟨p, hp, rfl⟩
  · cases hstep with
    | delete => exact ha
  · cases hstep with
    | drop =>
      rw [← ha]
      have hne : q ≠ p := fun heq => hq (heq ▸ hp)
      simp [Rows.drop, Moab.sequenceOf, Table.get_delete_ne _ hne]

/-- Collecting purged queue ids whose threads are all named by tasks that exist keeps
the threads in order. -/
theorem collect_sound {now : Time} {req : RunPurgeQueueGarbageCollectionRequest}
    (h : Sound th False s) (hr : Roots (fun q => s.purgeGCRecords.get q ≠ none) s) :
    Sound th False (commit s now (.runPurgeQueueGarbageCollection req)) := by
  refine commit_keeps h (Ensures.map ?_)
  have hmade : Ensures True (runPurgeQueueGarbageCollection s req) _ :=
    (runPurgeQueueGarbageCollection_makes h.indexed).weaken (fun _ => trivial)
  have hheads : Ensures True (runPurgeQueueGarbageCollection s req)
      (fun s' => Heads (s.scope th False) s' ∧ Roots (fun q => s.purgeGCRecords.get q ≠ none) s') :=
    runPurgeQueueGarbageCollection_keeps (fun _ _ hs row => deleteTask_roots hs.1 hs.2 id row)
      (fun _ _ hs => ⟨hs.1.same ⟨rfl, rfl, rfl, rfl⟩, hs.2.head, hs.2.member⟩) h.indexed
      ⟨h.heads, hr⟩
  apply (hmade.and hheads).mono
  intro s' hs'
  obtain ⟨⟨es, hes, hpurges⟩, hheads, hroots⟩ := hs'
  have hseq : Sequenced s'.rows := by
    refine hes.sequenced (fun e he => ?_) h.sequenced
    rcases hpurges e he with ⟨t, rfl, _⟩ | ⟨q, _, rfl⟩ <;> simp [Event.kind]
  -- a name under a dropped id is that of a task, any other keeps its sequence
  have hused : ∀ id : TaskId, id.taskId ≤ sequenceOf s.queueState id.queue →
      (s.purgeGCRecords.get id.queue ≠ none → s'.tasks.get id ≠ none) →
      id.taskId ≤ sequenceOf s'.queueState id.queue := by
    intro id hold hrow
    by_cases hmark : s.purgeGCRecords.get id.queue = none
    · have hkept : sequenceOf s'.rows.queueState id.queue =
          sequenceOf s.rows.queueState id.queue := by
        refine hes.sequenceOf hpurges (fun hm => ?_)
        obtain ⟨e, he, heq⟩ := List.mem_map.mp hm
        have hget := Table.mem_entries.mp he
        rw [heq, hmark] at hget
        simp at hget
      change id.taskId ≤ sequenceOf s'.rows.queueState id.queue
      rw [hkept]
      exact hold
    · obtain ⟨t, ht⟩ := Option.ne_none_iff_exists'.mp (hrow hmark)
      exact hseq id t ht
  have hspent : Heads { s.scope th False with
      used := fun id => id.taskId ≤ sequenceOf s'.queueState id.queue } s' := by
    apply hheads.respend
    · exact hseq
    · intro k thread hk
      have hkey := hheads.thread_key k thread hk
      refine hused _ hkey.2.2.2.2 (fun hmark => hroots.head k thread ?_ hk)
      exact hkey.2.1 ▸ hmark
    · intro k i hi
      exact hused _ (hheads.member_key k i hi).2.2 (fun hmark => hroots.member k hmark i hi)
  exact ⟨h.indexed.steps hes, hspent.rescope id (fun _ hu => hu) False.elim False.elim False.elim,
    hseq, False.elim⟩

end Roots

section Leases

variable [OrderedStore] {th : Prop} {F : TaskId → Time → Prop} {s : State}
    {q : QueueId} {now : Time}

/-- What holds of the times at which leases lapse. -/
def LeasedUntil (F : TaskId → Time → Prop) (r : Rows) : Prop :=
  ∀ id t, r.tasks.get id = some t → t.state = .inProgress → F id t.visibleAt

/-- A lease that the event gives or renews lapses at such a time. -/
def Event.leases (F : TaskId → Time → Prop) : Event → Prop
  | .renewed t t' => F t.id t'.visibleAt
  | .leased t t' => F t.id t'.visibleAt
  | _ => True

theorem LeasedUntil.step {r r' : Rows} {e : Event} (h : LeasedUntil F r) (hs : Step th r e r')
    (he : e.leases F) : LeasedUntil F r' := by
  cases hs with
  | create _ state => exact rows_set h (fun hst => by simp [state] at hst)
  | overwrite _ state => exact rows_set h (fun hst => by simp [Task.overwrite, state] at hst)
  | delete => exact rows_delete h
  | renew => exact rows_set h (fun _ => he)
  | retry => exact rows_set h (fun hst => by simp [Task.retry] at hst)
  | die => exact rows_set h (fun hst => by simp [Task.die] at hst)
  | restart => exact rows_set h (fun hst => by simp [Task.restart] at hst)
  | expire => exact rows_delete h
  | lease => exact rows_set h (fun _ => he)
  | _ => exact h

theorem LeasedUntil.steps {r r' : Rows} {es : List Event} (h : LeasedUntil F r)
    (hs : Steps th r es r') (he : ∀ e ∈ es, e.leases F) : LeasedUntil F r' :=
  hs.invariant_of (fun e hm _ _ hl hstep => hl.step hstep (he e hm)) h

/-- A call that hands out nothing writes a lease only for a heartbeat, from now on. -/
theorem exec_leasedUntil {op : Op} (hi : Indexed th s.rows) (h : LeasedUntil F s.rows)
    (hop : ∀ req, op ≠ .dequeue req) (hk : ∀ req, op = .reportStatus req → ∀ e ∈ req.entries,
      e.status = .inProgress → ∀ id, F id (plusSeconds now e.keepaliveTimeoutInSeconds)) :
    Ensures True (exec s now op) (fun a => LeasedUntil F a.1.rows) := by
  have hwrites : op.Writes (fun t => t.state = .inProgress → F t.id t.visibleAt)
      (fun t => t.state = .inProgress → F t.id t.visibleAt) now := by
    cases op with
    | enqueue req =>
      exact fun _ _ => ⟨⟨fun _ ht => ht, fun _ ht => ht, fun _ ht => ht⟩, fun _ => nofun⟩
    | dequeue req => exact absurd rfl (hop req)
    | reportStatus req =>
      exact ⟨⟨fun _ _ _ _ => nofun, fun _ _ _ _ => nofun⟩,
        fun e he hst t _ _ _ => hk req rfl e he hst t.id⟩
    | restartTasks req => exact fun _ _ _ _ => nofun
    | _ => trivial
  have hrows := Upheld.of_rows (P := fun j t => t.id = j ∧
    (t.state = .inProgress → F t.id t.visibleAt))
    (fun _ _ ht => ht.2) (fun _ ht _ => ht) (fun _ ht => ⟨rfl, ht⟩)
  refine (hrows.exec (fun id t ht => ?_) hwrites (fun _ _ _ _ hx => hx) (fun _ _ _ _ hx _ => hx)
    (fun _ _ _ _ hx => hx) (fun _ _ _ hx => hx) (fun _ _ _ _ _ hx => hx)).mono ?_
  · have hid : t.id = id := hi.key id t ht
    exact ⟨hid, hid ▸ h id t ht⟩
  · intro a ha id t ht
    obtain ⟨rfl, hleased⟩ := ha.1 id t ht
    exact hleased

end Leases

section FirstPass

variable [OrderedStore] {th : Prop} {s : State} {q : QueueId} {now : Time}

/-- A lease that is still there after a failure is that of another task. -/
theorem Step.still_leased {r r' : Rows} {e : Event} {id : TaskId} {u : Task} (hs : Step th r e r')
    (hk : e.kind ∈ [EventKind.deleted, .retried, .died]) (hu : r'.tasks.get id = some u)
    (hst : u.state = .inProgress) : r.tasks.get id = some u ∧ e.task ≠ some id := by
  have hset : ∀ {t t' : Task}, (r.tasks.set t.id t').get id = some u → t'.state ≠ .inProgress →
      r.tasks.get id = some u ∧ some t.id ≠ some id := by
    intro t t' hget hne
    rw [Table.get_set] at hget
    split_ifs at hget with hid
    · rw [Option.some.inj hget] at hne
      exact absurd hst hne
    · exact ⟨hget, by simpa using Ne.symm hid⟩
  cases hs with
  | delete =>
    change (r.tasks.delete _).get id = some u at hu
    rw [Table.get_delete] at hu
    split_ifs at hu with hid
    exact ⟨hu, by simpa [Event.task] using Ne.symm hid⟩
  | retry => exact hset hu (by simp [Task.retry])
  | die => exact hset hu (by simp [Task.die])
  | _ => simp [Event.kind] at hk

theorem Steps.still_leased {r r' : Rows} {es : List Event} {id : TaskId} {u : Task}
    (hs : Steps th r es r') (hk : ∀ e ∈ es, e.kind ∈ [EventKind.deleted, .retried, .died])
    (hu : r'.tasks.get id = some u) (hst : u.state = .inProgress) :
    r.tasks.get id = some u ∧ ∀ e ∈ es, e.task ≠ some id := by
  induction hs with
  | nil => exact ⟨hu, by simp⟩
  | cons hstep hs ih =>
    obtain ⟨hrow, hrest⟩ := ih (fun e he => hk e (List.mem_cons_of_mem _ he)) hu
    obtain ⟨hrow, hne⟩ := hstep.still_leased (hk _ List.mem_cons_self) hrow hst
    exact ⟨hrow, List.forall_mem_cons.mpr ⟨hne, hrest⟩⟩

omit [OrderedStore] in
/-- Every delivery that failed is dealt with. -/
theorem FailedAll.mem {l : List Task} {es : List Event} {t : Task} (h : FailedAll now l es)
    (ht : t ∈ l) : ∃ e ∈ es, e.task = some t.id := by
  induction h with
  | nil => simp at ht
  | cons hf _ ih =>
    rcases List.mem_cons.mp ht with rfl | ht
    · have hfirst : ∀ {e : Event} {es : List Event}, e.task = some t.id →
          ∃ e' ∈ e :: es, e'.task = some t.id := fun he => ⟨_, List.mem_cons_self, he⟩
      cases hf with
      | _ => exact hfirst rfl
    · obtain ⟨e, he, heq⟩ := ih ht
      exact ⟨e, List.mem_append_right _ he, heq⟩

/-- After the first pass a task in progress has the lease it had, and was not among
those that lapsed. -/
theorem dequeueInProgressTasksBeforeTime_leased {dlqConfig : Option DeadLetterQueueConfig}
    (hi : Indexed th s.rows) :
    Ensures True (dequeueInProgressTasksBeforeTime s q now dlqConfig) (fun mid =>
      ∀ id t, mid.tasks.get id = some t → t.state = .inProgress → s.tasks.get id = some t ∧
        ∀ i ∈ timedOutItems s q now, q.task i.taskId ≠ id) := by
  obtain ⟨l, hl, hb, _, hrow⟩ := timedOutTasks s q now hi
  have hread : ∀ i ∈ timedOutItems s q now, ∃ t ∈ l, t.id = q.task i.taskId := by
    intro i hm
    obtain ⟨t, ht, hget⟩ := exists_of_mem_left (forall₂_of_mapM_ok hl) hm
    exact ⟨t, ht, hi.key _ _ (State.getTask_eq_ok.mp hget)⟩
  unfold dequeueInProgressTasksBeforeTime
  dsimp only
  rw [hl]
  generalize ((timedOutItems s q now).getLast?.map IndexItem.time).getD now = time
  have hi' := hi.step (setQueueState_step s q { s.getQueueState q with
    lastVisitedInProgress := time } rfl)
  apply ((failAll_makes now dlqConfig l _ hi' ⟨hb.row, hb.nodup⟩
    (fun t ht => (hrow t ht).1)).weaken (fun _ => trivial)).mono
  intro mid hmid id t ht hst
  obtain ⟨es, hes, hfailed⟩ := hmid
  obtain ⟨hsame, hother⟩ := hes.still_leased (hfailed.all (fun _ _ _ hf => hf.kinds)) ht hst
  refine ⟨hsame, fun i hm heq => ?_⟩
  obtain ⟨u, hu, hid⟩ := hread i hm
  obtain ⟨e, he, htask⟩ := hfailed.mem hu
  exact hother e he (by rw [htask, hid, heq])

/-- Where the first pass leaves the cursor of the leases. -/
def lapseCursor (s : State) (q : QueueId) (now : Time) : Time :=
  ((timedOutItems s q now).getLast?.map IndexItem.time).getD now

/-- A lease that a first pass does not visit is not before its new cursor, and lapses
after now unless the pass used up its budget. -/
theorem lapseCursor_le {i : IndexItem} (hi : i ∈ s.inProgressIndex.items q)
    (hlo : (s.getQueueState q).lastVisitedInProgress.rank ≤ i.time.rank)
    (hout : i ∉ timedOutItems s q now) :
    (lapseCursor s q now).rank ≤ i.time.rank ∧
      ((timedOutItems s q now).length = maxVisitedTasksForDequeuing ∨ now.rank < i.time.rank) := by
  unfold lapseCursor
  unfold timedOutItems at *
  generalize hrange : listInRange s.inProgressIndex q
    (s.getQueueState q).lastVisitedInProgress now = range at *
  by_cases hle : i.time.rank ≤ now.rank
  · have hin : i ∈ range := hrange ▸ mem_listInRange.mpr ⟨hi, hlo, hle⟩
    have hsorted : range.Pairwise (· < ·) := hrange ▸ (s.inProgressIndex.items_sorted q).filter _
    rw [← List.take_append_drop maxVisitedTasksForDequeuing range] at hin hsorted
    have hdrop := (List.mem_append.mp hin).resolve_left hout
    have hlong : maxVisitedTasksForDequeuing < range.length := by
      have hpos := List.length_pos_of_mem hdrop
      rw [List.length_drop] at hpos
      omega
    have hfull : (range.take maxVisitedTasksForDequeuing).length = maxVisitedTasksForDequeuing :=
      List.length_take_of_le (le_of_lt hlong)
    refine ⟨?_, Or.inl hfull⟩
    cases hl : (range.take maxVisitedTasksForDequeuing).getLast? with
    | none =>
      rw [List.getLast?_eq_none_iff.mp hl] at hfull
      simp [maxVisitedTasksForDequeuing] at hfull
    | some j =>
      have hlt := (List.pairwise_append.mp hsorted).2.2 j (List.mem_of_getLast? hl) i hdrop
      exact IndexItem.rank_time_le (le_of_lt hlt)
  · have hlt := not_le.mp hle
    refine ⟨?_, Or.inr hlt⟩
    cases hl : (range.take maxVisitedTasksForDequeuing).getLast? with
    | none => exact le_of_lt hlt
    | some j =>
      have hj : j ∈ range := List.mem_of_mem_take (List.mem_of_getLast? hl)
      exact (mem_listInRange.mp (hrange ▸ hj)).2.2.trans (le_of_lt hlt)

end FirstPass

section Cursor

variable [OrderedStore] {s : State} {past now : Time}

/-- The next first pass of the queue still looks at leases of that time. -/
def State.watches (s : State) (id : TaskId) (time : Time) : Prop :=
  (s.getQueueState id.queue).lastVisitedInProgress ≤ time

/-- The state after a call at past: no cursor of leases is ahead of the clock or of a
lease. -/
structure Leasing (past : Time) (s : State) : Prop where
  sound : Sound True False s
  filed : Filed s.spine
  cursor : ∀ q, 0 ≤ (s.getQueueState q).lastVisitedInProgress ∧
    (s.getQueueState q).lastVisitedInProgress ≤ past
  leased : LeasedUntil s.watches s.rows

theorem Leasing.item {q : QueueId} {i : IndexItem} (h : Leasing past s)
    (hi : i ∈ s.inProgressIndex.items q) : (s.getQueueState q).lastVisitedInProgress ≤ i.time := by
  obtain ⟨t, ht, hst, htime⟩ := (h.sound.indexed.inProgressExact q i).mp hi
  rw [← htime]
  exact h.leased (q.task i.taskId) t ht hst

/-- What is in progress after the first pass of a Dequeue. -/
theorem Leasing.firstPass {q : QueueId} {dlqConfig : Option DeadLetterQueueConfig} {mid : State}
    {id : TaskId} {t : Task} (h : Leasing past s) (hnow : 0 ≤ now)
    (hok : dequeueInProgressTasksBeforeTime s q now dlqConfig = .ok mid)
    (ht : mid.tasks.get id = some t) (hst : t.state = .inProgress) :
    s.watches id t.visibleAt ∧ (id.queue = q → lapseCursor s q now ≤ t.visibleAt ∧
      ((timedOutItems s q now).length = maxVisitedTasksForDequeuing ∨ now < t.visibleAt)) := by
  have hpass : Ensures True (dequeueInProgressTasksBeforeTime s q now dlqConfig) _ :=
    dequeueInProgressTasksBeforeTime_leased h.sound.indexed
  obtain ⟨hrow, hother⟩ := hpass.elim hok id t ht hst
  have hwatched := h.leased id t hrow hst
  refine ⟨hwatched, fun hq => ?_⟩
  subst hq
  have hcursor0 := (h.cursor id.queue).1
  have htime0 : 0 ≤ t.visibleAt := Int64.le_trans hcursor0 hwatched
  have hid : id.queue.task id.taskId = id := TaskId.queue_task id
  have hitem : ⟨t.visibleAt, id.taskId⟩ ∈ s.inProgressIndex.items id.queue := by
    apply (h.sound.indexed.inProgressExact _ _).mpr
    exact ⟨t, by rw [hid]; exact hrow, hst, rfl⟩
  obtain ⟨hle, hlate⟩ := lapseCursor_le hitem (Time.rank_le hcursor0 hwatched)
    (fun hm => hother _ hm hid)
  exact ⟨Time.le_of_rank htime0 hle, hlate.imp_right (Time.rank_lt_rank hnow htime0).mp⟩

theorem Leasing.lapseCursor (h : Leasing past s) (hnow : 0 ≤ now) (q : QueueId) :
    0 ≤ lapseCursor s q now ∧ lapseCursor s q now ≤ now := by
  unfold Moab.lapseCursor
  cases hl : (timedOutItems s q now).getLast? with
  | none => exact ⟨hnow, Int64.le_refl now⟩
  | some i =>
    have hi := mem_listInRange.mp (List.mem_of_mem_take (List.mem_of_getLast? hl))
    exact ⟨Int64.le_trans (h.cursor q).1 (h.item hi.1), Time.le_of_rank hnow hi.2.2⟩

/-- What a call leaves of the cursors and the leases. -/
structure Watched (now : Time) (s : State) : Prop where
  cursor : ∀ q, 0 ≤ (s.getQueueState q).lastVisitedInProgress ∧
    (s.getQueueState q).lastVisitedInProgress ≤ now
  leased : LeasedUntil s.watches s.rows

theorem Leasing.dequeue {req : DequeueRequest} (h : Leasing past s) (hnow : 0 ≤ now)
    (hpast : past ≤ now) (hkeep : now ≤ plusSeconds now req.keepaliveTimeoutInSeconds) :
    Ensures True (exec s now (.dequeue req)) (fun a => Watched now a.1) := by
  have hcursor : ∀ q, 0 ≤ (s.getQueueState q).lastVisitedInProgress ∧
      (s.getQueueState q).lastVisitedInProgress ≤ now :=
    fun q => ⟨(h.cursor q).1, Int64.le_trans (h.cursor q).2 hpast⟩
  refine Ensures.map ?_
  unfold Moab.dequeue
  cases checkQueueNotPurged s req.queueId with
  | some err => exact Ensures.ok ⟨hcursor, h.leased⟩
  | none =>
    have hmade : Ensures True (dequeueTasks s now req) _ :=
      dequeueTasks_makes h.sound.indexed h.sound.heads (fun _ => trivial) (fun _ => trivial)
    apply ((dequeueTasks_scans h.sound.heads h.sound.indexed).and hmade).bind
    intro a ha
    obtain ⟨⟨mid, _, _, _, _, hok, _, _, _, _, _, hget⟩, mid', _, ts, fs, hok', _, _,
      _, hts, _, hout, hfs⟩ := ha
    obtain rfl := Except.ok.inj (hok.symm.trans hok')
    have hqueue : ∀ q, (a.1.getQueueState q).lastVisitedInProgress =
        if q = req.queueId then Moab.lapseCursor s q now
        else (s.getQueueState q).lastVisitedInProgress := by
      intro q
      unfold State.getQueueState
      rw [hget]
      split_ifs <;> rfl
    have hlapse := h.lapseCursor hnow req.queueId
    refine Ensures.ok ⟨fun q => ?_, ?_⟩
    · rw [hqueue]
      split_ifs with hq
      · exact hq ▸ hlapse
      · exact hcursor q
    · have hmid : LeasedUntil a.1.watches mid.rows := by
        intro id t ht hst
        obtain ⟨hold, hnew⟩ := h.firstPass hnow hok ht hst
        unfold State.watches
        rw [hqueue]
        split_ifs with hq
        · rw [hq]
          exact (hnew hq).1
        · exact hold
      -- a lease given out now lapses after now
      apply hmid.steps hfs
      intro e he
      rcases List.mem_append.mp he with he | he
      · rw [hout] at he
        simp only [List.mem_cons, List.mem_append, List.mem_map, List.mem_filter] at he
        rcases he with rfl | rfl | ⟨t, _, rfl⟩ | ⟨t, ⟨ht, _⟩, rfl⟩
        · trivial
        · trivial
        · trivial
        · change a.1.watches t.id _
          unfold State.watches
          rw [hqueue, if_pos (hts t ht).2, (hts t ht).2]
          exact Int64.le_trans hlapse.2 hkeep
      · rw [List.mem_singleton.mp he]
        trivial

/-- Only Dequeue moves the cursors of leases, and a collection resets them. -/
theorem exec_lapseCursor {op : Op} (hop : ∀ req, op ≠ .dequeue req) :
    Ensures True (exec s now op) (fun a => ∀ q,
      (a.1.getQueueState q).lastVisitedInProgress = (s.getQueueState q).lastVisitedInProgress ∨
      (a.1.getQueueState q).lastVisitedInProgress = 0) := by
  apply exec_queueStates (P := fun q st =>
    st.lastVisitedInProgress = (s.getQueueState q).lastVisitedInProgress ∨
      st.lastVisitedInProgress = 0)
  · exact fun _ => Or.inl rfl
  · exact fun _ _ _ => Or.inl rfl
  · exact fun req _ _ hreq => absurd hreq (hop req)
  · exact fun _ _ _ => Or.inr rfl

/-- The clock is not before the epoch, and no lease that the call gives or renews
lapses before now. -/
def Call.leasesAhead (c : Call) : Prop :=
  0 ≤ c.now ∧ match c.op with
  | .dequeue req => c.now ≤ plusSeconds c.now req.keepaliveTimeoutInSeconds
  | .reportStatus req => ∀ e ∈ req.entries, e.status = .inProgress →
      c.now ≤ plusSeconds c.now e.keepaliveTimeoutInSeconds
  | _ => True

instance (c : Call) : Decidable c.leasesAhead :=
  match c with
  | ⟨_, .dequeue _⟩ => inferInstanceAs (Decidable (_ ∧ _ ≤ _))
  | ⟨_, .reportStatus _⟩ => inferInstanceAs (Decidable (_ ∧ ∀ e ∈ _, _))
  | ⟨_, .enqueue _⟩ | ⟨_, .deleteTasks _⟩ | ⟨_, .restartTasks _⟩ | ⟨_, .purgeQueue _⟩ |
    ⟨_, .runTasksGarbageCollection _⟩ | ⟨_, .runPurgeQueueGarbageCollection _⟩ => 
      inferInstanceAs (Decidable (_ ∧ True))

/-- The head and the members of every thread of the queue are tasks that exist. -/
def Rooted (s : State) (q : QueueId) : Prop :=
  ∀ e ∈ s.threads.entries, e.1.queue = q → s.tasks.get e.2.headTaskId ≠ none ∧
    ∀ i ∈ s.threadedTasksIndex.items e.1, s.tasks.get (q.task i.taskId) ≠ none

instance (s : State) (q : QueueId) : Decidable (Rooted s q) :=
  inferInstanceAs (Decidable (∀ e ∈ s.threads.entries, _))

/-- No entry of the call displaces a queued head, and purged queue ids are collected
only while their threads are rooted. -/
def Call.keepsLeases (s : State) (c : Call) : Prop :=
  c.leasesAhead ∧ c.keepsHeads s ∧
    (c.op.collectsPurged → ∀ e ∈ s.purgeGCRecords.entries, Rooted s e.1)

instance (s : State) (c : Call) : Decidable (c.keepsLeases s) :=
  inferInstanceAs (Decidable (_ ∧ _ ∧ _))

theorem Filed.roots (h : Filed s.spine) (hr : ∀ e ∈ s.purgeGCRecords.entries, Rooted s e.1) :
    Roots (fun q => s.purgeGCRecords.get q ≠ none) s := by
  have hrooted : ∀ q, s.purgeGCRecords.get q ≠ none → Rooted s q := by
    intro q hq
    obtain ⟨u, hu⟩ := Option.ne_none_iff_exists'.mp hq
    exact hr (q, u) (Table.mem_entries.mpr hu)
  constructor
  · intro k thread hq hk
    exact (hrooted _ hq (k, thread) (Table.mem_entries.mpr hk) rfl).1
  · intro k hq i hi
    obtain ⟨thread, hk⟩ := Option.ne_none_iff_exists'.mp (h.member k i hi)
    exact (hrooted _ hq (k, thread) (Table.mem_entries.mpr hk) rfl).2 i hi

theorem Leasing.exec {c : Call} (h : Leasing past s) (hpast : past ≤ c.now) (hc : c.leasesAhead) :
    Ensures True (exec s c.now c.op) (fun a => Watched c.now a.1) := by
  obtain ⟨now, op⟩ := c
  obtain ⟨hnow, hahead⟩ := hc
  have hother : (∀ req, op ≠ .dequeue req) →
      Ensures True (Moab.exec s now op) (fun a => LeasedUntil s.watches a.1.rows) →
      Ensures True (Moab.exec s now op) (fun a => Watched now a.1) := by
    intro hop hleased
    apply (hleased.and (exec_lapseCursor hop)).mono
    intro a ha
    obtain ⟨hleased, hcursor⟩ := ha
    constructor
    · intro q
      obtain ⟨hlo, hhi⟩ := h.cursor q
      rcases hcursor q with hq | hq
      · rw [hq]
        exact ⟨hlo, Int64.le_trans hhi hpast⟩
      · rw [hq]
        exact ⟨Int64.le_refl 0, hnow⟩
    · intro id t ht hst
      have hold : s.watches id t.visibleAt := hleased id t ht hst
      unfold State.watches
      rcases hcursor id.queue with hq | hq
      · rw [hq]
        exact hold
      · rw [hq]
        exact Int64.le_trans (h.cursor id.queue).1 hold
  by_cases hdequeue : ∃ req, op = .dequeue req
  · obtain ⟨req, rfl⟩ := hdequeue
    exact h.dequeue hnow hpast hahead
  · have hop : ∀ req, op ≠ .dequeue req := not_exists.mp hdequeue
    refine hother hop (exec_leasedUntil h.sound.indexed h.leased hop ?_)
    rintro req rfl e he hst id
    exact Int64.le_trans (h.cursor _).2 (Int64.le_trans hpast (hahead e he hst))

theorem Leasing.commit {c : Call} (h : Leasing past s) (hpast : past ≤ c.now)
    (hc : c.keepsLeases s) : Leasing c.now (commit s c.now c.op) := by
  obtain ⟨hahead, hheads, hroots⟩ := hc
  have hwatched : Watched c.now (Moab.commit s c.now c.op) := by
    refine commit_keeps ⟨fun q => ?_, h.leased⟩ (h.exec hpast hahead)
    exact ⟨(h.cursor q).1, Int64.le_trans (h.cursor q).2 hpast⟩
  refine ⟨?_, commit_filed h.filed _ _, hwatched.cursor, hwatched.leased⟩
  by_cases hcollect : c.op.collectsPurged
  · obtain ⟨now, op⟩ := c
    cases op with
    | runPurgeQueueGarbageCollection req => exact collect_sound h.sound (h.filed.roots (hroots rfl))
    | _ => simp [Op.collectsPurged] at hcollect
  · exact commit_sound h.sound (fun _ => trivial) False.elim False.elim
      (hheads.safe (by simpa using hcollect))

theorem Leasing.empty : Leasing 0 State.empty where
  sound := Sound.empty
  filed := Filed.empty
  cursor q := by simp [State.getQueueState, State.empty, QueueState.zero]
  leased id t ht := by simp [State.rows, State.empty] at ht

theorem Leasing.run (calls : List Call) (past : Time) (s : State) (h : Leasing past s)
    (hle : ∀ c ∈ calls, past ≤ c.now) (hmono : calls.Pairwise (fun a b => a.now ≤ b.now))
    (hk : Along runStep Call.keepsLeases s calls) :
    ∃ last, Leasing last (run s calls) := by
  induction calls generalizing past s with
  | nil => exact ⟨past, h⟩
  | cons c calls ih =>
    obtain ⟨hfirst, hmono⟩ := List.pairwise_cons.mp hmono
    have hstep := h.commit (hle c List.mem_cons_self) hk.1
    exact ih c.now _ hstep hfirst hmono (hk.tail rfl)

/-- In every run in which no entry displaces a queued head, purged ids are collected
with their threads rooted and no lease overflows, no lease is behind the cursor, and a
Dequeue that follows deals with every lease that lapsed or uses up its budget. -/
theorem run_leases_watched (calls : List Call)
    (hmono : calls.Pairwise (fun a b => a.now ≤ b.now))
    (hk : Along runStep Call.keepsLeases State.empty calls) :
    (∀ q, ∀ i ∈ (run State.empty calls).inProgressIndex.items q,
      ((run State.empty calls).getQueueState q).lastVisitedInProgress ≤ i.time) ∧
    ∀ now req s' ts, 0 ≤ now → dequeue (run State.empty calls) now req = .ok (s', .ok ts) →
      ∃ mid, dequeueInProgressTasksBeforeTime (run State.empty calls) req.queueId now
          req.deadLetterQueueConfig = .ok mid ∧
        (∀ i ∈ timedOutItems (run State.empty calls) req.queueId now, ∀ t,
          mid.tasks.get (req.queueId.task i.taskId) = some t → t.state ≠ .inProgress) ∧
        ((timedOutItems (run State.empty calls) req.queueId now).length = 100 ∨
          ∀ id t, mid.tasks.get id = some t → id.queue = req.queueId → t.state = .inProgress →
            now < t.visibleAt) := by
  have hle : ∀ c ∈ calls, 0 ≤ c.now :=
    (hk.imp (fun _ _ hc => hc.1.1)).forall_mem (fun _ _ => ⟨_, rfl⟩)
  obtain ⟨last, h⟩ := Leasing.empty.run calls 0 _ hle hmono hk
  refine ⟨fun q i hi => h.item hi, ?_⟩
  intro now req s' ts hnow hx
  have hscans : Ensures True (dequeueTasks (run State.empty calls) now req) _ :=
    dequeueTasks_scans h.sound.heads h.sound.indexed
  obtain ⟨mid, _, _, _, _, hok, _⟩ := hscans.elim (dequeue_ok hx)
  have hpass : Ensures True (dequeueInProgressTasksBeforeTime (run State.empty calls)
      req.queueId now req.deadLetterQueueConfig) _ :=
    dequeueInProgressTasksBeforeTime_leased h.sound.indexed
  refine ⟨mid, hok, ?_, ?_⟩
  · intro i hi t ht hst
    exact (hpass.elim hok _ t ht hst).2 i hi rfl
  · by_cases hfull : (timedOutItems (run State.empty calls) req.queueId now).length = 100
    · exact Or.inl hfull
    · refine Or.inr (fun id t ht hq hst => ?_)
      exact ((h.firstPass hnow hok ht hst).2 hq).2.resolve_left hfull

end Cursor

section Runs

def backoffEntry (scheduledAt : Time) (dedupeKey : Bytes) (overwrites : List OverwriteOnDuplicate) :
    EnqueueRequestEntry :=
  ⟨[], scheduledAt, 9000000000000, dedupeKey, some ⟨[0, 0, 0, 0]⟩, overwrites, [7]⟩

def dequeueUpTo (limit : Time) : DequeueRequest := ⟨threadQueue, none, limit, none, 60⟩

/-- The head of a thread is moved to the given time, before or behind the other member. -/
def moveHead (scheduledAt : Time) : List Call :=
  [⟨5, .enqueue ⟨threadQueue, [backoffEntry 10 [1] [], backoffEntry 20 [] []]⟩⟩,
    ⟨5, .enqueue ⟨threadQueue, [backoffEntry scheduledAt [1] [.scheduledAt]]⟩⟩,
    ⟨40, .dequeue (dequeueUpTo 1)⟩]

/-- The head is leased, and meanwhile another queue id is purged and collected. -/
def watchedRun : List Call :=
  moveHead 15 ++ [⟨45, .purgeQueue plainQueue⟩, ⟨46, .runPurgeQueueGarbageCollection ⟨0, 0, 0⟩⟩]

theorem run_leases_watched_head :
    (∃ i ∈ (run State.empty watchedRun).inProgressIndex.items threadQueue,
      ((run State.empty watchedRun).getQueueState threadQueue).lastVisitedInProgress ≤ i.time) ∧
    ∃ mid, dequeueInProgressTasksBeforeTime (run State.empty watchedRun) threadQueue 60000000040
        none = .ok mid ∧
      ((timedOutItems (run State.empty watchedRun) threadQueue 60000000040).length = 100 ∨
        ∀ id t, mid.tasks.get id = some t → id.queue = threadQueue → t.state = .inProgress →
          60000000040 < t.visibleAt) := by
  obtain ⟨hitems, hnext⟩ := run_leases_watched watchedRun (by decide +kernel) (by decide +kernel)
  constructor
  · have hi : ⟨60000000040, 1⟩ ∈ (run State.empty watchedRun).inProgressIndex.items
        threadQueue := by
      decide +kernel
    exact ⟨_, hi, hitems threadQueue _ hi⟩
  · have hx : Ensures False (dequeue (run State.empty watchedRun) 60000000040 (dequeueUpTo 1))
        (fun a => Ensures False a.2 (fun _ => True)) := by decide +kernel
    obtain ⟨⟨s', response⟩, hs', hresponse⟩ := hx.returns
    obtain ⟨ts, rfl, _⟩ := hresponse.returns
    obtain ⟨mid, hmid, _, hlate⟩ := hnext 60000000040 (dequeueUpTo 1) s' ts (by decide) hs'
    exact ⟨mid, hmid, hlate⟩

/-- The head is moved behind the other member, so its old item stays in the queue
index and it is leased a second time under the first lease. -/
def twiceLeasedRun : List Call :=
  moveHead 30 ++ [⟨41, .dequeue (dequeueUpTo 1)⟩, ⟨60000000040, .dequeue (dequeueUpTo 0)⟩,
    ⟨60000000042, .dequeue (dequeueUpTo 10)⟩, ⟨120000000042, .dequeue (dequeueUpTo 0)⟩]

/-- The item of the first lease is then left behind the cursor. -/
theorem run_leased_twice_unwatched :
    twiceLeasedRun.Pairwise (fun a b => a.now ≤ b.now) ∧ (∀ c ∈ twiceLeasedRun, c.leasesAhead) ∧
    ∃ i ∈ (run State.empty twiceLeasedRun).inProgressIndex.items threadQueue,
      i.time < ((run State.empty twiceLeasedRun).getQueueState threadQueue).lastVisitedInProgress :=
  ⟨by decide +kernel, by decide +kernel, ⟨60000000040, 1⟩, by decide +kernel, by decide +kernel⟩

end Runs

end Moab
