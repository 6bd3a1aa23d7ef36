import Moab.Framework.Overflow
import Moab.Tasks.ThreadOrder
import Moab.Tasks.Unthreaded

namespace Moab

open OrderedStore

section Store

variable [OrderedStore]

variable {th : Prop} {s s' : State} {now : Time} {i j : ExpirationItem} {refs : List ExpirationItem}

section Entries

/-- A task has one entry in the expiration index. -/
theorem Indexed.expiration_unique (h : Indexed th s.rows) (hi : i ∈ s.expiration.items ())
    (hj : j ∈ s.expiration.items ()) (he : i.taskId = j.taskId) : i = j := by
  obtain ⟨t, ht, _, hit⟩ := (h.expirationExact i).mp hi
  obtain ⟨u, hu, _, hju⟩ := (h.expirationExact j).mp hj
  rw [he] at ht
  obtain rfl := Option.some.inj (ht.symm.trans hu)
  cases i
  cases j
  subst he hit hju
  rfl

/-- The tasks of some entries are gone, and the other rows are as before. -/
def Swept (refs : List ExpirationItem) (s s' : State) : Prop :=
  ∀ id, s'.tasks.get id = if id ∈ refs.map ExpirationItem.taskId then none else s.tasks.get id

/-- With the tasks their entries are gone. -/
theorem Swept.items (hs : Swept refs s s') (h : Indexed th s.rows) (h' : Indexed th s'.rows)
    (hrefs : ∀ i ∈ refs, i ∈ s.expiration.items ()) :
    s'.expiration.items () = (s.expiration.items ()).filter (fun i => i ∉ refs) := by
  refine Index.items_eq ((s.expiration.items_sorted ()).filter _) (fun i => ?_)
  simp only [List.mem_filter, decide_eq_true_eq]
  rw [h'.expirationExact i, h.expirationExact i, hs i.taskId]
  have hgone : (∃ t, s.tasks.get i.taskId = some t ∧ (t.state = .enqueued ∨ t.state = .dead) ∧
      t.expiresAt = i.expiresAt) → (i.taskId ∈ refs.map ExpirationItem.taskId ↔ i ∈ refs) := by
    intro hi
    constructor
    · intro hm
      obtain ⟨j, hj, he⟩ := List.mem_map.mp hm
      have hji := h.expiration_unique (hrefs j hj) ((h.expirationExact i).mpr hi) he
      exact hji ▸ hj
    · exact fun hm => List.mem_map_of_mem hm
  by_cases hm : i.taskId ∈ refs.map ExpirationItem.taskId
  · simp only [hm, if_true]
    constructor
    · intro hi
      simp at hi
    · intro hi
      exact absurd ((hgone hi.1).mp hm) hi.2
  · simp only [hm, if_false]
    constructor
    · intro hi
      exact ⟨hi, fun hmem => hm (List.mem_map_of_mem hmem)⟩
    · exact fun hi => hi.1

/-- The page after a page. -/
theorem Swept.listDue {k : Nat} (hs : Swept (Moab.listDue s now k) s s') (h : Indexed th s.rows)
    (h' : Indexed th s'.rows) (m : Nat) :
    Moab.listDue s' now m = (Moab.listDue s now (k + m)).drop k := by
  unfold Moab.listDue at hs ⊢
  rw [hs.items h h' (fun i hi => List.mem_of_mem_filter (List.mem_of_mem_take hi)),
    List.filter_filter, List.drop_take, Nat.add_sub_cancel_left]
  congr 1
  rw [← filter_notMem_take ((s.expiration.items_nodup ()).filter _) k, List.filter_filter]
  refine List.filter_congr (fun i _ => ?_)
  rw [Bool.and_comm]

end Entries

section Rounds

theorem sweepRefs_swept (refs : List ExpirationItem) (s : State) (h : Indexed th s.rows)
    (hr : Refs now s.rows refs) : Ensures th (refs.foldlM sweepRef s) (Swept refs s) := by
  induction refs generalizing s with
  | nil => exact Ensures.pure (fun id => by simp)
  | cons ref refs ih =>
    rw [List.foldlM_cons]
    obtain ⟨t, hid, row, _, _, hsweep, hrest⟩ := hr.sweep h
    rw [hsweep]
    refine (deleteTask_makes .expired h row).bind (fun s1 hs1 => ?_)
    refine (ih s1 (hs1.indexed h) (hrest s1 hs1)).mono (fun s2 hs2 id => ?_)
    rw [hs2 id, deleted_get hs1 id, hid, List.map_cons]
    simp only [List.mem_cons]
    by_cases hm : id ∈ refs.map ExpirationItem.taskId
    · simp [hm]
    · simp [hm]

/-- A page to the end, or as far as the index goes. -/
theorem listDue_length (s : State) (now : Time) (m n : Nat)
    (h : (listDue s now (min m n)).length < min m n) :
    listDue s now n = listDue s now (min m n) := by
  unfold listDue at h ⊢
  rw [List.length_take] at h
  rw [List.take_of_length_le (by omega), List.take_of_length_le (by omega)]

/-- The rounds sweep what one page of the whole budget would list. -/
theorem sweepRounds_eq (pageSize rounds remaining : Nat) (s : State) (hp : 0 < pageSize)
    (hle : remaining ≤ rounds) (h : Indexed th s.rows) :
    sweepRounds now pageSize rounds remaining s = (listDue s now remaining).foldlM sweepRef s := by
  induction rounds generalizing remaining s with
  | zero =>
    obtain rfl := Nat.le_zero.mp hle
    rfl
  | succ rounds ih =>
    rw [sweepRounds]
    have hlength : (listDue s now (min pageSize remaining)).length ≤ min pageSize remaining :=
      List.length_take_le _ _
    by_cases hempty : listDue s now (min pageSize remaining) = []
    · rw [if_pos hempty]
      rcases Nat.eq_zero_or_pos remaining with hzero | hpos
      · subst hzero
        rfl
      · rw [listDue_length s now pageSize remaining (by rw [hempty]; simp; omega), hempty]
        rfl
    · rw [if_neg hempty]
      have hsplit : listDue s now remaining = listDue s now (min pageSize remaining) ++
          (listDue s now remaining).drop (min pageSize remaining) := by
        have htake : listDue s now (min pageSize remaining) =
            (listDue s now remaining).take (min pageSize remaining) := by
          unfold listDue
          rw [List.take_take, Nat.min_eq_left (Nat.min_le_right _ _)]
        rw [htake, List.take_append_drop]
      rw [hsplit, List.foldlM_append]
      refine ((sweepRefs_swept _ s h (listDue_refs h)).and
        (sweepRefs_makes _ s h (listDue_refs h))).bind_congr ?_
      intro s1 hs1
      have h1 := hs1.2.indexed h
      by_cases hshort : (listDue s now (min pageSize remaining)).length < min pageSize remaining
      · rw [if_pos hshort, listDue_length s now pageSize remaining hshort,
          List.drop_eq_nil_of_le hlength]
        rfl
      · have hfull := Nat.le_antisymm hlength (Nat.le_of_not_lt hshort)
        have hpos : 0 < min pageSize remaining := by
          rw [← hfull]
          exact List.length_pos_iff.mpr hempty
        rw [if_neg hshort, ih _ s1 (by omega) h1, hs1.1.listDue h h1, hfull]
        congr 2
        congr 1
        omega

theorem runTasksGarbageCollection_eq (req : RunTasksGarbageCollectionRequest)
    (h : Indexed th s.rows) : runTasksGarbageCollection s now req =
      (listDue s now (orDefault req.maxVisitedTasks 1000)).foldlM sweepRef s := by
  have hbudget : 0 < orDefault req.maxVisitedTasks 1000 := orDefault_pos _ (by decide)
  have hpage : 0 < orDefault req.pageSize 250 := orDefault_pos _ (by decide)
  exact sweepRounds_eq _ _ _ s (by omega) le_rfl h

theorem runTasksGarbageCollection_swept (req : RunTasksGarbageCollectionRequest)
    (h : Indexed th s.rows) : Ensures th (runTasksGarbageCollection s now req)
      (Swept (listDue s now (orDefault req.maxVisitedTasks 1000)) s) := by
  rw [runTasksGarbageCollection_eq req h]
  exact sweepRefs_swept _ s h (listDue_refs h)

/-- A sweep leaves a well-formed state behind. -/
theorem runTasksGarbageCollection_wellFormed (req : RunTasksGarbageCollectionRequest)
    (h : WellFormed s) (hr : RecordsExact s) : Ensures False (runTasksGarbageCollection s now req)
      (fun s' => WellFormed s' ∧ RecordsExact s') := by
  refine sweepRounds_keeps ?_ _ _ _ s h.indexed ⟨h, hr⟩
  intro s t _ hs row _ _
  exact deleteTask_wellFormed hs.1 hs.2 row .expired

end Rounds

section Earliest

/-- The order of the expiration index, column by column. -/
def ExpirationItem.Before (i j : ExpirationItem) : Prop :=
  i.expiresAt < j.expiresAt ∨ i.expiresAt = j.expiresAt ∧
    (i.taskId.accountId < j.taskId.accountId ∨ i.taskId.accountId = j.taskId.accountId ∧
      (i.taskId.queueId < j.taskId.queueId ∨ i.taskId.queueId = j.taskId.queueId ∧
        i.taskId.taskId < j.taskId.taskId))

/-- The entries of the expiration index whose deadline has come. -/
def dueDeadlines (s : State) (now : Time) : List ExpirationItem :=
  (s.expiration.items ()).filter (fun i => i.expiresAt ≤ now)

omit [OrderedStore] in
/-- From the epoch on the bytes sort as the numbers do. -/
theorem ExpirationItem.before_of_lt (hi : 0 ≤ i.expiresAt) (hj : 0 ≤ j.expiresAt) (h : i < j) :
    i.Before j := by
  have hrank : i.rank < j.rank := h
  unfold ExpirationItem.rank TaskId.rank at hrank
  simp only [Prod.Lex.toLex_lt_toLex] at hrank
  exact hrank.imp (Time.rank_lt_rank hi hj).mp (And.imp_left fun he => Time.rank_injective he)

/-- The deadlines of the listed tasks. -/
theorem WellFormed.deadline (h : WellFormed s)
    (deadlines : ∀ id t, s.tasks.get id = some t → 0 ≤ t.expiresAt)
    (hi : i ∈ s.expiration.items ()) : 0 ≤ i.expiresAt := by
  obtain ⟨t, ht, _, he⟩ := (h.expiration i).mp hi
  exact he ▸ deadlines _ t ht

theorem listDue_eq (hd : ∀ i ∈ s.expiration.items (), 0 ≤ i.expiresAt) (hnow : 0 ≤ now) (n : Nat) :
    listDue s now n = (dueDeadlines s now).take n := by
  unfold listDue dueDeadlines
  congr 1
  refine List.filter_congr (fun i hi => ?_)
  rw [decide_eq_decide]
  constructor
  · exact fun hr => Time.le_of_rank hnow hr.2
  · exact fun hle => ⟨Time.rank_le (Int64.le_refl 0) (hd i hi), Time.rank_le (hd i hi) hle⟩

/-- Neither the page size nor the number of rounds granted to the loop matters. -/
theorem sweep_takes_earliest (req : RunTasksGarbageCollectionRequest) (h : WellFormed s)
    (hr : RecordsExact s) (deadlines : ∀ id t, s.tasks.get id = some t → 0 ≤ t.expiresAt)
    (hnow : 0 ≤ now) :
    (dueDeadlines s now).Pairwise ExpirationItem.Before ∧
    (∀ i, i ∈ dueDeadlines s now ↔ ∃ t, s.tasks.get i.taskId = some t ∧
      (t.state = .enqueued ∨ t.state = .dead) ∧ t.expiresAt = i.expiresAt ∧ t.expiresAt ≤ now) ∧
    ∃ s', (∀ pageSize, runTasksGarbageCollection s now { req with pageSize := pageSize } = .ok s') ∧
      (∀ pageSize rounds, 0 < pageSize → orDefault req.maxVisitedTasks 1000 ≤ rounds →
        sweepRounds now pageSize rounds (orDefault req.maxVisitedTasks 1000) s = .ok s') ∧
      Swept ((dueDeadlines s now).take (orDefault req.maxVisitedTasks 1000)) s s' ∧
      WellFormed s' ∧ RecordsExact s' := by
  have hd : ∀ i ∈ s.expiration.items (), 0 ≤ i.expiresAt := fun i hi => h.deadline deadlines hi
  refine ⟨?_, ?_, ?_⟩
  · refine ((s.expiration.items_sorted ()).filter _).imp_of_mem ?_
    intro i j hi hj hlt
    exact ExpirationItem.before_of_lt (hd i (List.mem_of_mem_filter hi))
      (hd j (List.mem_of_mem_filter hj)) hlt
  · intro i
    unfold dueDeadlines
    rw [List.mem_filter, h.expiration i, decide_eq_true_eq]
    constructor
    · intro hi
      obtain ⟨⟨t, ht, hstate, he⟩, hle⟩ := hi
      exact ⟨t, ht, hstate, he, he ▸ hle⟩
    · intro hi
      obtain ⟨t, ht, hstate, he, hle⟩ := hi
      exact ⟨⟨t, ht, hstate, he⟩, he ▸ hle⟩
  · obtain ⟨s', hrun, hwell, hswept⟩ := ((runTasksGarbageCollection_wellFormed req h hr).both
      (runTasksGarbageCollection_swept req h.indexed)).returns
    rw [runTasksGarbageCollection_eq req h.indexed] at hrun
    refine ⟨s', ?_, ?_, ?_, hwell⟩
    · intro pageSize
      rw [runTasksGarbageCollection_eq _ h.indexed]
      exact hrun
    · intro pageSize rounds hp hle
      rw [sweepRounds_eq _ _ _ s hp hle h.indexed]
      exact hrun
    · rw [← listDue_eq hd hnow]
      exact hswept

end Earliest

section Agreement

/-- What the readers say at a time holds in both states: GetTask answers alike, and no
task is missing that a Dequeue of the first state hands out. -/
structure Agrees (now : Time) (s s' : State) : Prop where
  getTask : ∀ id, Moab.getTask s' now id = Moab.getTask s now id
  dequeue : ∀ req a tasks, Moab.dequeue s now req = .ok (a, .ok tasks) →
    ∀ t ∈ tasks, s'.tasks.get t.id ≠ none

/-- A row that is there after the lapse pass was there before, unless it was in progress. -/
theorem Lapses.origin {r r' : Rows} {es : List Event} {q : QueueId} {id : TaskId}
    (hl : Lapses q now es) (hs : Steps th r es r') :
    ∀ u, r'.tasks.get id = some u → r.tasks.get id = some u ∨
      ∃ v, r.tasks.get id = some v ∧ v.state = .inProgress := by
  obtain ⟨l, fs, rfl, hfailed, _⟩ := hl
  have hkinds : ∀ e ∈ Event.tuned :: fs, e.kind ∈ [EventKind.tuned, .deleted, .retried, .died] := by
    refine List.forall_mem_cons.mpr ⟨by simp [Event.kind], hfailed.all ?_⟩
    intro t _ es hf
    cases hf with
    | expired | dropped | retried => simp [Event.kind]
    | died _ _ hev =>
      obtain ⟨l, rfl, _⟩ := hev
      simp [Event.kind]
  refine Trace.invariant_of (I := fun x => ∀ u, x.tasks.get id = some u →
    r.tasks.get id = some u ∨ ∃ v, r.tasks.get id = some v ∧ v.state = .inProgress) hs ?_
    (fun u hu => Or.inl hu)
  intro e he a b ha hab u hu
  have hkind := hkinds e he
  have hset : ∀ {t t' : Task}, a.tasks.get t.id = some t → t.state = .inProgress →
      (a.tasks.set t.id t').get id = some u →
      r.tasks.get id = some u ∨ ∃ v, r.tasks.get id = some v ∧ v.state = .inProgress := by
    intro t t' row state hg
    rw [Table.get_set] at hg
    split_ifs at hg with hid
    · rcases ha t (hid ▸ row) with hr | hv
      · exact Or.inr ⟨t, hr, state⟩
      · exact Or.inr hv
    · exact ha u hg
  cases hab with
  | tune => exact ha u hu
  | delete row =>
    change (a.tasks.delete _).get id = some u at hu
    rw [Table.get_delete] at hu
    split_ifs at hu
    exact ha u hu
  | retry row state | die row state => exact hset row state hu
  | _ => simp [Event.kind] at hkind

/-- A task handed out waits, and is not past its deadline, or it was in progress. -/
theorem dequeue_hands_unexpired (h : WellFormed s) (req : DequeueRequest) :
    Ensures True (dequeue s now req) (fun a => Ensures True a.2 (fun tasks => ∀ t ∈ tasks,
      ∃ v, s.tasks.get t.id = some v ∧ (v.state = .inProgress ∨ ¬v.expiresAt < now))) := by
  unfold dequeue
  cases hp : checkQueueNotPurged s req.queueId with
  | some e => exact Ensures.ok (Ensures.error trivial)
  | none =>
    unfold dequeueTasks
    refine Ensures.bind (P := fun a => ∀ t ∈ a.2, ∃ v, s.tasks.get t.id = some v ∧
      (v.state = .inProgress ∨ ¬v.expiresAt < now)) ?_ (fun a ha => Ensures.ok (Ensures.ok ha))
    refine Ensures.bind_any (fun limiter => ?_)
    have hmade : Ensures True (dequeueInProgressTasksBeforeTime s req.queueId now
        req.deadLetterQueueConfig) (Makes True (Lapses req.queueId now) s) :=
      dequeueInProgressTasksBeforeTime_makes h.indexed
    have hheads : Ensures True (dequeueInProgressTasksBeforeTime s req.queueId now
        req.deadLetterQueueConfig) (Heads WellFormed.anyScope) :=
      dequeueInProgressTasksBeforeTime_heads _ h.heads h.indexed (fun hc => hc.elim)
        (fun hc => hc.elim)
    refine (hmade.both hheads).bind (fun mid hmid => ?_)
    refine ((dequeueTasksBeforeTime_makes (hmid.1.indexed h.indexed) hmid.2.queueSound).weaken
      False.elim).bind (fun a ha => ?_)
    obtain ⟨ts, hbatch, _, hout, _⟩ := ha
    refine Ensures.ok (fun t ht => ?_)
    change t ∈ a.2 at ht
    rw [hout] at ht
    obtain ⟨u, hu, rfl⟩ := List.mem_map.mp ht
    obtain ⟨hmem, hover⟩ := List.mem_filter.mp hu
    obtain ⟨es, hes, hlapses⟩ := hmid.1
    rcases hlapses.origin hes u (hbatch.row u hmem) with hrow | ⟨v, hrow, hstate⟩
    · exact ⟨u, hrow, Or.inr (by simpa [Task.overdue] using hover)⟩
    · exact ⟨v, hrow, Or.inl hstate⟩

/-- The sweep takes deadlines up to now, the readers only those before: they agree as
long as no entry within the budget lies between. -/
theorem sweep_agrees_iff (req : RunTasksGarbageCollectionRequest) (h : WellFormed s)
    (hr : RecordsExact s) : Ensures False (runTasksGarbageCollection s now req) (fun s' =>
      Agrees now s s' ↔
        ∀ i ∈ listDue s now (orDefault req.maxVisitedTasks 1000), i.expiresAt < now) := by
  refine ((runTasksGarbageCollection_wellFormed req h hr).both
    (runTasksGarbageCollection_swept req h.indexed)).mono (fun s' hs => ?_)
  generalize hrefs : listDue s now (orDefault req.maxVisitedTasks 1000) = refs at hs ⊢
  have hrow : ∀ i ∈ refs, ∃ t, s.tasks.get i.taskId = some t ∧
      (t.state = .enqueued ∨ t.state = .dead) ∧ t.expiresAt = i.expiresAt := by
    intro i hi
    rw [← hrefs] at hi
    exact (h.expiration i).mp (List.mem_of_mem_filter (List.mem_of_mem_take hi))
  have hgone : ∀ i ∈ refs, s'.tasks.get i.taskId = none := by
    intro i hi
    rw [hs.2 i.taskId, if_pos (List.mem_map_of_mem hi)]
  constructor
  · intro hagrees i hi
    obtain ⟨t, ht, hstate, he⟩ := hrow i hi
    have hsame := hagrees.getTask i.taskId
    unfold getTask at hsame
    rw [hgone i hi, ht] at hsame
    by_contra hlate
    rw [← he] at hlate
    simp [hlate] at hsame
  · intro hlate
    -- what was swept was hidden before
    have hidden : ∀ id, id ∈ refs.map ExpirationItem.taskId → ∃ t, s.tasks.get id = some t ∧
        t.state ≠ .inProgress ∧ t.expiresAt < now ∧ s'.tasks.get id = none := by
      intro id hm
      obtain ⟨i, hi, rfl⟩ := List.mem_map.mp hm
      obtain ⟨t, ht, hstate, he⟩ := hrow i hi
      refine ⟨t, ht, ?_, he ▸ hlate i hi, hgone i hi⟩
      rcases hstate with hstate | hstate <;> simp [hstate]
    refine ⟨fun id => ?_, fun dreq a tasks hrun t ht hnone => ?_⟩
    · by_cases hm : id ∈ refs.map ExpirationItem.taskId
      · obtain ⟨t, ht, hstate, he, hnone⟩ := hidden id hm
        unfold getTask
        rw [ht, hnone]
        simp [hstate, he]
      · unfold getTask
        rw [hs.2 id, if_neg hm]
    · obtain ⟨v, hv, hlive⟩ := Ensures.elim (dequeue_hands_unexpired h dreq) hrun t ht
      by_cases hm : t.id ∈ refs.map ExpirationItem.taskId
      · obtain ⟨u, hu, hstate, he, _⟩ := hidden t.id hm
        obtain rfl := Option.some.inj (hv.symm.trans hu)
        exact hlive.elim hstate (fun hlate => hlate he)
      · rw [hs.2 t.id, if_neg hm, hv] at hnone
        simp at hnone

end Agreement

end Store

section Runs

/-- Two members of a thread, and a task on its own in each of two queues. -/
def deadlinesRun : List Call :=
  [⟨5, .enqueue ⟨threadQueue, [⟨[], 5, 10, [], none, [], [7]⟩, threadEntry 6 [] [],
      ⟨[], 7, 12, [], none, [], []⟩]⟩⟩,
    ⟨5, .enqueue ⟨plainQueue, [plainEntry 6 12 []]⟩⟩]

theorem deadlinesRun_wellFormed : WellFormed (run State.empty deadlinesRun) :=
  run_wellFormed (by decide +kernel) (by decide +kernel) (by decide +kernel)

/-- A budget of two takes the first two of three, in pages of one. -/
theorem sweep_takes_two : Ensures False
    (runTasksGarbageCollection (run State.empty deadlinesRun) 12 ⟨2, 1⟩) (fun s' =>
      Swept [⟨10, threadQueue.task 1⟩, ⟨12, threadQueue.task 3⟩]
        (run State.empty deadlinesRun) s') := by
  have hrows : ∀ e ∈ (run State.empty deadlinesRun).tasks.entries, 0 ≤ e.2.expiresAt := by
    decide +kernel
  have hdue : (dueDeadlines (run State.empty deadlinesRun) 12).take 2 =
      [⟨10, threadQueue.task 1⟩, ⟨12, threadQueue.task 3⟩] := by decide +kernel
  obtain ⟨_, _, s', hrun, _, hswept, _⟩ := sweep_takes_earliest ⟨2, 1⟩ deadlinesRun_wellFormed
    (by decide +kernel) (fun id t ht => hrows (id, t) (Table.mem_entries.mpr ht))
    (by decide : (0 : Time) ≤ 12)
  rw [hrun 1, ← hdue]
  exact hswept

/-- At 13 all that is due is past. -/
theorem sweep_agrees_past : Ensures False
    (runTasksGarbageCollection (run State.empty deadlinesRun) 13 ⟨0, 0⟩)
      (Agrees 13 (run State.empty deadlinesRun)) :=
  (sweep_agrees_iff ⟨0, 0⟩ deadlinesRun_wellFormed (by decide +kernel)).mono
    (fun _ hiff => hiff.mpr (by decide +kernel))

/-- At 12 a task of deadline 12 can be read and is handed out, and the sweep deletes it. -/
theorem sweep_takes_readable :
    WellFormed (run State.empty deadlinesRun) ∧ RecordsExact (run State.empty deadlinesRun) ∧
    Ensures False (getTask (run State.empty deadlinesRun) 12 (threadQueue.task 3)) (fun _ => True) ∧
    Ensures False (dequeue (run State.empty deadlinesRun) 12 dequeueAll) (fun a =>
      Ensures False a.2 (fun tasks => threadQueue.task 3 ∈ tasks.map Task.id)) ∧
    Ensures False (runTasksGarbageCollection (run State.empty deadlinesRun) 12 ⟨0, 0⟩) (fun s' =>
      getTask s' 12 (threadQueue.task 3) = .error (.taskNotFound (threadQueue.task 3))) :=
  ⟨deadlinesRun_wellFormed, by decide +kernel, by decide +kernel, by decide +kernel,
    by decide +kernel⟩

end Runs

end Moab
