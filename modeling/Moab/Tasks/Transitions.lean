import Moab.Tasks.Refine

namespace Moab

open OrderedStore

variable [OrderedStore]

/-- The rows of s' are reached from those of s by events that satisfy P. -/
def Makes (th : Prop) (P : List Event → Prop) (s s' : State) : Prop :=
  ∃ es, Steps th s.rows es s'.rows ∧ P es

namespace Makes

variable {th : Prop} {P Q R : List Event → Prop} {s s' s'' : State}

theorem none (h : P []) (hr : s'.rows = s.rows) : Makes th P s s' :=
  ⟨[], by rw [hr]; exact .nil _, h⟩

theorem one {e : Event} {r : Rows} (hr : s'.rows = r) (hs : Step th s.rows e r) (h : P [e]) :
    Makes th P s s' :=
  ⟨[e], .single (hr ▸ hs), h⟩

theorem trans (h : Makes th P s s') (k : Makes th Q s' s'')
    (hr : ∀ es fs, P es → Q fs → R (es ++ fs)) : Makes th R s s'' := by
  obtain ⟨es, hes, hp⟩ := h
  obtain ⟨fs, hfs, hq⟩ := k
  exact ⟨es ++ fs, hes.append hfs, hr es fs hp hq⟩

theorem append {es fs : List Event} (h : Makes th (· = es) s s') (k : Makes th (· = fs) s' s'') :
    Makes th (· = es ++ fs) s s'' :=
  h.trans k (fun _ _ he hf => by rw [he, hf])

theorem congr (h : Makes th P s s') (hr : s''.rows = s'.rows) : Makes th P s s'' := by
  obtain ⟨es, hes, h⟩ := h
  exact ⟨es, hr ▸ hes, h⟩

theorem mono (h : Makes th P s s') (hp : ∀ es, P es → Q es) : Makes th Q s s' := by
  obtain ⟨es, hes, h⟩ := h
  exact ⟨es, hes, hp es h⟩

theorem indexed (h : Makes th P s s') (hi : Indexed th s.rows) : Indexed th s'.rows := by
  obtain ⟨es, hes, _⟩ := h
  exact hi.steps hes

end Makes

/-- Distinct tasks as they stand in the table. -/
structure Batch (r : Rows) (l : List Task) : Prop where
  row : ∀ t ∈ l, r.tasks.get t.id = some t
  nodup : (l.map Task.id).Nodup

namespace Batch

variable {th : Prop} {r r' : Rows} {t : Task} {l : List Task}

theorem head (h : Batch r (t :: l)) : r.tasks.get t.id = some t := h.row t List.mem_cons_self

theorem ne_head (h : Batch r (t :: l)) : ∀ u ∈ l, u.id ≠ t.id := by
  intro u hu he
  have hn := (List.nodup_cons.mp h.nodup).1
  exact hn (he ▸ List.mem_map_of_mem hu)

/-- The rest of a batch outlives what happens to its first task. -/
theorem tail (h : Batch r (t :: l)) (hr : ∀ u ∈ l, r'.tasks.get u.id = r.tasks.get u.id) :
    Batch r' l where
  row u hu := (hr u hu).trans (h.row u (List.mem_cons_of_mem _ hu))
  nodup := (List.nodup_cons.mp h.nodup).2

end Batch

/-- What reading back the items of an index collects. -/
theorem mem_mapM_getTask {s : State} {q : QueueId} {items : List IndexItem}
    {l : List Task} {t : Task} (h : items.mapM (fun i => s.getTask (q.task i.taskId)) = .ok l) :
    t ∈ l ↔ ∃ i ∈ items, s.tasks.get (q.task i.taskId) = some t := by
  have hall := forall₂_of_mapM_ok h
  constructor
  · intro ht
    obtain ⟨i, hi, hit⟩ := exists_of_mem_right hall ht
    exact ⟨i, hi, State.getTask_eq_ok.mp hit⟩
  · intro ht
    obtain ⟨i, hi, hit⟩ := ht
    obtain ⟨v, hv, hiv⟩ := exists_of_mem_left hall hi
    obtain rfl := Option.some.inj (hit.symm.trans (State.getTask_eq_ok.mp hiv))
    exact hv

/-- Resolving index items whose rows exist. -/
theorem mapM_getTask {s : State} {q : QueueId} (items : List IndexItem)
    (h : ∀ i ∈ items, ∃ t, s.tasks.get (q.task i.taskId) = some t ∧ t.id = q.task i.taskId)
    (hn : (items.map IndexItem.taskId).Nodup) :
    ∃ l, items.mapM (fun i => s.getTask (q.task i.taskId)) = .ok l ∧ Batch s.rows l ∧
      ∀ t ∈ l, ∃ i ∈ items, s.tasks.get (q.task i.taskId) = some t := by
  induction items with
  | nil => exact ⟨[], rfl, ⟨by simp, by simp⟩, by simp⟩
  | cons i items ih =>
    obtain ⟨t, ht, hid⟩ := h i List.mem_cons_self
    obtain ⟨hi, hn⟩ := List.nodup_cons.mp hn
    obtain ⟨l, hl, hb, hm⟩ := ih (fun j hj => h j (List.mem_cons_of_mem _ hj)) hn
    refine ⟨t :: l, ?_, ⟨?_, ?_⟩, ?_⟩
    · have hg : s.getTask (q.task i.taskId) = .ok t := State.getTask_eq_ok.mpr ht
      rw [List.mapM_cons, hg, hl]
      rfl
    · intro u hu
      rcases List.mem_cons.mp hu with rfl | hu
      · rw [hid]
        exact ht
      · exact hb.row u hu
    · rw [List.map_cons, List.nodup_cons]
      refine ⟨?_, hb.nodup⟩
      intro hmem
      obtain ⟨u, hu, he⟩ := List.mem_map.mp hmem
      obtain ⟨j, hj, hju⟩ := hm u hu
      obtain ⟨v, hv, hvid⟩ := h j (List.mem_cons_of_mem _ hj)
      have hvu : v = u := Option.some.inj (hv.symm.trans hju)
      rw [hvu, he, hid] at hvid
      have hij := (QueueId.task_inj hvid).2
      exact hi (hij ▸ List.mem_map_of_mem hj)
    · intro u hu
      rcases List.mem_cons.mp hu with rfl | hu
      · exact ⟨i, List.mem_cons_self, ht⟩
      · obtain ⟨j, hj, hju⟩ := hm u hu
        exact ⟨j, List.mem_cons_of_mem _ hj, hju⟩

/-- Items that carry a time of their row name different tasks. -/
theorem taskIds_nodup {tasks : Table TaskId Task} {q : QueueId} {items : List IndexItem}
    (time : Task → Time)
    (h : ∀ i ∈ items, ∃ t, tasks.get (q.task i.taskId) = some t ∧ time t = i.time)
    (hn : items.Nodup) : (items.map IndexItem.taskId).Nodup := by
  refine List.Nodup.map_on ?_ hn
  intro i hi j hj he
  obtain ⟨t, ht, hti⟩ := h i hi
  obtain ⟨u, hu, huj⟩ := h j hj
  rw [he, hu] at ht
  have htu := Option.some.inj ht
  rw [htu] at huj
  cases i; cases j
  simp only [IndexItem.mk.injEq]
  exact ⟨hti.symm.trans huj, he⟩

namespace Indexed

variable {th : Prop} {r : Rows} {q : QueueId} {i : IndexItem}

theorem of_dead_item (h : Indexed th r) (hi : i ∈ r.deadTasksIndex.items q) :
    ∃ t, r.tasks.get (q.task i.taskId) = some t ∧ t.id = q.task i.taskId ∧ t.state = .dead ∧
      t.lastFailedAt = i.time := by
  obtain ⟨t, ht, hk⟩ := (h.dead q i).mp hi
  refine ⟨t, ht, h.key _ _ ht, ?_⟩
  simp only [deadItems] at hk
  split_ifs at hk with hs
  simp only [Option.some.injEq, Prod.mk.injEq] at hk
  exact ⟨hs, congrArg IndexItem.time hk.2⟩

theorem of_inProgress_item (h : Indexed th r) (hi : i ∈ r.inProgressIndex.items q) :
    ∃ t, r.tasks.get (q.task i.taskId) = some t ∧ t.id = q.task i.taskId ∧ t.state = .inProgress ∧
      t.visibleAt = i.time := by
  obtain ⟨t, ht, hk⟩ := (h.inProgress q i).mp hi
  refine ⟨t, ht, h.key _ _ ht, ?_⟩
  simp only [inProgressItems] at hk
  split_ifs at hk with hs
  simp only [Option.some.injEq, Prod.mk.injEq] at hk
  exact ⟨hs, congrArg IndexItem.time hk.2⟩

end Indexed

section Failure

variable {th : Prop}

theorem deleteTask_makes {s : State} {t : Task} (reason : TaskDeletionReason)
    (h : Indexed th s.rows) (row : s.rows.tasks.get t.id = some t) :
    Ensures th (deleteTask s t reason) (Makes th (· = [.deleted t reason]) s) := by
  refine ((deleteTask_rows s t reason).weaken (h.calm _ _ row).1).mono (fun s' hs => ?_)
  exact Makes.one hs (.delete row) rfl

/-- Deleting a batch. -/
theorem deleteAll_makes (reason : TaskDeletionReason) (l : List Task) (s : State)
    (h : Indexed th s.rows) (hb : Batch s.rows l) :
    Ensures th (l.foldlM (fun s t => deleteTask s t reason) s)
      (Makes th (· = l.map (Event.deleted · reason)) s) := by
  induction l generalizing s with
  | nil => exact Ensures.pure (Makes.none rfl rfl)
  | cons t l ih =>
    rw [List.foldlM_cons]
    refine (deleteTask_makes reason h hb.head).bind (fun s' hs => ?_)
    obtain ⟨es, hes, rfl⟩ := id hs
    have hb' : Batch s'.rows l := hb.tail (fun u hu => hes.frame (by
      simpa [Event.task] using (hb.ne_head u hu).symm))
    exact (ih s' (hs.indexed h) hb').mono (fun s'' hs' => hs.append hs')

/-- The oldest dead tasks of a queue go. -/
def Evictions (es : List Event) : Prop :=
  ∃ l : List Task, es = l.map (Event.deleted · .none) ∧ ∀ u ∈ l, u.state = .dead

/-- The oldest dead tasks of a queue can all be read back. -/
theorem oldestDead (s : State) (q : QueueId) (n : Nat) (h : Indexed th s.rows) :
    ∃ l, ((s.deadTasksIndex.items q).take n).mapM (fun i => s.getTask (q.task i.taskId)) = .ok l ∧
      Batch s.rows l ∧ ∀ u ∈ l, u.state = .dead := by
  have hsub := List.take_sublist n (s.deadTasksIndex.items q)
  have hitem : ∀ i ∈ (s.deadTasksIndex.items q).take n,
      ∃ t, s.rows.tasks.get (q.task i.taskId) = some t ∧ t.id = q.task i.taskId ∧
        t.state = .dead ∧ t.lastFailedAt = i.time :=
    fun i hi => h.of_dead_item (hsub.subset hi)
  have hnd := taskIds_nodup Task.lastFailedAt
    (fun i hi => (hitem i hi).imp (fun t ht => ⟨ht.1, ht.2.2.2⟩))
    ((s.deadTasksIndex.items_nodup q).sublist hsub)
  obtain ⟨l, hl, hb, hm⟩ := mapM_getTask _ (fun i hi => (hitem i hi).imp (fun t ht =>
    ⟨ht.1, ht.2.1⟩)) hnd
  refine ⟨l, hl, hb, fun u hu => ?_⟩
  obtain ⟨i, hi, hiu⟩ := hm u hu
  obtain ⟨t, ht, _, hd, _⟩ := hitem i hi
  rw [← Option.some.inj (ht.symm.trans hiu)]
  exact hd

theorem evictExcessDeadTasks_makes (s : State) (q : QueueId) (maxSize deadTasksCount : Int)
    (h : Indexed th s.rows) :
    Ensures th (evictExcessDeadTasks s q maxSize deadTasksCount) (Makes th Evictions s) := by
  unfold evictExcessDeadTasks
  refine Ensures.ite (fun _ => Ensures.ok (Makes.none ⟨[], rfl, by simp⟩ rfl)) (fun _ => ?_)
  obtain ⟨l, hl, hb, hdead⟩ := oldestDead s q (deadTasksCount - maxSize).toNat h
  dsimp only
  rw [hl]
  exact (deleteAll_makes .none l s h hb).mono (fun s' hs => hs.mono (fun es he => ⟨l, he, hdead⟩))

/-- What a failed delivery of t at now may come to. -/
inductive Failed (t : Task) (now : Time) : List Event → Prop where
  | expired (late : t.expiresAt < now) : Failed t now [.deleted t .expired]
  | dropped (late : ¬t.expiresAt < now) : Failed t now [.deleted t .none]
  | retried (late : ¬t.expiresAt < now) {interval : Time} (h : retryInterval t = .ok interval) :
    Failed t now [.retried t (t.retry now interval)]
  | died (late : ¬t.expiresAt < now) (dlq : DeadLetterQueueConfig) {es : List Event}
    (evicted : Evictions es) : Failed t now (.died t (t.die now dlq) :: es)

variable {s : State} {t : Task}

theorem failTaskToDead_makes (now : Time) (dlqConfig : Option DeadLetterQueueConfig)
    (h : Indexed th s.rows) (row : s.rows.tasks.get t.id = some t) (state : t.state = .inProgress)
    (late : ¬t.expiresAt < now) :
    Ensures th (failTaskToDead s t now dlqConfig) (Makes th (Failed t now) s) := by
  have hdel : Ensures th (deleteTask s t .none) (Makes th (Failed t now) s) :=
    (deleteTask_makes .none h row).mono (fun s' hs => hs.mono (fun es he => he ▸ .dropped late))
  unfold failTaskToDead
  cases dlqConfig with
  | none => exact hdel
  | some dlq =>
    refine Ensures.ite (fun _ => hdel) (fun _ => ?_)
    refine ((moveToDead_rows s t now dlq).weaken (h.calm _ _ row).1).bind (fun s2 hr => ?_)
    have hstep : Makes th (· = [.died t (t.die now dlq)]) s s2 :=
      Makes.one hr (.die row state) rfl
    refine (evictExcessDeadTasks_makes _ _ _ _ (hstep.indexed h)).mono (fun s' hs => ?_)
    exact hstep.trans hs (fun es fs he hf => he ▸ .died late dlq hf)

theorem handleTaskFailure_makes (now : Time) (dlqConfig : Option DeadLetterQueueConfig)
    (h : Indexed th s.rows) (row : s.rows.tasks.get t.id = some t) (state : t.state = .inProgress) :
    Ensures th (handleTaskFailure s t now dlqConfig) (Makes th (Failed t now) s) := by
  unfold handleTaskFailure
  refine Ensures.ite (fun late => ?_) (fun late => Ensures.ite (fun _ => ?_) (fun hx => ?_))
  · exact (deleteTask_makes .expired h row).mono
      (fun s' hs => hs.mono (fun es he => he ▸ .expired late))
  · exact failTaskToDead_makes now dlqConfig h row state late
  · have hc := h.calm _ _ row
    simp only [Task.Calm, state, if_true] at hc
    refine ((failTaskToRetry_rows s t now (by simpa using hx)).weaken (fun he => ?_)).mono ?_
    · exact he.elim hc.1 hc.2
    · intro s' hs
      obtain ⟨interval, hint, hs⟩ := hs
      exact Makes.one hs (.retry row state) (.retried late hint)

/-- A failure leaves every other task alone, dead ones apart. -/
theorem Failed.keeps {now : Time} {es : List Event} {r r' : Rows} {u : Task} (hf : Failed t now es)
    (hs : Steps th r es r') (hu : r.tasks.get u.id = some u) (hne : u.id ≠ t.id)
    (hd : u.state ≠ .dead) : r'.tasks.get u.id = some u := by
  refine Trace.invariant_of (I := fun r => r.tasks.get u.id = some u) hs ?_ hu
  intro e he a b ha hstep
  by_cases ht : e.task = some u.id
  · cases hf with
    | expired | dropped | retried => simp_all [Event.task]
    | died _ dlq hev =>
      obtain ⟨l, rfl, hl⟩ := hev
      rcases List.mem_cons.mp he with rfl | he
      · simp_all [Event.task]
      · obtain ⟨v, hv, rfl⟩ := List.mem_map.mp he
        cases hstep with
        | delete row =>
          simp only [Event.task, Option.some.injEq] at ht
          rw [ht, ha] at row
          exact absurd (hl v hv) (Option.some.inj row ▸ hd)
  · rw [hstep.frame ht, ha]

theorem Failed.batch {now : Time} {es : List Event} {r r' : Rows} {l : List Task}
    (hf : Failed t now es) (hs : Steps th r es r') (hb : Batch r (t :: l))
    (hl : ∀ u ∈ l, u.state = .inProgress) : Batch r' l := by
  refine hb.tail (fun u hu => ?_)
  have hrow := hb.row u (List.mem_cons_of_mem _ hu)
  rw [hf.keeps hs hrow (hb.ne_head u hu) (by simp [hl u hu]), hrow]

/-- The events of handling failed deliveries one after the other. -/
inductive FailedAll (now : Time) : List Task → List Event → Prop where
  | nil : FailedAll now [] []
  | cons {t : Task} {l : List Task} {es fs : List Event} (h : Failed t now es)
    (k : FailedAll now l fs) : FailedAll now (t :: l) (es ++ fs)

omit [OrderedStore] in
/-- What holds of the events of every failure holds of the events of all. -/
theorem FailedAll.all {P : Event → Prop} {now : Time} {l : List Task} {es : List Event}
    (h : FailedAll now l es) (hP : ∀ t ∈ l, ∀ es, Failed t now es → ∀ e ∈ es, P e) :
    ∀ e ∈ es, P e := by
  induction h with
  | nil => simp
  | cons hf _ ih =>
    exact List.forall_mem_append.mpr ⟨hP _ List.mem_cons_self _ hf,
      ih (fun t ht => hP t (List.mem_cons_of_mem _ ht))⟩

theorem failAll_makes (now : Time) (dlqConfig : Option DeadLetterQueueConfig) (l : List Task)
    (s : State) (h : Indexed th s.rows) (hb : Batch s.rows l)
    (hl : ∀ t ∈ l, t.state = .inProgress) :
    Ensures th (l.foldlM (fun s t => handleTaskFailure s t now dlqConfig) s)
      (Makes th (FailedAll now l) s) := by
  induction l generalizing s with
  | nil => exact Ensures.pure (Makes.none .nil rfl)
  | cons t l ih =>
    rw [List.foldlM_cons]
    have ht := hl t List.mem_cons_self
    refine (handleTaskFailure_makes now dlqConfig h hb.head ht).bind (fun s' hs => ?_)
    have hrest := fun u hu => hl u (List.mem_cons_of_mem _ hu)
    have hb' : Batch s'.rows l := by
      obtain ⟨es, hes, hf⟩ := id hs
      exact hf.batch hes hb hrest
    refine (ih s' (hs.indexed h) hb' hrest).mono ?_
    exact fun s'' hs' => hs.trans hs' (fun es fs he hf => .cons he hf)

end Failure

end Moab
