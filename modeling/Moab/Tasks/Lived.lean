import Moab.Tasks.Apart
import Moab.Tasks.Collect
import Moab.Tasks.Scan

namespace Moab

open OrderedStore

variable [OrderedStore] {id : TaskId} {m : Nat} {s : State} {t u : Task}
    {o : Option Task} {now : Time}
  {q : QueueId} {dlqConfig : Option DeadLetterQueueConfig}

section Report

variable {attempt : Int} {keepalive : Time}

/-- The report says that the task failed, and is applied. -/
def reportsFailure (id : TaskId) (p : ReportStatusRequestEntry × ReportStatusResponseEntry) :
    Bool :=
  p.1.taskId = id ∧ p.1.status = .failed ∧ p.2.result = .ok

namespace Stands

/-- What reports, n of them applied failures, make of a row: one that is not leased is at most
evicted. -/
structure ReportedTo (now : Time) (o : Option Task) (n : Nat) (o' : Option Task) : Prop where
  idle : (∀ t, o = some t → t.state ≠ .inProgress) → n = 0 ∧ Evicted o o'
  leased : ∀ t, o = some t → t.state = .inProgress → Fate now t n 0 o'

/-- The entry makes o' of the row o, and the reports that follow go on from there. -/
def Leads (now : Time) (id : TaskId) (e : ReportStatusRequestEntry) (o : Option Task)
    (result : ReportResult) (o' : Option Task) : Prop :=
  ∀ n o'', ReportedTo now o' n o'' →
    ReportedTo now o (n + if reportsFailure id (e, ⟨e.taskId, result⟩) then 1 else 0) o''

omit [OrderedStore] in
theorem Leads.of_evicted {e : ReportStatusRequestEntry} {result : ReportResult} {o' : Option Task}
    (he : e.taskId ≠ id) (hevicted : Evicted o o') : Leads now id e o result o' := by
  intro n o'' hr
  simp only [reportsFailure, he, false_and, decide_false, Bool.false_eq_true,
    if_false, Nat.add_zero]
  constructor
  · intro idle
    have idle' : ∀ t, o' = some t → t.state ≠ .inProgress := by
      rcases hevicted with rfl | ⟨rfl, _⟩
      · exact idle
      · simp
    exact (hr.idle idle').imp_right hevicted.trans
  · intro t ht state
    subst ht
    exact hr.leased t (hevicted.eq (by simp [state])) state

/-- Reports on the task are renewals, then at most one failure or success, and the rest is
turned down. -/
theorem reportEntry (h : Stands id m o s) (e : ReportStatusRequestEntry) :
    Ensures True (reportStatus s e.taskId now e.status attempt keepalive dlqConfig)
      (fun a => Became id m (Leads now id e o a.2) a.1) := by
  have hdown : ∀ result, result ≠ .ok → Ensures True (.ok (s, result) : Except CoreError _)
      (fun a => Became id m (Leads now id e o a.2) a.1) :=
    fun result hresult => Ensures.ok ⟨o,
      fun n o'' hr => by simpa [reportsFailure, hresult] using hr, h⟩
  unfold reportStatus
  cases hrow : s.tasks.get e.taskId with
  | none => exact hdown _ (by simp)
  | some u =>
    have huid := h.id_of_get hrow
    apply Ensures.ite
    · exact fun _ => hdown _ (by simp)
    · intro hleased
      have state := not_not.mp hleased
      apply Ensures.ite
      · exact fun _ => hdown _ (by simp)
      · intro _
        by_cases hid : u.id = id
        · subst hid
          obtain rfl : o = some u := by rw [← h.row, huid, hrow]
          have hfate : ∀ {n o''}, Fate now u n 0 o'' → ReportedTo now (some u) n o'' := fun hf =>
            ⟨fun idle => absurd state (idle u rfl), fun t ht _ => Option.some.inj ht ▸ hf⟩
          cases hstatus : e.status with
          | invalid => exact hdown _ (by simp)
          | inProgress =>
            apply (h.heartbeatTask state keepalive).bind
            refine fun s' hs => Ensures.ok ⟨_, fun n o'' hr => hfate ?_, hs⟩
            simpa [reportsFailure, hstatus] using (hr.leased _ rfl state).renewed
          | failed =>
            apply (h.handleTaskFailure_self state).bind
            refine fun s' hs => Ensures.ok (hs.imp (fun o' failure n o'' hr => hfate ?_))
            obtain ⟨rfl, hevicted⟩ := hr.idle (by
              intro t ht
              cases failure with
              | retried _ => simp [← Option.some.inj ht, Task.retry]
              | buried _ turned => simp [← Option.some.inj ht, turned.state]
              | gone _ => cases ht)
            simpa [reportsFailure, hstatus, huid] using Fate.failed state (failure.evicted hevicted)
          | succeeded =>
            apply (h.deleteTask_self (h.plain u rfl).2 (Or.inl rfl) .succeeded).bind
            refine fun s' hs => Ensures.ok ⟨none, fun n o'' hr => hfate ?_, hs⟩
            obtain ⟨rfl, hevicted⟩ := hr.idle (by simp)
            rcases hevicted with rfl | ⟨rfl, _⟩ <;> simpa [reportsFailure, hstatus] using Fate.gone
        · have he : e.taskId ≠ id := huid ▸ hid
          have hcovers := Area.besides_covers hid
          cases e.status with
          | invalid => exact hdown _ (by simp)
          | inProgress =>
            apply (h.apart (h.shows.alike.heartbeatTask hcovers keepalive)).bind
            exact fun s' hs => Ensures.ok ⟨o, Leads.of_evicted he (.refl o), hs⟩
          | failed =>
            apply (h.handleTaskFailure_other hid).bind
            exact fun s' hs => Ensures.ok (hs.imp (fun _ => Leads.of_evicted he))
          | succeeded =>
            apply (h.apart (h.shows.alike.deleteTask hcovers .succeeded)).bind
            exact fun s' hs => Ensures.ok ⟨o, Leads.of_evicted he (.refl o), hs⟩

theorem reportEntries (es : List ReportStatusRequestEntry) (h : Stands id m o s) :
    Ensures True (reportEntries now dlqConfig s es) (fun a =>
      Became id m (ReportedTo now o ((es.zip a.2).countP (reportsFailure id))) a.1) := by
  induction es generalizing s o with
  | nil =>
    refine Ensures.ok ⟨o, ⟨fun _ => ⟨rfl, Evicted.refl o⟩, fun t ht _ => ?_⟩, h⟩
    rw [ht]
    exact .kept (.refl t)
  | cons e es ih =>
    rw [Moab.reportEntries]
    apply (h.reportEntry e).bind
    intro a ha
    obtain ⟨o', hrest, h'⟩ := ha
    apply (ih h').bind
    intro b hb
    refine Ensures.ok (hb.imp (fun o'' hr => ?_))
    rw [List.zip_cons_cons, List.countP_cons]
    exact hrest _ _ hr

end Stands

end Report

section Dequeue

namespace Stands

/-- A pass over tasks that were read together, this one at most once among them. R is what
the steps of other tasks may do to its row, and G what its own step does. -/
theorem meets {f : State → Task → Except CoreError State} {R : Option Task → Option Task → Prop}
    {G : Task → Option Task → Prop} {ts : List Task} (refl : ∀ o, R o o)
    (trans : ∀ {o o' o''}, R o o' → R o' o'' → R o o'')
    (after : ∀ {t o o'}, G t o → R o o' → G t o')
    (other : ∀ u ∈ ts, u.id ≠ id → ∀ s o, Stands id m o s → Ensures True (f s u)
      (Became id m (R o)))
    (own : ∀ t ∈ ts, t.id = id → (∀ o, R (some t) o → o = some t) ∧
      ∀ s, Stands id m (some t) s → Ensures True (f s t) (Became id m (G t)))
    (h : Stands id m o s) (hts : ∀ u ∈ ts, u.id = id → o = some u)
    (hone : ts.countP (·.id = id) ≤ 1) :
    Ensures True (ts.foldlM f s) (fun s' => ts.countP (·.id = id) = 0 ∧ Became id m (R o) s' ∨
      ts.countP (·.id = id) = 1 ∧ ∃ t ∈ ts, o = some t ∧ Became id m (G t) s') := by
  induction ts generalizing s o with
  | nil => exact Ensures.pure (Or.inl ⟨rfl, o, refl o, h⟩)
  | cons u ts ih =>
    have other' := fun v hv => other v (List.mem_cons_of_mem u hv)
    rw [List.foldlM_cons]
    rw [List.countP_cons] at hone ⊢
    by_cases hu : u.id = id
    · have hzero : ts.countP (·.id = id) = 0 := by
        simp only [hu, decide_true, if_true] at hone
        omega
      obtain rfl := hts u List.mem_cons_self hu
      rw [hzero]
      apply ((own u List.mem_cons_self hu).2 s h).bind
      intro s' hs
      refine (Became.foldlM ?_ hs).mono
        (fun s'' hs'' => Or.inr ⟨by simp [hu], u, List.mem_cons_self, rfl, hs''⟩)
      intro v hv s o ho hs
      have hne : v.id ≠ id := fun he => List.countP_eq_zero.mp hzero v hv (by simp [he])
      exact (other' v hv hne s o hs).mono (fun _ hs' => hs'.imp (fun _ => after ho))
    · simp only [hu, decide_false, Bool.false_eq_true, if_false, Nat.add_zero] at hone ⊢
      apply (other u List.mem_cons_self hu s o h).bind
      intro s' hs
      obtain ⟨o', ho', h'⟩ := hs
      have own' := fun v hv => own v (List.mem_cons_of_mem u hv)
      have hts' : ∀ v ∈ ts, v.id = id → o' = some v := by
        intro v hv hid
        rw [hts v (List.mem_cons_of_mem _ hv) hid] at ho'
        exact (own' v hv hid).1 o' ho'
      apply (ih other' own' h' hts' hone).mono
      rintro s'' (⟨hcount, hs⟩ | ⟨hcount, t, ht, rfl, hs⟩)
      · exact Or.inl ⟨hcount, hs.imp (fun _ => trans ho')⟩
      · have hid := (h'.plain t rfl).1
        exact Or.inr ⟨hcount, t, List.mem_cons_of_mem _ ht,
          hts t (List.mem_cons_of_mem _ ht) hid, hs⟩

/-- The sequence of a queue is written. -/
theorem setQueueState (h : Stands id m o s) (st : QueueState) :
    Stands id (if id.queue = q then st.taskIdSequence else m) o (s.setQueueState q st) := by
  refine ⟨{ h.shows with sequence := ?_ }, h.plain⟩
  by_cases hq : id.queue = q
  · rw [if_pos hq, hq]
    exact sequence_setQueueState_self st
  · rw [if_neg hq]
    exact (sequence_setQueueState_ne st hq).trans h.shows.sequence

/-- The cursors of a queue may move. -/
theorem setCursors (h : Stands id m o s) (st : QueueState)
    (hst : st.taskIdSequence = (s.getQueueState q).taskIdSequence) :
    Stands id m o (s.setQueueState q st) := by
  have hmoved := h.setQueueState (q := q) st
  rwa [hst, ite_eq_right_iff.mpr (fun hq => hq ▸ h.shows.sequence)] at hmoved

/-- The first pass of a Dequeue fails the task if it has an item among the lapsed leases. -/
theorem dequeueInProgressTasksBeforeTime (h : Stands t.id m (some t) s) (q : QueueId) :
    Ensures True (dequeueInProgressTasksBeforeTime s q now dlqConfig) (fun s' =>
      ∃ o, Stands t.id m o s' ∧
        ((timedOutItems s q now).countP (fun i => q.task i.taskId = t.id) = 0 ∧ Evicted (some t) o ∨
          (timedOutItems s q now).countP (fun i => q.task i.taskId = t.id) = 1 ∧
            t.state = .inProgress ∧ Failure now t o)) := by
  have hsub : (timedOutItems s q now).Sublist (s.inProgressIndex.items q) :=
    (List.take_sublist _ _).trans List.filter_sublist
  unfold Moab.dequeueInProgressTasksBeforeTime
  refine Ensures.bind (Ensures.of_eq (fun ts hts => hts) (fun _ _ => trivial)) ?_
  intro ts hts
  have hread := h.readBy h.shows.leased hsub
    ((forall₂_of_mapM_ok hts).imp (fun _ _ => State.getTask_eq_ok.mp))
  have hown : ∀ u ∈ ts, u.id = t.id → u = t ∧ t.state = .inProgress := by
    intro u hu hid
    obtain ⟨hrow, i, hi⟩ := hread.own u hu hid
    exact ⟨(Option.some.inj hrow).symm, (Option.ite_none_right_eq_some.mp hi).1⟩
  have hmoved := h.setCursors (q := q) { s.getQueueState q with
    lastVisitedInProgress := ((timedOutItems s q now).getLast?.map IndexItem.time).getD now } rfl
  rw [hread.count]
  refine (hmoved.meets (R := Evicted) (G := Failure now) Evicted.refl Evicted.trans Failure.evicted
    (fun u _ hu _ _ hs => hs.handleTaskFailure_other hu) ?_ (fun u hu hid => (hread.own u hu hid).1)
    hread.once).mono ?_
  · intro u hu hid
    obtain ⟨rfl, state⟩ := hown u hu hid
    exact ⟨fun o ho => ho.eq (by simp [state]), fun s' hs => hs.handleTaskFailure_self state⟩
  · rintro s' (⟨hzero, o, ho, hs⟩ | ⟨hone, u, hu, hut, o, ho, hs⟩)
    · exact ⟨o, hs, Or.inl ⟨hzero, ho⟩⟩
    · obtain rfl := Option.some.inj hut
      exact ⟨o, hs, Or.inr ⟨hone, (hown t hu rfl).2, ho⟩⟩

end Stands

/-- The scan meets the rows of a first part of its items. -/
theorem scanQueue_meets {limit : Time} {settings : Option DequeuingSettings}
    (items : List IndexItem) (a : Scan) :
    Ensures True (scanQueue s q now limit settings a items) (fun b => ∃ ts, Visited now ts a b ∧
      List.Forall₂ (fun i t => s.tasks.get (q.task i.taskId) = some t)
        (items.take ts.length) ts) := by
  induction items generalizing a with
  | nil => exact Ensures.ok ⟨[], Visited.nil now a, .nil⟩
  | cons i items ih =>
    rw [scanQueue]
    apply Ensures.ite
    · exact fun _ => Ensures.ok ⟨[], Visited.nil now a, .nil⟩
    · intro _
      refine Ensures.bind (Ensures.of_eq (fun t ht => ht) (fun _ _ => trivial)) ?_
      intro t ht
      apply (ih (a.visit i t now)).mono
      intro b hb
      obtain ⟨ts, hvisited, hrows⟩ := hb
      exact ⟨t :: ts, hvisited.cons, .cons (State.getTask_eq_ok.mp ht) hrows⟩

namespace Stands

theorem dropExpired_other (h : Stands id m o s) (hu : u.id ≠ id) :
    Stands id m o (Moab.dropExpired u.id.queue s u) := by
  have hgone := h.shows.alike.removeQueued (q := u.id.queue) (i := u.queueIndexItem) hu
  have hleft := (hgone.removeExpiration hu).deleteRow hu
  have hshows := h.shows.of_alike hleft
  exact ⟨{ hshows with }, h.plain⟩

theorem leaseTask_other (h : Stands id m o s) (hu : u.id ≠ id) (keepalive : Time) :
    Stands id m o (Moab.leaseTask u.id.queue now keepalive s u) := by
  let u' : Task := u.lease now keepalive
  have hu' : u'.id ≠ id := hu
  have hgone := h.shows.alike.removeQueued (q := u.id.queue) (i := u.queueIndexItem) hu
  have hleft := ((hgone.removeExpiration hu).setTask hu').addInProgress hu'
  exact ⟨h.shows.of_alike hleft, h.plain⟩

/-- What the second pass of a Dequeue makes of the row of a task, and how often it hands the
task out. -/
inductive Met (now keepalive : Time) (o : Option Task) : Nat → Option Task → Prop where
  | passed : Met now keepalive o 0 o
  | dropped {t : Task} (row : o = some t) (state : t.state = .enqueued) (h : t.expiresAt < now) :
    Met now keepalive o 0 none
  | handed {t : Task} (row : o = some t) (state : t.state = .enqueued) (h : ¬t.expiresAt < now) :
    Met now keepalive o 1 (some (t.lease now keepalive))

theorem dequeueTasksBeforeTime (h : Stands id m o s) (q : QueueId) (limit : Time)
    (settings : Option DequeuingSettings) (keepalive : Time) :
    Ensures True (dequeueTasksBeforeTime s q now limit settings keepalive) (fun a =>
      Became id m (Met now keepalive o (a.2.countP (·.id = id))) a.1) := by
  let items := listInRange s.queueIndex q (s.getQueueState q).lastVisitedEnqueued now
  have hsub : items.Sublist (s.queueIndex.items q) := List.filter_sublist
  unfold Moab.dequeueTasksBeforeTime
  apply (scanQueue_meets items _).bind
  intro b hb
  obtain ⟨ts, hvisited, hrows⟩ := hb
  have hread := h.readBy h.shows.queued ((List.take_sublist _ _).trans hsub) hrows
  have hstate : ∀ u ∈ ts, u.id = id → u.state = .enqueued := by
    intro u hu hid
    obtain ⟨rfl, i, hi⟩ := hread.own u hu hid
    exact (Option.ite_none_right_eq_some.mp hi).1
  -- the expired tasks are dropped, and then the others are leased
  let expired := ts.filter (·.overdue now)
  let due := ts.filter (fun t => !t.overdue now)
  let treat (s : State) (t : Task) : State :=
    if t.overdue now then Moab.dropExpired q s t else Moab.leaseTask q now keepalive s t
  have hperm : (expired ++ due).Perm ts := List.filter_append_perm _ ts
  have hmem : ∀ u ∈ expired ++ due, u ∈ ts := fun u hu => hperm.mem_iff.mp hu
  have hfold : ∀ s, due.foldl (Moab.leaseTask q now keepalive)
      (expired.foldl (Moab.dropExpired q) s) = (expired ++ due).foldl treat s := by
    intro s
    have hdrop : ∀ s, ∀ t ∈ expired, Moab.dropExpired q s t = treat s t :=
      fun s t ht => (if_pos (List.mem_filter.mp ht).2).symm
    have hlease : ∀ s, ∀ t ∈ due, Moab.leaseTask q now keepalive s t = treat s t :=
      fun s t ht => (if_neg (by simpa using (List.mem_filter.mp ht).2)).symm
    rw [List.foldl_append, List.foldl_ext _ _ _ hdrop, List.foldl_ext _ _ _ hlease]
  have hcount : (due.map (·.lease now keepalive)).countP (·.id = id) = due.countP (·.id = id) := by
    rw [List.countP_map]
    rfl
  have hexpired : b.expiredTasks = expired := hvisited.expired
  have hdue : b.dequeuedTasks = due := hvisited.dequeued
  unfold applyScan
  rw [hexpired, hdue]
  refine Ensures.ok ?_
  dsimp only
  rw [hcount, hfold]
  generalize hs₁ : State.setCounter _ _ _ = s₁
  have h₁ : Stands id m o s₁ := by
    have hmoved := (h.setCursors (q := q) { s.getQueueState q with lastVisitedEnqueued :=
      if items = [] then now else b.lastVisitedEnqueued } rfl).shows.setCounter q
        { b.counters with expiredTasksCount := b.counters.expiredTasksCount + expired.length }
    rw [← hs₁]
    exact ⟨hmoved, h.plain⟩
  have hpass : Ensures True ((expired ++ due).foldlM (fun s t => .ok (treat s t)) s₁) _ :=
    h₁.meets (R := fun o o' => o' = o)
    (G := fun t o => o = if t.overdue now then none else some (t.lease now keepalive))
    (fun _ => rfl) (fun h k => k.trans h) (fun h k => k.trans h) (by
      intro u hu hne s o hs
      obtain rfl := hread.queue u (hmem u hu)
      refine Ensures.ok ⟨o, rfl, ?_⟩
      dsimp only [treat]
      split_ifs
      · exact hs.dropExpired_other hne
      · exact hs.leaseTask_other hne keepalive) (by
      intro t ht hid
      have state := hstate t (hmem t ht) hid
      obtain rfl := hread.queue t (hmem t ht)
      subst hid
      refine ⟨fun _ ho => ho, fun s hs => Ensures.ok ⟨_, rfl, ?_⟩⟩
      dsimp only [treat]
      split_ifs
      · exact hs.dropExpired state
      · exact hs.leaseTask state keepalive)
    (fun u hu hid => (hread.own u (hmem u hu) hid).1) (hperm.countP_eq _ ▸ hread.once)
  rcases hpass.elim (foldlM_eq_ok (fun _ _ _ => rfl) s₁) with ⟨hzero, _, rfl, hs⟩ |
    ⟨hone, t, ht, rfl, _, rfl, hs⟩
  · rw [List.countP_append] at hzero
    rw [show due.countP (·.id = id) = 0 by omega]
    exact ⟨_, .passed, hs⟩
  · have hid := (h.plain t rfl).1
    have hin : ∀ p : Task → Bool, p t = true → 0 < (ts.filter p).countP (·.id = id) := fun p hp =>
      List.countP_pos_iff.mpr ⟨t, List.mem_filter.mpr ⟨hmem t ht, hp⟩, by simp [hid]⟩
    rw [List.countP_append] at hone
    by_cases late : t.overdue now
    · have hlate : 0 < expired.countP (·.id = id) := hin _ late
      rw [if_pos late] at hs
      rw [show due.countP (·.id = id) = 0 by omega]
      exact ⟨none, .dropped rfl (hstate t (hmem t ht) hid) (of_decide_eq_true late), hs⟩
    · have hearly : 0 < due.countP (·.id = id) := hin _ (by simpa using late)
      rw [if_neg late] at hs
      rw [show due.countP (·.id = id) = 1 by omega]
      exact ⟨_, .handed rfl (hstate t (hmem t ht) hid) (by simpa [Task.overdue] using late), hs⟩

omit [OrderedStore] in
/-- A failure, or none, and then a scan make up the fate of the task. -/
theorem Met.fate {keepalive : Time} {d f : Nat} {o o' : Option Task} (h : Met now keepalive o d o')
    (hf : f = 0 ∧ Evicted (some t) o ∨ f = 1 ∧ t.state = .inProgress ∧ Failure now t o) :
    Fate now t f d o' := by
  rcases hf with ⟨rfl, hevicted⟩ | ⟨rfl, leased, failure⟩
  · cases h with
    | passed => exact .evicted hevicted
    | dropped _ _ _ => exact .gone
    | handed row state _ =>
      subst row
      rcases hevicted with he | ⟨he, _⟩
      · obtain rfl := Option.some.inj he
        exact .delivered state keepalive
      · cases he
  · cases h with
    | passed => exact .failed leased failure
    | dropped row state late =>
      subst row
      cases failure with
      | retried hr => exact absurd late hr.unexpired
      | buried _ turned => exact absurd (state.symm.trans turned.state) (by simp)
    | handed row state _ =>
      subst row
      cases failure with
      | retried hr => exact .again leased hr keepalive
      | buried _ turned => exact absurd (state.symm.trans turned.state) (by simp)

theorem dequeueTasks (h : Stands t.id m (some t) s) (req : DequeueRequest) :
    Ensures True (dequeueTasks s now req) (fun a => ∃ o, Stands t.id m o a.1 ∧ Fate now t
      ((timedOutItems s req.queueId now).countP (fun i => req.queueId.task i.taskId = t.id))
      (a.2.countP (·.id = t.id)) o) := by
  apply Ensures.bind_any
  intro limiter
  apply (h.dequeueInProgressTasksBeforeTime req.queueId).bind
  intro s' hs
  obtain ⟨o, h', hlapsed⟩ := hs
  apply (h'.dequeueTasksBeforeTime req.queueId _ _ req.keepaliveTimeoutInSeconds).bind
  intro a ha
  obtain ⟨o', hmet, h''⟩ := ha
  refine Ensures.ok ⟨o', ?_, hmet.fate hlapsed⟩
  have hcharge : Shows t.id (profileOf m o')
      (chargeLimiter a.1 req.queueId limiter a.2.length) := by
    cases limiter with
    | none => exact h''.shows
    | some st => exact { h''.shows with }
  exact ⟨hcharge, h''.plain⟩

end Stands

end Dequeue

section Enqueue

variable {scheduledAt : Time} {payload : Bytes} {expiresAt : Time}

theorem Shows.overwriteField_other {p : Profile} {a : State × Task} (h : Shows id p a.1)
    (ha : a.2.id ≠ id) (field : OverwriteOnDuplicate) :
    Ensures True (overwriteField scheduledAt payload expiresAt a field)
      (fun b => Shows id p b.1 ∧ b.2.id ≠ id) := by
  cases field with
  | invalid | payload => exact Ensures.ok ⟨h, ha⟩
  | expiresAt => exact Ensures.ok ⟨h.removeExpiration.addExpiration, ha⟩
  | scheduledAt =>
    let u : Task := { a.2 with scheduledAt := scheduledAt }
    have hu : u.id ≠ id := ha
    apply Ensures.ite
    · intro _
      have hgone := h.alike.removeQueued (q := a.2.id.queue) (i := a.2.queueIndexItem) ha
      have hmoved := hgone.addQueued (q := u.id.queue) (i := u.queueIndexItem) hu
      exact Ensures.ok ⟨h.of_alike hmoved, ha⟩
    · intro _
      have hset := h.alike.setTask hu
      apply (h.apart (hset.rescheduleTaskInThread (t := u) hu trivial a.2.scheduledAt)).bind
      exact fun s' hs => Ensures.ok ⟨hs, ha⟩

/-- An overwrite of the task itself. Its row is written at the end. -/
structure Amended (t : Task) (m : Nat) (a : State × Task) : Prop where
  shows : Shows a.2.id ⟨some t, some a.2.queueIndexItem, none, none, m⟩ a.1
  id : a.2.id = t.id
  threadId : a.2.threadId = []
  turned : t.Turned a.2 t.state 0

theorem Amended.overwriteField {a : State × Task} (h : Amended t m a)
    (field : OverwriteOnDuplicate) :
    Ensures True (overwriteField scheduledAt payload expiresAt a field) (Amended t m) := by
  obtain ⟨hshows, hid, hthread, hturned⟩ := h
  cases field with
  | invalid => exact Ensures.ok ⟨hshows, hid, hthread, hturned⟩
  | payload => exact Ensures.ok ⟨hshows, hid, hthread, { hturned with }⟩
  | expiresAt =>
    exact Ensures.ok ⟨hshows.removeExpiration.addExpiration, hid, hthread, { hturned with }⟩
  | scheduledAt =>
    let u : Task := { a.2 with scheduledAt := scheduledAt }
    have hmoved := (hshows.removeQueued (fun i hi => (Option.some.inj hi).symm)).addQueued
      (t := u) rfl
    have hplain : Moab.overwriteField scheduledAt payload expiresAt a .scheduledAt =
        .ok ((a.1.removeQueued a.2).addQueued u, u) := if_pos hthread
    rw [hplain]
    exact Ensures.ok ⟨hmoved, hid, hthread, { hturned with }⟩

/-- Nothing is amended of a row but what an overwrite may change. -/
def AmendedTo : Option Task → Option Task → Prop := Option.Rel (fun t t' => t.Turned t' t.state 0)

omit [OrderedStore] in
theorem AmendedTo.refl : (o : Option Task) → AmendedTo o o
  | none => .none
  | some t => .some (.refl t)

omit [OrderedStore] in
/-- A number that is used up is not given out again. -/
theorem task_succ_ne {n : Nat} (used : id.queue = q → id.taskId ≤ n) : q.task (n + 1) ≠ id := by
  rintro rfl
  exact Nat.not_succ_le_self n (used rfl)

namespace Stands

/-- A duplicate is overwritten, be it this task or another one. -/
theorem overwriteDuplicate (h : Stands id m o s) (duplicateId : TaskId)
    (fields : List OverwriteOnDuplicate) :
    Ensures True (overwriteDuplicate s duplicateId fields scheduledAt payload expiresAt)
      (fun a => Became id m (AmendedTo o) a.1) := by
  have hsame : ∀ r, Ensures True (.ok (s, r) : Except CoreError (State × Option Task))
      (fun a => Became id m (AmendedTo o) a.1) :=
    fun _ => Ensures.ok ⟨o, .refl o, h⟩
  apply Ensures.ite
  · exact fun _ => hsame _
  · intro _
    refine Ensures.bind (Ensures.of_eq (fun u hu => State.getTask_eq_ok.mp hu)
      (fun _ _ => trivial)) ?_
    intro u hu
    have huid := h.id_of_get hu
    apply Ensures.ite
    · intro state
      by_cases hid : duplicateId = id
      · subst hid huid
        obtain rfl := h.row.symm.trans hu
        have hstart : Amended u m (s, u) := by
          have hshows := h.shows
          rw [profileOf_enqueued state] at hshows
          exact ⟨hshows, rfl, (h.plain u rfl).2, .refl u⟩
        refine Ensures.bind (Ensures.foldlM (fun _ => Amended u m)
          (fun field _ a ha => ha.overwriteField field) fields (s, u) hstart) ?_
        intro a ha
        have hset := ha.shows.setTask
        refine Ensures.ok ⟨some a.2, .some ha.turned, ?_⟩
        rw [← ha.id]
        apply of_shows _ ha.threadId
        rw [profileOf_enqueued (ha.turned.state.trans state)]
        exact hset
      · have hne : u.id ≠ id := by
          rw [huid]
          exact hid
        refine Ensures.bind (Ensures.foldlM
          (fun _ a => Shows id (profileOf m o) a.1 ∧ a.2.id ≠ id)
          (fun field _ a ha => ha.1.overwriteField_other ha.2 field) fields (s, u)
            ⟨h.shows, hne⟩) ?_
        intro a ha
        have hset := ha.1.of_alike (ha.1.alike.setTask (t := a.2) ha.2)
        exact Ensures.ok ⟨o, .refl o, hset, h.plain⟩
    · exact fun _ => hsame _

/-- An entry of an Enqueue does not get the number of the task. -/
theorem enqueueEntry (h : Stands id m o s) {n : Nat} (hn : q.task (n + 1) ≠ id)
    (e : EnqueueRequestEntry) :
    Ensures True (enqueueEntry q now s n e) (fun a =>
      n ≤ a.2.1 ∧ Became id m (AmendedTo o) a.1) := by
  unfold Moab.enqueueEntry
  cases duplicateOf s q e with
  | some duplicateId =>
    apply (h.overwriteDuplicate duplicateId _).bind
    exact fun a ha => Ensures.ok ⟨Nat.le_refl n, ha⟩
  | none =>
    have hcovers : (Area.besides id).Covers (newTask q (n + 1) e now) := Area.besides_covers hn
    apply (h.apart (h.shows.alike.createTask hcovers)).bind
    exact fun s' hs => Ensures.ok ⟨Nat.le_succ n, o, .refl o, hs⟩

/-- The numbers that follow those of the task are not its own. -/
theorem enqueueEntries (es : List EnqueueRequestEntry) {n : Nat} (h : Stands id m (some t) s)
    (hn : id.queue = q → id.taskId ≤ n) :
    Ensures True (enqueueEntries q now s n es) (fun a =>
      n ≤ a.2.1 ∧ ∃ t', t.Turned t' t.state 0 ∧ Stands id m (some t') a.1) := by
  induction es generalizing s t n with
  | nil => exact Ensures.ok ⟨Nat.le_refl n, t, .refl t, h⟩
  | cons e es ih =>
    rw [Moab.enqueueEntries]
    apply (h.enqueueEntry (task_succ_ne hn) e).bind
    intro a ha
    obtain ⟨hle, _, ⟨hturned⟩, h'⟩ := ha
    apply (ih h' (fun hq => Nat.le_trans (hn hq) hle)).bind
    intro b hb
    obtain ⟨hle', t'', hturned', h''⟩ := hb
    exact Ensures.ok ⟨Nat.le_trans hle hle', t'', hturned.trans hturned', h''⟩

theorem enqueue (h : Stands id m (some t) s) (hm : id.taskId ≤ m) (req : EnqueueRequest) :
    Ensures True (enqueue s now req) (fun a => ∃ m' t', id.taskId ≤ m' ∧ t.Turned t' t.state 0 ∧
      Stands id m' (some t') a.1) := by
  unfold Moab.enqueue
  cases checkQueueNotPurged s req.queueId with
  | some err => exact Ensures.ok ⟨m, t, hm, .refl t, h⟩
  | none =>
    have hseq : id.queue = req.queueId →
        id.taskId ≤ (s.getQueueState req.queueId).taskIdSequence := by
      intro hq
      rw [← hq]
      exact Nat.le_trans hm (Nat.le_of_eq h.shows.sequence.symm)
    apply (h.enqueueEntries req.entries hseq).bind
    intro a ha
    obtain ⟨hle, t', hturned, h'⟩ := ha
    refine Ensures.ok ⟨_, t', ?_, hturned, h'.setQueueState _⟩
    split_ifs with hq
    · exact Nat.le_trans (hseq hq) hle
    · exact hm

end Stands

end Enqueue

section Collect

/-- The row stays as it is or goes. -/
def OrGone (o o' : Option Task) : Prop := o' = o ∨ o' = none

omit [OrderedStore] in
theorem OrGone.trans {o o' o'' : Option Task} (h : OrGone o o') (k : OrGone o' o'') :
    OrGone o o'' := by
  rcases k with rfl | rfl
  · exact h
  · exact Or.inr rfl

omit [OrderedStore] in
theorem OrGone.ite {c : Prop} [Decidable c] {o : Option Task} :
    OrGone o (if c then none else o) := by
  split_ifs
  · exact Or.inr rfl
  · exact Or.inl rfl

namespace Stands

/-- Rows are deleted as they are read. -/
theorem deleteRead {j : TaskId} (h : Stands id m o s) (hrow : s.tasks.get j = some u)
    (reason : TaskDeletionReason) :
    Ensures True (Moab.deleteTask s u reason) (Became id m (OrGone o)) := by
  have huid := h.id_of_get hrow
  have hown : u.id = id → u.threadId = [] ∧ (o = some u ∨ o = none) := by
    intro hid
    have ho : o = some u := by
      rw [← h.row, ← hid, huid]
      exact hrow
    exact ⟨(h.plain u ho).2, Or.inl ho⟩
  exact (h.deleteTask hown reason).mono (fun s' hs => ⟨_, .ite, hs⟩)

/-- A pass of steps that may delete the task. -/
theorem passes {α : Type} {f : State → α → Except CoreError State}
    (step : ∀ a s o, Stands id m o s → Ensures True (f s a) (Became id m (OrGone o))) (l : List α)
    (h : Stands id m o s) : Ensures True (l.foldlM f s) (Became id m (OrGone o)) := by
  refine Became.foldlM ?_ ⟨o, Or.inl rfl, h⟩
  intro a _ s' o' ho' h'
  exact (step a s' o' h').mono (fun _ hs => hs.imp (fun _ => ho'.trans))

theorem deleteTasks (h : Stands id m o s) (req : DeleteTasksRequest) :
    Ensures True (deleteTasks s req) (Became id m (OrGone o)) := by
  refine passes ?_ req.taskIds h
  intro n s o h
  unfold deleteTaskById
  cases hrow : s.tasks.get (req.queueId.task n) with
  | none => exact Ensures.ok ⟨o, Or.inl rfl, h⟩
  | some u => exact h.deleteRead hrow .none

theorem sweepRef (h : Stands id m o s) (ref : ExpirationItem) :
    Ensures True (sweepRef s ref) (Became id m (OrGone o)) := by
  unfold Moab.sweepRef
  cases hrow : s.tasks.get ref.taskId with
  | none => exact Ensures.ok ⟨o, Or.inl rfl, { h.shows with }, h.plain⟩
  | some u => exact h.deleteRead hrow .expired

theorem sweepRounds (pageSize rounds remaining : Nat) (h : Stands id m o s) :
    Ensures True (sweepRounds now pageSize rounds remaining s) (Became id m (OrGone o)) := by
  induction rounds generalizing s o remaining with
  | zero => exact Ensures.ok ⟨o, Or.inl rfl, h⟩
  | succ rounds ih =>
    rw [Moab.sweepRounds]
    apply Ensures.ite
    · exact fun _ => Ensures.ok ⟨o, Or.inl rfl, h⟩
    · intro _
      apply (passes (fun ref s o h => h.sweepRef ref) _ h).bind
      intro s' hs
      obtain ⟨o', ho', h'⟩ := hs
      apply Ensures.ite
      · exact fun _ => Ensures.ok ⟨o', ho', h'⟩
      · intro _
        apply (ih _ h').mono
        exact fun s'' hs => hs.imp (fun _ => ho'.trans)

/-- A page is deleted as far as the budget goes, and all of it if the budget lasts. -/
theorem drainPage (maxVisitedTasks visited : Nat) (ts : List Task) (h : Stands id m o s)
    (hts : ∀ t ∈ ts, t.id = id → t.threadId = [] ∧ (o = some t ∨ o = none)) :
    Ensures True (drainPage maxVisitedTasks s visited ts) (fun a => ∃ o', OrGone o o' ∧
      Stands id m o' a.1 ∧ (a.2.2 = false → ∀ t ∈ ts, t.id = id → o' = none)) := by
  induction ts generalizing s o visited with
  | nil => exact Ensures.ok ⟨o, Or.inl rfl, h, by simp⟩
  | cons t ts ih =>
    rw [Moab.drainPage]
    apply (h.deleteTask (hts t List.mem_cons_self) .none).bind
    intro s' h'
    have hleft : OrGone o (if t.id = id then none else o) := .ite
    have hrest : ∀ u ∈ ts, u.id = id → u.threadId = [] ∧
        ((if t.id = id then none else o) = some u ∨ (if t.id = id then none else o) = none) := by
      intro u hu hid
      obtain ⟨plain, ho⟩ := hts u (List.mem_cons_of_mem _ hu) hid
      refine ⟨plain, ?_⟩
      split_ifs
      · exact Or.inr rfl
      · exact ho
    apply Ensures.ite
    · exact fun _ => Ensures.ok ⟨_, hleft, h', by simp⟩
    · intro _
      apply (ih _ h' hrest).mono
      intro a ha
      obtain ⟨o', ho', h'', hall⟩ := ha
      refine ⟨o', hleft.trans ho', h'', ?_⟩
      intro hdone u hu hid
      rcases List.mem_cons.mp hu with rfl | hu
      · rw [if_pos hid] at ho'
        exact or_self_iff.mp ho'
      · exact hall hdone u hu hid

/-- The rows of a queue go before its sequence does. -/
theorem drainRecord {pageSize : Nat} (hp : 0 < pageSize) (maxVisitedTasks : Nat) (q : QueueId)
    (pages visited : Nat) (h : Stands id m o s) :
    Ensures True (drainRecord pageSize maxVisitedTasks q pages s visited) (fun a =>
      ∃ m' o', OrGone o o' ∧ Stands id m' o' a.1 ∧ (o' ≠ none → m' = m)) := by
  induction pages generalizing s o visited with
  | zero => exact Ensures.ok ⟨m, o, Or.inl rfl, h, fun _ => rfl⟩
  | succ pages ih =>
    obtain ⟨hbatch, _, hall⟩ := listTasks_batch (q := q) (fun j u hu => h.id_of_get hu) hp
    have hown : ∀ t ∈ (listTasks s q pageSize).1, t.id = id →
        t.threadId = [] ∧ (o = some t ∨ o = none) := by
      intro t ht hid
      have hrow : s.tasks.get t.id = some t := hbatch.row t ht
      rw [hid, h.row] at hrow
      exact ⟨(h.plain t hrow).2, Or.inl hrow⟩
    rw [Moab.drainRecord]
    apply (h.drainPage maxVisitedTasks visited _ hown).bind
    intro a ha
    obtain ⟨o', ho', h', hdone⟩ := ha
    apply Ensures.ite
    · exact fun _ => Ensures.ok ⟨m, o', ho', h', fun _ => rfl⟩
    · intro hgoes
      apply Ensures.ite
      · intro _
        apply (ih _ h').mono
        intro b hb
        obtain ⟨m', o'', ho'', h'', hm⟩ := hb
        exact ⟨m', o'', ho'.trans ho'', h'', hm⟩
      · intro hlast
        refine Ensures.ok ⟨(Moab.dropQueue a.1 q).sequence id.queue, o', ho', ?_, ?_⟩
        · exact ⟨{ h'.shows with sequence := rfl }, h'.plain⟩
        · intro hsome
          obtain ⟨t, ht⟩ := Option.ne_none_iff_exists'.mp hsome
          have ho : o = some t := (ho'.resolve_right hsome).symm.trans ht
          have hne : id.queue ≠ q := by
            -- else the task was on the page, which was deleted to its end
            intro hq
            have hlisted := hall (by simpa using hlast) id t (h.row.trans ho) hq
            exact hsome (hdone (by simpa using hgoes) t hlisted (h.plain t ho).1)
          have hsame : (Moab.dropQueue a.1 q).sequence id.queue = a.1.sequence id.queue := by
            change (((a.1.queueState.delete q).get id.queue).getD .zero).taskIdSequence = _
            rw [Table.get_delete_ne _ hne]
            rfl
          exact hsame.trans h'.shows.sequence

theorem drainRecords {pageSize : Nat} (hp : 0 < pageSize) (maxVisitedTasks visited : Nat)
    (qs : List QueueId) (h : Stands id m o s) :
    Ensures True (drainRecords pageSize maxVisitedTasks s visited qs) (fun s' =>
      ∃ m' o', OrGone o o' ∧ Stands id m' o' s' ∧ (o' ≠ none → m' = m)) := by
  induction qs generalizing s o m visited with
  | nil => exact Ensures.ok ⟨m, o, Or.inl rfl, h, fun _ => rfl⟩
  | cons q qs ih =>
    rw [Moab.drainRecords]
    apply (h.drainRecord hp maxVisitedTasks q _ visited).bind
    intro a ha
    obtain ⟨m', o', ho', h', hm⟩ := ha
    apply Ensures.ite
    · exact fun _ => Ensures.ok ⟨m', o', ho', h', hm⟩
    · intro _
      apply (ih _ h').mono
      intro s' hs
      obtain ⟨m'', o'', ho'', h'', hm'⟩ := hs
      refine ⟨m'', o'', ho'.trans ho'', h'', ?_⟩
      rcases ho'' with rfl | rfl
      · exact fun hsome => (hm' hsome).trans (hm hsome)
      · simp

/-- The restarts of other tasks. -/
theorem restartEntries (es : List RestartTasksRequestEntry) (h : Stands id m o s)
    (hes : ∀ e ∈ es, q.task e.taskId ≠ id) :
    Ensures True (restartEntries q now s es) (fun a => Stands id m o a.1) := by
  induction es generalizing s with
  | nil => exact Ensures.ok h
  | cons e es ih =>
    have hentry : Ensures True (restartEntry q now s e) (fun a => Stands id m o a.1) := by
      unfold restartEntry
      cases hrow : s.tasks.get (q.task e.taskId) with
      | none => exact Ensures.ok h
      | some u =>
        have hu : u.id ≠ id := by
          rw [h.id_of_get hrow]
          exact hes e List.mem_cons_self
        have hrestart : Related _ (restartTask s u now e.scheduledAt e.expiresAt) _ :=
          h.shows.alike.restartTask (Area.besides_covers hu) e.scheduledAt e.expiresAt
        refine Ensures.ite (fun _ => Ensures.ok h) (fun _ => ?_)
        refine Ensures.ite (fun _ => Ensures.ok h) (fun _ => ?_)
        refine Ensures.ite (fun _ => Ensures.ok h) (fun _ => ?_)
        cases hr : restartTask s u now e.scheduledAt e.expiresAt with
        | error err => exact Ensures.error trivial
        | ok a =>
          rw [hr] at hrestart
          exact Ensures.ok ⟨h.shows.of_alike hrestart.1, h.plain⟩
    rw [Moab.restartEntries]
    apply hentry.bind
    intro a ha
    apply (ih ha (fun e he => hes e (List.mem_cons_of_mem _ he))).bind
    exact fun b hb => Ensures.ok hb

end Stands

end Collect

end Moab
