import Moab.Tasks.Transitions

namespace Moab

open OrderedStore

variable [OrderedStore]

section Enqueue

variable {th : Prop}

/-- Overwrites of one task, which keep its time or give it the wanted one. -/
def Overwrites (id : TaskId) (scheduledAt : Time) (es : List Event) : Prop :=
  ∀ e ∈ es, ∃ t t', e = .overwritten t t' ∧ t.id = id ∧
    (t'.scheduledAt = t.scheduledAt ∨ t'.scheduledAt = scheduledAt)

section Overwrite

variable {s s' : State} {t : Task} {payload : Bytes} {wanted scheduledAt expiresAt : Time}

theorem overwritten_step (state : t.state = .enqueued)
    (ht : scheduledAt = t.scheduledAt ∨ scheduledAt = wanted)
    (hs : s'.rows = { s.rows with
      expiration := (s.rows.expiration.remove () t.expirationItem).add ()
        (t.overwrite payload scheduledAt expiresAt).expirationItem }) :
    Makes th (Overwrites t.id wanted) (s.setTask t)
      (s'.setTask (t.overwrite payload scheduledAt expiresAt)) := by
  have row : (s.setTask t).rows.tasks.get t.id = some t := Table.get_set_self _ _ _
  have hr : (s'.setTask (t.overwrite payload scheduledAt expiresAt)).rows =
      (s.setTask t).rows.overwrite t (t.overwrite payload scheduledAt expiresAt) := by
    have hset := Table.set_set s.rows.tasks t.id t (t.overwrite payload scheduledAt expiresAt)
    simp only [rows_setTask, hs, Rows.overwrite, hset]
    rfl
  refine Makes.one hr (.overwrite row state) ?_
  intro e he
  exact ⟨t, _, List.mem_singleton.mp he, rfl, ht⟩

/-- An overwrite that leaves the deadline alone. -/
theorem overwritten_keep (payload : Bytes) (h : Indexed th (s.setTask t).rows)
    (state : t.state = .enqueued) (ht : scheduledAt = t.scheduledAt ∨ scheduledAt = wanted)
    (hs : KeepsRows s s') :
    Makes th (Overwrites t.id wanted) (s.setTask t)
      (s'.setTask (t.overwrite payload scheduledAt t.expiresAt)) := by
  have row : (s.setTask t).rows.tasks.get t.id = some t := Table.get_set_self _ _ _
  have hm : t.expirationItem ∈ s.rows.expiration.items () :=
    h.expiration.mem row (by simp [expirationItems, state, Task.expirationItem])
  have hx := Index.remove_add hm
  refine overwritten_step state ht ?_
  unfold KeepsRows at hs
  change s'.rows = { s.rows with
    expiration := (s.rows.expiration.remove () t.expirationItem).add () t.expirationItem }
  rw [hs, hx]

end Overwrite

/-- The duplicate of an entry while its overwrites are applied. Its row is
written back at the end, so the events refer to the table with the row in it. -/
structure Overwriting (th : Prop) (s : State) (t : Task) (scheduledAt : Time) (a : State × Task) :
    Prop where
  id : a.2.id = t.id
  state : a.2.state = .enqueued
  threadId : a.2.threadId = t.threadId
  makes : Makes th (Overwrites t.id scheduledAt) s (a.1.setTask a.2)

theorem overwriteField_makes {s : State} {t : Task} {scheduledAt : Time} {a : State × Task}
    (h : Indexed th s.rows) (calm : t.Calm th) (ha : Overwriting th s t scheduledAt a)
    (payload : Bytes) (expiresAt : Time) (o : OverwriteOnDuplicate) :
    Ensures th (overwriteField scheduledAt payload expiresAt a o)
      (Overwriting th s t scheduledAt) := by
  obtain ⟨s1, u⟩ := a
  obtain ⟨hid, hstate, hthread, hm⟩ := ha
  have hi := hm.indexed h
  have join : ∀ {s2 : State} {u' : Task},
      Makes th (Overwrites u.id scheduledAt) (s1.setTask u) (s2.setTask u') →
      Makes th (Overwrites t.id scheduledAt) s (s2.setTask u') := by
    intro s2 u' hk
    refine hm.trans hk ?_
    intro es fs hes hfs e he
    rcases List.mem_append.mp he with he | he
    · exact hes e he
    · obtain ⟨v, v', hv, hvid, htime⟩ := hfs e he
      exact ⟨v, v', hv, hvid.trans hid, htime⟩
  cases o with
  | invalid => exact Ensures.ok ⟨hid, hstate, hthread, hm⟩
  | payload =>
    exact Ensures.ok ⟨hid, hstate, hthread, join (overwritten_keep _ hi hstate (Or.inl rfl) rfl)⟩
  | expiresAt =>
    exact Ensures.ok ⟨hid, hstate, hthread, join (overwritten_step hstate (Or.inl rfl) rfl)⟩
  | scheduledAt =>
    refine Ensures.ite (fun _ => ?_) (fun hth => ?_)
    · exact Ensures.ok ⟨hid, hstate, hthread,
        join (overwritten_keep _ hi hstate (Or.inr rfl) rfl)⟩
    · have hE : th := calm.1 (hthread ▸ hth)
      refine Ensures.weaken (Ensures.bind (rescheduleTaskInThread_rows _ _ _) ?_) (fun _ => hE)
      intro s2 hs2
      refine Ensures.ok ⟨hid, hstate, hthread, join ?_⟩
      refine (overwritten_keep u.payload hi hstate (Or.inr rfl) rfl).congr ?_
      unfold KeepsRows at hs2
      simp only [rows_setTask, hs2]
      exact congrArg (fun x => { s1.rows with tasks := x }) (Table.set_set _ _ _ _)

/-- A dedupe key in the index belongs to a live row. -/
theorem duplicateOf_row {s : State} {q : QueueId} {e : EnqueueRequestEntry} {id : TaskId}
    (h : Indexed th s.rows) (hd : duplicateOf s q e = some id) :
    ∃ t, s.rows.tasks.get id = some t ∧ t.live ∧ id.queue = q := by
  unfold duplicateOf at hd
  split_ifs at hd
  unfold getTaskIdByDedupeKey at hd
  obtain ⟨n, hn, rfl⟩ := Option.map_eq_some_iff.mp hd
  obtain ⟨t, ht, hk⟩ := (h.dedupe _ n).mp hn
  refine ⟨t, ht, ?_, rfl⟩
  simp only [dedupeKeys] at hk
  split_ifs at hk with hl
  exact hl.1

theorem overwriteDuplicate_makes {s : State} {id : TaskId} {t : Task} (h : Indexed th s.rows)
    (row : s.rows.tasks.get id = some t) (l : List OverwriteOnDuplicate) (scheduledAt : Time)
    (payload : Bytes) (expiresAt : Time) :
    Ensures th (overwriteDuplicate s id l scheduledAt payload expiresAt)
      (fun a => Makes th (Overwrites id scheduledAt) s a.1) := by
  have hnone : Makes th (Overwrites id scheduledAt) s s := Makes.none (by simp [Overwrites]) rfl
  unfold overwriteDuplicate
  refine Ensures.ite (fun _ => Ensures.ok hnone) (fun _ => ?_)
  have hg : s.getTask id = .ok t := State.getTask_eq_ok.mpr row
  rw [hg]
  refine Ensures.ite (fun state => ?_) (fun _ => Ensures.ok hnone)
  have hid := h.key _ _ row
  have h0 : Overwriting th s t scheduledAt (s, t) := by
    refine ⟨rfl, state, rfl, (Makes.none (by simp [Overwrites]) ?_)⟩
    rw [rows_setTask, Table.set_self (hid ▸ row)]
  refine Ensures.bind (P := Overwriting th s t scheduledAt) ?_ ?_
  · exact Ensures.foldlM (fun _ => Overwriting th s t scheduledAt)
      (fun o _ a ha => overwriteField_makes h (h.calm _ _ row) ha payload expiresAt o) l _ h0
  · intro a ha
    exact Ensures.ok (hid ▸ ha.makes)

/-- The rows of a queue have ids up to n. -/
def Below (q : QueueId) (n : Nat) (r : Rows) : Prop :=
  ∀ id t, r.tasks.get id = some t → id.queue = q → id.taskId ≤ n

/-- What Enqueue may do: overwrite duplicates, and create tasks under ids that
follow the sequence. -/
def Enqueues (q : QueueId) (now : Time) (es : List EnqueueRequestEntry) (lo hi : Nat)
    (evs : List Event) : Prop :=
  ∀ ev ∈ evs, ∃ e ∈ es,
    (∃ t t', ev = .overwritten t t' ∧
      (t'.scheduledAt = t.scheduledAt ∨ t'.scheduledAt = notBefore e.scheduledAt now)) ∨
    ∃ n, ev = .created (newTask q n e now) ∧ lo < n ∧ n ≤ hi

theorem enqueueEntry_makes {s : State} {q : QueueId} {now : Time} {n : Nat}
    {e : EnqueueRequestEntry} (h : Indexed th s.rows) (hb : Below q n s.rows)
    (hth : e.threadId ≠ [] → th) :
    Ensures th (enqueueEntry q now s n e) (fun a => n ≤ a.2.1 ∧ Below q a.2.1 a.1.rows ∧
      Makes th (Enqueues q now [e] n a.2.1) s a.1) := by
  unfold enqueueEntry
  cases hd : duplicateOf s q e with
  | some id =>
    obtain ⟨t, row, _, _⟩ := duplicateOf_row h hd
    refine (overwriteDuplicate_makes h row _ _ _ _).bind
      (fun a ha => Ensures.ok ⟨le_refl n, ?_, ?_⟩)
    · obtain ⟨es, hes, ho⟩ := ha
      intro j u hu hq
      obtain ⟨v, hv, _⟩ := hes.origin (fun e he => by
        obtain ⟨t, t', rfl, _⟩ := ho e he
        simp [Event.kind]) hu
      exact hb j v hv hq
    · refine ha.mono (fun es ho ev hev => ⟨e, List.mem_singleton_self e, Or.inl ?_⟩)
      obtain ⟨t, t', hev, _, htime⟩ := ho ev hev
      exact ⟨t, t', hev, htime⟩
  | none =>
    have fresh : s.rows.tasks.get (newTask q (n + 1) e now).id = none := by
      cases hg : s.rows.tasks.get (newTask q (n + 1) e now).id with
      | none => rfl
      | some t =>
        have hle : n + 1 ≤ n := hb _ _ hg rfl
        omega
    have free : e.dedupeKey ≠ [] → s.rows.dedupeKeysIndex.get ⟨q, e.dedupeKey⟩ = none := by
      intro hk
      simpa [duplicateOf, hk, getTaskIdByDedupeKey, State.rows] using hd
    have calm : (newTask q (n + 1) e now).Calm th := ⟨hth, fun ha => by simp [newTask] at ha⟩
    refine ((createTask_rows s _).weaken hth).bind (fun s' hs => Ensures.ok ⟨Nat.le_succ n, ?_, ?_⟩)
    · rw [hs]
      refine rows_set (P := fun id _ => id.queue = q → id.taskId ≤ n + 1) ?_ (fun _ => le_refl _)
      intro id t ht hq
      exact Nat.le_succ_of_le (hb id t ht hq)
    · refine Makes.one hs (.create fresh rfl free calm) ?_
      intro ev hev
      exact ⟨e, List.mem_singleton_self e, Or.inr ⟨n + 1, List.mem_singleton.mp hev,
        Nat.lt_succ_self n, le_refl _⟩⟩

theorem enqueueEntries_makes {q : QueueId} {now : Time} (es : List EnqueueRequestEntry) (s : State)
    (n : Nat) (h : Indexed th s.rows) (hb : Below q n s.rows)
    (hth : ∀ e ∈ es, e.threadId ≠ [] → th) :
    Ensures th (enqueueEntries q now s n es) (fun a => n ≤ a.2.1 ∧ Below q a.2.1 a.1.rows ∧
      Makes th (Enqueues q now es n a.2.1) s a.1) := by
  induction es generalizing s n with
  | nil => exact Ensures.ok ⟨le_refl n, hb, Makes.none (by simp [Enqueues]) rfl⟩
  | cons e es ih =>
    rw [enqueueEntries]
    refine (enqueueEntry_makes h hb (hth e List.mem_cons_self)).bind (fun a ha => ?_)
    refine (ih a.1 a.2.1 (ha.2.2.indexed h) ha.2.1
      (fun e he => hth e (List.mem_cons_of_mem _ he))).bind (fun b hb' => Ensures.ok ?_)
    refine ⟨ha.1.trans hb'.1, hb'.2.1, ha.2.2.trans hb'.2.2 ?_⟩
    intro fs gs hfs hgs
    refine List.forall_mem_append.mpr ⟨fun ev hev => ?_, fun ev hev => ?_⟩
    · obtain ⟨e', he', hev⟩ := hfs ev hev
      obtain rfl := List.mem_singleton.mp he'
      refine ⟨e', List.mem_cons_self, hev.imp_right (fun hc => ?_)⟩
      obtain ⟨m, hm, hlo, hhi⟩ := hc
      exact ⟨m, hm, hlo, hhi.trans hb'.1⟩
    · obtain ⟨e', he', hev⟩ := hgs ev hev
      refine ⟨e', List.mem_cons_of_mem _ he', hev.imp_right (fun hc => ?_)⟩
      obtain ⟨m, hm, hlo, hhi⟩ := hc
      exact ⟨m, hm, lt_of_le_of_lt ha.1 hlo, hhi⟩

end Enqueue

section Report

variable {th : Prop}

/-- What an applied report of a status may come to. -/
inductive Reported (now : Time) (t : Task) : ReportStatus → List Event → Prop where
  | renewed (visibleAt : Time) :
    Reported now t .inProgress [.renewed t { t with visibleAt := visibleAt }]
  | failed {es : List Event} (h : Failed t now es) : Reported now t .failed es
  | succeeded : Reported now t .succeeded [.deleted t .succeeded]

/-- A report is applied to a task in progress under the attempt it quotes, or it
changes nothing. -/
theorem reportStatus_makes {s : State} {id : TaskId} {now : Time} {status : ReportStatus}
    {attempt : Int} {keepalive : Time} {dlqConfig : Option DeadLetterQueueConfig}
    (h : Indexed th s.rows) :
    Ensures th (reportStatus s id now status attempt keepalive dlqConfig) (fun a =>
      (a.2 ≠ .ok ∧ a.1 = s) ∨
      (a.2 = .ok ∧ ∃ t, s.rows.tasks.get id = some t ∧ t.state = .inProgress ∧
        t.attempts = attempt ∧
        Makes th (Reported now t status) s a.1)) := by
  unfold reportStatus
  cases row : s.tasks.get id with
  | none => exact Ensures.ok (Or.inl ⟨by simp, rfl⟩)
  | some t =>
    have hid := h.key _ _ row
    have row' : s.rows.tasks.get t.id = some t := by
      rw [hid]
      exact row
    refine Ensures.ite (fun _ => Ensures.ok (Or.inl ⟨by simp, rfl⟩)) (fun hs => ?_)
    refine Ensures.ite (fun _ => Ensures.ok (Or.inl ⟨by simp, rfl⟩)) (fun ha => ?_)
    have state : t.state = .inProgress := not_not.mp hs
    have applied : ∀ {s' : State}, Makes th (Reported now t status) s s' →
        (ReportResult.ok = .ok ∧ ∃ u, s.rows.tasks.get id = some u ∧ u.state = .inProgress ∧
          u.attempts = attempt ∧ Makes th (Reported now u status) s s') :=
      fun hm => ⟨rfl, t, row, state, not_not.mp ha, hm⟩
    cases status with
    | invalid => exact Ensures.ok (Or.inl ⟨by simp, rfl⟩)
    | inProgress =>
      refine ((heartbeatTask_rows s t now keepalive).weaken (h.calm _ _ row).1).bind
        (fun s' hs => Ensures.ok (Or.inr (applied ?_)))
      exact Makes.one hs (.renew row' state) (.renewed _)
    | failed =>
      refine (handleTaskFailure_makes now dlqConfig h row' state).bind
        (fun s' hs => Ensures.ok (Or.inr (applied ?_)))
      exact hs.mono (fun es he => .failed he)
    | succeeded =>
      refine (deleteTask_makes .succeeded h row').bind
        (fun s' hs => Ensures.ok (Or.inr (applied ?_)))
      exact hs.mono (fun es he => he ▸ .succeeded)

/-- The events of a batch of reports, with the answers they gave. -/
inductive ReportedAll (now : Time) :
    List ReportStatusRequestEntry → List ReportStatusResponseEntry → List Event → Prop where
  | nil : ReportedAll now [] [] []
  | skip {e : ReportStatusRequestEntry} {es : List ReportStatusRequestEntry} {result : ReportResult}
    {rs : List ReportStatusResponseEntry} {fs : List Event} (h : result ≠ .ok)
    (k : ReportedAll now es rs fs) : ReportedAll now (e :: es) (⟨e.taskId, result⟩ :: rs) fs
  | apply {e : ReportStatusRequestEntry} {es : List ReportStatusRequestEntry}
    {rs : List ReportStatusResponseEntry} {t : Task} {gs fs : List Event} (id : t.id = e.taskId)
    (state : t.state = .inProgress) (attempts : t.attempts = e.attempt)
    (h : Reported now t e.status gs) (k : ReportedAll now es rs fs) :
    ReportedAll now (e :: es) (⟨e.taskId, .ok⟩ :: rs) (gs ++ fs)

omit [OrderedStore] in
/-- What holds of the events of every applied report holds of the events of all. -/
theorem ReportedAll.all {P : Event → Prop} {now : Time} {entries : List ReportStatusRequestEntry}
    {rs : List ReportStatusResponseEntry} {es : List Event} (h : ReportedAll now entries rs es)
    (hP : ∀ t status es, Reported now t status es → ∀ e ∈ es, P e) : ∀ e ∈ es, P e := by
  induction h with
  | nil => simp
  | skip _ _ ih => exact ih
  | apply _ _ _ hr _ ih => exact List.forall_mem_append.mpr ⟨hP _ _ _ hr, ih⟩

theorem reportEntries_makes {now : Time} {dlqConfig : Option DeadLetterQueueConfig}
    (es : List ReportStatusRequestEntry) (s : State) (h : Indexed th s.rows) :
    Ensures th (reportEntries now dlqConfig s es)
      (fun a => Makes th (ReportedAll now es a.2) s a.1) := by
  induction es generalizing s with
  | nil => exact Ensures.ok (Makes.none .nil rfl)
  | cons e es ih =>
    rw [reportEntries]
    refine (reportStatus_makes h).bind (fun a ha => ?_)
    rcases ha with ⟨hne, ha⟩ | ⟨hok, t, row, state, hatt, hm⟩
    · rw [ha]
      refine (ih s h).bind (fun b hb => Ensures.ok ?_)
      exact hb.mono (fun fs hf => .skip hne hf)
    · refine (ih a.1 (hm.indexed h)).bind (fun b hb => Ensures.ok ?_)
      rw [hok]
      exact hm.trans hb (fun gs fs hg hf => .apply (h.key _ _ row) state hatt hg hf)

end Report

section Restart

variable {th : Prop}

theorem restartTask_rows (s : State) (t : Task) (now scheduledAt expiresAt : Time) :
    Ensures (t.threadId ≠ []) (restartTask s t now scheduledAt expiresAt) (fun a =>
      a.1.rows = s.rows.restart t (t.restart now scheduledAt expiresAt) ∧
        a.2 = t.restart now scheduledAt expiresAt) := by
  unfold restartTask
  refine (createTask_rows _ (t.restart now scheduledAt expiresAt)).bind
    (fun s' hs => Ensures.ok ⟨?_, rfl⟩)
  rw [hs]
  simp only [Rows.create, Rows.restart, rows_updateCounter, rows_removeExpiration, rows_removeDead,
    Rows.counter]
  congr 1
  have hq : (t.restart now scheduledAt expiresAt).id.queue = t.id.queue := rfl
  rw [hq, Table.get_set_self, Table.set_set]
  rfl

/-- An entry restarts a dead task whose key is free, or it changes nothing. -/
theorem restartEntry_makes {s : State} {q : QueueId} {now : Time} {e : RestartTasksRequestEntry}
    (h : Indexed th s.rows) :
    Ensures th (restartEntry q now s e) (fun a =>
      (a.2.result ≠ .restarted ∧ a.1 = s) ∨
      (a.2.result = .restarted ∧ ∃ t, s.rows.tasks.get (q.task e.taskId) = some t ∧
        t.state = .dead ∧ ¬t.expiresAt < now ∧
        Makes th (· = [.restarted t (t.restart now e.scheduledAt e.expiresAt)]) s a.1)) := by
  unfold restartEntry
  cases row : s.tasks.get (q.task e.taskId) with
  | none => exact Ensures.ok (Or.inl ⟨by simp, rfl⟩)
  | some t =>
    have hid := h.key _ _ row
    have row' : s.rows.tasks.get t.id = some t := by
      rw [hid]
      exact row
    refine Ensures.ite (fun _ => Ensures.ok (Or.inl ⟨by simp, rfl⟩)) (fun hs => ?_)
    refine Ensures.ite (fun _ => Ensures.ok (Or.inl ⟨by simp, rfl⟩)) (fun hx => ?_)
    refine Ensures.ite (fun _ => Ensures.ok (Or.inl ⟨by simp, rfl⟩)) (fun hc => ?_)
    have state : t.state = .dead := not_not.mp hs
    have hq : t.id.queue = q := by rw [hid]; rfl
    have free : t.dedupeKey ≠ [] → s.rows.dedupeKeysIndex.get t.dedupe = none := by
      intro hk
      cases hg : s.rows.dedupeKeysIndex.get t.dedupe with
      | none => rfl
      | some n =>
        -- a dead task holds no key, so the holder is another task
        obtain ⟨u, hu, hku⟩ := (h.dedupe _ n).mp hg
        have hn : n ≠ t.id.taskId := by
          intro hn
          have hown : dedupeKeys.owner t.dedupe n = t.id := by rw [hn]; rfl
          rw [hown] at hu hku
          rw [← Option.some.inj (row'.symm.trans hu)] at hku
          simp [dedupeKeys, Task.live, state] at hku
        have hg' : s.dedupeKeysIndex.get ⟨q, t.dedupeKey⟩ = some n := by
          rw [← hq]
          exact hg
        simp [dedupeConflict, hk, getTaskIdByDedupeKey, hg', hn] at hc
    refine ((restartTask_rows s t now _ _).weaken (h.calm _ _ row).1).bind
      (fun a ha => Ensures.ok (Or.inr ⟨rfl, t, row, state, hx, ?_⟩))
    exact Makes.one ha.1 (.restart row' state free) rfl

/-- The events of a batch of restarts: each concerns a task the batch names. -/
def Restarts (q : QueueId) (now : Time) (es : List RestartTasksRequestEntry) (evs : List Event) :
    Prop :=
  ∀ ev ∈ evs, ∃ e ∈ es, ∃ t, ev = .restarted t (t.restart now e.scheduledAt e.expiresAt) ∧
    t.id = q.task e.taskId

theorem restartEntries_makes {q : QueueId} {now : Time} (es : List RestartTasksRequestEntry)
    (s : State) (h : Indexed th s.rows) :
    Ensures th (restartEntries q now s es) (fun a => Makes th (Restarts q now es) s a.1) := by
  induction es generalizing s with
  | nil => exact Ensures.ok (Makes.none (by simp [Restarts]) rfl)
  | cons e es ih =>
    rw [restartEntries]
    refine (restartEntry_makes h).bind (fun a ha => ?_)
    have later : ∀ {evs : List Event}, Restarts q now es evs → Restarts q now (e :: es) evs := by
      intro evs hevs ev hev
      obtain ⟨e', he', hev⟩ := hevs ev hev
      exact ⟨e', List.mem_cons_of_mem _ he', hev⟩
    rcases ha with ⟨_, ha⟩ | ⟨_, t, row, _, _, hm⟩
    · rw [ha]
      exact (ih s h).bind (fun b hb => Ensures.ok (hb.mono (fun _ => later)))
    · refine (ih a.1 (hm.indexed h)).bind (fun b hb => Ensures.ok ?_)
      refine hm.trans hb ?_
      intro gs fs hg hf ev hev
      rcases List.mem_append.mp hev with hev | hev
      · rw [hg] at hev
        exact ⟨e, List.mem_cons_self, t, List.mem_singleton.mp hev, h.key _ _ row⟩
      · exact later hf ev hev

end Restart

end Moab
