import Moab.Tasks.FailedHeads
import Moab.Tasks.Intact

namespace Moab

open OrderedStore

variable [OrderedStore]

variable {s s' : State} {t u : Task} {now : Time} {th : Prop} {r r' : Rows} {id : TaskId}

/-- A failure or a deletion leases nothing: what is in progress afterwards was so
before, and the event was not about it. -/
theorem Step.leased_back {e : Event} (hs : Step th r e r')
    (hk : e.kind ∈ [EventKind.deleted, .retried, .died]) (hu : r'.tasks.get id = some u)
    (state : u.state = .inProgress) : e.task ≠ some id ∧ r.tasks.get id = some u := by
  have hput : ∀ v : Task, v.state ≠ .inProgress → (r.tasks.set v.id v).get id = some u →
      some v.id ≠ some id ∧ r.tasks.get id = some u := by
    intro v hv hget
    rw [Table.get_set] at hget
    split_ifs at hget with he
    · rw [← Option.some.inj hget] at state
      exact absurd state hv
    · exact ⟨fun heq => he (Option.some.inj heq).symm, hget⟩
  cases hs with
  | delete row =>
    rename_i t reason
    change (r.tasks.delete t.id).get id = some u at hu
    rw [Table.get_delete] at hu
    split_ifs at hu with he
    exact ⟨fun heq => he (Option.some.inj heq).symm, hu⟩
  | retry row st => exact hput (Task.retry _ _ _) (by simp [Task.retry]) hu
  | die row st => exact hput (Task.die _ _ _) (by simp [Task.die]) hu
  | _ => simp [Event.kind] at hk

theorem Steps.leased_back {es : List Event} (hs : Steps th r es r')
    (hk : ∀ e ∈ es, e.kind ∈ [EventKind.deleted, .retried, .died]) (hu : r'.tasks.get id = some u)
    (state : u.state = .inProgress) : (∀ e ∈ es, e.task ≠ some id) ∧ r.tasks.get id = some u := by
  induction hs with
  | nil => exact ⟨by simp, hu⟩
  | cons hstep _ ih =>
    obtain ⟨hrest, hmid⟩ := ih (fun e he => hk e (List.mem_cons_of_mem _ he)) hu
    obtain ⟨hfirst, hget⟩ := hstep.leased_back (hk _ List.mem_cons_self) hmid state
    exact ⟨List.forall_mem_cons.mpr ⟨hfirst, hrest⟩, hget⟩

omit [OrderedStore] in
/-- A failure is first of all about the task that failed. -/
theorem Failed.task_mem {es : List Event} (h : Failed t now es) : ∃ e ∈ es, e.task = some t.id := by
  cases h with
  | _ => exact ⟨_, List.mem_cons_self, rfl⟩

/-- The tables agree with the rows, and a thread whose head is leased is whole. -/
structure Manned (s : State) : Prop where
  heads : Heads WellFormed.anyScope s
  indexed : Indexed True s.rows
  whole : ∀ id t, s.tasks.get id = some t → t.state = .inProgress → t.threadId ≠ [] →
    (s.strand t.threadKey).Whole

theorem WellFormed.manned (h : WellFormed s) : Manned s where
  heads := h.heads
  indexed := h.indexed
  whole id t row state hne := by
    obtain ⟨thread, hthread, _⟩ := (h.leased id t row state).resolve_left hne
    exact h.whole hne (fun _ _ _ => by simp [hthread])

/-- A step about one leased task that leaves the other threads alone. -/
theorem Manned.next (h : Manned s) (row : s.tasks.get t.id = some t)
    (state : t.state = .inProgress) (heads : Heads WellFormed.anyScope s')
    (indexed : Indexed True s'.rows) (hl : Local t.threadKey s s')
    (hback : ∀ id u, id ≠ t.id → s'.tasks.get id = some u → u.state = .inProgress →
      s.tasks.get id = some u)
    (hself : ∀ u, s'.tasks.get t.id = some u → u.state = .inProgress → u.threadId ≠ [] →
      (s'.strand u.threadKey).Whole) : Manned s' := by
  refine ⟨heads, indexed, ?_⟩
  intro id u hu stateu threaded
  by_cases hid : id = t.id
  · rw [hid] at hu
    exact hself u hu stateu threaded
  · have hu0 := hback id u hid hu stateu
    have huid := h.heads.keyed id u hu0
    have hkey : u.threadKey ≠ t.threadKey := by
      intro hkey
      have hth : u.threadId = t.threadId := congrArg ThreadKey.threadId hkey
      exact hid (huid.symm.trans (h.heads.leased_apart row (huid ▸ hu0) state stateu
        (hth ▸ threaded) hkey))
    rw [hl _ hkey]
    exact h.whole id u hu0 stateu threaded

theorem handleTaskFailure_manned (dlqConfig : Option DeadLetterQueueConfig) (h : Manned s)
    (row : s.tasks.get t.id = some t) (state : t.state = .inProgress) :
    Ensures True (handleTaskFailure s t now dlqConfig) Manned := by
  have hstrands : Ensures True (handleTaskFailure s t now dlqConfig) (Fails now t s) :=
    (handleTaskFailure_strands now dlqConfig h.heads h.indexed row state
      (fun hne => h.whole _ t row state hne) (fun hc => hc)).weaken (fun _ => trivial)
  have hheads := handleTaskFailure_heads now dlqConfig h.heads h.indexed row state
    (fun hc => hc.elim) (fun hc => hc.elim)
  have hmakes : Ensures True (handleTaskFailure s t now dlqConfig) _ :=
    handleTaskFailure_makes now dlqConfig h.indexed row state
  refine ((hstrands.both hheads).both hmakes).mono ?_
  intro s' hs'
  obtain ⟨⟨hfails, hh'⟩, es, hes, hfailed⟩ := hs'
  refine h.next row state hh' (h.indexed.steps hes) hfails.away ?_ ?_
  · intro id u _ hu stateu
    exact (hes.leased_back hfailed.kinds hu stateu).2
  · intro u hu stateu
    obtain ⟨e, he, htask⟩ := hfailed.task_mem
    exact absurd htask ((hes.leased_back hfailed.kinds hu stateu).1 e he)

/-- The row of a leased member is written, and the thread does not see it. -/
theorem Strand.Whole.setLeased {k : ThreadKey} (h : (s.strand k).Whole)
    (row : s.tasks.get t.id = some u) (stateu : u.state = .inProgress)
    (state : t.state = .inProgress) (hth : u.threadId = t.threadId) (hface : t.face = u.face)
    (hkey : t.threadKey = k) : ((s.setTask t).strand k).Whole := by
  subst hkey
  refine h.alike rfl rfl (liveRow_setTask_face row (by simp [Task.live, stateu])
    (by simp [Task.live, state]) hth hface) ?_
  intro thread v hr hv hst
  have hv' : (s.setTask t).liveRow t.threadKey thread.headTaskId.taskId = some v := hv
  by_cases hn : thread.headTaskId.taskId = t.id.taskId
  · -- the head is worked
    have hself : (s.setTask t).liveRow t.threadKey t.id.taskId = some t :=
      liveRow_eq_some.mpr ⟨Table.get_set_self .., by simp [Task.live, state], rfl⟩
    rw [hn, hself] at hv'
    rw [← Option.some.inj hv', state] at hst
    simp at hst
  · rw [liveRow_setTask_ne hn] at hv'
    have hid : v.id = thread.headTaskId := by
      obtain ⟨w, hw, hwid⟩ := h.head thread hr
      rw [← hwid, ← Option.some.inj (hw.symm.trans hv')]
    obtain ⟨hmem, hlive⟩ := h.queued thread v hr hv' hst
    refine ⟨hmem, ?_⟩
    change (s.setTask t).liveRow t.threadKey v.id.taskId ≠ none
    rw [liveRow_setTask_ne (by rw [hid]; exact hn)]
    exact hlive

/-- A heartbeat keeps the thread of the task. -/
theorem heartbeatTask_whole (keepalive : Time) (h : Heads WellFormed.anyScope s)
    (row : s.tasks.get t.id = some t) (state : t.state = .inProgress) :
    Ensures True (heartbeatTask s t now keepalive) (fun s' => Local t.threadKey s s' ∧
      (t.threadId ≠ [] → (s.strand t.threadKey).Whole → (s'.strand t.threadKey).Whole)) := by
  unfold heartbeatTask
  dsimp only
  generalize ht' : ({ t with visibleAt := plusSeconds now keepalive } : Task) = t'
  have hid : t'.id = t.id := by rw [← ht']
  have hth : t.threadId = t'.threadId := by rw [← ht']
  have hkey : t'.threadKey = t.threadKey := by
    rw [← ht']
    rfl
  have state' : t'.state = .inProgress := by
    rw [← ht']
    exact state
  have hface : t'.face = t.face := by
    rw [← ht']
    rfl
  have hsame : SameHeads s (s.removeInProgress t) := ⟨rfl, rfl, rfl, rfl⟩
  have row' : (s.removeInProgress t).tasks.get t'.id = some t := by
    rw [hid]
    exact row
  have hlocal : Local t.threadKey s ((s.removeInProgress t).setTask t') := by
    refine (Local.same hsame).trans ?_
    rw [← hkey]
    refine Local.setTask ?_ ?_
    · intro u hu _
      rw [← Option.some.inj (row'.symm.trans hu), hkey]
    · intro u hu
      rw [← Option.some.inj (row'.symm.trans hu), hid]
  have hwhole : (s.strand t.threadKey).Whole →
      (((s.removeInProgress t).setTask t').strand t.threadKey).Whole := by
    intro hw
    rw [← hsame.strand] at hw
    exact hw.setLeased row' state state' hth hface hkey
  unfold renewThread
  by_cases hnil : t'.threadId = []
  · rw [if_pos hnil]
    exact Ensures.ok ⟨hlocal, fun hne => absurd (hth.trans hnil) hne⟩
  · rw [if_neg hnil, hkey]
    unfold State.getThread
    cases hk : ((s.removeInProgress t).setTask t').threads.get t.threadKey with
    | none => exact Ensures.error trivial
    | some thread =>
      have htid := (h.thread_key _ thread hk).1
      by_cases hhead : thread.headTaskId.taskId ≠ t'.id.taskId
      · simp only [bind, Except.bind, if_pos hhead]
        exact Ensures.error trivial
      · simp only [bind, Except.bind, if_neg hhead]
        have hq : t'.id.queue = t.threadKey.queue := by rw [hid]; rfl
        rw [hq]
        refine Ensures.ok ⟨?_, fun _ hw => ?_⟩
        · have hset : Local t.threadKey s (((s.removeInProgress t).setTask t').setThread
              t.threadKey.queue { thread with visibleAt := t'.visibleAt }) := hlocal.setThread htid
          exact hset.trans (Local.same ⟨rfl, rfl, rfl, rfl⟩)
        · have hset := (hwhole hw).setVisible hk t'.visibleAt
          rw [← strand_setVisible htid] at hset
          exact hset

theorem heartbeatTask_manned (keepalive : Time) (h : Manned s)
    (row : s.tasks.get t.id = some t) (state : t.state = .inProgress) :
    Ensures True (heartbeatTask s t now keepalive) Manned := by
  have hrows : Ensures True (heartbeatTask s t now keepalive) _ :=
    (heartbeatTask_rows s t now keepalive).weaken (fun _ => trivial)
  refine (((heartbeatTask_whole keepalive h.heads row state).both
    (heartbeatTask_heads now keepalive h.heads row)).both hrows).mono ?_
  intro s' hs'
  obtain ⟨⟨⟨hlocal, hwhole⟩, hh'⟩, hr'⟩ := hs'
  have hstep : Step True s.rows (.renewed t { t with visibleAt := plusSeconds now keepalive })
      s'.rows := by
    rw [hr']
    exact .renew row state
  have htasks : s'.tasks = s.tasks.set t.id { t with visibleAt := plusSeconds now keepalive } :=
    congrArg Rows.tasks hr'
  refine h.next row state hh' (h.indexed.step hstep) hlocal ?_ ?_
  · intro id u hid hu _
    rw [htasks, Table.get_set_ne _ _ hid] at hu
    exact hu
  · intro u hu _ threaded
    rw [htasks, Table.get_set_self] at hu
    rw [← Option.some.inj hu] at threaded ⊢
    exact hwhole threaded (h.whole _ t row state threaded)

theorem deleteTask_manned (reason : TaskDeletionReason) (h : Manned s)
    (row : s.tasks.get t.id = some t) (state : t.state = .inProgress) :
    Ensures True (deleteTask s t reason) Manned := by
  have hrows : Ensures True (deleteTask s t reason) _ :=
    (deleteTask_rows s t reason).weaken (fun _ => trivial)
  have htends : Ensures True (deleteTask s t reason) (Tends t.threadKey s) :=
    (deleteTask_tends h.heads row reason (fun _ => h.whole _ t row state)).weaken False.elim
  have hheads := deleteTask_heads h.heads row reason (fun hc => hc.elim)
  refine ((htends.both hheads).both hrows).mono ?_
  intro s' hs'
  obtain ⟨⟨htends, hh'⟩, hr'⟩ := hs'
  have hstep : Step True s.rows (.deleted t reason) s'.rows := by
    rw [hr']
    exact .delete row
  refine h.next row state hh' (h.indexed.step hstep) htends.away ?_ ?_
  · intro id u _ hu stateu
    exact (hstep.leased_back (by simp [Event.kind]) hu stateu).2
  · intro u hu stateu
    exact absurd rfl (hstep.leased_back (by simp [Event.kind]) hu stateu).1

theorem reportStep_manned (dlqConfig : Option DeadLetterQueueConfig) (h : Manned s)
    (e : ReportStatusRequestEntry) : Ensures True (reportStep now dlqConfig s e) Manned := by
  refine Ensures.map ?_
  unfold reportStatus
  cases row : s.tasks.get e.taskId with
  | none => exact Ensures.ok h
  | some t =>
    have hid := h.heads.keyed _ t row
    rw [← hid] at row
    apply Ensures.ite
    · exact fun _ => Ensures.ok h
    · intro hs
      have state : t.state = .inProgress := not_not.mp hs
      apply Ensures.ite
      · exact fun _ => Ensures.ok h
      · intro _
        cases e.status with
        | invalid => exact Ensures.ok h
        | inProgress =>
          exact (heartbeatTask_manned _ h row state).bind (fun s' hs' => Ensures.ok hs')
        | failed =>
          exact (handleTaskFailure_manned dlqConfig h row state).bind
            (fun s' hs' => Ensures.ok hs')
        | succeeded =>
          exact (deleteTask_manned .succeeded h row state).bind (fun s' hs' => Ensures.ok hs')

end Moab
