import Moab.Tasks.DeadLetters
import Moab.Tasks.Turns

namespace Moab

open OrderedStore

section Store

variable [OrderedStore] {s s' w : State} {t u : Task} {now : Time} {p q : QueueId} {id : TaskId}
  {dlqConfig : Option DeadLetterQueueConfig} {a b e : ReportStatusRequestEntry}

section Turns

omit [OrderedStore]

theorem Task.turn_retry (h : t.turn now dlqConfig e = .retry) : t.exhausted = false := by
  unfold Task.turn at h
  split at h
  · exact absurd h (by simp)
  · split at h
    · exact absurd h (by simp)
    · exact absurd h (by simp)
    · exact absurd h (by simp)
    · split_ifs at h with _ hspent
      · split at h
        · exact absurd h (by simp)
        · split_ifs at h
      · simpa using hspent

theorem Task.turn_kills {dlq : DeadLetterQueueConfig}
    (h : (t.turn now dlqConfig e).kills = some dlq) : dlqConfig = some dlq := by
  have hdie := Turn.eq_die_of_kills h
  unfold Task.turn at hdie
  split at hdie
  · exact absurd hdie (by simp)
  · split at hdie
    · exact absurd hdie (by simp)
    · exact absurd hdie (by simp)
    · exact absurd hdie (by simp)
    · split_ifs at hdie with _ hspent
      split at hdie
      · exact absurd hdie (by simp)
      · split_ifs at hdie
        rw [Turn.die.inj hdie]

theorem Task.turn_agree (t u : Task) (now : Time) (dlqConfig : Option DeadLetterQueueConfig)
    (a b : ReportStatusRequestEntry) : (t.turn now dlqConfig a).Agree (u.turn now dlqConfig b) := by
  intro c d hc hd
  exact Option.some.inj ((Task.turn_kills hc).symm.trans (Task.turn_kills hd))

end Turns

/-- All that a report on a leased task may look at: its row, its dedupe key and its
thread. The counter of the queue is only tallied. -/
def State.leaseArea (s : State) (t : Task) : Area where
  task id := id = t.id ∨
    t.threadId ≠ [] ∧ ∃ i ∈ s.threadedTasksIndex.items t.threadKey, id = t.id.queue.task i.taskId
  dedupeKey k := t.dedupeKey ≠ [] ∧ k = t.dedupe
  thread k := t.threadId ≠ [] ∧ k = t.threadKey
  counter _ := False
  tally q := q = t.id.queue
  queue _ := False

theorem leaseArea_covers (s : State) (t : Task) : (s.leaseArea t).Covers t where
  task := Or.inl rfl
  dedupeKey h := ⟨h, rfl⟩
  thread h := ⟨h, rfl⟩
  counter := Or.inr rfl

namespace Manned

variable (h : Manned s)

include h

/-- The members of a leased task's thread are live rows. -/
theorem member_row (row : s.tasks.get t.id = some t) (state : t.state = .inProgress)
    (threaded : t.threadId ≠ []) {i : IndexItem} (hi : i ∈ s.threadedTasksIndex.items t.threadKey) :
    ∃ u, s.tasks.get (t.id.queue.task i.taskId) = some u ∧ u.live ∧ u.threadId = t.threadId := by
  obtain ⟨u, hu, _⟩ := ((h.whole _ t row state threaded).member i).mp hi
  exact ⟨u, liveRow_eq_some.mp hu⟩

/-- Every row of the area is live, and it is the task itself or of its thread. -/
theorem area_row (row : s.tasks.get t.id = some t) (state : t.state = .inProgress)
    (hid : (s.leaseArea t).task id) : ∃ u, s.tasks.get id = some u ∧ u.live ∧
      (u = t ∨ t.threadId ≠ [] ∧ u.threadKey = t.threadKey) := by
  rcases hid with hid | ⟨threaded, i, hi, hid⟩
  · rw [hid]
    exact ⟨t, row, by simp [Task.live, state], Or.inl rfl⟩
  · obtain ⟨u, rowu, live, hth⟩ := h.member_row row state threaded hi
    have huid := h.indexed.key _ u rowu
    rw [hid]
    refine ⟨u, rowu, live, Or.inr ⟨threaded, ?_⟩⟩
    rw [Task.threadKey, Task.threadKey, hth, huid]
    rfl

theorem area_proper (row : s.tasks.get t.id = some t) (state : t.state = .inProgress) :
    (s.leaseArea t).ProperIn s := by
  intro a v ha hv
  cases a with
  | task id => exact h.indexed.key id v hv
  | thread k =>
    obtain ⟨threaded, rfl⟩ := ha
    have hkey := h.heads.thread_key _ v hv
    obtain ⟨thread, hthread, hhead⟩ := h.heads.leased_head _ t row state threaded
    obtain rfl : thread = v := Option.some.inj (hthread.symm.trans hv)
    exact ⟨⟨threaded, by rw [hkey.1]⟩, hkey.2.1, Or.inl hhead⟩
  | member k i =>
    obtain ⟨threaded, rfl⟩ := ha
    have hi : i ∈ s.threadedTasksIndex.items t.threadKey := of_presence hv
    exact Or.inr ⟨threaded, i, hi, rfl⟩
  | _ => trivial

/-- The areas of two leased tasks have nothing in common. -/
theorem area_disjoint (rowt : s.tasks.get t.id = some t) (rowu : s.tasks.get u.id = some u)
    (statet : t.state = .inProgress) (stateu : u.state = .inProgress) (hne : t.id ≠ u.id) :
    ∀ a, (s.leaseArea t).Owns a → ¬(s.leaseArea u).Owns a := by
  have hthread : t.threadId ≠ [] → t.threadKey ≠ u.threadKey := fun threaded hkey =>
    hne (h.heads.leased_apart rowt rowu statet stateu threaded hkey.symm).symm
  have htask : ∀ id, (s.leaseArea t).task id → ¬(s.leaseArea u).task id := by
    intro id ht hu
    obtain ⟨x, hx, _, hxt⟩ := h.area_row rowt statet ht
    obtain ⟨y, hy, _, hyu⟩ := h.area_row rowu stateu hu
    obtain rfl := Option.some.inj (hx.symm.trans hy)
    rcases hxt with rfl | ⟨threaded, hxt⟩
    · rcases hyu with rfl | ⟨threaded, hxu⟩
      · exact hne rfl
      · have hth : x.threadId = u.threadId := congrArg ThreadKey.threadId hxu
        exact hthread (hth ▸ threaded) hxu
    · rcases hyu with rfl | ⟨_, hxu⟩
      · exact hthread threaded hxt.symm
      · exact hthread threaded (hxt.symm.trans hxu)
  intro a ha hu
  cases a with
  | task id => exact htask id ha hu
  | queued q i | inProgress q i | dead q i | expiration i => exact htask _ ha hu
  | dedupeKey k =>
    have hclaim : ∀ v : Task, v.state = .inProgress → v.dedupeKey ≠ [] →
        dedupeKeys.key v.id v = some v.dedupe :=
      fun v state hkey => if_pos ⟨by simp [Task.live, state], hkey⟩
    have hu' := hclaim u stateu hu.1
    rw [← hu.2, ha.2] at hu'
    exact hne (h.indexed.dedupe.eq_of_key rowt rowu (hclaim t statet ha.1) hu')
  | thread k | member k i => exact hthread ha.1 (ha.2.symm.trans hu.2)
  | _ => exact ha

end Manned

/-- An area in which the report on a leased task can be carried out. -/
structure Area.Holds (A : Area) (t : Task) (s : State) : Prop where
  covers : A.Covers t
  blind : ∀ q, ¬A.counter q
  proper : A.ProperIn s
  live : ∀ id, A.task id → ∃ u, s.tasks.get id = some u ∧ u.live

theorem Manned.holds (h : Manned s) (row : s.tasks.get t.id = some t)
    (state : t.state = .inProgress) : (s.leaseArea t).Holds t s where
  covers := leaseArea_covers s t
  blind _ := id
  proper := h.area_proper row state
  live _ hid := by
    obtain ⟨u, hu, live, _⟩ := h.area_row row state hid
    exact ⟨u, hu, live⟩

namespace Area.Holds

variable {A B : Area} {F : Table QueueId TasksCounter → Table QueueId TasksCounter}
  {f : State → Except CoreError State} {L : List Task}

/-- The part of a report about the task is an errand in it. -/
theorem turn_errand (hA : A.Holds t s) (state : t.state = .inProgress) (now : Time)
    (dlqConfig : Option DeadLetterQueueConfig) (e : ReportStatusRequestEntry) :
    Errand A ((t.turn now dlqConfig e).books t.id.queue) ((t.turn now dlqConfig e).own now t) where
  blind := hA.blind
  confined s₀ s u h := by
    cases t.turn now dlqConfig e with
    | keep => exact .ok h
    | renew keepalive => exact h.heartbeatTask hA.covers keepalive
    | remove reason => exact h.deleteTask hA.covers reason
    | retry => exact h.failTaskToRetry hA.covers
    | die dlq => exact h.moveToDead hA.covers dlq
  books s := (Turn.own_rewrites s _ Task.turn_retry).mono (fun _ h => h.counters state)

/-- An errand elsewhere leaves the area as it is. -/
theorem after (hB : B.Holds u s) (hf : Errand A F f) (hA : A.ProperIn s)
    (hAB : ∀ a, A.Owns a → ¬B.Owns a) (hs : f s = .ok s') : B.Holds u s' := by
  have hsame : ∀ a, B.Owns a → s.value a = s'.value a := by
    intro a ha
    refine (hf.frame hA hs (fun hAa => hAB a hAa ha) ?_).symm
    intro q he
    subst he
    exact hB.blind q ha
  refine ⟨hB.covers, hB.blind, hB.proper.congr hsame, ?_⟩
  intro id hid
  obtain ⟨x, hx, live⟩ := hB.live id hid
  exact ⟨x, (hsame (.task id) hid).symm.trans hx, live⟩

/-- Dead tasks are not in it. -/
theorem burial_disjoint (hA : A.Holds t s) (hL : ∀ x ∈ L, Buriable s q x) :
    ∀ a, (burialArea L).Owns a → ¬A.Owns a := by
  have htask : ∀ id, (burialArea L).task id → ¬A.task id := by
    intro id hid hAid
    obtain ⟨x, hx, rfl⟩ := List.mem_map.mp hid
    obtain ⟨y, hy, live⟩ := hA.live _ hAid
    have hb := hL x hx
    rw [← Option.some.inj (hb.row.symm.trans hy)] at live
    simp [Task.live, hb.dead] at live
  intro a ha
  cases a with
  | task id => exact htask id ha
  | queued q i | inProgress q i | dead q i | expiration i => exact htask _ ha
  | _ => exact ha.elim

theorem row_buryAll (hA : A.Holds t s) (hL : ∀ x ∈ L, Buriable s q x) :
    (s.buryAll L).tasks.get t.id = s.tasks.get t.id := by
  rw [State.get_buryAll, if_neg]
  exact fun hid => hA.burial_disjoint hL (.task t.id) hid hA.covers.task

/-- The part of a report about the task may be done before dead tasks are buried. -/
theorem turn_before_burial {z : State} (hA : A.Holds t s) (hi : Indexed True s.rows)
    (state : t.state = .inProgress) (hL : ∀ x ∈ L, Buriable s q x)
    (hz : (t.turn now dlqConfig e).own now t (s.buryAll L) = .ok z) :
    ∃ v, (t.turn now dlqConfig e).own now t s = .ok v ∧ z = v.buryAll L := by
  obtain ⟨v, hv, hzv⟩ := (burial_errand L).commute (hA.turn_errand state now dlqConfig e)
    (Turn.burialBooks_books L _ _) (hA.burial_disjoint hL) (burialArea_proper hi.key L) hA.proper
    rfl hz
  exact ⟨v, hv, (Except.ok.inj hzv).symm⟩

theorem turn_after_burial {v : State} (hA : A.Holds t s) (hi : Indexed True s.rows)
    (state : t.state = .inProgress) (hL : ∀ x ∈ L, Buriable s q x)
    (hv : (t.turn now dlqConfig e).own now t s = .ok v) :
    (t.turn now dlqConfig e).own now t (s.buryAll L) = .ok (v.buryAll L) := by
  obtain ⟨x, hx, hxv⟩ := (hA.turn_errand state now dlqConfig e).commute (burial_errand L)
    (fun x => (Turn.burialBooks_books L _ _ x).symm) (fun a ha hd => hA.burial_disjoint hL a hd ha)
    hA.proper (burialArea_proper hi.key L) hv rfl
  rw [Except.ok.inj hx]
  exact hxv

end Area.Holds

theorem Indexed.spill_buriable (h : Indexed True s.rows) (turn : Turn) (q : QueueId) :
    ∀ x ∈ turn.spill q s, Buriable s q x := by
  intro x hx
  unfold Turn.spill at hx
  split at hx
  · exact h.buriable hx
  · exact absurd hx (by simp)

/-- A report on a leased task that succeeds, in its two parts. -/
theorem reportStep_parts (h : Manned s) (row : s.tasks.get e.taskId = some t)
    (state : t.state = .inProgress) (hs : reportStep now dlqConfig s e = .ok s') :
    ∃ s₁, (t.turn now dlqConfig e).own now t s = .ok s₁ ∧ Indexed True s₁.rows ∧
      (t.turn now dlqConfig e).Rewrites now t s.rows s₁.rows ∧
      s' = s₁.buryAll ((t.turn now dlqConfig e).spill t.id.queue s₁) := by
  rw [reportStep_eq h.indexed row state] at hs
  have hid := h.indexed.key _ t row
  cases hown : (t.turn now dlqConfig e).own now t s with
  | error err =>
    rw [hown] at hs
    cases hs
  | ok s₁ =>
    rw [hown] at hs
    have hrows := (Turn.own_rewrites s _ Task.turn_retry).elim hown
    exact ⟨s₁, rfl, hrows.indexed h.indexed (hid ▸ row) state, hrows, (Except.ok.inj hs).symm⟩

/-- Two reports on different leased tasks can be handled in either order. -/
theorem reportStep_swap_leased (h : Manned s) (rowt : s.tasks.get a.taskId = some t)
    (rowu : s.tasks.get b.taskId = some u) (statet : t.state = .inProgress)
    (stateu : u.state = .inProgress) (hne : a.taskId ≠ b.taskId)
    (ha : reportStep now dlqConfig s a = .ok s') (hb : reportStep now dlqConfig s' b = .ok w) :
    ∃ s₂, reportStep now dlqConfig s b = .ok s₂ ∧ reportStep now dlqConfig s₂ a = .ok w := by
  have h' := (reportStep_manned dlqConfig h a).elim ha
  have hidt := h.indexed.key _ t rowt
  have hidu := h.indexed.key _ u rowu
  rw [← hidt] at rowt hne
  rw [← hidu] at rowu hne
  have hAB := h.area_disjoint rowt rowu statet stateu hne
  have hBA : ∀ a, (s.leaseArea u).Owns a → ¬(s.leaseArea t).Owns a := fun a hu ht => hAB a ht hu
  have hA := h.holds rowt statet
  have hB := h.holds rowu stateu
  have hownt := hA.turn_errand statet now dlqConfig a
  have hownu := hB.turn_errand stateu now dlqConfig b
  -- in the order given, x after the first task's own part and z after the second's
  obtain ⟨x, hx, hix, hsx, hs'⟩ := reportStep_parts h (hidt ▸ rowt) statet ha
  have hBx := hB.after hownt hA.proper hAB hx
  have rowx : x.tasks.get u.id = some u := (hsx.frame (Ne.symm hne)).trans rowu
  have rowu' : s'.tasks.get b.taskId = some u := by
    rw [hs', ← hidu, hBx.row_buryAll (hix.spill_buriable _ _), rowx]
  obtain ⟨z, hz, _, _, hw⟩ := reportStep_parts h' rowu' stateu hb
  -- both own parts come before the evictions: v after them, y after the second's alone
  rw [hs'] at hz
  obtain ⟨v, hv, hzv⟩ := hBx.turn_before_burial hix stateu (hix.spill_buriable _ _) hz
  obtain ⟨y, hy, hyv⟩ := hownt.commute hownu (Turn.books_comm _ _ _ _) hAB hA.proper hB.proper hx hv
  have hsy := (Turn.own_rewrites s _ Task.turn_retry).elim hy
  have hiy := hsy.indexed h.indexed rowu stateu
  have rowy : y.tasks.get t.id = some t := (hsy.frame hne).trans rowt
  have hAy := hA.after hownu hB.proper hBA hy
  have hlast := hAy.turn_after_burial hiy statet
    (hiy.spill_buriable (u.turn now dlqConfig b) u.id.queue) hyv
  have hfirst : reportStep now dlqConfig s b =
      .ok (y.buryAll ((u.turn now dlqConfig b).spill u.id.queue y)) := by
    rw [reportStep_eq h.indexed (hidu ▸ rowu) stateu, hy]
    rfl
  refine ⟨_, hfirst, ?_⟩
  have h₂ := (reportStep_manned dlqConfig h b).elim hfirst
  have rowt' : (y.buryAll ((u.turn now dlqConfig b).spill u.id.queue y)).tasks.get a.taskId =
      some t := by
    rw [← hidt, hAy.row_buryAll (hiy.spill_buriable _ _), rowy]
  rw [reportStep_eq h₂.indexed rowt' statet, hlast, hw, hzv]
  refine congrArg Except.ok ?_
  rw [← State.buryAll_append, ← State.buryAll_append]
  have hsv := (Turn.own_rewrites x _ Task.turn_retry).elim hv
  have hvy := (Turn.own_rewrites y _ Task.turn_retry).elim hyv
  refine State.buryAll_perm ?_ v
  have htwo := hvy.spill_after hiy rowy statet (u.turn now dlqConfig b) u.id.queue
    (Task.turn_agree _ _ _ _ _ _)
  have hone := hsv.spill_after hix rowx stateu (t.turn now dlqConfig a) t.id.queue
    (Task.turn_agree _ _ _ _ _ _)
  exact (htwo.trans (Turn.spills_comm (Task.turn_agree _ _ _ _ _ _) _ _ v)).trans hone.symm

/-- The report names a task that is being worked. -/
def Leased (s : State) (id : TaskId) : Prop :=
  ∃ t, s.tasks.get id = some t ∧ t.state = .inProgress

theorem reportStep_idle (hidle : ¬Leased s e.taskId) : reportStep now dlqConfig s e = .ok s := by
  unfold reportStep reportStatus
  cases row : s.tasks.get e.taskId with
  | none => rfl
  | some t =>
    dsimp only
    rw [if_pos (fun state => hidle ⟨t, row, state⟩)]
    rfl

/-- A report on one task decides nothing about the lease of another. -/
theorem reportStep_leased (h : Manned s) (hs : reportStep now dlqConfig s e = .ok s')
    (hid : id ≠ e.taskId) (state : t.state = .inProgress) :
    s'.tasks.get id = some t ↔ s.tasks.get id = some t := by
  by_cases hleased : Leased s e.taskId
  · obtain ⟨u, row, stateu⟩ := hleased
    obtain ⟨x, _, hix, hsx, hs'⟩ := reportStep_parts h row stateu hs
    have hother : x.tasks.get id = s.tasks.get id :=
      hsx.frame (by rw [h.indexed.key _ u row]; exact hid)
    rw [hs', State.get_buryAll, ← hother]
    split_ifs with hgone
    · obtain ⟨v, hv, rfl⟩ := List.mem_map.mp hgone
      have hb := hix.spill_buriable _ _ v hv
      rw [hb.row]
      constructor
      · exact fun hnone => nomatch hnone
      · intro hv
        rw [← Option.some.inj hv, hb.dead] at state
        exact nomatch state
    · rfl
  · rw [reportStep_idle hleased] at hs
    rw [Except.ok.inj hs]

theorem reportStep_leased_iff (h : Manned s) (hs : reportStep now dlqConfig s e = .ok s')
    (hid : id ≠ e.taskId) : Leased s' id ↔ Leased s id := by
  constructor
  · intro hl
    obtain ⟨t, row, state⟩ := hl
    exact ⟨t, (reportStep_leased h hs hid state).mp row, state⟩
  · intro hl
    obtain ⟨t, row, state⟩ := hl
    exact ⟨t, (reportStep_leased h hs hid state).mpr row, state⟩

theorem reportStep_swap (h : Manned s) (hne : a.taskId ≠ b.taskId)
    (ha : reportStep now dlqConfig s a = .ok s') (hb : reportStep now dlqConfig s' b = .ok w) :
    ∃ s₂, reportStep now dlqConfig s b = .ok s₂ ∧ reportStep now dlqConfig s₂ a = .ok w := by
  have hleasedb := reportStep_leased_iff h ha (Ne.symm hne)
  by_cases hla : Leased s a.taskId
  · by_cases hlb : Leased s b.taskId
    · obtain ⟨t, rowt, statet⟩ := hla
      obtain ⟨u, rowu, stateu⟩ := hlb
      exact reportStep_swap_leased h rowt rowu statet stateu hne ha hb
    · -- only the first report does something
      rw [reportStep_idle (fun hl => hlb (hleasedb.mp hl))] at hb
      rw [Except.ok.inj hb] at ha
      exact ⟨s, reportStep_idle hlb, ha⟩
  · rw [reportStep_idle hla] at ha
    rw [← Except.ok.inj ha] at hb
    exact ⟨w, hb, reportStep_idle (fun hl => hla ((reportStep_leased_iff h hb hne).mp hl))⟩

section Batches

/-- What the worker of a leased task is told. -/
def Task.verdict (t : Task) (e : ReportStatusRequestEntry) : ReportResult :=
  if t.attempts ≠ e.attempt then .staleAttempt
  else if e.status = .invalid then .invalid
  else .ok

theorem reportStatus_verdict (row : s.tasks.get e.taskId = some t) (state : t.state = .inProgress) :
    Ensures True (reportStatus s e.taskId now e.status e.attempt
      e.keepaliveTimeoutInSeconds dlqConfig)
      (fun a => a.2 = t.verdict e) := by
  unfold reportStatus Task.verdict
  rw [row]
  dsimp only
  rw [if_neg (not_not.mpr state)]
  by_cases hattempt : t.attempts ≠ e.attempt
  · rw [if_pos hattempt, if_pos hattempt]
    exact Ensures.ok rfl
  · rw [if_neg hattempt, if_neg hattempt]
    cases e.status with
    | invalid => exact Ensures.ok rfl
    | inProgress | failed | succeeded => exact Ensures.bind_any (fun _ => Ensures.ok rfl)

variable {es es' : List ReportStatusRequestEntry}

/-- The state after a batch is that of its reports one after the other. -/
theorem reportEntries_state (s : State) (es : List ReportStatusRequestEntry) :
    (reportEntries now dlqConfig s es).map Prod.fst = es.foldlM (reportStep now dlqConfig) s := by
  induction es generalizing s with
  | nil => rfl
  | cons e es ih =>
    rw [reportEntries, List.foldlM_cons, reportStep]
    cases reportStatus s e.taskId now e.status e.attempt e.keepaliveTimeoutInSeconds dlqConfig with
    | error err => rfl
    | ok a =>
      have hstate : ∀ x : Except CoreError (State × List ReportStatusResponseEntry),
          (x >>= fun b => Except.ok (b.1, ⟨e.taskId, a.2⟩ :: b.2)).map Prod.fst =
          x.map Prod.fst := by
        intro x
        cases x with
        | error err => rfl
        | ok b => rfl
      exact (hstate _).trans (ih a.1)

/-- The answers are about the entries in their order, and a leased task's answer is read
off from its row before the batch. -/
theorem reportEntries_answers (es : List ReportStatusRequestEntry) (s : State) (h : Manned s)
    (hn : (es.map (·.taskId)).Nodup) :
    Ensures True (reportEntries now dlqConfig s es)
      (fun b => b.2.map (·.taskId) = es.map (·.taskId) ∧
      ∀ e ∈ es, ∀ t, s.tasks.get e.taskId = some t → t.state = .inProgress →
        ⟨e.taskId, t.verdict e⟩ ∈ b.2) := by
  induction es generalizing s with
  | nil => exact Ensures.ok ⟨rfl, by simp⟩
  | cons e es ih =>
    obtain ⟨hfirst, hn⟩ := List.nodup_cons.mp hn
    rw [reportEntries]
    cases hstatus : reportStatus s e.taskId now e.status e.attempt e.keepaliveTimeoutInSeconds
        dlqConfig with
    | error err => exact Ensures.error trivial
    | ok a =>
      have hstep : reportStep now dlqConfig s e = .ok a.1 := by
        rw [reportStep, hstatus]
        rfl
      refine (ih a.1 ((reportStep_manned dlqConfig h e).elim hstep) hn).bind ?_
      intro b hb
      obtain ⟨hids, hanswers⟩ := hb
      refine Ensures.ok ⟨?_, ?_⟩
      · rw [List.map_cons, List.map_cons, hids]
      · intro e' he' t row state
        rcases List.mem_cons.mp he' with rfl | he'
        · rw [← (reportStatus_verdict row state).elim hstatus]
          exact List.mem_cons_self
        · have hne : e'.taskId ≠ e.taskId := fun he => hfirst (List.mem_map.mpr ⟨e', he', he⟩)
          have row' := (reportStep_leased h hstep hne state).mpr row
          exact List.mem_cons_of_mem _ (hanswers e' he' t row' state)

theorem reportEntries_perm (h : Manned s) (hp : es.Perm es') (hn : (es.map (·.taskId)).Nodup)
    {rs : List ReportStatusResponseEntry} (hs : reportEntries now dlqConfig s es = .ok (w, rs)) :
    ∃ rs', reportEntries now dlqConfig s es' = .ok (w, rs') := by
  have hfold : es.foldlM (reportStep now dlqConfig) s = .ok w := by
    rw [← reportEntries_state, hs]
    rfl
  have hfold' := foldlM_perm (R := fun a b => a.taskId ≠ b.taskId) Ne.symm
    (fun s e hm => reportStep_manned dlqConfig hm e)
    (fun s a b s₁ w hm hne ha hb => reportStep_swap hm hne ha hb) hp
      (List.pairwise_map.mp hn) h hfold
  rw [← reportEntries_state] at hfold'
  cases hentries : reportEntries now dlqConfig s es' with
  | error err =>
    rw [hentries] at hfold'
    cases hfold'
  | ok b =>
    rw [hentries] at hfold'
    obtain rfl : b.1 = w := Except.ok.inj hfold'
    exact ⟨b.2, rfl⟩

/-- The order of the reports in a batch does not matter: the state after it and the
answers to the workers of leased tasks are the same, and if one order fails, so does
every other. -/
theorem reportStatuses_perm (h : WellFormed s) (now : Time)
    (dlqConfig : Option DeadLetterQueueConfig) (hp : es.Perm es') (hn : (es.map (·.taskId)).Nodup) :
    (∃ w rs rs', reportStatuses s now ⟨es, dlqConfig⟩ = .ok (w, rs) ∧
      reportStatuses s now ⟨es', dlqConfig⟩ = .ok (w, rs') ∧
      rs.map (·.taskId) = es.map (·.taskId) ∧ rs'.map (·.taskId) = es'.map (·.taskId) ∧
      ∀ e ∈ es, Leased s e.taskId → ∃ r, ⟨e.taskId, r⟩ ∈ rs ∧ ⟨e.taskId, r⟩ ∈ rs') ∨
    (∃ err err', reportStatuses s now ⟨es, dlqConfig⟩ = .error err ∧
      reportStatuses s now ⟨es', dlqConfig⟩ = .error err') := by
  have hn' : (es'.map (·.taskId)).Nodup := (hp.map _).nodup_iff.mp hn
  unfold reportStatuses
  dsimp only
  cases hs : reportEntries now dlqConfig s es with
  | ok a =>
    obtain ⟨rs', hs'⟩ := reportEntries_perm h.manned hp hn hs
    obtain ⟨hids, hanswers⟩ := (reportEntries_answers es s h.manned hn).elim hs
    obtain ⟨hids', hanswers'⟩ := (reportEntries_answers es' s h.manned hn').elim hs'
    refine Or.inl ⟨a.1, a.2, rs', rfl, hs', hids, hids', ?_⟩
    intro e he hl
    obtain ⟨t, row, state⟩ := hl
    exact ⟨t.verdict e, hanswers e he t row state, hanswers' e (hp.mem_iff.mp he) t row state⟩
  | error err =>
    cases hs' : reportEntries now dlqConfig s es' with
    | error err' => exact Or.inr ⟨err, err', rfl, rfl⟩
    | ok b =>
      obtain ⟨rs, hback⟩ := reportEntries_perm h.manned hp.symm hn' hs'
      rw [hs] at hback
      cases hback

end Batches

end Store

section Runs

/-- The head of a thread and a task without one are worked, and one waits in the thread. -/
def workedPair : List Call :=
  [⟨5, .enqueue ⟨threadQueue, [threadEntry 5 [] [], threadEntry 6 [] [], mortalEntry]⟩⟩,
    ⟨8, .dequeue ⟨threadQueue, none, 5, keepDead, 60⟩⟩]

/-- The failures of both, reported one way or the other. -/
def bothFail : List ReportStatusRequestEntry :=
  [⟨threadQueue.task 1, 1, .failed, 60⟩, ⟨threadQueue.task 3, 1, .failed, 60⟩]

/-- There is one place for a dead task, and the same one is left. -/
theorem reportStatuses_perm_pair :
    (∃ w : State, (reportStatuses (run State.empty workedPair) 10
        ⟨bothFail, some ⟨true, 1, 3600⟩⟩).map Prod.fst = .ok w ∧
      (reportStatuses (run State.empty workedPair) 10
        ⟨bothFail.reverse, some ⟨true, 1, 3600⟩⟩).map Prod.fst = .ok w) ∧
    (deadTasks (run State.empty (workedPair ++
      [⟨10, .reportStatus ⟨bothFail, some ⟨true, 1, 3600⟩⟩⟩])) threadQueue).map Task.id =
        [threadQueue.task 3] := by
  refine ⟨?_, by decide +kernel⟩
  have hw : WellFormed (run State.empty workedPair) :=
    run_wellFormed (by decide +kernel) (by decide +kernel) (by decide +kernel)
  rcases reportStatuses_perm hw 10 (some ⟨true, 1, 3600⟩) (List.reverse_perm bothFail).symm
    (by decide) with ⟨w, rs, rs', hs, hs', _⟩ | ⟨err, err', hs, _⟩
  · exact ⟨w, by rw [hs]; rfl, by rw [hs']; rfl⟩
  · have hok : Ensures False (reportStatuses (run State.empty workedPair) 10
        ⟨bothFail, some ⟨true, 1, 3600⟩⟩) (fun _ => True) := by decide +kernel
    rw [hs] at hok
    exact False.elim hok

end Runs

end Moab
