import Moab.Queues.Paging

namespace Moab.Queues

open OrderedStore

variable [OrderedStore]

section Exec

variable {s : State} {now : Time} {op : Op}

/-- Every row is stored under its own id. -/
structure Keyed (s : State) : Prop where
  queue : ∀ q x, s.queues.get q = some x → x.id = q
  schedule : s.rows.Keyed

theorem Keyed.empty : Keyed State.empty where
  queue q x hx := by simp [State.empty] at hx
  schedule id x hx := by simp [State.empty, State.rows] at hx

theorem Keyed.queueByName (h : Keyed s) {accountId : Nat} {name : Bytes} {x : Queue}
    (hx : s.queueByName accountId name = some x) :
    s.queues.get x.id = some x ∧ x.id.accountId = accountId := by
  obtain ⟨n, _, hrow⟩ := Option.bind_eq_some_iff.mp hx
  rw [h.queue _ x hrow]
  exact ⟨hrow, rfl⟩

theorem Keyed.scheduleByName (h : Keyed s) {q : QueueId} {name : Bytes} {x : Schedule}
    (hx : s.scheduleByName q name = some x) : s.schedules.get x.id = some x ∧ x.id.queue = q := by
  obtain ⟨n, _, hrow⟩ := Option.bind_eq_some_iff.mp hx
  rw [h.schedule _ x hrow]
  exact ⟨hrow, rfl⟩

theorem updateSchedule_step {x y : Schedule} (row : s.schedules.get x.id = some x)
    (same : y.id = x.id) :
    Ensures False (s.updateSchedule y) (fun s' => Step s.rows (.updated x y) s'.rows ∧
      s'.queues = s.queues) := by
  unfold State.updateSchedule State.getSchedule
  rw [same, row]
  refine Ensures.ok ⟨?_, rfl⟩
  have hstep := Step.update (r := s.rows) row same
  rw [same] at hstep
  exact hstep

theorem updateSchedule_written {x y : Schedule} {t : State} (written : s.updateSchedule y = .ok t)
    (row : s.schedules.get x.id = some x) (same : y.id = x.id) :
    Step s.rows (.updated x y) t.rows ∧ t.queues = s.queues :=
  (updateSchedule_step row same).elim written

variable [Gronx]

/-- What a call does to the tables, with the checks it passed on the way. -/
inductive Effect (s : State) (now : Time) : Op → State → Prop where
  | nothing {op : Op} : Effect s now op s
  | createQueue {req : CreateQueueRequest}
    (unnamed : s.queueByName req.queueId.accountId req.name = none)
    (room : (s.getCounter req.queueId.accountId).numberOfQueues < req.maxNumberOfQueues)
    (absent : s.queues.get req.queueId = none) :
    Effect s now (.createQueue req)
      ((s.createQueue (newQueue req now)).addQueues req.queueId.accountId 1)
  | updateQueue {req : UpdateQueueRequest} {queue : Queue}
    (named : s.queueByName req.accountId req.queueName = some queue) :
    Effect s now (.updateQueue req)
      (s.updateQueue (withQueueSettings queue req.toQueueSettings now))
  | deleteQueue {req : DeleteQueueRequest} {queue : Queue}
    (named : s.queueByName req.accountId req.queueName = some queue) :
    Effect s now (.deleteQueue req)
      { (s.deleteQueue queue).addQueues queue.id.accountId (-1) with
        gcRecords := s.gcRecords.set queue.id () }
  | swapQueueId {req : SwapQueueIdRequest} {queue : Queue}
    (named : s.queueByName req.accountId req.queueName = some queue)
    (absent : s.queues.get ⟨req.accountId, req.newQueueId⟩ = none) :
    Effect s now (.swapQueueId req)
      ((moveSchedules queue.id ⟨req.accountId, req.newQueueId⟩ (s.schedules.entries.length + 1)
        none s).swapId queue.id (withQueueId queue ⟨req.accountId, req.newQueueId⟩ now))
  | createSchedule {req : CreateScheduleRequest} {queue : Queue} {nextTime : Time}
    (named : s.queueByName req.accountId req.queueName = some queue)
    (absent : s.schedules.get ⟨req.accountId, queue.id.queueId, req.scheduleId⟩ = none)
    (room : queue.schedulesCount < req.maxNumberOfSchedulesPerQueue)
    (unnamed : s.scheduleByName queue.id req.scheduleName = none)
    (tick : nextTickAfter req.cron req.timezone now = .ok nextTime) :
    Effect s now (.createSchedule req)
      ((s.createSchedule (newSchedule req ⟨req.accountId, queue.id.queueId, req.scheduleId⟩ now
        nextTime)).updateQueue { queue with schedulesCount := queue.schedulesCount + 1 })
  | updateSchedule {req : UpdateScheduleRequest} {x : Schedule} {nextTime : Time} {t : State}
    (named : s.scheduleNamed req.accountId req.queueName req.scheduleName = some x)
    (version : x.version = req.expectedVersion)
    (tick : nextTickAfter req.cron req.timezone now = .ok nextTime)
    (written : s.updateSchedule (withScheduleSettings x req.toScheduleSettings now nextTime) =
      .ok t) :
    Effect s now (.updateSchedule req) t
  | deleteSchedule {req : DeleteScheduleRequest} {queue : Queue} {x : Schedule}
    (named : s.queueByName req.accountId req.queueName = some queue)
    (schedule : s.scheduleByName queue.id req.scheduleName = some x) :
    Effect s now (.deleteSchedule req)
      ((s.deleteSchedule x).updateQueue { queue with schedulesCount := queue.schedulesCount - 1 })
  | reportSchedulesStatus {req : ReportSchedulesStatusRequest} {x : Schedule} {t : State}
    (row : s.schedules.get req.scheduleId = some x)
    (written : s.updateSchedule (withStatus x req now) = .ok t) :
    Effect s now (.reportSchedulesStatus req) t
  | runQueuesGarbageCollection {req : RunQueuesGarbageCollectionRequest} :
    Effect s now (.runQueuesGarbageCollection req) (runQueuesGarbageCollection s req)

theorem exec_effect (s : State) (now : Time) (op : Op) :
    Ensures True (exec s now op) (fun a => Effect s now op a.1) := by
  cases op with
  | createQueue req =>
    refine Ensures.ok ?_
    unfold createQueue
    split_ifs with hname hroom hid
    · exact .nothing
    · exact .nothing
    · exact .nothing
    · exact .createQueue (Option.not_isSome_iff_eq_none.mp hname) (not_le.mp hroom)
        (Option.not_isSome_iff_eq_none.mp hid)
  | updateQueue req =>
    refine Ensures.ok ?_
    unfold updateQueue
    cases hq : s.queueByName req.accountId req.queueName with
    | none => exact .nothing
    | some queue =>
      dsimp only
      split_ifs
      · exact .nothing
      · exact .updateQueue hq
  | deleteQueue req =>
    refine Ensures.ok ?_
    unfold deleteQueue
    cases hq : s.queueByName req.accountId req.queueName with
    | none => exact .nothing
    | some queue => exact .deleteQueue hq
  | swapQueueId req =>
    refine Ensures.ok ?_
    unfold swapQueueId
    cases hq : s.queueByName req.accountId req.queueName with
    | none => exact .nothing
    | some queue =>
      dsimp only
      split_ifs with hid
      · exact .nothing
      · exact .swapQueueId hq (Option.not_isSome_iff_eq_none.mp hid)
  | createSchedule req =>
    refine Ensures.map ?_
    unfold createSchedule
    cases hq : s.queueByName req.accountId req.queueName with
    | none => exact Ensures.ok .nothing
    | some queue =>
      dsimp only
      split_ifs with hid hroom hname
      · exact Ensures.ok .nothing
      · exact Ensures.ok .nothing
      · exact Ensures.ok .nothing
      · cases htick : nextTickAfter req.cron req.timezone now with
        | error e => trivial
        | ok nextTime =>
          exact Ensures.ok (.createSchedule hq (Option.not_isSome_iff_eq_none.mp hid)
            (not_le.mp hroom) (Option.not_isSome_iff_eq_none.mp hname) htick)
  | updateSchedule req =>
    refine Ensures.map ?_
    unfold updateSchedule
    cases hq : s.queueByName req.accountId req.queueName with
    | none => exact Ensures.ok .nothing
    | some queue =>
      dsimp only
      cases hx : s.scheduleByName queue.id req.scheduleName with
      | none => exact Ensures.ok .nothing
      | some x =>
        dsimp only
        split_ifs with hversion
        · exact Ensures.ok .nothing
        · cases htick : nextTickAfter req.cron req.timezone now with
          | error e => trivial
          | ok nextTime =>
            have hnamed : s.scheduleNamed req.accountId req.queueName
                req.scheduleName = some x := by
              unfold State.scheduleNamed
              rw [hq]
              exact hx
            have hwrite : Ensures True (s.updateSchedule (withScheduleSettings x
                req.toScheduleSettings now nextTime)) _ :=
              Ensures.of_eq (fun _ ht => ht) (fun _ _ => trivial)
            exact hwrite.bind (fun t ht => Ensures.ok
              (.updateSchedule hnamed (not_not.mp hversion) htick ht))
  | deleteSchedule req =>
    refine Ensures.ok ?_
    unfold deleteSchedule
    cases hq : s.queueByName req.accountId req.queueName with
    | none => exact .nothing
    | some queue =>
      dsimp only
      cases hx : s.scheduleByName queue.id req.scheduleName with
      | none => exact .nothing
      | some x => exact .deleteSchedule hq hx
  | reportSchedulesStatus req =>
    refine Ensures.map ?_
    unfold reportSchedulesStatus
    cases hx : s.schedules.get req.scheduleId with
    | none => exact Ensures.ok .nothing
    | some x =>
      have hwrite : Ensures True (s.updateSchedule (withStatus x req now)) _ :=
        Ensures.of_eq (fun _ ht => ht) (fun _ _ => trivial)
      exact hwrite.bind (fun t ht => Ensures.ok (.reportSchedulesStatus hx ht))
  | runQueuesGarbageCollection req => exact Ensures.ok .runQueuesGarbageCollection

/-- What a call that is committed does. -/
theorem commit_effect (s : State) (now : Time) (op : Op) : Effect s now op (commit s now op) := by
  unfold commit
  cases hx : exec s now op with
  | ok a => exact (exec_effect s now op).elim hx
  | error e => exact .nothing

/-- What a call does to the schedules. -/
inductive Caused (s : State) (now : Time) : Op → List Event → Prop where
  | nothing {op : Op} : Caused s now op []
  | createSchedule {req : CreateScheduleRequest} {id : ScheduleId} {nextTime : Time}
    (tick : nextTickAfter req.cron req.timezone now = .ok nextTime) :
    Caused s now (.createSchedule req) [.created (newSchedule req id now nextTime)]
  | updateSchedule {req : UpdateScheduleRequest} {x : Schedule} {nextTime : Time}
    (named : s.scheduleNamed req.accountId req.queueName req.scheduleName = some x)
    (version : x.version = req.expectedVersion)
    (tick : nextTickAfter req.cron req.timezone now = .ok nextTime) :
    Caused s now (.updateSchedule req)
      [.updated x (withScheduleSettings x req.toScheduleSettings now nextTime)]
  | deleteSchedule {req : DeleteScheduleRequest} {x : Schedule} :
    Caused s now (.deleteSchedule req) [.deleted x]
  | reportSchedulesStatus {req : ReportSchedulesStatusRequest} {x : Schedule}
    (id : x.id = req.scheduleId) :
    Caused s now (.reportSchedulesStatus req) [.updated x (withStatus x req now)]
  | swapQueueId {req : SwapQueueIdRequest} {es : List Event}
    (h : ∀ e ∈ es, ∃ x, e = .moved x ⟨req.accountId, req.newQueueId⟩) :
    Caused s now (.swapQueueId req) es
  | runQueuesGarbageCollection {req : RunQueuesGarbageCollectionRequest} {es : List Event}
    (h : ∀ e ∈ es, ∃ x, e = .deleted x) : Caused s now (.runQueuesGarbageCollection req) es

/-- A queue id that a queue moves to has no schedules left from an earlier use. -/
def Op.fresh (s : State) : Op → Prop
  | .swapQueueId req => ∀ e ∈ s.schedules.entries, e.1.queue ≠ ⟨req.accountId, req.newQueueId⟩
  | _ => True

instance (s : State) (op : Op) : Decidable (op.fresh s) := by
  unfold Op.fresh
  split <;> infer_instance

omit [Gronx] in
/-- A collection deletes schedules one by one and touches no queue. -/
theorem runQueuesGarbageCollection_makes (req : RunQueuesGarbageCollectionRequest) (h : Keyed s) :
    (∃ es, Steps s.rows es (runQueuesGarbageCollection s req).rows ∧
      ∀ e ∈ es, ∃ x, e = .deleted x) ∧
      (runQueuesGarbageCollection s req).queues = s.queues := by
  refine runQueuesGarbageCollection_keeps (I := fun t => (∃ es, Steps s.rows es t.rows ∧
    ∀ e ∈ es, ∃ x, e = .deleted x) ∧ t.queues = s.queues) h.schedule req ?_ (fun _ _ hI _ => hI)
    ⟨⟨[], .nil _, by simp⟩, rfl⟩
  rintro t x ⟨⟨es, hes, hdel⟩, hqueues⟩ row _
  have hstep : Step t.rows (.deleted x) (t.deleteSchedule x).rows := Step.delete row
  exact ⟨⟨es ++ [.deleted x], hes.append (.single hstep),
    List.forall_mem_append.mpr ⟨hdel, by simp⟩⟩, hqueues⟩

omit [Gronx] in
/-- A queue that is about to move has another id, and no number of its schedules
is taken there. -/
theorem apart_of_fresh (h : Keyed s) {accountId newQueueId : Nat} {name : Bytes}
    {queue : Queue} (named : s.queueByName accountId name = some queue)
    (absent : s.queues.get ⟨accountId, newQueueId⟩ = none)
    (hf : ∀ e ∈ s.schedules.entries, e.1.queue ≠ ⟨accountId, newQueueId⟩) :
    queue.id ≠ ⟨accountId, newQueueId⟩ ∧ Apart s queue.id ⟨accountId, newQueueId⟩ := by
  refine ⟨?_, ?_⟩
  · intro he
    rw [← he, (h.queueByName named).1] at absent
    exact absurd absent (by simp)
  · intro n x _
    cases hx : s.schedules.get (QueueId.schedule ⟨accountId, newQueueId⟩ n) with
    | none => rfl
    | some y => exact absurd rfl (hf _ (Table.mem_entries.mpr hx))

/-- The settings a call gives to a queue. -/
def Op.queueSettings : Op → Option QueueSettings
  | .createQueue req => some req.toQueueSettings
  | .updateQueue req => some req.toQueueSettings
  | _ => none

/-- A queue row is stored under its own id, and it expires tasks as the call or
an earlier row says. -/
def QueuesFrom (s : State) (settings : Option QueueSettings) (s' : State) : Prop :=
  ∀ q y, s'.queues.get q = some y → y.id = q ∧
    ((∃ c, settings = some c ∧ y.expiresInSeconds = c.expiresInSeconds) ∨
      ∃ p x, s.queues.get p = some x ∧ y.expiresInSeconds = x.expiresInSeconds)

omit [Gronx] in
theorem QueuesFrom.of_eq {settings : Option QueueSettings} {s' : State} (h : Keyed s)
    (hs : s'.queues = s.queues) : QueuesFrom s settings s' := by
  intro q y hy
  rw [hs] at hy
  exact ⟨h.queue q y hy, Or.inr ⟨q, y, hy, rfl⟩⟩

omit [Gronx] in
theorem QueuesFrom.set {settings : Option QueueSettings} {s' : State} (h : Keyed s) {z : Queue}
    (hs : s'.queues = s.queues.set z.id z)
    (hz : (∃ c, settings = some c ∧ z.expiresInSeconds = c.expiresInSeconds) ∨
      ∃ p x, s.queues.get p = some x ∧ z.expiresInSeconds = x.expiresInSeconds) :
    QueuesFrom s settings s' := by
  intro q y hy
  rw [hs, Table.get_set] at hy
  split at hy
  · next hq =>
    obtain rfl := Option.some.inj hy
    exact ⟨hq.symm, hz⟩
  · exact ⟨h.queue q y hy, Or.inr ⟨q, y, hy, rfl⟩⟩

omit [Gronx] in
theorem QueuesFrom.delete {settings : Option QueueSettings} {s' t : State}
    (h : QueuesFrom s settings s') {q : QueueId} (ht : t.queues = s'.queues.delete q) :
    QueuesFrom s settings t := by
  intro p y hy
  rw [ht, Table.get_delete] at hy
  split at hy
  · exact absurd hy (by simp)
  · exact h p y hy

/-- What a call that is committed does to the schedules and the queues. -/
theorem commit_makes (now : Time) (h : Keyed s) (hf : op.fresh s) :
    (∃ es, Steps s.rows es (commit s now op).rows ∧ Caused s now op es) ∧
      QueuesFrom s op.queueSettings (commit s now op) := by
  have old : ∀ {accountId name queue} {z : Queue}, s.queueByName accountId name = some queue →
      z.expiresInSeconds = queue.expiresInSeconds →
      ∃ p x, s.queues.get p = some x ∧ z.expiresInSeconds = x.expiresInSeconds :=
    fun {_ _ queue} _ hq hz => ⟨queue.id, queue, (h.queueByName hq).1, hz⟩
  have heffect := commit_effect s now op
  generalize commit s now op = t at heffect ⊢
  cases heffect with
  | nothing => exact ⟨⟨[], .nil _, .nothing⟩, .of_eq h rfl⟩
  | createQueue | updateQueue => exact ⟨⟨[], .nil _, .nothing⟩, .set h rfl (Or.inl ⟨_, rfl, rfl⟩)⟩
  | deleteQueue => exact ⟨⟨[], .nil _, .nothing⟩, QueuesFrom.delete (.of_eq h rfl) rfl⟩
  | @swapQueueId req queue named absent =>
    obtain ⟨hne, hapart⟩ := apart_of_fresh h named absent hf
    have hmoving := moveSchedules_moving hne (s.schedules.entries.length + 1) none h.schedule hapart
    obtain ⟨es, hes, hmoves⟩ := hmoving.steps
    refine ⟨⟨es, hes, .swapQueueId hmoves⟩, ?_⟩
    have hset : QueuesFrom s none (s.updateQueue (withQueueId queue
        ⟨req.accountId, req.newQueueId⟩ now)) := .set h rfl (Or.inr (old named rfl))
    refine hset.delete (q := queue.id) ?_
    change ((moveSchedules _ _ _ _ s).queues.set _ _).delete _ = _
    rw [hmoving.queues]
    rfl
  | createSchedule named absent _ _ tick =>
    exact ⟨⟨_, .single (Step.create absent), .createSchedule tick⟩,
      .set h rfl (Or.inr (old named rfl))⟩
  | updateSchedule named version tick written =>
    obtain ⟨queue, _, hx⟩ := Option.bind_eq_some_iff.mp named
    obtain ⟨hstep, hqueues⟩ := updateSchedule_written written (h.scheduleByName hx).1 rfl
    exact ⟨⟨_, .single hstep, .updateSchedule named version tick⟩, .of_eq h hqueues⟩
  | deleteSchedule named schedule =>
    exact ⟨⟨_, .single (Step.delete (h.scheduleByName schedule).1), .deleteSchedule⟩,
      .set h rfl (Or.inr (old named rfl))⟩
  | @reportSchedulesStatus req x t row written =>
    have hid := h.schedule _ x row
    obtain ⟨hstep, hqueues⟩ := updateSchedule_written (x := x) written (by rw [hid]; exact row) rfl
    exact ⟨⟨_, .single hstep, .reportSchedulesStatus hid⟩, .of_eq h hqueues⟩
  | runQueuesGarbageCollection =>
    obtain ⟨⟨es, hes, hdel⟩, hqueues⟩ := runQueuesGarbageCollection_makes _ h
    exact ⟨⟨es, hes, .runQueuesGarbageCollection hdel⟩, .of_eq h hqueues⟩

/-- How a call may rewrite the row of a schedule. -/
inductive Rewritten (s : State) (now : Time) (x : Schedule) : Op → Schedule → Prop where
  | same {op : Op} : Rewritten s now x op x
  | updateSchedule {req : UpdateScheduleRequest} {nextTime : Time}
    (named : s.scheduleNamed req.accountId req.queueName req.scheduleName = some x)
    (version : x.version = req.expectedVersion)
    (tick : nextTickAfter req.cron req.timezone now = .ok nextTime) :
    Rewritten s now x (.updateSchedule req)
      (withScheduleSettings x req.toScheduleSettings now nextTime)
  | reportSchedulesStatus {req : ReportSchedulesStatusRequest} :
    Rewritten s now x (.reportSchedulesStatus req) (withStatus x req now)

theorem commit_rewrites (now : Time) (h : Keyed s) (hf : op.fresh s) {id : ScheduleId}
    {x y : Schedule} (hx : s.schedules.get id = some x)
    (hy : (commit s now op).schedules.get id = some y) : Rewritten s now x op y := by
  obtain ⟨⟨es, hes, hcaused⟩, _⟩ := commit_makes now h hf
  have hsingle : ∀ {e}, Steps s.rows [e] (commit s now op).rows → y = x ∨ e = .updated x y := by
    rintro e (_ | ⟨hstep, hnil⟩)
    cases hnil
    exact hstep.kept hx hy
  cases hcaused with
  | nothing =>
    obtain rfl := Steps.kept_of_deleted hes (by simp) hx hy
    exact .same
  | createSchedule tick | deleteSchedule =>
    rcases hsingle hes with rfl | hev
    · exact .same
    · exact absurd hev (by simp)
  | updateSchedule named version tick =>
    rcases hsingle hes with rfl | hev
    · exact .same
    · obtain ⟨rfl, rfl⟩ := Event.updated.inj hev
      exact .updateSchedule named version tick
  | reportSchedulesStatus hid =>
    rcases hsingle hes with rfl | hev
    · exact .same
    · obtain ⟨rfl, rfl⟩ := Event.updated.inj hev
      exact .reportSchedulesStatus
  | swapQueueId hmoves =>
    obtain rfl := Steps.kept_of_moved hes hmoves hx hy
    exact .same
  | runQueuesGarbageCollection hdel =>
    obtain rfl := Steps.kept_of_deleted hes hdel hx hy
    exact .same

/-- What every write of schedules keeps, a call keeps. -/
theorem commit_every {P : Schedule → Prop} (h : Keyed s) (hf : op.fresh s)
    (hr : ∀ id x, s.schedules.get id = some x → P x)
    (hc : ∀ req id nextTime, op = .createSchedule req →
      nextTickAfter req.cron req.timezone now = .ok nextTime → P (newSchedule req id now nextTime))
    (hu : ∀ req x nextTime, op = .updateSchedule req →
      nextTickAfter req.cron req.timezone now = .ok nextTime → P x →
      P (withScheduleSettings x req.toScheduleSettings now nextTime))
    (hs : ∀ req x, op = .reportSchedulesStatus req → P x → P (withStatus x req now))
    (hm : ∀ x q, P x → P (moved x q)) :
    ∀ id x, (commit s now op).schedules.get id = some x → P x := by
  obtain ⟨⟨es, hes, hcaused⟩, _⟩ := commit_makes now h hf
  refine Steps.every hes hr ?_ ?_ hm
  · intro x hx
    cases hcaused with
    | createSchedule tick =>
      obtain rfl := Event.created.inj (List.mem_singleton.mp hx)
      exact hc _ _ _ rfl tick
    | swapQueueId hmoves =>
      obtain ⟨y, he⟩ := hmoves _ hx
      exact absurd he (by simp)
    | runQueuesGarbageCollection hdel =>
      obtain ⟨y, he⟩ := hdel _ hx
      exact absurd he (by simp)
    | _ => simp at hx
  · intro x y hx
    cases hcaused with
    | updateSchedule _ _ tick =>
      obtain ⟨rfl, rfl⟩ := Event.updated.inj (List.mem_singleton.mp hx)
      exact hu _ _ _ rfl tick
    | reportSchedulesStatus id =>
      obtain ⟨rfl, rfl⟩ := Event.updated.inj (List.mem_singleton.mp hx)
      exact hs _ _ rfl
    | swapQueueId hmoves =>
      obtain ⟨y, he⟩ := hmoves _ hx
      exact absurd he (by simp)
    | runQueuesGarbageCollection hdel =>
      obtain ⟨y, he⟩ := hdel _ hx
      exact absurd he (by simp)
    | _ => simp at hx

theorem Keyed.commit (h : Keyed s) (hf : op.fresh s) : Keyed (commit s now op) := by
  obtain ⟨⟨es, hes, _⟩, hqueues⟩ := commit_makes now h hf
  exact ⟨fun q x hx => (hqueues q x hx).1, Steps.keyed hes h.schedule⟩

end Exec

end Moab.Queues
