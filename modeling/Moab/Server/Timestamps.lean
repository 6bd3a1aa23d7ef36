import Moab.Server.Agreement
import Moab.Tasks.Timely

namespace Moab

namespace Server

open Coreapis Workers

section Checks

theorem validateRetryStrategy_valid {value : Option RetryStrategy}
    (h : Corepb.validateRetryStrategy value = .ok ()) : ∀ strategy ∈ value, strategy.valid := by
  intro strategy hvalue
  rw [Option.mem_def] at hvalue
  rw [hvalue, Corepb.validateRetryStrategy, checks_ok_iff, validateRetryIntervals_ok_iff] at h
  intro interval hmem
  have hbounds := h.2 interval hmem
  rw [not_or, Int64.not_lt, gt_iff_lt, Int64.not_lt] at hbounds
  exact hbounds

theorem validateDeadLetterQueueConfig_period {value : Option DeadLetterQueueConfig}
    (h : Corepb.validateDeadLetterQueueConfig value = .ok ()) :
    ∀ dlq ∈ value, Period dlq.retentionPeriodInSeconds := by
  intro dlq hvalue
  rw [Option.mem_def] at hvalue
  rw [hvalue, Corepb.validateDeadLetterQueueConfig, checks_ok_iff, validateBetween_ok_iff] at h
  have hbounds := h.2
  have hlower : Corepb.minExpiresTimeoutInSeconds.toInt = 60 := by decide
  have hupper : Corepb.maxDLQRetentionPeriod.toInt = 1209600 := by decide
  rw [not_or, gt_iff_lt, Int64.lt_iff_toInt_lt, Int64.lt_iff_toInt_lt] at hbounds
  exact ⟨by omega, by omega⟩

theorem validateKeepaliveOverride_period {seconds : Time}
    (h : Corepb.validateKeepaliveOverride seconds = .ok ()) : Period seconds := by
  unfold Corepb.validateKeepaliveOverride at h
  by_cases hzero : seconds = 0
  · rw [hzero]
    decide
  · rw [if_pos hzero, Corepb.validateKeepaliveTimeoutInSeconds, validateBetween_ok_iff] at h
    have hlower : Corepb.minKeepaliveTimeoutInSeconds.toInt = 5 := by decide
    have hupper : Corepb.maxKeepaliveTimeoutInSeconds.toInt = 60 := by decide
    rw [not_or, gt_iff_lt, Int64.lt_iff_toInt_lt, Int64.lt_iff_toInt_lt] at h
    exact ⟨by omega, by omega⟩

/-- The core lets no call through that would bring in a time before the epoch or a
duration of more than two weeks. -/
theorem Valid.bounded [Gronx] {c : Request} {op : Op} (h : Valid c) (hop : c.op = some op) :
    op.Bounded := by
  cases c with
  | enqueue req =>
    obtain rfl := Option.some.inj hop
    intro e he
    have hvalid := ((EnqueueRequest.validate_ok_iff req).mp h).2.2 e he
    exact ⟨hvalid.expiresAt, validateRetryStrategy_valid hvalid.retryStrategy⟩
  | dequeue req =>
    obtain rfl := Option.some.inj hop
    simp only [Valid, Request.validate, DequeueRequest.validate, checks_ok_iff] at h
    exact ⟨validateKeepaliveOverride_period h.2.2.2, validateDeadLetterQueueConfig_period h.2.2.1⟩
  | reportStatus req =>
    obtain rfl := Option.some.inj hop
    simp only [Valid, Request.validate, ReportStatusRequest.validate, checks_ok_iff] at h
    refine ⟨fun e he => ?_, validateDeadLetterQueueConfig_period h.2.2⟩
    obtain ⟨i, hentry⟩ := validateEach_ok h.2.1 e he
    rw [Corepb.validateReportEntry, checks_ok_iff, mapError_ok_iff, mapError_ok_iff] at hentry
    exact validateKeepaliveOverride_period hentry.2
  | restartTasks req =>
    obtain rfl := Option.some.inj hop
    simp only [Valid, Request.validate, RestartTasksRequest.validate, checks_ok_iff] at h
    intro e he
    obtain ⟨i, hentry⟩ := validateEach_ok h.2.2 e he
    rw [Corepb.validateRestartEntry, checks_ok_iff, require_ok_iff, require_ok_iff,
      decide_eq_true_eq, decide_eq_true_eq] at hentry
    exact hentry.2
  | deleteTasks req | purgeQueue queueId =>
    obtain rfl := Option.some.inj hop
    trivial
  | _ => cases hop

end Checks

section Handlers

/-- The clock of the handler. -/
def Current : Event → Prop
  | ⟨.now, time⟩ => Present time
  | _ => True

variable {accountId : Nat} {limits : ServiceLimits} {es : List Event} {outcome : Outcome}
  {now scheduledAt : Time}

theorem present_of_clock (hes : ∀ e ∈ es, Current e) (h : clock es = some now) : Present now := by
  cases es with
  | nil => cases h
  | cons e es =>
    have hfirst := hes e List.mem_cons_self
    obtain ⟨effect, answer⟩ := e
    cases effect with
    | now =>
      obtain rfl := Option.some.inj h
      exact hfirst
    | _ => cases h

/-- A time that is not too far in the future is less than two weeks ahead. -/
theorem Near.notBefore_lt (h : Near now limits scheduledAt) (hnow : Present now)
    (hdelay : Period limits.maxScheduledDelayInSeconds) :
    0 ≤ (notBefore scheduledAt now).toInt ∧
      (notBefore scheduledAt now).toInt < 2 ^ 62 + 1209600 * 1000000000 := by
  have hsum := hnow.toInt_plusSeconds hdelay
  refine ⟨Time.nonneg_iff.mp (hnow.notBefore_nonneg scheduledAt), ?_⟩
  obtain ⟨_, hlt⟩ := hnow
  obtain ⟨_, hmax⟩ := hdelay
  unfold Near at h
  rw [gt_iff_lt, Int64.lt_iff_toInt_lt, hsum] at h
  unfold notBefore
  split_ifs
  · omega
  · omega

theorem Stored.period {queue : Queue} (h : Stored queue) : Period queue.expiresInSeconds :=
  ⟨by have := h.expires.1; omega, h.expires.2⟩

theorem Near.inTime {queue : Queue} (h : Near now limits scheduledAt) (hnow : Present now)
    (hdelay : Period limits.maxScheduledDelayInSeconds) (hq : Stored queue) :
    InTime now queue scheduledAt := by
  obtain ⟨hpos, hlt⟩ := h.notBefore_lt hnow hdelay
  exact (hq.period.sumFits hpos hlt).sum.2

variable [Base62]

theorem reportStatus_bounded {req : Moabpb.ReportStatusRequest}
    (hreq : validateReportStatusRequest req = .ok ()) :
    Sends Genuine (fun c => ∀ op, c.op = some op → op.Bounded) (fun _ => True)
      (reportStatus req accountId) := by
  simp only [validateReportStatusRequest, checks_ok_iff] at hreq
  have hcontract : Contract Genuine (fun c => ∀ op, c.op = some op → op.Bounded) Stored :=
    ⟨fun _ _ hop => (by cases hop), fun _ _ h => h, fun _ _ h => h⟩
  refine hcontract.withQueue (fun queue hq => ?_)
  obtain ⟨_, hdefault, _, _, hdlq⟩ := hq.checks
  cases hentries : req.entries.mapM (coreReportEntry queue accountId) with
  | error status => exact sends_pure trivial
  | ok entries =>
    refine sends_orFail_call (fun op hop => ?_) (fun _ _ => sends_pure trivial)
    obtain rfl := Option.some.inj hop
    refine ⟨fun c hc => ?_, validateDeadLetterQueueConfig_period hdlq⟩
    obtain ⟨e, he, hbuilt⟩ := exists_of_mem_right (forall₂_of_mapM_ok hentries) hc
    obtain ⟨i, hentry⟩ := validateEach_ok hreq.2.2.2 e he
    simp only [validateReportEntry, checks_ok_iff, unlessZero_keepalive] at hentry
    have hkeepalive := validateKeepaliveOverride_ok hentry.2.2.2 hdefault
    unfold coreReportEntry at hbuilt
    split at hbuilt
    · cases hbuilt
    · split at hbuilt
      · cases hbuilt
      obtain rfl := Except.ok.inj hbuilt
      exact validateKeepaliveOverride_period hkeepalive

/-- GetTask changes nothing. -/
theorem getTask_reads {req : Moabpb.GetTaskRequest} :
    Sends Genuine (fun c => c.op = none) (fun _ => True) (getTask req accountId) := by
  have hcontract : Contract Genuine (fun c => c.op = none) Stored :=
    ⟨fun _ => rfl, fun _ _ h => h, fun _ _ h => h⟩
  refine hcontract.withQueue (fun queue _ => ?_)
  split
  · exact sends_pure trivial
  · exact sends_orFail_call rfl (fun _ _ => sends_pure trivial)

/-- An Enqueue asks the core for the entries of its request, on the terms of the queue that it
resolved first. -/
theorem enqueue_builds {req : Moabpb.EnqueueRequest}
    (h : (enqueue req accountId limits).Runs es outcome) {c : Request} (hc : c ∈ sent es) {op : Op}
    (hop : c.op = some op) :
    ∃ now queue terms, clock es = some now ∧ (resolved es).head? = some terms ∧
      (∀ e ∈ req.entries, Near now limits e.scheduledAt) ∧
      op = .enqueue (requestFor now queue terms req) := by
  cases c with
  | enqueue r =>
    obtain rfl := Option.some.inj hop
    have hr : r ∈ enqueues es := List.mem_filterMap.mpr ⟨_, hc, rfl⟩
    cases enqueue_runs h with
    | unresolved _ silent | rejected _ _ _ _ _ silent => simp [silent] at hr
    | once now queue time one near calls =>
      rw [calls, List.mem_singleton] at hr
      exact ⟨now, queue, queue, time, by rw [one]; rfl, near, by rw [hr]⟩
    | twice now queue freshQueue time two near calls =>
      rw [calls, List.mem_cons, List.mem_singleton] at hr
      rcases hr with rfl | rfl
      · exact ⟨now, queue, queue, time, by rw [two]; rfl, near, rfl⟩
      · exact ⟨now, freshQueue, queue, time, by rw [two]; rfl, near, rfl⟩
  | getQueueByName _ => cases hop
  | _ => exact (enqueue_sends.sent h (fun _ _ => trivial) _ hc).elim

theorem restartTasks_builds {req : Moabpb.RestartTasksRequest}
    (h : (restartTasks req accountId limits).Runs es outcome) {c : Request} (hc : c ∈ sent es)
    {op : Op} (hop : c.op = some op) :
    ∃ now queue entries, clock es = some now ∧ (resolved es).head? = some queue ∧
      (∀ e ∈ req.entries, Near now limits e.scheduledAt) ∧
      List.Forall₂ (Restarts now queue) req.entries entries ∧
      op = .restartTasks ⟨queue.id, entries⟩ := by
  obtain ⟨now, rest, rfl, hrest⟩ := perform_runs.mp h
  change c ∈ sent rest at hc
  rcases withQueue_runs hrest with ⟨_, hsent⟩ | ⟨reply, rest, rfl, hbuild⟩
  · rw [hsent, List.mem_singleton] at hc
    simp [hc, Request.op] at hop
  rcases List.mem_cons.mp hc with rfl | hc
  · cases hop
  cases hcore : coreRestartEntries now limits reply.response 0 req.entries with
  | error status =>
    rw [hcore] at hbuild
    rw [hbuild.1] at hc
    cases hc
  | ok entries =>
    obtain ⟨hnear, hpairs⟩ := coreRestartEntries_ok hcore
    rw [hcore] at hbuild
    obtain ⟨r, tail, rfl, htail⟩ := call_runs.mp hbuild
    obtain rfl := Silent.orFail (fun _ => silent_pure _) _ _ htail
    obtain rfl := List.mem_singleton.mp hc
    exact ⟨now, reply.response, entries, rfl, rfl, hnear, hpairs, (Option.some.inj hop).symm⟩

variable [Gronx] [Wire]

theorem handle_bounded {req : Moabpb.Request} (hreq : validateRequest req = .ok ())
    (hdelay : Period limits.maxScheduledDelayInSeconds)
    (h : (handle req accountId limits).Runs es outcome) (hes : ∀ e ∈ es, Genuine e)
    (hclock : ∀ e ∈ es, Current e) {c : Request} (hc : c ∈ sent es) {op : Op}
    (hop : c.op = some op) : op.Bounded := by
  -- the deadlines of an Enqueue and a RestartTasks, which agree for that reason
  have hnear : ∀ t queue, clock es = some t → (resolved es).head? = some queue →
      ∀ scheduledAt, Near t limits scheduledAt → InTime t queue scheduledAt := by
    intro t queue ht hq scheduledAt hnear
    exact hnear.inTime (present_of_clock hclock ht) hdelay
      (stored_of_resolved hes queue (List.mem_of_head? hq))
  cases req with
  | createQueue req => exact ((createQueue_sends hreq).sent h hes c hc).bounded hop
  | getQueue req => exact (getQueueAndStats_sends.sent h hes c hc).bounded hop
  | updateQueue req => exact ((updateQueue_sends hreq).sent h hes c hc).bounded hop
  | deleteQueue req => exact (deleteQueue_sends.sent h hes c hc).bounded hop
  | listQueues req => exact (listQueues_sends.sent h hes c hc).bounded hop
  | enqueue req =>
    have hvalid := (enqueue_agree hreq h hes).mpr
      (fun t queue ht hq hall e he => hnear t queue ht hq _ (hall e he))
    exact (hvalid c hc).bounded hop
  | dequeue req => exact ((dequeue_sends hreq).sent h hes c hc).bounded hop
  | reportStatus req => exact (reportStatus_bounded hreq).sent h hes c hc op hop
  | deleteTasks req => exact ((deleteTasks_sends hreq).sent h hes c hc).bounded hop
  | restartTasks req =>
    have hvalid := (restartTasks_agree hreq h hes).mpr
      (fun t queue ht hq hall e he => hnear t queue ht hq _ (hall e he))
    exact (hvalid c hc).bounded hop
  | createSchedule req => exact ((createSchedule_sends hreq).sent h hes c hc).bounded hop
  | getSchedule req => exact (getSchedule_sends.sent h hes c hc).bounded hop
  | updateSchedule req => exact ((updateSchedule_sends hreq).sent h hes c hc).bounded hop
  | deleteSchedule req => exact (deleteSchedule_sends.sent h hes c hc).bounded hop
  | listSchedules req => exact (listSchedules_sends.sent h hes c hc).bounded hop
  | purgeQueue req => exact (purgeQueue_sends.sent h hes c hc).bounded hop
  | getTask req =>
    rw [getTask_reads.sent h hes c hc] at hop
    cases hop
  | listTasks req => exact (listTasks_sends.sent h hes c hc).bounded hop

end Handlers

section Cron

variable [Gronx] {now : Time} {e : Entry}

theorem pass_bounded {p : Pass} (he : Accepted e) (hnow : Present now) (h : pass now e = .ok p) :
    (Op.enqueue ⟨e.queue.id, p.entries⟩).Bounded := by
  have hasks := (pass_asks now e).elim h
  change ∀ x ∈ p.entries, _
  rw [hasks.entries, List.forall_mem_map]
  intro t ht
  have hdue := (hasks.mem_iff t).mp ht
  have hpos : 0 ≤ t := Int64.le_trans (Time.nonneg_iff.mpr hnow.1) (of_decide_eq_true hdue.2.2).1
  exact ⟨he.expiresAt_nonneg hdue hpos, validateRetryStrategy_valid he.retryStrategy⟩

theorem pass_sumFits {t : Time} (he : Accepted e) (hnow : Present now) (hle : now ≤ t)
    (hdue : t ≤ dueBefore now) : SumFits t (expiresInSeconds e) := by
  have hend : (dueBefore now).toInt = now.toInt + (60 : Time).toInt * 1000000000 :=
    hnow.toInt_plusSeconds (by decide)
  have hsixty : (60 : Time).toInt = 60 := by decide
  obtain ⟨hpos, hlt⟩ := hnow
  rw [Int64.le_iff_toInt_le] at hle hdue
  have hperiod : Period (expiresInSeconds e) := ⟨by have := he.expires.1; omega, he.expires.2⟩
  exact hperiod.sumFits (by omega) (by omega)

end Cron

section Issues

/-- Where a call of the tasks core comes from: a handler of the API with what happened in
its run, a pass of the cron worker over a schedule, or one of the two collectors. -/
inductive Origin where
  | handler (req : Moabpb.Request) (accountId : Nat) (limits : ServiceLimits) (es : List Event)
      (outcome : Outcome)
  | cron (now : Time) (e : Entry)
  | collector

/-- The origin builds the call from validated inputs. -/
def Origin.Builds [Base62] [Gronx] [Wire] : Origin → Op → Prop
  | .handler req accountId limits es outcome, op => validateRequest req = .ok () ∧
      Period limits.maxScheduledDelayInSeconds ∧ (handle req accountId limits).Runs es outcome ∧
      (∀ e ∈ es, Genuine e) ∧ (∀ e ∈ es, Current e) ∧ ∃ c ∈ sent es, c.op = some op
  | .cron now e, op => Present now ∧ Accepted e ∧
      ∃ p, pass now e = .ok p ∧ op = .enqueue ⟨e.queue.id, p.entries⟩
  | .collector, op => (∃ req, op = .runTasksGarbageCollection req) ∨
      ∃ req, op = .runPurgeQueueGarbageCollection req

/-- The additions of resolveScheduledAtAndExpiresAt: the limit of the delay, and for a time
that is not too far away the latest deadline. -/
def ResolveAdds (limits : ServiceLimits) (es : List Event) (scheduledAts : List Time)
    (t seconds : Time) : Prop :=
  ∃ now, clock es = some now ∧ (t = now ∧ seconds = limits.maxScheduledDelayInSeconds ∨
    ∃ queue, (resolved es).head? = some queue ∧ seconds = queue.expiresInSeconds ∧
      ∃ scheduledAt ∈ scheduledAts, Near now limits scheduledAt ∧ t = notBefore scheduledAt now)

theorem ResolveAdds.sumFits {limits : ServiceLimits} {es : List Event} {scheduledAts : List Time}
    {t seconds : Time} (h : ResolveAdds limits es scheduledAts t seconds)
    (hdelay : Period limits.maxScheduledDelayInSeconds) (hes : ∀ e ∈ es, Genuine e)
    (hclock : ∀ e ∈ es, Current e) : SumFits t seconds := by
  obtain ⟨now, htime, hadds⟩ := h
  have hnow := present_of_clock hclock htime
  rcases hadds with ⟨rfl, rfl⟩ | ⟨queue, hq, rfl, scheduledAt, _, hnear, rfl⟩
  · exact hnow.sumFits hdelay
  · have hstored := stored_of_resolved hes queue (List.mem_of_head? hq)
    obtain ⟨hpos, hlt⟩ := hnear.notBefore_lt hnow hdelay
    exact hstored.period.sumFits hpos hlt

/-- A deadline that the handler sends is the one it was asked for, or an exact sum. -/
theorem ResolveAdds.deadline {limits : ServiceLimits} {es : List Event} {scheduledAts : List Time}
    {now scheduledAt : Time} {queue : Queue}
    (hfits : ∀ t seconds, ResolveAdds limits es scheduledAts t seconds → SumFits t seconds)
    (htime : clock es = some now) (hq : (resolved es).head? = some queue)
    (hm : scheduledAt ∈ scheduledAts) (hnear : Near now limits scheduledAt) (expiresAt : Time) :
    deadline now queue scheduledAt expiresAt = expiresAt ∨
      ∃ t seconds, ResolveAdds limits es scheduledAts t seconds ∧
        (deadline now queue scheduledAt expiresAt).toInt =
          t.toInt + seconds.toInt * 1000000000 := by
  unfold Server.deadline
  split_ifs
  · have hadds : ResolveAdds limits es scheduledAts (notBefore scheduledAt now)
        queue.expiresInSeconds :=
      ⟨now, htime, Or.inr ⟨queue, hq, rfl, scheduledAt, hm, hnear, rfl⟩⟩
    exact Or.inr ⟨_, _, hadds, toInt_plusSeconds (hfits _ _ hadds).sum⟩
  · exact Or.inl rfl

/-- The times and the seconds that the origin adds up for a time it sends. The cron worker
adds up where its window ends, and the deadlines of the ticks in it. -/
def Origin.Adds : Origin → Time → Time → Prop
  | .handler (.enqueue req) _ limits es _, t, seconds =>
      ResolveAdds limits es (req.entries.map (·.scheduledAt)) t seconds
  | .handler (.restartTasks req) _ limits es _, t, seconds =>
      ResolveAdds limits es (req.entries.map (·.scheduledAt)) t seconds
  | .cron now e, t, seconds => t = now ∧ seconds = 60 ∨
      now ≤ t ∧ t ≤ dueBefore now ∧ seconds = expiresInSeconds e
  | _, _, _ => False

/-- The times that the origin passes on to the core as it gets them: those of the request, or
the ticks in the window of the cron worker. -/
def Origin.Gives : Origin → Op → Time → Prop
  | .handler (.enqueue req) _ _ _ _, _, time =>
      ∃ e ∈ req.entries, time = e.scheduledAt ∨ time = e.expiresAt
  | .handler (.restartTasks req) _ _ _ _, _, time =>
      ∃ e ∈ req.entries, time = e.scheduledAt ∨ time = e.expiresAt
  | .cron now _, _, time => now ≤ time ∧ time ≤ dueBefore now
  | _, op, time => op.Gives time

/-- A call of the tasks core and its origin. -/
structure Issue where
  origin : Origin
  call : Call

/-- The times and the seconds that are added up in the course of the call, on its way to the
core and in it. -/
def Issue.Adds [OrderedStore] (x : Issue) (s : State) (t seconds : Time) : Prop :=
  x.origin.Adds t seconds ∨ t = x.call.now ∧ x.call.op.Adds s.strategies seconds

variable [Base62] [Gronx] [Wire]

structure Issue.Sound (x : Issue) : Prop where
  present : Present x.call.now
  builds : x.origin.Builds x.call.op

theorem Issue.Sound.bounded {x : Issue} (h : x.Sound) : x.call.op.Bounded := by
  obtain ⟨_, hbuilds⟩ := h
  obtain ⟨origin, now, op⟩ := x
  cases origin with
  | handler req accountId limits es outcome =>
    obtain ⟨hreq, hdelay, hruns, hes, hclock, c, hc, hop⟩ := hbuilds
    exact handle_bounded hreq hdelay hruns hes hclock hc hop
  | cron now e =>
    obtain ⟨hnow, he, p, hp, rfl⟩ := hbuilds
    exact pass_bounded he hnow hp
  | collector => rcases hbuilds with ⟨req, rfl⟩ | ⟨req, rfl⟩ <;> trivial

theorem Origin.Builds.sumFits {origin : Origin} {op : Op} {t seconds : Time} (h : origin.Builds op)
    (hadds : origin.Adds t seconds) : SumFits t seconds := by
  cases origin with
  | handler req accountId limits es outcome =>
    obtain ⟨_, hdelay, _, hes, hclock, _⟩ := h
    cases req with
    | enqueue req | restartTasks req => exact ResolveAdds.sumFits hadds hdelay hes hclock
    | _ => exact hadds.elim
  | cron now e =>
    obtain ⟨hnow, he, _⟩ := h
    rcases hadds with ⟨rfl, rfl⟩ | ⟨hle, hdue, rfl⟩
    · exact hnow.sumFits (by decide)
    · exact pass_sumFits he hnow hle hdue
  | collector => exact hadds.elim

/-- A time in a call was given to its origin, or is the exact sum of what the origin adds up. -/
theorem Origin.Builds.gives {origin : Origin} {op : Op} {time : Time} (h : origin.Builds op)
    (hg : op.Gives time) : origin.Gives op time ∨
      ∃ t seconds, origin.Adds t seconds ∧ time.toInt = t.toInt + seconds.toInt * 1000000000 := by
  have hfits : ∀ t seconds, origin.Adds t seconds → SumFits t seconds := fun _ _ => h.sumFits
  cases origin with
  | handler req accountId limits es outcome =>
    obtain ⟨_, _, hruns, _, _, c, hc, hop⟩ := h
    cases req with
    | enqueue req =>
      obtain ⟨now, queue, terms, htime, hq, hnear, rfl⟩ := enqueue_builds hruns hc hop
      obtain ⟨_, hentry, htimes⟩ := hg
      obtain ⟨e, he, rfl⟩ := List.mem_map.mp hentry
      rcases htimes with rfl | rfl
      · exact Or.inl ⟨e, he, Or.inl rfl⟩
      · exact (ResolveAdds.deadline hfits htime hq (List.mem_map_of_mem he) (hnear e he) _).imp_left
          (fun heq => ⟨e, he, Or.inr heq⟩)
    | restartTasks req =>
      obtain ⟨now, queue, entries, htime, hq, hnear, hpairs, rfl⟩ :=
        restartTasks_builds hruns hc hop
      obtain ⟨x, hx, htimes⟩ := hg
      obtain ⟨e, he, hscheduled, hexpires⟩ := exists_of_mem_right hpairs hx
      rcases htimes with rfl | rfl
      · exact Or.inl ⟨e, he, Or.inl hscheduled⟩
      · rw [hexpires]
        exact (ResolveAdds.deadline hfits htime hq (List.mem_map_of_mem he) (hnear e he) _).imp_left
          (fun heq => ⟨e, he, Or.inr heq⟩)
    | _ => exact Or.inl hg
  | cron now e =>
    obtain ⟨hnow, he, p, hp, rfl⟩ := h
    have hasks := (pass_asks now e).elim hp
    obtain ⟨_, hentry, htimes⟩ := hg
    change _ ∈ p.entries at hentry
    rw [hasks.entries] at hentry
    obtain ⟨t, ht, rfl⟩ := List.mem_map.mp hentry
    obtain ⟨_, hdue, henqueues⟩ := (hasks.mem_iff t).mp ht
    have hle : now ≤ t := (of_decide_eq_true henqueues).1
    rcases htimes with rfl | rfl
    · exact Or.inl ⟨hle, hdue⟩
    · have hadds : (Origin.cron now e).Adds t (expiresInSeconds e) := Or.inr ⟨hle, hdue, rfl⟩
      exact Or.inr ⟨t, _, hadds, toInt_plusSeconds (hfits _ _ hadds).sum⟩
  | collector => exact Or.inl hg

/-- In every run of calls that the handlers of the API, the cron worker and the collectors
make, at times in [0, 2^62): no row and no index of the tasks core ever has a time before
the epoch, the keys of every index are in the order of their times, and no addition that
leads to one of these times wraps around: a time that a call leaves in a row and that was
not there before is 0, now, the exact sum of such an addition in the core or a time in the
call, and a time in the call was given to its origin or is the exact sum of one there. -/
theorem run_times_in_order [OrderedStore] {issues : List Issue} (h : ∀ x ∈ issues, x.Sound) :
    Timely (run State.empty (issues.map Issue.call)) ∧
    TimeOrdered (run State.empty (issues.map Issue.call)) ∧
    ∀ before x after, issues = before ++ x :: after →
      (∀ t seconds, x.Adds (run State.empty (before.map Issue.call)) t seconds →
        SumFits t seconds) ∧
      (∀ id t, (run State.empty ((before ++ [x]).map Issue.call)).tasks.get id = some t →
        ∀ time ∈ t.times,
          x.call.op.Dates (run State.empty (before.map Issue.call)) x.call.now time) ∧
      ∀ time, x.call.op.Gives time → x.origin.Gives x.call.op time ∨ ∃ t seconds,
        x.origin.Adds t seconds ∧ time.toInt = t.toInt + seconds.toInt * 1000000000 := by
  have hrun : ∀ l : List Issue, (∀ x ∈ l, x.Sound) →
      Timely (run State.empty (l.map Issue.call)) := by
    intro l hl
    refine Timely.empty.run (List.forall_mem_map.mpr (fun x hx => ?_))
    exact ⟨(hl x hx).bounded, (hl x hx).present⟩
  refine ⟨hrun issues h, (hrun issues h).timeOrdered, ?_⟩
  intro before x after hsplit
  rw [hsplit, List.forall_mem_append, List.forall_mem_cons] at h
  obtain ⟨hbefore, hx, _⟩ := h
  refine ⟨?_, ?_, fun _ hg => hx.builds.gives hg⟩
  · intro t seconds hadds
    rcases hadds with horigin | ⟨rfl, hcore⟩
    · exact hx.builds.sumFits horigin
    · exact hx.present.sumFits ((hrun before hbefore).adds hx.bounded hcore)
  · intro id t ht
    rw [List.map_append, run_append] at ht
    exact (hrun before hbefore).dates hx.bounded hx.present ht

end Issues

section Runs

/-- A task is sent to a queue that was purged meanwhile, handed out of it, and the cron
worker sends another one. -/
def workday : List Issue :=
  [⟨.handler (.enqueue enqueueOne) 0 defaultServiceLimits
      (enqueueEvents (jobs 1 60 false) (jobs 2 60 false)) (.ok (.tasks [taskToFront job] 1)),
      ⟨second, .enqueue (requestFor second (jobs 2 60 false) (jobs 1 60 false) enqueueOne)⟩⟩,
    ⟨.handler (.dequeue dequeueOne) 0 defaultServiceLimits
      (dequeueEvents (jobs 1 60 false) (jobs 2 60 false)) (.ok (.tasks [taskToFront job] 1)),
      ⟨2 * second, .dequeue (coreDequeueRequest dequeueOne (jobs 2 60 false))⟩⟩,
    ⟨.cron (10 * second) (cronEntry minute),
      ⟨10 * second, .enqueue ⟨⟨1, 1⟩, [Workers.enqueueEntry (cronEntry minute) minute]⟩⟩⟩]

theorem purgedMeanwhile_genuine (send : Queue → Request)
    (answer : ∀ q, Except Error (Reply (send q).Response))
    (h : ∀ q r, Genuine ⟨.call (send q), r⟩ ∧ Current ⟨.call (send q), r⟩) :
    ∀ e ∈ purgedMeanwhile (jobs 1 60 false) (jobs 2 60 false) send answer,
      Genuine e ∧ Current e := by
  simp only [purgedMeanwhile, List.forall_mem_cons, List.not_mem_nil, false_imp_iff, implies_true,
    and_true]
  exact ⟨⟨jobs_stored (by decide), trivial⟩, h _ _, ⟨trivial, trivial⟩, ⟨trivial, trivial⟩,
    ⟨jobs_stored (by decide), trivial⟩, ⟨trivial, trivial⟩, h _ _⟩

/-- The lease of the task that was handed out ends half a minute later. -/
theorem workday_times_in_order :
    TimeOrdered (run State.empty (workday.map Issue.call)) ∧
    (run State.empty (workday.map Issue.call)).inProgressIndex.items ⟨0, 2⟩ = [⟨32 * second, 1⟩] ∧
    (run State.empty (workday.map Issue.call)).queueIndex.items ⟨1, 1⟩ = [⟨minute, 1⟩] ∧
    SumFits (2 * second) 30 := by
  have hsound : ∀ x ∈ workday, x.Sound := by
    simp only [workday, List.forall_mem_cons, List.not_mem_nil, false_imp_iff,
      implies_true, and_true]
    refine ⟨⟨by decide, ?_⟩, ⟨by decide, ?_⟩, ⟨by decide, ?_⟩⟩
    · have hes := purgedMeanwhile_genuine
        (fun q => .enqueue (requestFor second q (jobs 1 60 false) enqueueOne))
        (fun _ => .ok ⟨[job], 1⟩) (fun _ _ => ⟨trivial, trivial⟩)
      refine ⟨by decide +kernel, by decide, enqueueEvents_runs _ _,
        List.forall_mem_cons.mpr ⟨trivial, fun e he => (hes e he).1⟩,
        List.forall_mem_cons.mpr ⟨(by decide : Present second), fun e he => (hes e he).2⟩, ?_⟩
      exact ⟨.enqueue (requestFor second (jobs 2 60 false) (jobs 1 60 false) enqueueOne),
        by decide +kernel, rfl⟩
    · have hes := purgedMeanwhile_genuine
        (fun q => .dequeue (coreDequeueRequest dequeueOne q)) (fun _ => .ok ⟨[job], 1⟩)
        (fun _ _ => ⟨trivial, trivial⟩)
      refine ⟨by decide +kernel, by decide, ?_, fun e he => (hes e he).1,
        fun e he => (hes e he).2, ?_⟩
      · exact ⟨_, _, rfl, _, _, rfl, _, _, rfl, _, _, rfl, _, _, rfl, _, _, rfl, _, _,
          rfl, rfl, rfl⟩
      · exact ⟨.dequeue (coreDequeueRequest dequeueOne (jobs 2 60 false)), by decide +kernel, rfl⟩
    · exact ⟨by decide, ⟨rfl, rfl, rfl⟩, _, rfl, rfl⟩
  obtain ⟨_, hordered, hsums⟩ := run_times_in_order hsound
  refine ⟨hordered, by decide +kernel, by decide +kernel, ?_⟩
  exact (hsums [_] _ [_] rfl).1 (2 * second) 30 (Or.inr ⟨rfl, Or.inl rfl⟩)

end Runs

end Server

end Moab
