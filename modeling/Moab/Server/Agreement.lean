import Moab.Server.Retries
import Moab.Server.Rules
import Moab.Workers.Admission

namespace Moab.Server

open Coreapis Queues Workers

section Checks

theorem check_ok_iff {ok : Bool} {fieldName details : String} :
    check ok fieldName details = .ok () ↔ ok = true := require_ok_iff

theorem validateBetween_ok_iff {field : String} {lower upper value : Time} :
    Corepb.validateBetween field lower upper value = .ok () ↔ ¬(value < lower ∨ value > upper) := by
  rw [Corepb.validateBetween, require_ok_iff, decide_eq_true_eq]

theorem validateRetryIntervals_ok_iff (i : Nat) (intervals : List Time) :
    Corepb.validateRetryIntervals i intervals = .ok () ↔
      ∀ interval ∈ intervals, ¬(interval < 0 ∨ interval > Corepb.maxRetryIntervalInSeconds) := by
  induction intervals generalizing i with
  | nil => simp [Corepb.validateRetryIntervals]
  | cons interval intervals ih =>
    rw [Corepb.validateRetryIntervals, checks_ok_iff, validateBetween_ok_iff, ih,
      List.forall_mem_cons]

theorem validateQueueId_ok {q : QueueId} (h : q.queueId ≠ 0) :
    Corepb.validateQueueId q = .ok () := by
  rw [Corepb.validateQueueId, require_ok_iff, decide_eq_true_eq]
  exact h

variable {fieldName : String}

theorem validateRetryStrategy_agree {value : Option RetryStrategy} :
    validateRetryStrategy value fieldName = .ok () ↔
      Corepb.validateRetryStrategy value = .ok () := by
  cases value with
  | none => exact Iff.rfl
  | some value =>
    have heach : ∀ i interval, validateRetryInterval fieldName i interval = .ok () ↔
        ¬(interval < 0 ∨ interval > maxRetryIntervalInSeconds) := by
      intro i interval
      rw [validateRetryInterval, check_ok_iff, decide_eq_true_eq]
    rw [validateRetryStrategy, Corepb.validateRetryStrategy, checks_ok_iff, checks_ok_iff,
      check_ok_iff, require_ok_iff, validateEach_ok_iff heach, validateRetryIntervals_ok_iff]
    exact Iff.rfl

theorem validateSettings_agree {value : Option DequeuingSettings} :
    validateSettings value fieldName = .ok () ↔
      Corepb.validateDequeuingSettings value = .ok () := by
  rw [validateSettings, mapError_ok_iff]
  cases value with
  | none => exact Iff.rfl
  | some value => exact checkDequeuingSettings_ok.trans checkDequeuingSettings_ok.symm

theorem validateDeadLetterQueueConfig_agree {value : Option DeadLetterQueueConfig} :
    validateDeadLetterQueueConfig value fieldName = .ok () ↔
      Corepb.validateDeadLetterQueueConfig value = .ok () := by
  cases value with
  | none => exact Iff.rfl
  | some value =>
    rw [validateDeadLetterQueueConfig, Corepb.validateDeadLetterQueueConfig, checks_ok_iff,
      checks_ok_iff, check_ok_iff, check_ok_iff, require_ok_iff, validateBetween_ok_iff,
      decide_eq_true_eq, decide_eq_true_eq]
    exact Iff.rfl

theorem validateKeepalive_agree {value : Time} :
    validateKeepaliveTimeoutInSeconds value fieldName = .ok () ↔
      Corepb.validateKeepaliveTimeoutInSeconds value = .ok () := by
  rw [validateKeepaliveTimeoutInSeconds, Corepb.validateKeepaliveTimeoutInSeconds, check_ok_iff,
    decide_eq_true_eq, validateBetween_ok_iff]
  exact Iff.rfl

theorem unlessZero_keepalive {value : Time} :
    unlessZero validateKeepaliveTimeoutInSeconds value fieldName = .ok () ↔
      Corepb.validateKeepaliveOverride value = .ok () := by
  unfold unlessZero Corepb.validateKeepaliveOverride
  split_ifs
  · exact validateKeepalive_agree
  · exact Iff.rfl

/-- A lease that the request leaves to the queue is that of the queue. -/
theorem validateKeepaliveOverride_ok {value default : Time}
    (h : Corepb.validateKeepaliveOverride value = .ok ())
    (hdefault : Corepb.validateKeepaliveTimeoutInSeconds default = .ok ()) :
    Corepb.validateKeepaliveOverride (if value = 0 then default else value) = .ok () := by
  split_ifs
  · rw [Corepb.validateKeepaliveOverride, hdefault, ite_self]
  · exact h

theorem validateExpires_agree {value : Time} :
    validateExpiresInSeconds value fieldName = .ok () ↔
      Corepb.validateExpiresInSeconds value = .ok () := by
  rw [validateExpiresInSeconds, Corepb.validateExpiresInSeconds, check_ok_iff, decide_eq_true_eq,
    validateBetween_ok_iff]
  exact Iff.rfl

end Checks

section Schedules

theorem validateOverride_ok {value : Time} {fieldName : String}
    (h : unlessZero validateExpiresInSeconds value fieldName = .ok ()) :
    validateOverride value = .ok () := by
  unfold unlessZero at h
  unfold validateOverride
  by_cases hzero : value = 0
  · rw [if_neg (not_not.mpr hzero)]
  · rw [if_pos hzero, validateExpires_agree] at h
    rw [if_pos hzero]
    exact h

variable [Gronx]

theorem validateCreateScheduleRequest_settings {req : Moabpb.CreateScheduleRequest}
    (h : validateCreateScheduleRequest req = .ok ()) :
      req.toScheduleSettings.validate = .ok () := by
  simp only [validateCreateScheduleRequest, validateCron, validateTimezone, validateSchedulePayload,
    checks_ok_iff, check_ok_iff, validateRetryStrategy_agree] at h
  obtain ⟨_, _, _, hcron, _, hpayload, hexpires, hretry, _, hzone⟩ := h
  simp only [ScheduleSettings.validate, checks_ok_iff, require_ok_iff]
  exact ⟨hcron, hzone, validateOverride_ok hexpires, hretry, hpayload⟩

theorem validateUpdateScheduleRequest_settings {req : Moabpb.UpdateScheduleRequest}
    (h : validateUpdateScheduleRequest req = .ok ()) :
      req.toScheduleSettings.validate = .ok () := by
  simp only [validateUpdateScheduleRequest, validateCron, validateTimezone, validateSchedulePayload,
    checks_ok_iff, check_ok_iff, validateRetryStrategy_agree] at h
  obtain ⟨_, _, _, hexpires, hretry, hpayload, hcron, _, ⟨_, hzone⟩, _⟩ := h
  simp only [ScheduleSettings.validate, checks_ok_iff, require_ok_iff]
  exact ⟨hcron, hzone, validateOverride_ok hexpires, hretry, hpayload⟩

end Schedules

section Stored

/-- The settings of a queue were given in a request that the front end accepted. -/
def FromApi (settings : QueueSettings) : Prop :=
  (∃ req, validateCreateQueueRequest req = .ok () ∧ req.toQueueSettings = settings) ∨
    ∃ req, validateUpdateQueueRequest req = .ok () ∧ req.toQueueSettings = settings

theorem validateCreateQueueRequest_settings {req : Moabpb.CreateQueueRequest}
    (h : validateCreateQueueRequest req = .ok ()) : req.toQueueSettings.validate = .ok () := by
  simp only [validateCreateQueueRequest, checks_ok_iff, validateSettings_agree,
    validateDeadLetterQueueConfig_agree, validateRetryStrategy_agree, validateKeepalive_agree,
    validateExpires_agree] at h
  obtain ⟨_, _, hsettings, hdlq, hretry, hkeepalive, hexpires⟩ := h
  simp only [QueueSettings.validate, checks_ok_iff, mapError_ok_iff]
  exact ⟨hexpires, hkeepalive, hretry, hsettings, hdlq⟩

theorem validateUpdateQueueRequest_settings {req : Moabpb.UpdateQueueRequest}
    (h : validateUpdateQueueRequest req = .ok ()) : req.toQueueSettings.validate = .ok () := by
  simp only [validateUpdateQueueRequest, checks_ok_iff, validateSettings_agree,
    validateDeadLetterQueueConfig_agree, validateRetryStrategy_agree, validateKeepalive_agree,
    validateExpires_agree] at h
  obtain ⟨_, _, hretry, hsettings, hdlq, hexpires, hkeepalive, _⟩ := h
  simp only [QueueSettings.validate, checks_ok_iff, mapError_ok_iff]
  exact ⟨hexpires, hkeepalive, hretry, hsettings, hdlq⟩

theorem FromApi.validate {settings : QueueSettings} (h : FromApi settings) :
    settings.validate = .ok () := by
  rcases h with ⟨req, hreq, rfl⟩ | ⟨req, hreq, rfl⟩
  · exact validateCreateQueueRequest_settings hreq
  · exact validateUpdateQueueRequest_settings hreq

/-- A stored queue that was created through the API, under ids that are not zero. -/
structure Stored (queue : Queue) : Prop where
  id : queue.id.queueId ≠ 0
  settings : FromApi (settingsOf queue)

theorem Stored.queueId {queue : Queue} (h : Stored queue) :
    Corepb.validateQueueId queue.id = .ok () :=
  validateQueueId_ok h.id

/-- What the core checks of the settings of a stored queue. -/
theorem Stored.checks {queue : Queue} (h : Stored queue) :
    Corepb.validateExpiresInSeconds queue.expiresInSeconds = .ok () ∧
    Corepb.validateKeepaliveTimeoutInSeconds queue.keepaliveTimeoutInSeconds = .ok () ∧
    Corepb.validateRetryStrategy queue.retryStrategy = .ok () ∧
    Corepb.validateDequeuingSettings queue.dequeuingSettings = .ok () ∧
    Corepb.validateDeadLetterQueueConfig queue.deadLetterQueueConfig = .ok () := by
  have hvalid := h.settings.validate
  simp only [QueueSettings.validate, checks_ok_iff, mapError_ok_iff] at hvalid
  exact hvalid

/-- An answer that the handlers may get: the ids drawn are not zero, and neither are those
of stored queues, which were created through the API. -/
def Genuine : Event → Prop
  | ⟨.rand, id⟩ => id ≠ 0
  | ⟨.cached _, some (.ok queue)⟩ => Stored queue
  | ⟨.call (.getQueueByName _), .ok reply⟩ => Stored reply.response
  | ⟨.call (.deleteQueue _), .ok reply⟩ => reply.response.queueId ≠ 0
  | ⟨.call (.swapQueueId _), .ok reply⟩ => reply.response.2.queueId ≠ 0
  | _ => True

end Stored

section Handlers

variable [Base62] [Gronx] [Wire] {accountId : Nat} {limits : ServiceLimits}

/-- The core accepts the request. -/
def Valid (req : Request) : Prop := req.validate = .ok ()

omit [Base62] [Wire] in
theorem contract : Contract Genuine Valid Stored where
  lookup _ := rfl
  cached _ _ h := h
  named _ _ h := h

omit [Base62] [Wire] in
theorem createQueue_sends {req : Moabpb.CreateQueueRequest}
    (h : validateCreateQueueRequest req = .ok ()) :
    Sends Genuine Valid (fun _ => True) (createQueue req accountId limits) := by
  refine sends_withGeneratedId (fun id hid => ?_) _
  exact sends_attemptId_call
    (checks_ok_iff.mpr ⟨validateQueueId_ok hid, validateCreateQueueRequest_settings h⟩)
    (fun _ _ => sends_pure trivial)

omit [Base62] [Wire] in
theorem getQueueAndStats_sends {req : Moabpb.GetQueueRequest} :
    Sends Genuine Valid (fun _ => True) (getQueueAndStats req accountId) :=
  contract.withQueue (fun _ hq => sends_orFail_call hq.queueId (fun _ _ => sends_pure trivial))

omit [Base62] [Wire] in
theorem updateQueue_sends {req : Moabpb.UpdateQueueRequest}
    (h : validateUpdateQueueRequest req = .ok ()) :
    Sends Genuine Valid (fun _ => True) (updateQueue req accountId) :=
  sends_orFail_call (validateUpdateQueueRequest_settings h) (fun _ _ => sends_pure trivial)

omit [Base62] [Wire] in
theorem deleteQueue_sends {req : Moabpb.DeleteQueueRequest} :
    Sends Genuine Valid (fun _ => True) (deleteQueue req accountId) := by
  refine sends_orFail_call rfl (fun reply hreply => ?_)
  refine sends_perform trivial (fun _ _ => ?_)
  exact sends_orFail_call (validateQueueId_ok hreply) (fun _ _ => sends_pure trivial)

omit [Base62] [Wire] in
theorem purgeQueue_sends {req : Moabpb.PurgeQueueRequest} :
    Sends Genuine Valid (fun _ => True) (purgeQueue req accountId) := by
  refine sends_withGeneratedId (fun id _ => ?_) _
  refine sends_attemptId_call rfl (fun reply hreply => ?_)
  refine sends_perform trivial (fun _ _ => ?_)
  exact sends_orFail_call (validateQueueId_ok hreply) (fun _ _ => sends_pure trivial)

omit [Base62] in
theorem listQueues_sends {req : Moabpb.ListQueuesRequest} :
    Sends Genuine Valid (fun _ => True) (listQueues req accountId) := by
  unfold listQueues
  split
  · exact sends_pure trivial
  · exact sends_orFail_call rfl (fun _ _ => sends_withTokens)

omit [Wire] in
theorem dequeue_sends {req : Moabpb.DequeueRequest} (h : validateDequeueRequest req = .ok ()) :
    Sends Genuine Valid (fun _ => True) (dequeue req accountId limits) := by
  simp only [validateDequeueRequest, checks_ok_iff, unlessZero_keepalive] at h
  obtain ⟨_, _, hkeepalive⟩ := h
  have hcore : ∀ queue, Stored queue → Valid (.dequeue (coreDequeueRequest req queue)) := by
    intro queue hq
    obtain ⟨_, hdefault, _, hsettings, hdlq⟩ := hq.checks
    simp only [Valid, Request.validate, DequeueRequest.validate, checks_ok_iff, mapError_ok_iff]
    exact ⟨hq.queueId, hsettings, hdlq, validateKeepaliveOverride_ok hkeepalive hdefault⟩
  unfold dequeue
  split_ifs
  · exact sends_pure trivial
  refine contract.withCachedQueue (fun queue hqueue => ?_)
  split_ifs
  · exact sends_pure trivial
  · refine contract.sendToQueue hqueue (fun q hq => ?_) (fun _ => sends_pure trivial)
    exact sends_single (hcore q hq)

omit [Wire] in
theorem deleteTasks_sends {req : Moabpb.DeleteTasksRequest}
    (h : validateDeleteTasksRequest req = .ok ()) :
    Sends Genuine Valid (fun _ => True) (deleteTasks req accountId) := by
  simp only [validateDeleteTasksRequest, validateTaskIds, checks_ok_iff, check_ok_iff,
    decide_eq_true_eq] at h
  obtain ⟨_, hlength, _⟩ := h
  refine contract.withQueue (fun queue hq => ?_)
  cases hids : req.taskIds.mapM coreTaskId with
  | error status => exact sends_pure trivial
  | ok taskIds =>
    refine sends_orFail_call ?_ (fun _ _ => sends_pure trivial)
    simp only [Valid, Request.validate, DeleteTasksRequest.validate, checks_ok_iff, require_ok_iff,
      decide_eq_true_eq, ← (forall₂_of_mapM_ok hids).length_eq]
    rw [not_or, Nat.not_lt, Nat.not_lt] at hlength
    exact ⟨hq.queueId, hlength.2⟩

theorem listTasks_sends {req : Moabpb.ListTasksRequest} :
    Sends Genuine Valid (fun _ => True) (listTasks req accountId) := by
  refine contract.withCachedQueue (fun queue hqueue => ?_)
  split
  · exact sends_pure trivial
  · next token _ =>
    have hcore : ∀ q : Queue, Stored q → Valid (.listTasks ⟨q.id, req.state, token, req.limit⟩) :=
      fun q hq => hq.queueId
    exact contract.sendToQueue hqueue (fun q hq => sends_single (hcore q hq))
      (fun _ => sends_withTokens)

omit [Base62] in
theorem listSchedules_sends {req : Moabpb.ListSchedulesRequest} :
    Sends Genuine Valid (fun _ => True) (listSchedules req accountId) := by
  refine contract.withCachedQueue (fun queue hqueue => ?_)
  split
  · exact sends_pure trivial
  · exact sends_orFail_call hqueue.queueId (fun _ _ => sends_withTokens)

omit [Base62] [Wire] in
theorem createSchedule_sends {req : Moabpb.CreateScheduleRequest}
    (h : validateCreateScheduleRequest req = .ok ()) :
    Sends Genuine Valid (fun _ => True) (createSchedule req accountId limits) := by
  refine sends_withGeneratedId (fun id _ => ?_) _
  exact sends_attemptId_call (validateCreateScheduleRequest_settings h)
    (fun _ _ => sends_pure trivial)

omit [Base62] [Wire] in
theorem updateSchedule_sends {req : Moabpb.UpdateScheduleRequest}
    (h : validateUpdateScheduleRequest req = .ok ()) :
    Sends Genuine Valid (fun _ => True) (updateSchedule req accountId) :=
  sends_orFail_call (validateUpdateScheduleRequest_settings h) (fun _ _ => sends_pure trivial)

omit [Base62] [Wire] in
theorem getSchedule_sends {req : Moabpb.GetScheduleRequest} :
    Sends Genuine Valid (fun _ => True) (getSchedule req accountId) :=
  sends_orFail_call rfl (fun _ _ => sends_pure trivial)

omit [Base62] [Wire] in
theorem deleteSchedule_sends {req : Moabpb.DeleteScheduleRequest} :
    Sends Genuine Valid (fun _ => True) (deleteSchedule req accountId) :=
  sends_orFail_call rfl (fun _ _ => sends_pure trivial)

/-- The deadline that a queue gives by default does not overflow. -/
def InTime (now : Time) (queue : Queue) (scheduledAt : Time) : Prop :=
  (notBefore scheduledAt now).toInt + queue.expiresInSeconds.toInt * 1000000000 < 2 ^ 63

omit [Base62] [Gronx] [Wire] in
theorem Stored.expires {queue : Queue} (h : Stored queue) : Expires queue.expiresInSeconds :=
  (validateExpiresInSeconds_expires queue.expiresInSeconds).elim h.checks.1

omit [Base62] [Gronx] [Wire] in
theorem notBefore_nonneg {scheduledAt : Time} (h : 0 ≤ scheduledAt) (now : Time) :
    0 ≤ (notBefore scheduledAt now).toInt := by
  have hzero : (0 : Time).toInt = 0 := by decide
  unfold notBefore
  rw [Int64.le_iff_toInt_le, hzero] at h
  split_ifs with hlt
  · rw [Int64.lt_iff_toInt_lt] at hlt
    omega
  · exact h

omit [Base62] [Gronx] [Wire] in
/-- A sum that overflows is negative, so every requested deadline is cut off at it. -/
theorem deadline_nonneg_iff {now scheduledAt expiresAt : Time} {queue : Queue} (hq : Stored queue)
    (hs : 0 ≤ scheduledAt) (he : 0 ≤ expiresAt) :
    0 ≤ deadline now queue scheduledAt expiresAt ↔ InTime now queue scheduledAt := by
  have hzero : (0 : Time).toInt = 0 := by decide
  have hstart := notBefore_nonneg hs now
  have hend := (notBefore scheduledAt now).toInt_lt
  obtain ⟨hmin, hmax⟩ := hq.expires
  have hceiling : (ceiling now queue scheduledAt).toInt =
      ((notBefore scheduledAt now).toInt +
        queue.expiresInSeconds.toInt * 1000000000).bmod (2 ^ 64) :=
    Int64.toInt_ofInt
  rw [Int64.le_iff_toInt_le, hzero] at he ⊢
  unfold deadline InTime
  by_cases hfits : (notBefore scheduledAt now).toInt +
      queue.expiresInSeconds.toInt * 1000000000 < 2 ^ 63
  · rw [Fits.bmod ⟨by omega, hfits⟩] at hceiling
    simp only [hfits, iff_true]
    split_ifs
    · omega
    · exact he
  · have hwrap : ((notBefore scheduledAt now).toInt +
        queue.expiresInSeconds.toInt * 1000000000).bmod (2 ^ 64) < 0 := by
      rw [Int.bmod_def]
      split_ifs <;> omega
    have hcut : expiresAt > ceiling now queue scheduledAt := by
      rw [gt_iff_lt, Int64.lt_iff_toInt_lt]
      omega
    rw [if_pos (Or.inr hcut)]
    omega

/-- Where the two layers agree on a call. A task id of zero has a public string, which the
front end accepts; and a deadline that overflows is cut off before the epoch. -/
def Agrees (limits : ServiceLimits) (es : List Event) : Moabpb.Request → Prop
  | .reportStatus req => resolved es ≠ [] → ∀ e ∈ req.entries, decodeTaskId e.taskId ≠ some 0
  | .getTask req => resolved es ≠ [] → decodeTaskId req.taskId ≠ some 0
  | .enqueue req => ∀ now queue, clock es = some now → (resolved es).head? = some queue →
    (∀ e ∈ req.entries, Near now limits e.scheduledAt) →
      ∀ e ∈ req.entries, InTime now queue e.scheduledAt
  | .restartTasks req => ∀ now queue, clock es = some now → (resolved es).head? = some queue →
    (∀ e ∈ req.entries, Near now limits e.scheduledAt) →
      ∀ e ∈ req.entries, InTime now queue e.scheduledAt
  | _ => True

variable {es : List Event} {outcome : Outcome}

omit [Base62] [Gronx] [Wire] in
theorem withQueue_runs {queueName : Bytes} {next : Queue → Handler Outcome}
    (h : (withQueue accountId queueName next).Runs es outcome) :
    (resolved es = [] ∧ sent es = [.getQueueByName ⟨accountId, queueName⟩]) ∨
      ∃ reply rest, es = ⟨.call (.getQueueByName ⟨accountId, queueName⟩), .ok reply⟩ :: rest ∧
        (next reply.response).Runs rest outcome := by
  obtain ⟨r, rest, rfl, hrest⟩ := call_runs.mp h
  cases r with
  | error err =>
    obtain ⟨rfl, rfl⟩ := hrest
    exact Or.inl ⟨rfl, rfl⟩
  | ok reply => exact Or.inr ⟨reply, rest, rfl, hrest⟩

omit [Base62] [Wire] in
/-- A call after a lookup. -/
theorem valid_lookup_call {lookup : GetQueueByNameRequest} {core : Request}
    {answer : Except Error (Reply Queue)} {r : Except Error (Reply core.Response)} :
    (∀ c ∈ sent [⟨.call (.getQueueByName lookup), answer⟩, ⟨.call core, r⟩], Valid c) ↔
      Valid core := by
  change (∀ c ∈ [Request.getQueueByName lookup, core], Valid c) ↔ Valid core
  rw [List.forall_mem_cons, List.forall_mem_singleton]
  exact and_iff_right rfl

omit [Base62] [Gronx] [Wire] in
theorem validateTaskId_ok_iff {id : TaskId} :
    Corepb.validateTaskId id = .ok () ↔ id.queueId ≠ 0 ∧ id.taskId ≠ 0 := by
  rw [Corepb.validateTaskId, checks_ok_iff, require_ok_iff, require_ok_iff, decide_eq_true_eq,
    decide_eq_true_eq]

omit [Wire] in
theorem getTask_agree {req : Moabpb.GetTaskRequest} (hreq : validateGetTaskRequest req = .ok ())
    (h : (getTask req accountId).Runs es outcome) (hes : ∀ e ∈ es, Genuine e) :
    (∀ c ∈ sent es, Valid c) ↔ Agrees limits es (.getTask req) := by
  simp only [validateGetTaskRequest, checks_ok_iff, check_ok_iff] at hreq
  obtain ⟨taskId, hid⟩ := Option.isSome_iff_exists.mp hreq.2
  rcases withQueue_runs h with ⟨hnone, hsent⟩ | ⟨reply, rest, rfl, hrest⟩
  · simp [hsent, hnone, Agrees, Valid, Request.validate]
  · have hstored : Stored reply.response := hes _ List.mem_cons_self
    rw [hid] at hrest
    obtain ⟨r, tail, rfl, htail⟩ := call_runs.mp hrest
    obtain rfl := Silent.orFail (fun _ => silent_pure _) _ _ htail
    rw [valid_lookup_call, Valid, Request.validate, validateTaskId_ok_iff]
    simp [Agrees, resolved, resolution, hid, hstored.id]

omit [Wire] in
theorem reportStatus_agree {req : Moabpb.ReportStatusRequest}
    (hreq : validateReportStatusRequest req = .ok ())
    (h : (reportStatus req accountId).Runs es outcome) (hes : ∀ e ∈ es, Genuine e) :
    (∀ c ∈ sent es, Valid c) ↔ Agrees limits es (.reportStatus req) := by
  have hchecks : ∀ i e, validateReportEntry i e = .ok () ↔ (decodeTaskId e.taskId).isSome ∧
      0 < e.attempt ∧ e.status ≠ .invalid ∧
        Corepb.validateKeepaliveOverride e.keepaliveTimeoutInSeconds = .ok () := by
    intro i e
    simp only [validateReportEntry, validateTaskId, checks_ok_iff, check_ok_iff,
      unlessZero_keepalive, decide_eq_true_eq]
  simp only [validateReportStatusRequest, checks_ok_iff, check_ok_iff, validateEach_ok_iff hchecks,
    decide_eq_true_eq] at hreq
  obtain ⟨_, _, hlength, heach⟩ := hreq
  rcases withQueue_runs h with ⟨hnone, hsent⟩ | ⟨reply, rest, rfl, hrest⟩
  · simp [hsent, hnone, Agrees, Valid, Request.validate]
  · have hstored : Stored reply.response := hes _ List.mem_cons_self
    obtain ⟨_, hdefault, _, _, hdlq⟩ := hstored.checks
    have hbuilds : ∀ e ∈ req.entries, ∃ c, coreReportEntry reply.response accountId e = .ok c := by
      intro e he
      obtain ⟨hid, _, hstatus, _⟩ := heach e he
      obtain ⟨taskId, hid⟩ := Option.isSome_iff_exists.mp hid
      rw [coreReportEntry, hid]
      exact ⟨_, if_neg hstatus⟩
    obtain ⟨entries, hentries⟩ := exists_mapM_ok_iff.mpr hbuilds
    rw [hentries] at hrest
    obtain ⟨r, tail, rfl, htail⟩ := call_runs.mp hrest
    obtain rfl := Silent.orFail (fun _ => silent_pure _) _ _ htail
    have hpairs := forall₂_of_mapM_ok hentries
    have hcore : ∀ i c, Corepb.validateReportEntry i c = .ok () ↔
        Corepb.validateTaskId c.taskId = .ok () ∧
          Corepb.validateKeepaliveOverride c.keepaliveTimeoutInSeconds = .ok () := by
      intro i c
      rw [Corepb.validateReportEntry, checks_ok_iff, mapError_ok_iff, mapError_ok_iff]
    have hids : (∀ c ∈ entries, Corepb.validateTaskId c.taskId = .ok () ∧
        Corepb.validateKeepaliveOverride c.keepaliveTimeoutInSeconds = .ok ()) ↔
          ∀ e ∈ req.entries, decodeTaskId e.taskId ≠ some 0 := by
      refine forall_mem_iff_of_forall₂ hpairs (fun e he c hc => ?_)
      obtain ⟨hid, _, hstatus, hkeepalive⟩ := heach e he
      obtain ⟨taskId, hid⟩ := Option.isSome_iff_exists.mp hid
      rw [coreReportEntry, hid] at hc
      dsimp only at hc
      rw [if_neg hstatus] at hc
      obtain rfl := Except.ok.inj hc
      rw [validateTaskId_ok_iff, hid, and_iff_left
        (validateKeepaliveOverride_ok hkeepalive hdefault)]
      simp [hstored.id]
    rw [valid_lookup_call, Valid, Request.validate, ReportStatusRequest.validate]
    simp only [checks_ok_iff, require_ok_iff, validateEach_ok_iff hcore, hids, hdlq, and_true,
      decide_eq_true_eq, ← hpairs.length_eq]
    simp only [Agrees, resolved, List.filterMap_cons, resolution]
    constructor
    · exact fun hvalid _ => hvalid.2
    · exact fun hvalid => ⟨hlength, hvalid (by simp)⟩

omit [Gronx] [Wire] in
theorem validateRestartEntries_ok {seen : List Bytes} {i : Nat}
    {entries : List Moabpb.RestartTasksRequestEntry}
    (h : validateRestartEntries seen i entries = .ok ()) :
    ∀ e ∈ entries, (decodeTaskId e.taskId).isSome ∧ 0 ≤ e.scheduledAt ∧ 0 ≤ e.expiresAt := by
  induction entries generalizing seen i with
  | nil => simp
  | cons e entries ih =>
    simp only [validateRestartEntries, validateTaskId, checks_ok_iff, check_ok_iff,
      decide_eq_true_eq] at h
    obtain ⟨_, hid, hscheduled, hexpires, hrest⟩ := h
    exact List.forall_mem_cons.mpr ⟨⟨hid, hscheduled, hexpires⟩, ih hrest⟩

/-- The times of a restarted task, as the queue allows them. -/
def Restarts (now : Time) (queue : Queue) (e : Moabpb.RestartTasksRequestEntry)
    (c : RestartTasksRequestEntry) : Prop :=
  c.scheduledAt = e.scheduledAt ∧ c.expiresAt = deadline now queue e.scheduledAt e.expiresAt

omit [Gronx] [Wire] in
theorem coreRestartEntry_ok {now : Time} {queue : Queue} {i : Nat}
    {e : Moabpb.RestartTasksRequestEntry} {c : RestartTasksRequestEntry}
    (h : coreRestartEntry now limits queue i e = .ok c) :
    Near now limits e.scheduledAt ∧ Restarts now queue e c := by
  unfold coreRestartEntry at h
  cases hid : coreTaskId e.taskId with
  | error status => simp [hid, bind, Except.bind] at h
  | ok taskId =>
    by_cases hnear : Near now limits e.scheduledAt
    · simp only [hid, bind, Except.bind, resolve_near hnear, Except.ok.injEq] at h
      obtain rfl := h
      exact ⟨hnear, rfl, rfl⟩
    · simp [hid, bind, Except.bind, resolve_far hnear] at h

omit [Gronx] [Wire] in
theorem coreRestartEntry_near {now : Time} {e : Moabpb.RestartTasksRequestEntry}
    (hid : (decodeTaskId e.taskId).isSome) (hnear : Near now limits e.scheduledAt) (queue : Queue)
    (i : Nat) :
    ∃ c, coreRestartEntry now limits queue i e = .ok c := by
  obtain ⟨taskId, hid⟩ := Option.isSome_iff_exists.mp hid
  have hcore : coreTaskId e.taskId = .ok taskId := by rw [coreTaskId, hid]
  rw [coreRestartEntry, hcore, resolve_near hnear]
  exact ⟨_, rfl⟩

omit [Gronx] [Wire] in
theorem coreRestartEntries_ok {now : Time} {queue : Queue} {i : Nat}
    {es : List Moabpb.RestartTasksRequestEntry} {cs : List RestartTasksRequestEntry}
    (h : coreRestartEntries now limits queue i es = .ok cs) :
    (∀ e ∈ es, Near now limits e.scheduledAt) ∧ List.Forall₂ (Restarts now queue) es cs := by
  induction es generalizing i cs with
  | nil =>
    obtain rfl := Except.ok.inj h
    exact ⟨by simp, .nil⟩
  | cons e es ih =>
    rw [coreRestartEntries] at h
    cases hentry : coreRestartEntry now limits queue i e with
    | error status => simp [hentry, bind, Except.bind] at h
    | ok c =>
      cases hrest : coreRestartEntries now limits queue (i + 1) es with
      | error status => simp [hentry, hrest, bind, Except.bind] at h
      | ok rest =>
        simp only [hentry, hrest, bind, Except.bind, Except.ok.injEq] at h
        obtain rfl := h
        obtain ⟨hnear, hpair⟩ := coreRestartEntry_ok hentry
        obtain ⟨hall, hpairs⟩ := ih hrest
        exact ⟨List.forall_mem_cons.mpr ⟨hnear, hall⟩, .cons hpair hpairs⟩

omit [Gronx] [Wire] in
theorem coreRestartEntries_near {now : Time} {es : List Moabpb.RestartTasksRequestEntry}
    (hids : ∀ e ∈ es, (decodeTaskId e.taskId).isSome)
    (hnear : ∀ e ∈ es, Near now limits e.scheduledAt) (queue : Queue) (i : Nat) :
    ∃ cs, coreRestartEntries now limits queue i es = .ok cs := by
  induction es generalizing i with
  | nil => exact ⟨[], rfl⟩
  | cons e es ih =>
    rw [List.forall_mem_cons] at hids hnear
    obtain ⟨c, hc⟩ := coreRestartEntry_near hids.1 hnear.1 queue i
    obtain ⟨cs, hcs⟩ := ih hids.2 hnear.2 (i + 1)
    rw [coreRestartEntries, hc, hcs]
    exact ⟨_, rfl⟩

omit [Wire] in
theorem restartTasks_agree {req : Moabpb.RestartTasksRequest}
    (hreq : validateRestartTasksRequest req = .ok ())
    (h : (restartTasks req accountId limits).Runs es outcome) (hes : ∀ e ∈ es, Genuine e) :
    (∀ c ∈ sent es, Valid c) ↔ Agrees limits es (.restartTasks req) := by
  simp only [validateRestartTasksRequest, checks_ok_iff, check_ok_iff, decide_eq_true_eq] at hreq
  obtain ⟨_, hlength, hentries⟩ := hreq
  have heach := validateRestartEntries_ok hentries
  obtain ⟨now, rest, rfl, hrest⟩ := perform_runs.mp h
  rcases withQueue_runs hrest with ⟨hnone, hsent⟩ | ⟨reply, rest, rfl, hbuild⟩
  · change (∀ c ∈ sent rest, Valid c) ↔ ∀ t queue, some now = some t →
      (resolved rest).head? = some queue → _
    simp [hsent, hnone, Valid, Request.validate]
  · have hstored : Stored reply.response := hes _ (List.mem_cons_of_mem _ List.mem_cons_self)
    have hagrees : Agrees limits
      (⟨.now, now⟩ :: ⟨.call (.getQueueByName ⟨accountId, req.queueName⟩),
        .ok reply⟩ :: rest) (.restartTasks req) ↔
          ((∀ e ∈ req.entries, Near now limits e.scheduledAt) →
            ∀ e ∈ req.entries, InTime now reply.response e.scheduledAt) := by
      constructor
      · exact fun hall => hall now reply.response rfl rfl
      · intro hall t queue ht hq
        obtain rfl := Option.some.inj ht
        obtain rfl := Option.some.inj hq
        exact hall
    rw [hagrees]
    cases hcore : coreRestartEntries now limits reply.response 0 req.entries with
    | error status =>
      rw [hcore] at hbuild
      obtain ⟨rfl, _⟩ := hbuild
      have hfar : ¬∀ e ∈ req.entries, Near now limits e.scheduledAt := by
        intro hnear
        obtain ⟨cs, hcs⟩ := coreRestartEntries_near (fun e he => (heach e he).1) hnear
          reply.response 0
        rw [hcs] at hcore
        cases hcore
      change (∀ c ∈ [Request.getQueueByName ⟨accountId, req.queueName⟩], Valid c) ↔ _
      simp [hfar, Valid, Request.validate]
    | ok entries =>
      obtain ⟨hnear, hpairs⟩ := coreRestartEntries_ok hcore
      rw [hcore] at hbuild
      obtain ⟨r, tail, rfl, htail⟩ := call_runs.mp hbuild
      obtain rfl := Silent.orFail (fun _ => silent_pure _) _ _ htail
      have hcheck : ∀ i c, Corepb.validateRestartEntry i c = .ok () ↔
          0 ≤ c.scheduledAt ∧ 0 ≤ c.expiresAt := by
        intro i c
        simp only [Corepb.validateRestartEntry, checks_ok_iff, require_ok_iff, decide_eq_true_eq]
      have htimes : (∀ c ∈ entries, 0 ≤ c.scheduledAt ∧ 0 ≤ c.expiresAt) ↔
          ∀ e ∈ req.entries, InTime now reply.response e.scheduledAt := by
        refine forall_mem_iff_of_forall₂ hpairs (fun e he c hc => ?_)
        obtain ⟨_, hscheduled, hexpires⟩ := heach e he
        rw [hc.1, hc.2, deadline_nonneg_iff hstored hscheduled hexpires]
        exact and_iff_right hscheduled
      change (∀ c ∈ sent [⟨.call (.getQueueByName _), .ok reply⟩, ⟨.call _, r⟩], Valid c) ↔ _
      rw [valid_lookup_call, Valid, Request.validate, RestartTasksRequest.validate]
      simp only [checks_ok_iff, require_ok_iff, validateEach_ok_iff hcheck, htimes,
        decide_eq_true_eq, ← hpairs.length_eq]
      rw [not_or, Nat.not_lt, Nat.not_lt] at hlength
      constructor
      · exact fun hvalid _ => hvalid.2.2
      · exact fun hvalid => ⟨hstored.queueId, hlength.2, hvalid hnear⟩

/-- A lookup or an Enqueue. -/
def Enqueuing : Request → Prop
  | .getQueueByName _ => True
  | .enqueue _ => True
  | _ => False

omit [Gronx] [Wire] in
theorem enqueue_sends {req : Moabpb.EnqueueRequest} :
    Sends (fun _ => True) Enqueuing (fun _ => True) (enqueue req accountId limits) := by
  have hcontract : Contract (fun _ => True) Enqueuing (fun _ => True) :=
    ⟨fun _ => trivial, fun _ _ _ => trivial, fun _ _ _ => trivial⟩
  unfold enqueue
  split_ifs
  · exact sends_pure trivial
  refine sends_perform trivial (fun now _ => ?_)
  refine hcontract.withCachedQueue (fun queue _ => ?_)
  split
  · exact sends_pure trivial
  · next entries _ =>
    have hcore : ∀ q : Queue, Enqueuing (.enqueue ⟨q.id, entries⟩) := fun _ => trivial
    exact hcontract.sendToQueue trivial (fun q _ => sends_single (hcore q))
      (fun _ => sends_pure trivial)

omit [Base62] [Gronx] [Wire] in
theorem stored_of_resolved (hes : ∀ e ∈ es, Genuine e) : ∀ queue ∈ resolved es, Stored queue := by
  intro queue hq
  obtain ⟨e, he, hr⟩ := List.mem_filterMap.mp hq
  have hgenuine := hes e he
  unfold resolution at hr
  split at hr
  · obtain rfl := Option.some.inj hr
    exact hgenuine
  · obtain rfl := Option.some.inj hr
    exact hgenuine
  · cases hr

omit [Wire] in
theorem sent_valid_iff_enqueues {req : Moabpb.EnqueueRequest}
    (h : (enqueue req accountId limits).Runs es outcome) :
    (∀ c ∈ sent es, Valid c) ↔ ∀ r ∈ enqueues es, r.validate = .ok () := by
  have hkinds := enqueue_sends.sent h (fun _ _ => trivial)
  constructor
  · intro hall r hr
    obtain ⟨c, hc, heq⟩ := List.mem_filterMap.mp hr
    cases c with
    | enqueue r' =>
      obtain rfl := Option.some.inj heq
      exact hall _ hc
    | _ => cases heq
  · intro hall c hc
    have hkind := hkinds c hc
    cases c with
    | enqueue r => exact hall r (List.mem_filterMap.mpr ⟨_, hc, rfl⟩)
    | getQueueByName _ => exact rfl
    | _ => exact hkind.elim

omit [Base62] [Gronx] [Wire] in
/-- What the front end asks of an entry. -/
theorem validateEnqueueEntry_checks {i : Nat} {e : Moabpb.EnqueueRequestEntry}
    (h : validateEnqueueEntry i e = .ok ()) :
    Corepb.validateRetryStrategy e.retryStrategy = .ok () ∧ 0 ≤ e.expiresAt ∧ 0 ≤ e.scheduledAt ∧
      e.payload.length ≤ Corepb.maxPayloadSize := by
  simp only [validateEnqueueEntry, checks_ok_iff, check_ok_iff, validateRetryStrategy_agree,
    decide_eq_true_eq] at h
  exact ⟨h.2.1, h.2.2.1, h.2.2.2.1, h.2.2.2.2.1⟩

omit [Wire] in
theorem enqueue_agree {req : Moabpb.EnqueueRequest} (hreq : validateEnqueueRequest req = .ok ())
    (h : (enqueue req accountId limits).Runs es outcome) (hes : ∀ e ∈ es, Genuine e) :
    (∀ c ∈ sent es, Valid c) ↔ Agrees limits es (.enqueue req) := by
  simp only [validateEnqueueRequest, checks_ok_iff, check_ok_iff, decide_eq_true_eq] at hreq
  obtain ⟨_, _, hlength, hentries⟩ := hreq
  replace hlength : req.entries.length ≤ Corepb.maxNumberOfEnqueueRequestEntries := hlength
  have hstored := stored_of_resolved hes
  -- the terms of one queue under the id of another or the same one
  have hcore : ∀ now queue terms, Stored queue → Stored terms →
      ((requestFor now queue terms req).validate = .ok () ↔
        ∀ e ∈ req.entries, InTime now terms e.scheduledAt) := by
    intro now queue terms hqueue hterms
    rw [EnqueueRequest.validate_ok_iff]
    simp only [requestFor, hqueue.queueId, List.length_map, List.forall_mem_map, true_and]
    rw [and_iff_right hlength]
    refine forall_congr' (fun e => imp_congr_right (fun he => ?_))
    obtain ⟨i, hentry⟩ := validateEach_ok hentries e he
    obtain ⟨hretry, hexpires, hscheduled, hpayload⟩ := validateEnqueueEntry_checks hentry
    rw [← deadline_nonneg_iff hterms hscheduled hexpires]
    constructor
    · exact fun hvalid => hvalid.expiresAt
    · intro hdeadline
      refine ⟨hscheduled, hdeadline, ?_, hpayload⟩
      cases hown : e.retryStrategy with
      | none => simpa [entryFor, hown] using hterms.checks.2.2.1
      | some strategy => simpa [entryFor, hown] using hretry
  rw [sent_valid_iff_enqueues h]
  cases enqueue_runs h with
  | unresolved unknown silent => simp [Agrees, unknown, silent]
  | rejected now queue time one far silent =>
    simp only [silent, List.not_mem_nil, false_imp_iff, implies_true, true_iff]
    intro t q ht _ hnear
    obtain rfl := Option.some.inj (time.symm.trans ht)
    exact absurd hnear far
  | once now queue time one near calls =>
    have hq : Stored queue := hstored queue (by simp [one])
    rw [calls, List.forall_mem_singleton, hcore now queue queue hq hq]
    constructor
    · intro hall t q ht hhead _
      obtain rfl := Option.some.inj (time.symm.trans ht)
      obtain rfl : queue = q := by simpa [one] using hhead
      exact hall
    · exact fun hall => hall now queue time (by simp [one]) near
  | twice now queue freshQueue time two near calls =>
    have hq : Stored queue := hstored queue (by simp [two])
    have hfresh : Stored freshQueue := hstored freshQueue (by simp [two])
    rw [calls, List.forall_mem_cons, List.forall_mem_singleton, hcore now queue queue hq hq,
      hcore now freshQueue queue hfresh hq, and_self_iff]
    constructor
    · intro hall t q ht hhead _
      obtain rfl := Option.some.inj (time.symm.trans ht)
      obtain rfl : queue = q := by simpa [two] using hhead
      exact hall
    · exact fun hall => hall now queue time (by simp [two]) near

/-- The two layers agree: of a call that the front end accepts, every request that its
handler sends is accepted by the core, whatever the cache and the cores answer, exactly if
no task id of a ReportStatus or GetTask decodes to zero and no deadline of an Enqueue or
RestartTasks overflows. -/
theorem sent_valid_iff {req : Moabpb.Request} (hreq : validateRequest req = .ok ())
    (h : (handle req accountId limits).Runs es outcome) (hes : ∀ e ∈ es, Genuine e) :
    (∀ c ∈ sent es, c.validate = .ok ()) ↔ Agrees limits es req := by
  cases req with
  | createQueue req => exact iff_of_true ((createQueue_sends hreq).sent h hes) trivial
  | getQueue req => exact iff_of_true (getQueueAndStats_sends.sent h hes) trivial
  | updateQueue req => exact iff_of_true ((updateQueue_sends hreq).sent h hes) trivial
  | deleteQueue req => exact iff_of_true (deleteQueue_sends.sent h hes) trivial
  | listQueues req => exact iff_of_true (listQueues_sends.sent h hes) trivial
  | enqueue req => exact enqueue_agree hreq h hes
  | dequeue req => exact iff_of_true ((dequeue_sends hreq).sent h hes) trivial
  | reportStatus req => exact reportStatus_agree hreq h hes
  | deleteTasks req => exact iff_of_true ((deleteTasks_sends hreq).sent h hes) trivial
  | restartTasks req => exact restartTasks_agree hreq h hes
  | createSchedule req => exact iff_of_true ((createSchedule_sends hreq).sent h hes) trivial
  | getSchedule req => exact iff_of_true (getSchedule_sends.sent h hes) trivial
  | updateSchedule req => exact iff_of_true ((updateSchedule_sends hreq).sent h hes) trivial
  | deleteSchedule req => exact iff_of_true (deleteSchedule_sends.sent h hes) trivial
  | listSchedules req => exact iff_of_true (listSchedules_sends.sent h hes) trivial
  | purgeQueue req => exact iff_of_true (purgeQueue_sends.sent h hes) trivial
  | getTask req => exact getTask_agree hreq h hes
  | listTasks req => exact iff_of_true (listTasks_sends.sent h hes) trivial

end Handlers

section Runs

/-- GetTask of a public id, for a task that does not exist. -/
def getJob (taskId : Nat) : Moabpb.GetTaskRequest := ⟨[106], encodeTaskId taskId⟩

def getJobEvents (taskId : Nat) : List Event :=
  [⟨.call (.getQueueByName ⟨0, [106]⟩), .ok ⟨jobs 1 60 false, 1⟩⟩,
    ⟨.call (.getTask ⟨0, 1, taskId⟩), .error (.tasks (.taskNotFound ⟨0, 1, taskId⟩))⟩]

theorem jobs_stored {id : Nat} (h : id ≠ 0) : Stored (jobs id 60 false) where
  id := h
  settings := Or.inl ⟨⟨settingsOf (jobs 1 60 false), [106]⟩, by decide +kernel, rfl⟩

theorem getJobEvents_genuine (taskId : Nat) : ∀ e ∈ getJobEvents taskId, Genuine e := by
  intro e he
  rcases List.mem_cons.mp he with rfl | he
  · exact jobs_stored (by decide)
  · rw [List.mem_singleton.mp he]
    trivial

/-- The public string of zero is accepted at the edge, but not by the core. -/
theorem sent_invalid_zero :
    validateRequest (.getTask (getJob 0)) = .ok () ∧
      (handle (.getTask (getJob 0)) 0 defaultServiceLimits).Runs (getJobEvents 0)
        (.error (.ofError (.tasks (.taskNotFound ⟨0, 1, 0⟩)))) ∧
      (∀ e ∈ getJobEvents 0, Genuine e) ∧
      (sent (getJobEvents 0)).map Request.validate =
        [.ok (), .error ⟨"TaskId.TaskId must be positive", none⟩] :=
  ⟨by decide +kernel, ⟨_, _, rfl, _, _, rfl, rfl, rfl⟩, getJobEvents_genuine 0, by decide +kernel⟩

theorem sent_valid_one :
    validateRequest (.getTask (getJob 1)) = .ok () ∧
      ∀ c ∈ sent (getJobEvents 1), c.validate = .ok () := by
  have hvalid : validateRequest (.getTask (getJob 1)) = .ok () := by decide +kernel
  have hruns : (handle (.getTask (getJob 1)) 0 defaultServiceLimits).Runs (getJobEvents 1)
      (.error (.ofError (.tasks (.taskNotFound ⟨0, 1, 1⟩)))) := ⟨_, _, rfl, _, _, rfl, rfl, rfl⟩
  refine ⟨hvalid, (sent_valid_iff hvalid hruns (getJobEvents_genuine 1)).mpr (fun _ => ?_)⟩
  decide +kernel

end Runs

end Moab.Server
