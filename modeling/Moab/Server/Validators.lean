import Moab.Server.Requests
import Moab.Tasks.Validators

namespace Moab.Server

open Corepb Moabpb

def maxNameLength : Nat := 128
def maxDescriptionLength : Nat := 1024
def maxPaginationTokenLength : Nat := 1024
def maxDedupeKeyLength : Nat := 256
def maxKeepaliveTimeoutInSeconds : Time := 60
def minKeepaliveTimeoutInSeconds : Time := 5
def maxExpiresTimeoutInSeconds : Time := 1209600
def minExpiresTimeoutInSeconds : Time := 60
def maxPayloadSize : Nat := 65536
def maxNumberOfRetryIntervalsInSeconds : Nat := 21
def maxRetryIntervalInSeconds : Time := 900
def maxNumberOfTaskIds : Nat := 50
def maxNumberOfEnqueueRequestEntries : Nat := 50
def maxNumberOfReportStatusEntries : Nat := 50
def maxDLQRetentionPeriod : Time := 1209600

/-- A check of the front end, with the error it gives. -/
def check (ok : Bool) (fieldName details : String) : Except ValidationError Unit :=
  require ok (invalid fieldName details) none

def indexed (fieldName : String) (i : Nat) : String := fieldName ++ "[" ++ toString i ++ "]"

def exceeds (what : String) (n : Nat) : String :=
  "exceeds max " ++ what ++ " (" ++ toString n ++ ")"

def between (lower upper : Time) : String :=
  "must be between " ++ toString lower ++ " and " ++ toString upper ++ " seconds"

/-- A byte of [-_0-9a-zA-Z]. -/
def isNameByte (c : Fin 256) : Bool := c.val = 45 ∨ c.val = 95 ∨ isAlphanumeric c

/-- A name, whose pattern is ^[-_0-9a-zA-Z]*$. -/
def validateString (value : Bytes) (minLength maxLength : Nat) (fieldName : String) :
    Except ValidationError Unit := do
  check (¬(value.length > maxLength ∨ value.length < minLength)) fieldName
    ("length must be between " ++ toString minLength ++ " and " ++
      toString maxLength ++ " characters")
  check (value.all isNameByte) fieldName "must match regex pattern ^[-_0-9a-zA-Z]*$"

def validateQueueName (value : Bytes) (fieldName : String) : Except ValidationError Unit :=
  validateString value 1 maxNameLength fieldName

def validateScheduleName (value : Bytes) (fieldName : String) : Except ValidationError Unit :=
  validateString value 1 maxNameLength fieldName

def validateDescription (value : Bytes) (fieldName : String) : Except ValidationError Unit :=
  check (value.length ≤ maxDescriptionLength) fieldName (exceeds "length" maxDescriptionLength)

def validateDedupeKey (value : Bytes) (fieldName : String) : Except ValidationError Unit :=
  check (value.length ≤ maxDedupeKeyLength) fieldName (exceeds "length" maxDedupeKeyLength)

def validateKeepaliveTimeoutInSeconds (value : Time) (fieldName : String) :
    Except ValidationError Unit :=
  check (¬(value < minKeepaliveTimeoutInSeconds ∨ value > maxKeepaliveTimeoutInSeconds)) fieldName
    (between minKeepaliveTimeoutInSeconds maxKeepaliveTimeoutInSeconds)

def validateExpiresInSeconds (value : Time) (fieldName : String) : Except ValidationError Unit :=
  check (¬(value < minExpiresTimeoutInSeconds ∨ value > maxExpiresTimeoutInSeconds)) fieldName
    (between minExpiresTimeoutInSeconds maxExpiresTimeoutInSeconds)

/-- A value that may be left to the queue by zero. -/
def unlessZero (validate : Time → String → Except ValidationError Unit) (value : Time)
    (fieldName : String) : Except ValidationError Unit :=
  if value ≠ 0 then validate value fieldName else .ok ()

def validateRetryInterval (fieldName : String) (i : Nat) (interval : Time) :
    Except ValidationError Unit :=
  check (¬(interval < 0 ∨ interval > maxRetryIntervalInSeconds))
    (indexed (fieldName ++ ".RetryIntervalsInSeconds") i) (between 0 maxRetryIntervalInSeconds)

def validateRetryStrategy (value : Option RetryStrategy) (fieldName : String) :
    Except ValidationError Unit :=
  match value with
  | none => .ok ()
  | some value => do
    check (value.retryIntervalsInSeconds.length ≤ maxNumberOfRetryIntervalsInSeconds)
      (fieldName ++ ".RetryIntervalsInSeconds")
      (exceeds "length" maxNumberOfRetryIntervalsInSeconds)
    validateEach (validateRetryInterval fieldName) 0 value.retryIntervalsInSeconds

def validateSettings (value : Option DequeuingSettings) (fieldName : String) :
    Except ValidationError Unit :=
  (validateDequeuingSettings value fieldName).mapError (⟨·, none⟩)

def validateDeadLetterQueueConfig (value : Option DeadLetterQueueConfig) (fieldName : String) :
    Except ValidationError Unit :=
  match value with
  | none => .ok ()
  | some value => do
    check (0 ≤ value.maxSize) (fieldName ++ ".MaxSize") "max size must be non-negative"
    check (¬(value.retentionPeriodInSeconds < minExpiresTimeoutInSeconds ∨
        value.retentionPeriodInSeconds > maxDLQRetentionPeriod))
      (fieldName ++ ".RetentionPeriodInSeconds")
      ("retention period " ++ between minExpiresTimeoutInSeconds maxDLQRetentionPeriod)

def validateLimit (value : Int) (fieldName : String) : Except ValidationError Unit :=
  check (¬(value < 0 ∨ value > maxPaginationLimit)) fieldName
    ("must be between 0 and " ++ toString maxPaginationLimit)

def validateExpectedVersion (value : Int) (fieldName : String) : Except ValidationError Unit :=
  check (0 < value) fieldName "must be greater than 0"

def validateCreateQueueRequest (req : CreateQueueRequest) : Except ValidationError Unit := do
  validateQueueName req.name "CreateQueueRequest.Name"
  validateDescription req.description "CreateQueueRequest.Description"
  validateSettings req.dequeuingSettings "CreateQueueRequest.DequeuingSettings"
  validateDeadLetterQueueConfig req.deadLetterQueueConfig "CreateQueueRequest.DeadLetterQueueConfig"
  validateRetryStrategy req.retryStrategy "CreateQueueRequest.RetryStrategy"
  validateKeepaliveTimeoutInSeconds req.keepaliveTimeoutInSeconds
    "CreateQueueRequest.KeepaliveTimeoutInSeconds"
  validateExpiresInSeconds req.expiresInSeconds "CreateQueueRequest.ExpiresInSeconds"

def validateUpdateQueueRequest (req : UpdateQueueRequest) : Except ValidationError Unit := do
  validateQueueName req.queueName "UpdateQueueRequest.QueueName"
  validateDescription req.description "UpdateQueueRequest.Description"
  validateRetryStrategy req.retryStrategy "UpdateQueueRequest.RetryStrategy"
  validateSettings req.dequeuingSettings "UpdateQueueRequest.DequeuingSettings"
  validateDeadLetterQueueConfig req.deadLetterQueueConfig "UpdateQueueRequest.DeadLetterQueueConfig"
  validateExpiresInSeconds req.expiresInSeconds "UpdateQueueRequest.ExpiresInSeconds"
  validateKeepaliveTimeoutInSeconds req.keepaliveTimeoutInSeconds
    "UpdateQueueRequest.KeepaliveTimeoutInSeconds"
  validateExpectedVersion req.expectedVersion "UpdateQueueRequest.ExpectedVersion"

def validateOverwrite (fieldName : String) (j : Nat) (o : OverwriteOnDuplicate) :
    Except ValidationError Unit :=
  check (o ≠ .invalid) (indexed (fieldName ++ ".OverwriteOnDuplicate") j) "unrecognized value"

def validateEnqueueEntry (i : Nat) (e : Moabpb.EnqueueRequestEntry) :
    Except ValidationError Unit := do
  let fieldName := indexed "EnqueueRequest.Entries" i
  validateDedupeKey e.dedupeKey (fieldName ++ ".DedupeKey")
  validateRetryStrategy e.retryStrategy (fieldName ++ ".RetryStrategy")
  check (0 ≤ e.expiresAt) (fieldName ++ ".ExpiresAt") "must be non-negative"
  check (0 ≤ e.scheduledAt) (fieldName ++ ".ScheduledAt") "must be non-negative"
  check (e.payload.length ≤ maxPayloadSize) (fieldName ++ ".Payload")
    ("exceeds max payload size (" ++ toString maxPayloadSize ++ " bytes)")
  check (¬(e.overwriteOnDuplicate ≠ [] ∧ e.dedupeKey = [])) (fieldName ++ ".OverwriteOnDuplicate")
    "OverwriteOnDuplicate can be set only when DedupeKey is set"
  validateEach (validateOverwrite fieldName) 0 e.overwriteOnDuplicate

def validateEnqueueRequest (req : Moabpb.EnqueueRequest) : Except ValidationError Unit := do
  validateQueueName req.queueName "EnqueueRequest.QueueName"
  check (req.entries ≠ []) "EnqueueRequest.Entries" "must not be empty"
  check (req.entries.length ≤ maxNumberOfEnqueueRequestEntries) "EnqueueRequest.Entries"
    (exceeds "number of entries" maxNumberOfEnqueueRequestEntries)
  validateEach validateEnqueueEntry 0 req.entries

def validateDequeueRequest (req : Moabpb.DequeueRequest) : Except ValidationError Unit := do
  validateQueueName req.queueName "DequeueRequest.QueueName"
  check (¬req.batchSize ≤ 0) "DequeueRequest.BatchSize" "must be greater than 0"
  unlessZero validateKeepaliveTimeoutInSeconds req.keepaliveTimeoutInSeconds
    "DequeueRequest.KeepaliveTimeoutInSeconds"

section Ids

variable [Base62]

def validateTaskId (value : Bytes) (fieldName : String) : Except ValidationError Unit :=
  check (decodeTaskId value).isSome fieldName "invalid task id"

/-- No two entries have one id text. The error quotes it. -/
def validateUnique (seen : List Bytes) (id : Bytes) (fieldName : String) :
    Except ValidationError Unit :=
  require (id ∉ seen) (invalid fieldName "task ids must be unique, %s is duplicated") (some id)

def validateReportEntry (i : Nat) (e : Moabpb.ReportStatusRequestEntry) :
    Except ValidationError Unit := do
  let fieldName := indexed "ReportStatusRequest.Entries" i
  validateTaskId e.taskId (fieldName ++ ".TaskId")
  check (0 < e.attempt) (fieldName ++ ".Attempt") "must be greater than 0"
  check (e.status ≠ .invalid) "ReportStatusRequest.Status" "unrecognized value"
  unlessZero validateKeepaliveTimeoutInSeconds e.keepaliveTimeoutInSeconds
    (fieldName ++ ".KeepaliveTimeoutInSeconds")

def validateReportStatusRequest (req : Moabpb.ReportStatusRequest) :
    Except ValidationError Unit := do
  validateQueueName req.queueName "ReportStatusRequest.QueueName"
  check (req.entries ≠ []) "ReportStatusRequest.Entries" "must not be empty"
  check (req.entries.length ≤ maxNumberOfReportStatusEntries) "ReportStatusRequest.Entries"
    (exceeds "number of entries" maxNumberOfReportStatusEntries)
  validateEach validateReportEntry 0 req.entries

def validateTaskIdsFrom (fieldName : String) : List Bytes → Nat → List Bytes →
    Except ValidationError Unit
  | _, _, [] => .ok ()
  | seen, i, id :: ids => do
    validateUnique seen id fieldName
    validateTaskId id (indexed fieldName i)
    validateTaskIdsFrom fieldName (id :: seen) (i + 1) ids

def validateTaskIds (value : List Bytes) (fieldName : String) : Except ValidationError Unit := do
  check (¬(value.length < 1 ∨ value.length > maxNumberOfTaskIds)) fieldName
    ("task ids must be between 1 and " ++ toString maxNumberOfTaskIds)
  validateTaskIdsFrom fieldName [] 0 value

def validateDeleteTasksRequest (req : Moabpb.DeleteTasksRequest) : Except ValidationError Unit := do
  validateQueueName req.queueName "DeleteTasksRequest.QueueName"
  validateTaskIds req.taskIds "DeleteTasksRequest.TaskIds"

def validateRestartEntries : List Bytes → Nat → List Moabpb.RestartTasksRequestEntry →
    Except ValidationError Unit
  | _, _, [] => .ok ()
  | seen, i, e :: es => do
    let fieldName := indexed "RestartTasksRequest.Entries" i
    validateUnique seen e.taskId (fieldName ++ ".TaskId")
    validateTaskId e.taskId (fieldName ++ ".TaskId")
    check (0 ≤ e.scheduledAt) (fieldName ++ ".ScheduledAt") "must be non-negative"
    check (0 ≤ e.expiresAt) (fieldName ++ ".ExpiresAt") "must be non-negative"
    validateRestartEntries (e.taskId :: seen) (i + 1) es

def validateRestartTasksRequest (req : Moabpb.RestartTasksRequest) :
    Except ValidationError Unit := do
  validateQueueName req.queueName "RestartTasksRequest.QueueName"
  check (¬(req.entries.length < 1 ∨ req.entries.length > maxNumberOfTaskIds))
    "RestartTasksRequest.Entries" ("must be between 1 and " ++ toString maxNumberOfTaskIds)
  validateRestartEntries [] 0 req.entries

/-- The details of the error are empty. -/
def validateGetTaskRequest (req : GetTaskRequest) : Except ValidationError Unit := do
  validateQueueName req.queueName "GetTaskRequest.QueueName"
  check (decodeTaskId req.taskId).isSome "GetTaskRequest.TaskId" ""

end Ids

section Schedules

variable [Gronx]

def validateTimezone (value : Bytes) (fieldName : String) : Except ValidationError Unit := do
  check (value ≠ []) fieldName "must not be empty"
  check (Gronx.loadLocation value).isSome fieldName "invalid timezone"

def validateCron (value : Bytes) (fieldName : String) : Except ValidationError Unit :=
  check (Gronx.isValid value) fieldName "invalid cron expression"

def validateSchedulePayload (value : Bytes) (fieldName : String) : Except ValidationError Unit :=
  check (value.length ≤ maxPayloadSize) fieldName
    ("exceeds max size (" ++ toString maxPayloadSize ++ " bytes)")

def validateCreateScheduleRequest (req : Moabpb.CreateScheduleRequest) :
    Except ValidationError Unit := do
  validateQueueName req.queueName "CreateScheduleRequest.QueueName"
  validateScheduleName req.name "CreateScheduleRequest.Name"
  validateDescription req.description "CreateScheduleRequest.Description"
  validateCron req.cron "CreateScheduleRequest.Cron"
  validateDedupeKey req.dedupeKey "CreateScheduleRequest.DedupeKey"
  validateSchedulePayload req.payload "CreateScheduleRequest.Payload"
  unlessZero validateExpiresInSeconds req.expiresInSeconds "CreateScheduleRequest.ExpiresInSeconds"
  validateRetryStrategy req.retryStrategy "CreateScheduleRequest.RetryStrategy"
  validateTimezone req.timezone "CreateScheduleRequest.Timezone"

def validateUpdateScheduleRequest (req : Moabpb.UpdateScheduleRequest) :
    Except ValidationError Unit := do
  validateQueueName req.queueName "UpdateScheduleRequest.QueueName"
  validateScheduleName req.scheduleName "UpdateScheduleRequest.ScheduleName"
  validateDescription req.description "UpdateScheduleRequest.Description"
  unlessZero validateExpiresInSeconds req.expiresInSeconds "UpdateScheduleRequest.ExpiresInSeconds"
  validateRetryStrategy req.retryStrategy "UpdateScheduleRequest.RetryStrategy"
  validateSchedulePayload req.payload "UpdateScheduleRequest.Payload"
  validateCron req.cron "UpdateScheduleRequest.Cron"
  validateDedupeKey req.dedupeKey "UpdateScheduleRequest.DedupeKey"
  validateTimezone req.timezone "UpdateScheduleRequest.Timezone"
  validateExpectedVersion req.expectedVersion "UpdateScheduleRequest.ExpectedVersion"

end Schedules

section Paging

variable [Wire]

def validatePaginationToken (value : Bytes) (fieldName : String) : Except ValidationError Unit := do
  check (value.length ≤ maxPaginationTokenLength) fieldName
    (exceeds "length" maxPaginationTokenLength)
  check (Wire.decodeString value).isSome fieldName "must be a valid base64 string"

def validateListQueuesRequest (req : ListQueuesRequest) : Except ValidationError Unit := do
  validatePaginationToken req.paginationToken "ListQueuesRequest.PaginationToken"
  validateLimit req.limit "ListQueuesRequest.Limit"

def validateListSchedulesRequest (req : ListSchedulesRequest) : Except ValidationError Unit := do
  validateQueueName req.queueName "ListSchedulesRequest.QueueName"
  validatePaginationToken req.paginationToken "ListSchedulesRequest.PaginationToken"
  validateLimit req.limit "ListSchedulesRequest.Limit"

/-- A state that is not known cannot be told from INVALID here, which lists all states. -/
def validateListTasksRequest (req : Moabpb.ListTasksRequest) : Except ValidationError Unit := do
  validateQueueName req.queueName "ListTasksRequest.QueueName"
  validatePaginationToken req.paginationToken "ListTasksRequest.PaginationToken"
  validateLimit req.limit "ListTasksRequest.Limit"

end Paging

/-- The Validate function of the call. -/
def validateRequest [Base62] [Gronx] [Wire] : Moabpb.Request → Except ValidationError Unit
  | .createQueue req => validateCreateQueueRequest req
  | .getQueue req => validateQueueName req.queueName "GetQueueRequest.QueueName"
  | .updateQueue req => validateUpdateQueueRequest req
  | .deleteQueue req => validateQueueName req.queueName "DeleteQueueRequest.QueueName"
  | .listQueues req => validateListQueuesRequest req
  | .enqueue req => validateEnqueueRequest req
  | .dequeue req => validateDequeueRequest req
  | .reportStatus req => validateReportStatusRequest req
  | .deleteTasks req => validateDeleteTasksRequest req
  | .restartTasks req => validateRestartTasksRequest req
  | .createSchedule req => validateCreateScheduleRequest req
  | .getSchedule req => do
    validateQueueName req.queueName "GetScheduleRequest.QueueName"
    validateScheduleName req.scheduleName "GetScheduleRequest.ScheduleName"
  | .updateSchedule req => validateUpdateScheduleRequest req
  | .deleteSchedule req => do
    validateQueueName req.queueName "DeleteScheduleRequest.QueueName"
    validateScheduleName req.scheduleName "DeleteScheduleRequest.ScheduleName"
  | .listSchedules req => validateListSchedulesRequest req
  | .purgeQueue req => validateQueueName req.queueName "PurgeQueueRequest.QueueName"
  | .getTask req => validateGetTaskRequest req
  | .listTasks req => validateListTasksRequest req

end Moab.Server
