import Moab.Framework.Program
import Moab.Server.Validators

namespace Moab

-- The interface of the cores, as far as the handlers use it.
namespace Coreapis

structure GetQueueByNameRequest where
  accountId : Nat
  queueName : Bytes
  deriving DecidableEq

structure ListQueuesRequest where
  accountId : Nat
  paginationToken : Option PaginationToken
  limit : Int
  deriving DecidableEq

structure GetScheduleRequest where
  accountId : Nat
  queueName : Bytes
  scheduleName : Bytes
  deriving DecidableEq

structure ListSchedulesRequest where
  queueId : QueueId
  paginationToken : Option PaginationToken
  limit : Int
  deriving DecidableEq

inductive Request where
  | getQueueByName (req : GetQueueByNameRequest)
  | listQueues (req : ListQueuesRequest)
  | createQueue (req : Queues.CreateQueueRequest)
  | updateQueue (req : Queues.UpdateQueueRequest)
  | deleteQueue (req : Queues.DeleteQueueRequest)
  | swapQueueId (req : Queues.SwapQueueIdRequest)
  | getSchedule (req : GetScheduleRequest)
  | listSchedules (req : ListSchedulesRequest)
  | createSchedule (req : Queues.CreateScheduleRequest)
  | updateSchedule (req : Queues.UpdateScheduleRequest)
  | deleteSchedule (req : Queues.DeleteScheduleRequest)
  | getTask (taskId : TaskId)
  | getStatistics (queueId : QueueId)
  | listTasks (req : ListTasksRequest)
  | enqueue (req : EnqueueRequest)
  | dequeue (req : DequeueRequest)
  | reportStatus (req : ReportStatusRequest)
  | deleteTasks (req : DeleteTasksRequest)
  | restartTasks (req : RestartTasksRequest)
  | purgeQueue (queueId : QueueId)
  deriving DecidableEq

structure ListQueuesResponse where
  queues : List Queue
  nextPaginationToken : Option PaginationToken
  previousPaginationToken : Option PaginationToken

structure ListSchedulesResponse where
  schedules : List Schedule
  nextPaginationToken : Option PaginationToken
  previousPaginationToken : Option PaginationToken

@[reducible] def Request.Response : Request → Type
  | .getQueueByName _ => Queue
  | .listQueues _ => ListQueuesResponse
  | .createQueue _ => Queue
  | .updateQueue _ => Queue
  | .deleteQueue _ => QueueId
  | .swapQueueId _ => Queue × QueueId
  | .getSchedule _ => Schedule
  | .listSchedules _ => ListSchedulesResponse
  | .createSchedule _ => Schedule
  | .updateSchedule _ => Schedule
  | .deleteSchedule _ => Unit
  | .getTask _ => Task
  | .getStatistics _ => GetStatisticsResponse
  | .listTasks _ => ListTasksResponse
  | .enqueue _ => List Task
  | .dequeue _ => List Task
  | .reportStatus _ => List ReportStatusResponseEntry
  | .deleteTasks _ => Unit
  | .restartTasks _ => List RestartTasksResponseEntry
  | .purgeQueue _ => Unit

open Corepb in
/-- The Validate method of the request. -/
def Request.validate [Gronx] : Request → Except ValidationError Unit
  | .createQueue req => Queues.Op.validate (.createQueue req)
  | .updateQueue req => Queues.Op.validate (.updateQueue req)
  | .createSchedule req => Queues.Op.validate (.createSchedule req)
  | .updateSchedule req => Queues.Op.validate (.updateSchedule req)
  | .listSchedules req => validateQueueId req.queueId
  | .getTask taskId => validateTaskId taskId
  | .getStatistics queueId => validateQueueId queueId
  | .listTasks req => validateQueueId req.queueId
  | .enqueue req => req.validate
  | .dequeue req => req.validate
  | .reportStatus req => req.validate
  | .deleteTasks req => req.validate
  | .restartTasks req => req.validate
  | .purgeQueue queueId => validateQueueId queueId
  | .getQueueByName _ | .listQueues _ | .deleteQueue _ | .swapQueueId _ | .getSchedule _ |
    .deleteSchedule _ => .ok ()

/-- The call of the queues core that a request stands for, if it changes it. -/
def Request.queuesOp : Request → Option Queues.Op
  | .createQueue req => some (.createQueue req)
  | .updateQueue req => some (.updateQueue req)
  | .deleteQueue req => some (.deleteQueue req)
  | .swapQueueId req => some (.swapQueueId req)
  | .createSchedule req => some (.createSchedule req)
  | .updateSchedule req => some (.updateSchedule req)
  | .deleteSchedule req => some (.deleteSchedule req)
  | _ => none

/-- The call of the tasks core that a request stands for, if it changes it. -/
def Request.op : Request → Option Op
  | .enqueue req => some (.enqueue req)
  | .dequeue req => some (.dequeue req)
  | .reportStatus req => some (.reportStatus req)
  | .deleteTasks req => some (.deleteTasks req)
  | .restartTasks req => some (.restartTasks req)
  | .purgeQueue queueId => some (.purgeQueue queueId)
  | _ => none

/-- The errors of a call: those of a core, those of its validation, and those that come
from below. -/
inductive Error where
  | queues (err : Queues.ApplicationError)
  | tasks (err : TasksError)
  | invalidRequest (err : ValidationError)
  | internal (message : String)
  deriving DecidableEq

/-- A response, and the time of the core at which it was given. -/
structure Reply (α : Type) where
  response : α
  now : Time

end Coreapis

namespace Server

open Coreapis

export Coreapis (Request Reply)

def isIDCollision : Error → Bool
  | .queues err => err.code = .idCollision
  | _ => false

def isNotFound : Error → Bool
  | .queues err => err.code = .notFound
  | .tasks _ => true
  | _ => false

/-- The status of a failed call. The errors of the cores are translated by the RPC
library. -/
inductive Status where
  | invalidArgument (message : String)
  | internal (message : String)
  | ofError (err : Error)
  deriving DecidableEq

/-- What a handler does to the world: it reads the clock, draws a random number, looks a
queue up in the cache, puts one there or takes it out, and calls a core. -/
inductive Effect where
  | now
  | rand
  | cached (key : QueueName)
  | cache (key : QueueName) (entry : Except Error Queue)
  | uncache (key : QueueName)
  | call (req : Request)

@[reducible] def Effect.Answer : Effect → Type
  | .now => Time
  | .rand => Nat
  | .cached _ => Option (Except Error Queue)
  | .cache _ _ => Unit
  | .uncache _ => Unit
  | .call req => Except Error (Reply req.Response)

abbrev Handler (α : Type) := Program Effect Effect.Answer α
abbrev Event := Program.Event Effect Effect.Answer

def perform (e : Effect) : Handler e.Answer := .operation e

def call (req : Request) : Handler (Except Error (Reply req.Response)) := perform (.call req)

/-- The outcome of a call of the API. -/
abbrev Outcome := Except Status Moabpb.Response

def fail (err : Error) : Handler Outcome := pure (.error (.ofError err))

/-- Hands an error of a core on, and otherwise goes on with the response. -/
def orFail {α : Type} (result : Except Error (Reply α)) (next : Reply α → Handler Outcome) :
    Handler Outcome :=
  match result with
  | .error err => fail err
  | .ok reply => next reply

section Conversions

def queueToFront (q : Queue) : Moabpb.Queue where
  name := q.name
  description := q.description
  createdAt := q.createdAt
  updatedAt := q.updatedAt
  version := q.version
  keepaliveTimeoutInSeconds := q.keepaliveTimeoutInSeconds
  expiresInSeconds := q.expiresInSeconds
  retryStrategy := q.retryStrategy
  dequeuingSettings := q.dequeuingSettings
  deadLetterQueueConfig := q.deadLetterQueueConfig

def queueStatsToFront (r : GetStatisticsResponse) : Moabpb.QueueStats where
  enqueuedTasksCount := r.enqueuedTasksCount
  inProgressTasksCount := r.inProgressTasksCount
  deadTasksCount := r.deadTasksCount
  processedTasksCount := r.processedTasksCount
  expiredTasksCount := r.expiredTasksCount
  ageOfOldestEnqueuedTask := r.ageOfOldestEnqueuedTask

def scheduleToFront (queueName : Bytes) (s : Schedule) : Moabpb.Schedule where
  name := s.name
  description := s.description
  queueName := queueName
  createdAt := s.createdAt
  updatedAt := s.updatedAt
  cron := s.cron
  version := s.version
  payload := s.payload
  dedupeKey := s.dedupeKey
  expiresInSeconds := s.expiresInSeconds
  retryStrategy := s.retryStrategy
  timezone := s.timezone

def taskToFront [Base62] (t : Task) : Moabpb.Task where
  id := encodeTaskId t.id.taskId
  payload := t.payload
  createdAt := t.createdAt
  scheduledAt := t.scheduledAt
  expiresAt := t.expiresAt
  attempts := t.attempts
  dedupeKey := t.dedupeKey
  threadId := t.threadId
  state := t.state
  visibleAt := t.visibleAt

def reportEntryToFront [Base62] (e : ReportStatusResponseEntry) :
    Moabpb.ReportStatusResponseEntry :=
  ⟨encodeTaskId e.taskId.taskId, e.result⟩

def restartEntryToFront [Base62] (e : RestartTasksResponseEntry) :
    Moabpb.RestartTasksResponseEntry :=
  ⟨encodeTaskId e.taskId, e.result, e.task.map taskToFront⟩

def paginationTokenToFront [Wire] : Option PaginationToken → Option Bytes
  | none => some []
  | some token => (Wire.marshal token).map Wire.encodeToString

def paginationTokenToCore [Wire] (token : Bytes) : Except String (Option PaginationToken) :=
  if token = [] then .ok none
  else
    match Wire.decodeString token with
    | none => .error "illegal base64 data"
    | some b =>
      match Wire.unmarshal b with
      | none => .error "cannot parse invalid wire-format data"
      | some token => .ok (some token)

end Conversions

section Queues

/-- The key of a queue in the cache. Its text is account/name, and no account has a slash. -/
def cacheKey (accountId : Nat) (queueName : Bytes) : QueueName := ⟨accountId, queueName⟩

/-- GetOrLoad of the cache, which keeps queues and the errors for missing ones. -/
def getQueue (accountId : Nat) (queueName : Bytes) : Handler (Except Error Queue) := do
  match ← perform (.cached (cacheKey accountId queueName)) with
  | some entry => pure entry
  | none =>
    match ← call (.getQueueByName ⟨accountId, queueName⟩) with
    | .ok reply => do
      perform (.cache (cacheKey accountId queueName) (.ok reply.response))
      pure (.ok reply.response)
    | .error err =>
      if isNotFound err then do
        perform (.cache (cacheKey accountId queueName) (.error err))
        pure (.error err)
      else pure (.error err)

def retryWithFreshQueueIfPurged (accountId : Nat) (queueName : Bytes) (err : Error) :
    Handler (Except Error (Option Queue)) :=
  if isNotFound err then do
    perform (.uncache (cacheKey accountId queueName))
    match ← getQueue accountId queueName with
    | .ok queue => pure (.ok (some queue))
    | .error err => pure (.error err)
  else pure (.ok none)

/-- Enqueue, Dequeue and ListTasks call the core for a queue that may be out of date. If
the core has no such queue they call it again, for the queue as it is now. -/
def sendToQueue {α : Type} (accountId : Nat) (queueName : Bytes) (queue : Queue)
    (send : Queue → Handler (Except Error (Reply α))) (next : Reply α → Handler Outcome) :
    Handler Outcome := do
  match ← send queue with
  | .ok reply => next reply
  | .error err =>
    match ← retryWithFreshQueueIfPurged accountId queueName err with
    | .error refreshErr => fail refreshErr
    | .ok none => fail err
    | .ok (some freshQueue) => orFail (← send freshQueue) next

/-- The other handlers read the queue without the cache. -/
def withQueue (accountId : Nat) (queueName : Bytes) (next : Queue → Handler Outcome) :
    Handler Outcome := do
  orFail (← call (.getQueueByName ⟨accountId, queueName⟩)) (fun reply => next reply.response)

def maxIDGenerationAttempts : Nat := 5

/-- Tries random ids as long as the core knows them already. -/
def withGeneratedId (attempt : Nat → Handler (Option Outcome)) : Nat → Handler Outcome
  | 0 => pure (.error (.internal "failed to generate a unique id"))
  | attempts + 1 => do
    match ← attempt (← perform .rand) with
    | some outcome => pure outcome
    | none => withGeneratedId attempt attempts

/-- A call with a random id. -/
def attemptId {α : Type} (result : Except Error (Reply α)) (next : Reply α → Handler Outcome) :
    Handler (Option Outcome) :=
  match result with
  | .ok reply => do return some (← next reply)
  | .error err => if isIDCollision err then pure none else do return some (← fail err)

def createQueue (req : Moabpb.CreateQueueRequest) (accountId : Nat) (limits : ServiceLimits) :
    Handler Outcome :=
  withGeneratedId (fun id => do
    let core : Queues.CreateQueueRequest :=
      { req.toQueueSettings with
        queueId := ⟨accountId, id⟩
        name := req.name
        maxNumberOfQueues := limits.maxNumberOfQueues }
    attemptId (← call (.createQueue core)) (fun reply =>
      pure (.ok (.queue (queueToFront reply.response))))) maxIDGenerationAttempts

def getQueueAndStats (req : Moabpb.GetQueueRequest) (accountId : Nat) : Handler Outcome :=
  withQueue accountId req.queueName (fun queue => do
    orFail (← call (.getStatistics queue.id)) (fun reply =>
      pure (.ok (.getQueue (queueToFront queue) (queueStatsToFront reply.response) reply.now))))

def updateQueue (req : Moabpb.UpdateQueueRequest) (accountId : Nat) : Handler Outcome := do
  let core : Queues.UpdateQueueRequest :=
    { req.toQueueSettings with
      accountId := accountId
      queueName := req.queueName
      expectedVersion := req.expectedVersion }
  orFail (← call (.updateQueue core)) (fun reply =>
    pure (.ok (.queue (queueToFront reply.response))))

def deleteQueue (req : Moabpb.DeleteQueueRequest) (accountId : Nat) : Handler Outcome := do
  orFail (← call (.deleteQueue ⟨accountId, req.queueName⟩)) (fun reply => do
    perform (.uncache (cacheKey accountId req.queueName))
    orFail (← call (.purgeQueue reply.response)) (fun _ => pure (.ok .done)))

def purgeQueue (req : Moabpb.PurgeQueueRequest) (accountId : Nat) : Handler Outcome :=
  withGeneratedId (fun id => do
    attemptId (← call (.swapQueueId ⟨accountId, req.queueName, id⟩)) (fun reply => do
      perform (.uncache (cacheKey accountId req.queueName))
      orFail (← call (.purgeQueue reply.response.2)) (fun _ => pure (.ok .done))))
    maxIDGenerationAttempts

/-- ListQueues reports a token that cannot be written as an error of the core, the other
two lists as an internal one. -/
def withTokens [Wire] (next previous : Option PaginationToken) (unwritable : Status)
    (response : Bytes → Bytes → Moabpb.Response) : Handler Outcome :=
  match paginationTokenToFront next, paginationTokenToFront previous with
  | some nextToken, some previousToken => pure (.ok (response nextToken previousToken))
  | _, _ => pure (.error unwritable)

def marshalError : String := "cannot marshal the pagination token"

def listQueues [Wire] (req : Moabpb.ListQueuesRequest) (accountId : Nat) : Handler Outcome :=
  match paginationTokenToCore req.paginationToken with
  | .error err => pure (.error (.invalidArgument err))
  | .ok token => do
    orFail (← call (.listQueues ⟨accountId, token, req.limit⟩)) (fun reply =>
      withTokens reply.response.nextPaginationToken reply.response.previousPaginationToken
        (.ofError (.internal marshalError))
        (.listQueues (reply.response.queues.map queueToFront)))

end Queues

section Tasks

/-- A scheduled time is not moved back, only rejected if it is too far away. A deadline
is cut off at what the queue allows. -/
def resolveScheduledAtAndExpiresAt (now requestedScheduledAt requestedExpiresAt
    queueExpiresInSeconds maxScheduledDelaySeconds : Time) : Except String (Time × Time) :=
  let maxScheduledAt := plusSeconds now maxScheduledDelaySeconds
  if requestedScheduledAt > maxScheduledAt then .error "ScheduledAt is too far in the future"
  else
    let scheduledAt := notBefore requestedScheduledAt now
    let ceilingExpiresAt := plusSeconds scheduledAt queueExpiresInSeconds
    let expiresAt :=
      if requestedExpiresAt = 0 ∨ requestedExpiresAt > ceilingExpiresAt then ceilingExpiresAt
      else requestedExpiresAt
    .ok (scheduledAt, expiresAt)

/-- int32 of a length. -/
@[irreducible] def int32 (n : Nat) : Int := Int.bmod n (2 ^ 32)

/-- The entry of the core for one of the front end. The core gets the scheduled time as it
was requested. -/
def coreEnqueueEntry (now : Time) (limits : ServiceLimits) (queue : Queue) (i : Nat)
    (e : Moabpb.EnqueueRequestEntry) : Except Status EnqueueRequestEntry :=
  match resolveScheduledAtAndExpiresAt now e.scheduledAt e.expiresAt queue.expiresInSeconds
      limits.maxScheduledDelayInSeconds with
  | .error err => .error (.invalidArgument ("EnqueueRequest.Entries[" ++ toString i ++ "]." ++ err))
  | .ok (_, expiresAt) => .ok
    { payload := e.payload
      scheduledAt := e.scheduledAt
      expiresAt := expiresAt
      dedupeKey := e.dedupeKey
      retryStrategy := e.retryStrategy.or queue.retryStrategy
      overwriteOnDuplicate := e.overwriteOnDuplicate
      threadId := e.threadId }

def coreEnqueueEntries (now : Time) (limits : ServiceLimits) (queue : Queue) :
    Nat → List Moabpb.EnqueueRequestEntry → Except Status (List EnqueueRequestEntry)
  | _, [] => .ok []
  | i, e :: es => do
    let entry ← coreEnqueueEntry now limits queue i e
    let entries ← coreEnqueueEntries now limits queue (i + 1) es
    .ok (entry :: entries)

variable [Base62]

def enqueue (req : Moabpb.EnqueueRequest) (accountId : Nat) (limits : ServiceLimits) :
    Handler Outcome :=
  if int32 req.entries.length > limits.maxEnqueueBatchSize then
    pure (.error (.invalidArgument "too many entries"))
  else do
    let now ← perform .now
    match ← getQueue accountId req.queueName with
    | .error err => fail err
    | .ok queue =>
      match coreEnqueueEntries now limits queue 0 req.entries with
      | .error status => pure (.error status)
      | .ok entries =>
        sendToQueue accountId req.queueName queue (fun queue => call (.enqueue ⟨queue.id, entries⟩))
          (fun reply => pure (.ok (.tasks (reply.response.map taskToFront) reply.now)))

def paused (queue : Queue) : Bool := queue.dequeuingSettings.any (·.dequeuingPaused)

/-- The core request of a Dequeue, which takes the lease from the queue by default. -/
def coreDequeueRequest (req : Moabpb.DequeueRequest) (queue : Queue) : DequeueRequest where
  queueId := queue.id
  dequeuingSettings := queue.dequeuingSettings
  dequeueLimit := if req.batchSize = 0 then 1 else req.batchSize
  deadLetterQueueConfig := queue.deadLetterQueueConfig
  keepaliveTimeoutInSeconds :=
    if req.keepaliveTimeoutInSeconds = 0 then queue.keepaliveTimeoutInSeconds
    else req.keepaliveTimeoutInSeconds

/-- Whether the queue is paused is looked at once, before the first call. -/
def dequeue (req : Moabpb.DequeueRequest) (accountId : Nat) (limits : ServiceLimits) :
    Handler Outcome :=
  if req.batchSize > limits.maxDequeueBatchSize then
    pure (.error (.invalidArgument "too many entries"))
  else do
    match ← getQueue accountId req.queueName with
    | .error err => fail err
    | .ok queue =>
      if paused queue then pure (.ok (.tasks [] 0))
      else
        sendToQueue accountId req.queueName queue
          (fun queue => call (.dequeue (coreDequeueRequest req queue)))
          (fun reply => pure (.ok (.tasks (reply.response.map taskToFront) reply.now)))

def coreReportEntry (queue : Queue) (accountId : Nat) (e : Moabpb.ReportStatusRequestEntry) :
    Except Status ReportStatusRequestEntry :=
  match decodeTaskId e.taskId with
  | none => .error (.invalidArgument "invalid TaskId")
  | some taskId =>
    if e.status = .invalid then .error (.ofError (.internal "unrecognized value"))
    else .ok
      { taskId := ⟨accountId, queue.id.queueId, taskId⟩
        attempt := e.attempt
        status := e.status
        keepaliveTimeoutInSeconds :=
          if e.keepaliveTimeoutInSeconds = 0 then queue.keepaliveTimeoutInSeconds
          else e.keepaliveTimeoutInSeconds }

def reportStatus (req : Moabpb.ReportStatusRequest) (accountId : Nat) : Handler Outcome :=
  withQueue accountId req.queueName (fun queue =>
    match req.entries.mapM (coreReportEntry queue accountId) with
    | .error status => pure (.error status)
    | .ok entries => do
      orFail (← call (.reportStatus ⟨entries, queue.deadLetterQueueConfig⟩)) (fun reply =>
        pure (.ok (.reportStatus (reply.response.map reportEntryToFront)))))

def coreTaskId (id : Bytes) : Except Status Nat :=
  match decodeTaskId id with
  | none => .error (.invalidArgument "invalid TaskId")
  | some taskId => .ok taskId

def deleteTasks (req : Moabpb.DeleteTasksRequest) (accountId : Nat) : Handler Outcome :=
  withQueue accountId req.queueName (fun queue =>
    match req.taskIds.mapM coreTaskId with
    | .error status => pure (.error status)
    | .ok taskIds => do
      orFail (← call (.deleteTasks ⟨queue.id, taskIds⟩)) (fun _ => pure (.ok .done)))

def coreRestartEntry (now : Time) (limits : ServiceLimits) (queue : Queue) (i : Nat)
    (e : Moabpb.RestartTasksRequestEntry) : Except Status RestartTasksRequestEntry := do
  let taskId ← coreTaskId e.taskId
  match resolveScheduledAtAndExpiresAt now e.scheduledAt e.expiresAt queue.expiresInSeconds
      limits.maxScheduledDelayInSeconds with
  | .error err =>
    .error (.invalidArgument ("RestartTasksRequest.Entries[" ++ toString i ++ "]." ++ err))
  | .ok (_, expiresAt) => .ok ⟨taskId, e.scheduledAt, expiresAt⟩

def coreRestartEntries (now : Time) (limits : ServiceLimits) (queue : Queue) :
    Nat → List Moabpb.RestartTasksRequestEntry → Except Status (List RestartTasksRequestEntry)
  | _, [] => .ok []
  | i, e :: es => do
    let entry ← coreRestartEntry now limits queue i e
    let entries ← coreRestartEntries now limits queue (i + 1) es
    .ok (entry :: entries)

def restartTasks (req : Moabpb.RestartTasksRequest) (accountId : Nat) (limits : ServiceLimits) :
    Handler Outcome := do
  let now ← perform .now
  withQueue accountId req.queueName (fun queue =>
    match coreRestartEntries now limits queue 0 req.entries with
    | .error status => pure (.error status)
    | .ok entries => do
      orFail (← call (.restartTasks ⟨queue.id, entries⟩)) (fun reply =>
        pure (.ok (.restartTasks (reply.response.map restartEntryToFront) reply.now))))

/-- The id was validated before, so the text of the decoder's error is never seen. -/
def getTask (req : Moabpb.GetTaskRequest) (accountId : Nat) : Handler Outcome :=
  withQueue accountId req.queueName (fun queue =>
    match decodeTaskId req.taskId with
    | none => pure (.error (.invalidArgument "invalid id"))
    | some taskId => do
      orFail (← call (.getTask ⟨accountId, queue.id.queueId, taskId⟩)) (fun reply =>
        pure (.ok (.task (taskToFront reply.response) reply.now))))

def listTasks [Wire] (req : Moabpb.ListTasksRequest) (accountId : Nat) : Handler Outcome := do
  match ← Server.getQueue accountId req.queueName with
  | .error err => fail err
  | .ok queue =>
    match paginationTokenToCore req.paginationToken with
    | .error err => pure (.error (.invalidArgument err))
    | .ok token =>
      sendToQueue accountId req.queueName queue
        (fun queue => call (.listTasks ⟨queue.id, req.state, token, req.limit⟩))
        (fun reply =>
          withTokens reply.response.nextPaginationToken reply.response.previousPaginationToken
            (.internal marshalError)
            (.listTasks (reply.response.tasks.map taskToFront) · · reply.now))

end Tasks

section Schedules

def createSchedule (req : Moabpb.CreateScheduleRequest) (accountId : Nat) (limits : ServiceLimits) :
    Handler Outcome :=
  withGeneratedId (fun id => do
    let core : Queues.CreateScheduleRequest :=
      { req.toScheduleSettings with
        accountId := accountId
        queueName := req.queueName
        scheduleId := id
        scheduleName := req.name
        maxNumberOfSchedulesPerQueue := limits.maxNumberOfSchedulesPerQueue }
    attemptId (← call (.createSchedule core)) (fun reply =>
      pure (.ok (.schedule (scheduleToFront req.queueName reply.response)))))
        maxIDGenerationAttempts

def getSchedule (req : Moabpb.GetScheduleRequest) (accountId : Nat) : Handler Outcome := do
  orFail (← call (.getSchedule ⟨accountId, req.queueName, req.scheduleName⟩)) (fun reply =>
    pure (.ok (.schedule (scheduleToFront req.queueName reply.response))))

def updateSchedule (req : Moabpb.UpdateScheduleRequest) (accountId : Nat) : Handler Outcome := do
  let core : Queues.UpdateScheduleRequest :=
    { req.toScheduleSettings with
      accountId := accountId
      queueName := req.queueName
      scheduleName := req.scheduleName
      expectedVersion := req.expectedVersion }
  orFail (← call (.updateSchedule core)) (fun reply =>
    pure (.ok (.schedule (scheduleToFront req.queueName reply.response))))

def deleteSchedule (req : Moabpb.DeleteScheduleRequest) (accountId : Nat) : Handler Outcome := do
  orFail (← call (.deleteSchedule ⟨accountId, req.queueName, req.scheduleName⟩)) (fun _ =>
    pure (.ok .done))

def listSchedules [Wire] (req : Moabpb.ListSchedulesRequest) (accountId : Nat) :
    Handler Outcome := do
  match ← Server.getQueue accountId req.queueName with
  | .error err => fail err
  | .ok queue =>
    match paginationTokenToCore req.paginationToken with
    | .error err => pure (.error (.invalidArgument err))
    | .ok token =>
      orFail (← call (.listSchedules ⟨queue.id, token, req.limit⟩)) (fun reply =>
        withTokens reply.response.nextPaginationToken reply.response.previousPaginationToken
          (.internal marshalError)
          (.listSchedules (reply.response.schedules.map (scheduleToFront req.queueName))))

end Schedules

/-- The handler of the call. -/
def handle [Base62] [Wire] (req : Moabpb.Request) (accountId : Nat) (limits : ServiceLimits) :
    Handler Outcome :=
  match req with
  | .createQueue req => createQueue req accountId limits
  | .getQueue req => getQueueAndStats req accountId
  | .updateQueue req => updateQueue req accountId
  | .deleteQueue req => deleteQueue req accountId
  | .listQueues req => listQueues req accountId
  | .enqueue req => enqueue req accountId limits
  | .dequeue req => dequeue req accountId limits
  | .reportStatus req => reportStatus req accountId
  | .deleteTasks req => deleteTasks req accountId
  | .restartTasks req => restartTasks req accountId limits
  | .createSchedule req => createSchedule req accountId limits
  | .getSchedule req => getSchedule req accountId
  | .updateSchedule req => updateSchedule req accountId
  | .deleteSchedule req => deleteSchedule req accountId
  | .listSchedules req => listSchedules req accountId
  | .purgeQueue req => purgeQueue req accountId
  | .getTask req => getTask req accountId
  | .listTasks req => listTasks req accountId

end Server

end Moab
