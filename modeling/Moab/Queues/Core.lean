import Moab.Queues.Tables

namespace Moab.Queues

open OrderedStore

variable [OrderedStore] [Gronx]

inductive ErrorCode where
  | alreadyExists
  | resourceExhausted
  | idCollision
  | invalidRequest
  | notFound
  deriving DecidableEq

/-- A value in the context of an error, before it is printed. -/
inductive ContextValue where
  | name (name : Bytes)
  | number (n : Int)
  | queueId (id : QueueId)
  | scheduleId (id : ScheduleId)
  deriving DecidableEq

structure ApplicationError where
  code : ErrorCode
  message : String
  context : List (String × ContextValue)
  deriving DecidableEq

def queueNotFoundError (queueName : Bytes) : ApplicationError :=
  ⟨.notFound, "queue not found", [("queue_name", .name queueName)]⟩

def scheduleNotFoundError (queueName scheduleName : Bytes) : ApplicationError :=
  ⟨.notFound, "schedule not found",
    [("schedule_name", .name scheduleName), ("queue_name", .name queueName)]⟩

/-- The settings of a queue that its creator chooses. -/
structure QueueSettings where
  description : Bytes
  keepaliveTimeoutInSeconds : Time
  retryStrategy : Option RetryStrategy
  dequeuingSettings : Option DequeuingSettings
  deadLetterQueueConfig : Option DeadLetterQueueConfig
  expiresInSeconds : Time
  deriving DecidableEq

structure CreateQueueRequest extends QueueSettings where
  queueId : QueueId
  name : Bytes
  maxNumberOfQueues : Int
  deriving DecidableEq

structure UpdateQueueRequest extends QueueSettings where
  accountId : Nat
  queueName : Bytes
  expectedVersion : Int
  deriving DecidableEq

structure DeleteQueueRequest where
  accountId : Nat
  queueName : Bytes
  deriving DecidableEq

structure SwapQueueIdRequest where
  accountId : Nat
  queueName : Bytes
  newQueueId : Nat
  deriving DecidableEq

/-- The settings of a schedule that its creator chooses. -/
structure ScheduleSettings where
  description : Bytes
  cron : Bytes
  payload : Bytes
  dedupeKey : Bytes
  expiresInSeconds : Time
  retryStrategy : Option RetryStrategy
  timezone : Bytes
  deriving DecidableEq

structure CreateScheduleRequest extends ScheduleSettings where
  accountId : Nat
  queueName : Bytes
  scheduleId : Nat
  scheduleName : Bytes
  maxNumberOfSchedulesPerQueue : Int
  deriving DecidableEq

structure UpdateScheduleRequest extends ScheduleSettings where
  accountId : Nat
  queueName : Bytes
  scheduleName : Bytes
  expectedVersion : Int
  deriving DecidableEq

structure DeleteScheduleRequest where
  accountId : Nat
  queueName : Bytes
  scheduleName : Bytes
  deriving DecidableEq

structure ReportSchedulesStatusRequest where
  scheduleId : ScheduleId
  nextScheduledAt : Time
  lastEnqueuedFor : Time
  deriving DecidableEq

structure RunQueuesGarbageCollectionRequest where
  gcRecordsPageSize : Int
  gcRecordSchedulesPageSize : Int
  maxVisitedSchedules : Int
  deriving DecidableEq

/-- gronx.NextTickAfter of an expression in a timezone. -/
def nextTickAfter (cron timezone : Bytes) (t : Time) : Except CoreError Time :=
  match Gronx.loadLocation timezone with
  | none => .error .unknownTimezone
  | some tz =>
    match Gronx.nextTickAfter cron tz t with
    | none => .error .noNextTick
    | some u => .ok u

def newQueue (req : CreateQueueRequest) (now : Time) : Queue where
  id := req.queueId
  name := req.name
  description := req.description
  createdAt := now
  updatedAt := now
  version := 1
  keepaliveTimeoutInSeconds := req.keepaliveTimeoutInSeconds
  retryStrategy := req.retryStrategy
  dequeuingSettings := req.dequeuingSettings
  deadLetterQueueConfig := req.deadLetterQueueConfig
  expiresInSeconds := req.expiresInSeconds
  schedulesCount := 0

def createQueue (s : State) (now : Time) (req : CreateQueueRequest) :
    State × Except ApplicationError Queue :=
  if (s.queueByName req.queueId.accountId req.name).isSome then
    (s, .error ⟨.alreadyExists, "queue with this name already exists",
      [("queue_name", .name req.name)]⟩)
  else if (s.getCounter req.queueId.accountId).numberOfQueues ≥ req.maxNumberOfQueues then
    (s, .error ⟨.resourceExhausted, "max number of queues reached",
      [("limit", .number req.maxNumberOfQueues)]⟩)
  else if (s.queues.get req.queueId).isSome then
    (s, .error ⟨.idCollision, "queue with this id already exists",
      [("queue_id", .queueId req.queueId)]⟩)
  else
    let queue := newQueue req now
    ((s.createQueue queue).addQueues req.queueId.accountId 1, .ok queue)

/-- The row of a queue whose settings are overwritten. -/
def withQueueSettings (queue : Queue) (settings : QueueSettings) (now : Time) : Queue :=
  { queue with
    description := settings.description
    updatedAt := now
    keepaliveTimeoutInSeconds := settings.keepaliveTimeoutInSeconds
    retryStrategy := settings.retryStrategy
    dequeuingSettings := settings.dequeuingSettings
    deadLetterQueueConfig := settings.deadLetterQueueConfig
    expiresInSeconds := settings.expiresInSeconds
    version := queue.version + 1 }

def updateQueue (s : State) (now : Time) (req : UpdateQueueRequest) :
    State × Except ApplicationError Queue :=
  match s.queueByName req.accountId req.queueName with
  | none => (s, .error (queueNotFoundError req.queueName))
  | some queue =>
    if queue.version ≠ req.expectedVersion then
      (s, .error ⟨.invalidRequest, "version mismatch",
        [("queue_name", .name req.queueName), ("actual_version", .number queue.version),
          ("expected_version", .number req.expectedVersion)]⟩)
    else
      let queue := withQueueSettings queue req.toQueueSettings now
      (s.updateQueue queue, .ok queue)

/-- The schedules of the queue are left to the garbage collection. -/
def deleteQueue (s : State) (req : DeleteQueueRequest) : State × Except ApplicationError QueueId :=
  match s.queueByName req.accountId req.queueName with
  | none => (s, .error (queueNotFoundError req.queueName))
  | some queue =>
    let s := (s.deleteQueue queue).addQueues queue.id.accountId (-1)
    ({ s with gcRecords := s.gcRecords.set queue.id () }, .ok queue.id)

def defaultGCRecordsPageSize : Nat := 100
def defaultGCRecordSchedulesPageSize : Nat := 250
def defaultGCMaxVisitedSchedules : Nat := 1000
def maxDequeueSchedules : Nat := 250

/-- Gives a schedule another queue id. -/
def moveSchedule (newQueueId : QueueId) (s : State) (x : Schedule) : State :=
  (s.deleteSchedule x).createSchedule { x with id := newQueueId.schedule x.id.scheduleId }

/-- Pages through the schedules of a queue and moves them. A page that is
followed by another has a schedule, so their number bounds the pages. -/
def moveSchedules (oldQueueId newQueueId : QueueId) : Nat → Option ScheduleId → State → State
  | 0, _, s => s
  | pages + 1, token, s =>
    let page := s.listSchedules oldQueueId token defaultGCRecordSchedulesPageSize
    let s := page.1.foldl (moveSchedule newQueueId) s
    match page.2 with
    | none => s
    | some token => moveSchedules oldQueueId newQueueId pages (some token) s

def withQueueId (queue : Queue) (id : QueueId) (now : Time) : Queue :=
  { queue with id := id, updatedAt := now, version := queue.version + 1 }

def swapQueueId (s : State) (now : Time) (req : SwapQueueIdRequest) :
    State × Except ApplicationError (Queue × QueueId) :=
  match s.queueByName req.accountId req.queueName with
  | none => (s, .error (queueNotFoundError req.queueName))
  | some queue =>
    let newQueueId : QueueId := ⟨req.accountId, req.newQueueId⟩
    if (s.queues.get newQueueId).isSome then
      (s, .error ⟨.idCollision, "queue with this id already exists",
        [("queue_id", .queueId newQueueId)]⟩)
    else
      let newQueue := withQueueId queue newQueueId now
      let s := moveSchedules queue.id newQueueId (s.schedules.entries.length + 1) none s
      (s.swapId queue.id newQueue, .ok (newQueue, queue.id))

def newSchedule (req : CreateScheduleRequest) (id : ScheduleId) (now nextTime : Time) :
    Schedule where
  id := id
  name := req.scheduleName
  description := req.description
  createdAt := now
  updatedAt := now
  version := 1
  cron := req.cron
  payload := req.payload
  dedupeKey := req.dedupeKey
  expiresInSeconds := req.expiresInSeconds
  retryStrategy := req.retryStrategy
  timezone := req.timezone
  lastCheckedAt := 0
  nextScheduledAt := nextTime
  lastEnqueuedFor := 0

def createSchedule (s : State) (now : Time) (req : CreateScheduleRequest) :
    Except CoreError (State × Except ApplicationError Schedule) :=
  match s.queueByName req.accountId req.queueName with
  | none => .ok (s, .error (queueNotFoundError req.queueName))
  | some queue =>
    let scheduleId : ScheduleId := ⟨req.accountId, queue.id.queueId, req.scheduleId⟩
    if (s.schedules.get scheduleId).isSome then
      .ok (s, .error ⟨.idCollision, "schedule with this id already exists",
        [("schedule_id", .scheduleId scheduleId)]⟩)
    else if queue.schedulesCount ≥ req.maxNumberOfSchedulesPerQueue then
      .ok (s, .error ⟨.resourceExhausted, "max number of schedules per queue reached",
        [("limit", .number req.maxNumberOfSchedulesPerQueue)]⟩)
    else if (s.scheduleByName queue.id req.scheduleName).isSome then
      .ok (s, .error ⟨.alreadyExists, "schedule with this name already exists",
        [("schedule_name", .name req.scheduleName), ("queue_name", .name queue.name)]⟩)
    else do
      let nextTime ← nextTickAfter req.cron req.timezone now
      let schedule := newSchedule req scheduleId now nextTime
      let s := s.createSchedule schedule
      .ok (s.updateQueue { queue with schedulesCount := queue.schedulesCount + 1 }, .ok schedule)

/-- The row of a schedule whose settings are overwritten. -/
def withScheduleSettings (x : Schedule) (settings : ScheduleSettings) (now nextTime : Time) :
    Schedule :=
  { x with
    description := settings.description
    updatedAt := now
    payload := settings.payload
    dedupeKey := settings.dedupeKey
    cron := settings.cron
    retryStrategy := settings.retryStrategy
    expiresInSeconds := settings.expiresInSeconds
    timezone := settings.timezone
    version := x.version + 1
    nextScheduledAt := nextTime }

def updateSchedule (s : State) (now : Time) (req : UpdateScheduleRequest) :
    Except CoreError (State × Except ApplicationError Schedule) :=
  match s.queueByName req.accountId req.queueName with
  | none => .ok (s, .error (queueNotFoundError req.queueName))
  | some queue =>
    match s.scheduleByName queue.id req.scheduleName with
    | none => .ok (s, .error (scheduleNotFoundError queue.name req.scheduleName))
    | some schedule =>
      if schedule.version ≠ req.expectedVersion then
        .ok (s, .error ⟨.invalidRequest, "version mismatch",
          [("queue_name", .name req.queueName), ("schedule_name", .name req.scheduleName),
            ("actual_version", .number schedule.version),
            ("expected_version", .number req.expectedVersion)]⟩)
      else do
        let nextTime ← nextTickAfter req.cron req.timezone now
        let schedule := withScheduleSettings schedule req.toScheduleSettings now nextTime
        let s ← s.updateSchedule schedule
        .ok (s, .ok schedule)

def deleteSchedule (s : State) (req : DeleteScheduleRequest) :
    State × Except ApplicationError Unit :=
  match s.queueByName req.accountId req.queueName with
  | none => (s, .error (queueNotFoundError req.queueName))
  | some queue =>
    match s.scheduleByName queue.id req.scheduleName with
    | none => (s, .error (scheduleNotFoundError queue.name req.scheduleName))
    | some schedule =>
      let s := s.deleteSchedule schedule
      (s.updateQueue { queue with schedulesCount := queue.schedulesCount - 1 }, .ok ())

structure DequeSchedulesResponseEntry where
  schedule : Schedule
  queue : Queue
  deriving DecidableEq

/-- The schedules that are due, each with its queue. A schedule without a queue
fails the call. -/
def dequeSchedules (s : State) (dueBefore : Time) :
    Except CoreError (List DequeSchedulesResponseEntry) := do
  let schedules ← s.listDue dueBefore maxDequeueSchedules
  schedules.mapM (fun x => do
    let queue ← s.getQueue x.id.queue
    .ok ⟨x, queue⟩)

/-- The items of the scheduled index that a call of DequeSchedules reads. -/
def State.dueItems (s : State) (dueBefore : Time) : List ScheduledItem :=
  ((s.scheduledIndex.items ()).filter
    (fun i => (0 : Time).rank ≤ i.time.rank ∧ i.time.rank ≤ dueBefore.rank)).take
    maxDequeueSchedules

def withStatus (x : Schedule) (req : ReportSchedulesStatusRequest) (now : Time) : Schedule :=
  { x with
    nextScheduledAt := req.nextScheduledAt
    lastCheckedAt := now
    lastEnqueuedFor := if req.lastEnqueuedFor ≠ 0 then req.lastEnqueuedFor else x.lastEnqueuedFor }

def reportSchedulesStatus (s : State) (now : Time) (req : ReportSchedulesStatusRequest) :
    Except CoreError (State × Except ApplicationError Unit) :=
  match s.schedules.get req.scheduleId with
  | none => .ok (s, .error ⟨.notFound, "schedule not found",
      [("schedule_id", .number req.scheduleId.scheduleId)]⟩)
  | some schedule => do
    let s ← s.updateSchedule (withStatus schedule req now)
    .ok (s, .ok ())

/-- Deletes a page of schedules until the budget of the call is used up. -/
def drainSchedules (maxVisitedSchedules : Nat) : State → Nat → List Schedule → State × Nat × Bool
  | s, visited, [] => (s, visited, false)
  | s, visited, x :: xs =>
    let s := s.deleteSchedule x
    if visited + 1 ≥ maxVisitedSchedules then (s, visited + 1, true)
    else drainSchedules maxVisitedSchedules s (visited + 1) xs

def State.deleteGCRecord (s : State) (q : QueueId) : State :=
  { s with gcRecords := s.gcRecords.delete q }

/-- One page of schedules of each record, and the record once no page follows. -/
def collectRecords (pageSize maxVisitedSchedules : Nat) : State → Nat → List QueueId → State
  | s, _, [] => s
  | s, visited, q :: qs =>
    let page := s.listSchedules q none pageSize
    let a := drainSchedules maxVisitedSchedules s visited page.1
    if a.2.2 then a.1
    else
      let s := if page.2 = none then a.1.deleteGCRecord q else a.1
      collectRecords pageSize maxVisitedSchedules s a.2.1 qs

def runQueuesGarbageCollection (s : State) (req : RunQueuesGarbageCollectionRequest) : State :=
  let gcRecords := (s.gcRecords.entries.map Prod.fst).take
    (orDefault req.gcRecordsPageSize defaultGCRecordsPageSize)
  collectRecords (orDefault req.gcRecordSchedulesPageSize defaultGCRecordSchedulesPageSize)
    (orDefault req.maxVisitedSchedules defaultGCMaxVisitedSchedules) s 0 gcRecords

/-- The writing operations of the queues core. -/
inductive Op where
  | createQueue (req : CreateQueueRequest)
  | updateQueue (req : UpdateQueueRequest)
  | deleteQueue (req : DeleteQueueRequest)
  | swapQueueId (req : SwapQueueIdRequest)
  | createSchedule (req : CreateScheduleRequest)
  | updateSchedule (req : UpdateScheduleRequest)
  | deleteSchedule (req : DeleteScheduleRequest)
  | reportSchedulesStatus (req : ReportSchedulesStatusRequest)
  | runQueuesGarbageCollection (req : RunQueuesGarbageCollectionRequest)
  deriving DecidableEq

inductive Response where
  | queue (r : Except ApplicationError Queue)
  | deleted (r : Except ApplicationError QueueId)
  | swapped (r : Except ApplicationError (Queue × QueueId))
  | schedule (r : Except ApplicationError Schedule)
  | done (r : Except ApplicationError Unit)

def exec (s : State) (now : Time) : Op → Except CoreError (State × Response)
  | .createQueue req => .ok ((createQueue s now req).map id .queue)
  | .updateQueue req => .ok ((updateQueue s now req).map id .queue)
  | .deleteQueue req => .ok ((deleteQueue s req).map id .deleted)
  | .swapQueueId req => .ok ((swapQueueId s now req).map id .swapped)
  | .createSchedule req => (createSchedule s now req).map (fun a => (a.1, .schedule a.2))
  | .updateSchedule req => (updateSchedule s now req).map (fun a => (a.1, .schedule a.2))
  | .deleteSchedule req => .ok ((deleteSchedule s req).map id .done)
  | .reportSchedulesStatus req => (reportSchedulesStatus s now req).map (fun a => (a.1, .done a.2))
  | .runQueuesGarbageCollection req => .ok (runQueuesGarbageCollection s req, .done (.ok ()))

/-- A call that fails discards its transaction. -/
def commit (s : State) (now : Time) (op : Op) : State :=
  match exec s now op with
  | .ok a => a.1
  | .error _ => s

end Moab.Queues
