import Moab.Tasks.Dequeue

namespace Moab

open OrderedStore

variable [OrderedStore]

/-- The application errors of the tasks core. All are NotFound. -/
inductive TasksError where
  | taskNotFound (taskId : TaskId)
  | queueIdPurged (queueId : QueueId)
  deriving DecidableEq

structure EnqueueRequestEntry where
  payload : Bytes
  scheduledAt : Time
  expiresAt : Time
  dedupeKey : Bytes
  retryStrategy : Option RetryStrategy
  overwriteOnDuplicate : List OverwriteOnDuplicate
  threadId : Bytes
  deriving DecidableEq

structure EnqueueRequest where
  queueId : QueueId
  entries : List EnqueueRequestEntry
  deriving DecidableEq

structure ReportStatusRequestEntry where
  taskId : TaskId
  attempt : Int
  status : ReportStatus
  keepaliveTimeoutInSeconds : Time
  deriving DecidableEq

structure ReportStatusRequest where
  entries : List ReportStatusRequestEntry
  deadLetterQueueConfig : Option DeadLetterQueueConfig
  deriving DecidableEq

structure ReportStatusResponseEntry where
  taskId : TaskId
  result : ReportResult
  deriving DecidableEq

structure DeleteTasksRequest where
  queueId : QueueId
  taskIds : List Nat
  deriving DecidableEq

structure RestartTasksRequestEntry where
  taskId : Nat
  scheduledAt : Time
  expiresAt : Time
  deriving DecidableEq

structure RestartTasksRequest where
  queueId : QueueId
  entries : List RestartTasksRequestEntry
  deriving DecidableEq

inductive RestartResult where
  | invalid
  | restarted
  | notFound
  | notDead
  | dedupeConflict
  deriving DecidableEq

structure RestartTasksResponseEntry where
  taskId : Nat
  result : RestartResult
  task : Option Task
  deriving DecidableEq

structure RunTasksGarbageCollectionRequest where
  maxVisitedTasks : Int
  pageSize : Int
  deriving DecidableEq

structure RunPurgeQueueGarbageCollectionRequest where
  gcRecordsPageSize : Int
  gcRecordTasksPageSize : Int
  maxVisitedTasks : Int
  deriving DecidableEq

def checkQueueNotPurged (s : State) (q : QueueId) : Option TasksError :=
  (s.purgeGCRecords.get q).map (fun _ => .queueIdPurged q)

/-- The row of a new task. -/
def newTask (q : QueueId) (n : Nat) (e : EnqueueRequestEntry) (now : Time) : Task where
  id := q.task n
  payload := e.payload
  createdAt := now
  scheduledAt := notBefore e.scheduledAt now
  expiresAt := e.expiresAt
  dedupeKey := e.dedupeKey
  state := .enqueued
  attempts := 0
  visibleAt := 0
  lastFailedAt := 0
  retryStrategy := e.retryStrategy
  threadId := e.threadId

/-- The live task an entry duplicates. -/
def duplicateOf (s : State) (q : QueueId) (e : EnqueueRequestEntry) : Option TaskId :=
  if e.dedupeKey = [] then none else getTaskIdByDedupeKey s q e.dedupeKey

/-- One entry of an Enqueue. The task id sequence is kept aside until all entries
are done. -/
def enqueueEntry (q : QueueId) (now : Time) (s : State) (sequence : Nat) (e : EnqueueRequestEntry) :
    Except CoreError (State × Nat × Option Task) :=
  match duplicateOf s q e with
  | some duplicateId => do
    let a ← overwriteDuplicate s duplicateId e.overwriteOnDuplicate (notBefore e.scheduledAt now)
      e.payload e.expiresAt
    .ok (a.1, sequence, a.2)
  | none => do
    let t := newTask q (sequence + 1) e now
    let s ← createTask s t
    .ok (s, sequence + 1, some t)

def enqueueEntries (q : QueueId) (now : Time) :
    State → Nat → List EnqueueRequestEntry → Except CoreError (State × Nat × List Task)
  | s, sequence, [] => .ok (s, sequence, [])
  | s, sequence, e :: es => do
    let a ← enqueueEntry q now s sequence e
    let b ← enqueueEntries q now a.1 a.2.1 es
    .ok (b.1, b.2.1, a.2.2.toList ++ b.2.2)

def enqueue (s : State) (now : Time) (req : EnqueueRequest) :
    Except CoreError (State × Except TasksError (List Task)) :=
  match checkQueueNotPurged s req.queueId with
  | some e => .ok (s, .error e)
  | none => do
    let st := s.getQueueState req.queueId
    let a ← enqueueEntries req.queueId now s st.taskIdSequence req.entries
    .ok (a.1.setQueueState req.queueId { st with taskIdSequence := a.2.1 }, .ok a.2.2)

def dequeue (s : State) (now : Time) (req : DequeueRequest) :
    Except CoreError (State × Except TasksError (List Task)) :=
  match checkQueueNotPurged s req.queueId with
  | some e => .ok (s, .error e)
  | none => do
    let a ← dequeueTasks s now req
    .ok (a.1, .ok a.2)

def reportEntries (now : Time) (dlqConfig : Option DeadLetterQueueConfig) :
    State → List ReportStatusRequestEntry → Except CoreError
      (State × List ReportStatusResponseEntry)
  | s, [] => .ok (s, [])
  | s, e :: es => do
    let a ← reportStatus s e.taskId now e.status e.attempt e.keepaliveTimeoutInSeconds dlqConfig
    let b ← reportEntries now dlqConfig a.1 es
    .ok (b.1, ⟨e.taskId, a.2⟩ :: b.2)

def reportStatuses (s : State) (now : Time) (req : ReportStatusRequest) :
    Except CoreError (State × List ReportStatusResponseEntry) :=
  reportEntries now req.deadLetterQueueConfig s req.entries

/-- A task id that does not exist is ignored. -/
def deleteTaskById (q : QueueId) (s : State) (n : Nat) : Except CoreError State :=
  match s.tasks.get (q.task n) with
  | none => .ok s
  | some t => deleteTask s t .none

def deleteTasks (s : State) (req : DeleteTasksRequest) : Except CoreError State :=
  req.taskIds.foldlM (deleteTaskById req.queueId) s

/-- Another live task holds the dedupe key of a dead one. -/
def dedupeConflict (s : State) (q : QueueId) (t : Task) : Bool :=
  t.dedupeKey ≠ [] ∧ (getTaskIdByDedupeKey s q t.dedupeKey).any (fun id => id.taskId ≠ t.id.taskId)

/-- One entry of a RestartTasks. A dead task past its retention counts as gone. -/
def restartEntry (q : QueueId) (now : Time) (s : State) (e : RestartTasksRequestEntry) :
    Except CoreError (State × RestartTasksResponseEntry) :=
  match s.tasks.get (q.task e.taskId) with
  | none => .ok (s, ⟨e.taskId, .notFound, none⟩)
  | some t =>
    if t.state ≠ .dead then .ok (s, ⟨e.taskId, .notDead, none⟩)
    else if t.expiresAt < now then .ok (s, ⟨e.taskId, .notFound, none⟩)
    else if dedupeConflict s q t then .ok (s, ⟨e.taskId, .dedupeConflict, none⟩)
    else do
      let a ← restartTask s t now e.scheduledAt e.expiresAt
      .ok (a.1, ⟨e.taskId, .restarted, some a.2⟩)

def restartEntries (q : QueueId) (now : Time) :
    State → List RestartTasksRequestEntry → Except CoreError
      (State × List RestartTasksResponseEntry)
  | s, [] => .ok (s, [])
  | s, e :: es => do
    let a ← restartEntry q now s e
    let b ← restartEntries q now a.1 es
    .ok (b.1, a.2 :: b.2)

def restartTasks (s : State) (now : Time) (req : RestartTasksRequest) :
    Except CoreError (State × List RestartTasksResponseEntry) :=
  restartEntries req.queueId now s req.entries

def purgeQueue (s : State) (q : QueueId) : State :=
  { s with purgeGCRecords := s.purgeGCRecords.set q () }

/-- One due entry of the expiration index. An entry without a row is dropped. -/
def sweepRef (s : State) (ref : ExpirationItem) : Except CoreError State :=
  match s.tasks.get ref.taskId with
  | none => .ok { s with expiration := s.expiration.remove () ref }
  | some t => deleteTask s t .expired

/-- Every round but the last visits at least one entry, so the budget also
bounds the number of rounds. -/
def sweepRounds (now : Time) (pageSize : Nat) : Nat → Nat → State → Except CoreError State
  | 0, _, s => .ok s
  | rounds + 1, remaining, s =>
    let limit := min pageSize remaining
    let expired := listDue s now limit
    if expired = [] then .ok s
    else do
      let s ← expired.foldlM sweepRef s
      if expired.length < limit then .ok s
      else sweepRounds now pageSize rounds (remaining - expired.length) s

def runTasksGarbageCollection (s : State) (now : Time) (req : RunTasksGarbageCollectionRequest) :
    Except CoreError State :=
  let maxVisitedTasks := orDefault req.maxVisitedTasks 1000
  let pageSize := min (orDefault req.pageSize 250) maxVisitedTasks
  sweepRounds now pageSize maxVisitedTasks maxVisitedTasks s

/-- Deletes a page of tasks until the budget of the call is used up. -/
def drainPage (maxVisitedTasks : Nat) :
    State → Nat → List Task → Except CoreError (State × Nat × Bool)
  | s, visited, [] => .ok (s, visited, false)
  | s, visited, t :: ts => do
    let s ← deleteTask s t .none
    if visited + 1 ≥ maxVisitedTasks then .ok (s, visited + 1, true)
    else drainPage maxVisitedTasks s (visited + 1) ts

/-- Nothing is left under a purged queue id: its marker and its other rows go. -/
def dropQueue (s : State) (q : QueueId) : State :=
  { s with
    purgeGCRecords := s.purgeGCRecords.delete q
    counters := s.counters.delete q
    queueState := s.queueState.delete q
    rateLimiters := s.rateLimiters.delete q }

/-- Pages through one purged queue id. A page that is followed by another visits
at least one task, so the budget also bounds the number of pages. -/
def drainRecord (pageSize maxVisitedTasks : Nat) (q : QueueId) :
    Nat → State → Nat → Except CoreError (State × Nat × Bool)
  | 0, s, visited => .ok (s, visited, true)
  | pages + 1, s, visited => do
    let page := listTasks s q pageSize
    let a ← drainPage maxVisitedTasks s visited page.1
    if a.2.2 then .ok a
    else if page.2 then drainRecord pageSize maxVisitedTasks q pages a.1 a.2.1
    else .ok (dropQueue a.1 q, a.2.1, false)

def drainRecords (pageSize maxVisitedTasks : Nat) :
    State → Nat → List QueueId → Except CoreError State
  | s, _, [] => .ok s
  | s, visited, q :: qs => do
    let a ← drainRecord pageSize maxVisitedTasks q maxVisitedTasks s visited
    if a.2.2 then .ok a.1 else drainRecords pageSize maxVisitedTasks a.1 a.2.1 qs

def runPurgeQueueGarbageCollection (s : State) (req : RunPurgeQueueGarbageCollectionRequest) :
    Except CoreError State :=
  let gcRecords := (s.purgeGCRecords.entries.map Prod.fst).take
    (orDefault req.gcRecordsPageSize 100)
  drainRecords (orDefault req.gcRecordTasksPageSize 250) (orDefault req.maxVisitedTasks 1000) s 0
    gcRecords

/-- GetTask: a task past its deadline is hidden, unless it is being worked. -/
def getTask (s : State) (now : Time) (id : TaskId) : Except TasksError Task :=
  match s.tasks.get id with
  | none => .error (.taskNotFound id)
  | some t =>
    if t.state ≠ .inProgress ∧ t.expiresAt < now then .error (.taskNotFound id) else .ok t

structure PaginationToken where
  value : Bytes
  previous : Bool
  deriving DecidableEq

structure Page (α : Type) where
  items : List α
  nextPaginationToken : Option PaginationToken
  previousPaginationToken : Option PaginationToken

/-- ListPaginated of the store over one ascending listing. A page asked for by a
previous token comes in descending order. -/
structure Pager where
  page {α : Type} : List α → Option PaginationToken → Nat → Page α

structure ListTasksRequest where
  queueId : QueueId
  state : TaskState
  paginationToken : Option PaginationToken
  limit : Int
  deriving DecidableEq

structure ListTasksResponse where
  tasks : List Task
  nextPaginationToken : Option PaginationToken
  previousPaginationToken : Option PaginationToken

def defaultPaginationLimit : Nat := 100
def maxPaginationLimit : Nat := 250

def getLimitWithDefaults (requestedLimit : Int) : Nat :=
  if 0 < requestedLimit ∧ requestedLimit < maxPaginationLimit then requestedLimit.toNat
  else if requestedLimit ≤ 0 then defaultPaginationLimit
  else maxPaginationLimit

/-- The items of a page in ascending order. -/
def Page.ascending {α : Type} (p : Page α) (token : Option PaginationToken) : List α :=
  if token.any (·.previous) then p.items.reverse else p.items

def listFromIndex (pager : Pager) (s : State) (q : QueueId) (x : Index QueueId IndexItem)
    (token : Option PaginationToken) (limit : Nat) : Except CoreError ListTasksResponse := do
  let result := pager.page (x.items q) token limit
  let tasks ← (result.ascending token).mapM (fun i => s.getTask (q.task i.taskId))
  .ok ⟨tasks, result.nextPaginationToken, result.previousPaginationToken⟩

/-- tasksTable.List: the rows of a queue by id, or the index of one state. -/
def listTasksPage (pager : Pager) (s : State) (q : QueueId) (state : TaskState)
    (token : Option PaginationToken) (limit : Nat) : Except CoreError ListTasksResponse :=
  match state with
  | .invalid =>
    let result := pager.page ((s.tasks.entries.filter (fun e => e.1.queue = q)).map Prod.snd)
      token limit
    .ok ⟨result.ascending token, result.nextPaginationToken, result.previousPaginationToken⟩
  | .enqueued => listFromIndex pager s q s.queueIndex token limit
  | .inProgress => listFromIndex pager s q s.inProgressIndex token limit
  | .dead => listFromIndex pager s q s.deadTasksIndex token limit

/-- Core.ListTasks. -/
def coreListTasks (pager : Pager) (s : State) (req : ListTasksRequest) :
    Except CoreError (Except TasksError ListTasksResponse) :=
  match checkQueueNotPurged s req.queueId with
  | some e => .ok (.error e)
  | none => do
    let page ← listTasksPage pager s req.queueId req.state req.paginationToken
      (getLimitWithDefaults req.limit)
    .ok (.ok page)

/-- How long the first due item of the queue index has been waiting. -/
def getAgeOfOldestEnqueuedTask (s : State) (q : QueueId) (now : Time) : Time :=
  match listInRange s.queueIndex q 0 now with
  | [] => 0
  | i :: _ => now - i.time

structure GetStatisticsResponse where
  enqueuedTasksCount : Int
  inProgressTasksCount : Int
  deadTasksCount : Int
  processedTasksCount : Int
  expiredTasksCount : Int
  ageOfOldestEnqueuedTask : Time
  taskIdSequence : Int64
  deriving DecidableEq

def getStatistics (s : State) (now : Time) (q : QueueId) : GetStatisticsResponse :=
  let counters := s.getCounter q
  { enqueuedTasksCount := counters.enqueuedTasksCount
    inProgressTasksCount := counters.inProgressTasksCount
    deadTasksCount := counters.deadTasksCount
    processedTasksCount := counters.processedTasksCount
    expiredTasksCount := counters.expiredTasksCount
    ageOfOldestEnqueuedTask := getAgeOfOldestEnqueuedTask s q now
    taskIdSequence := Int64.ofNat (s.getQueueState q).taskIdSequence }

/-- The calls that change the tasks core. -/
inductive Op where
  | enqueue (req : EnqueueRequest)
  | dequeue (req : DequeueRequest)
  | reportStatus (req : ReportStatusRequest)
  | deleteTasks (req : DeleteTasksRequest)
  | restartTasks (req : RestartTasksRequest)
  | purgeQueue (q : QueueId)
  | runTasksGarbageCollection (req : RunTasksGarbageCollectionRequest)
  | runPurgeQueueGarbageCollection (req : RunPurgeQueueGarbageCollectionRequest)
  deriving DecidableEq

inductive Response where
  | enqueue (r : Except TasksError (List Task))
  | dequeue (r : Except TasksError (List Task))
  | reportStatus (entries : List ReportStatusResponseEntry)
  | restartTasks (entries : List RestartTasksResponseEntry)
  | done

def exec (s : State) (now : Time) : Op → Except CoreError (State × Response)
  | .enqueue req => (enqueue s now req).map (fun a => (a.1, .enqueue a.2))
  | .dequeue req => (dequeue s now req).map (fun a => (a.1, .dequeue a.2))
  | .reportStatus req => (reportStatuses s now req).map (fun a => (a.1, .reportStatus a.2))
  | .deleteTasks req => (deleteTasks s req).map (fun s => (s, .done))
  | .restartTasks req => (restartTasks s now req).map (fun a => (a.1, .restartTasks a.2))
  | .purgeQueue q => .ok (purgeQueue s q, .done)
  | .runTasksGarbageCollection req =>
    (runTasksGarbageCollection s now req).map (fun s => (s, .done))
  | .runPurgeQueueGarbageCollection req =>
    (runPurgeQueueGarbageCollection s req).map (fun s => (s, .done))

/-- A failed call discards its transaction. -/
def commit (s : State) (now : Time) (op : Op) : State :=
  match exec s now op with
  | .ok a => a.1
  | .error _ => s

structure Call where
  now : Time
  op : Op
  deriving DecidableEq

def run (s : State) (calls : List Call) : State := calls.foldl (fun s c => commit s c.now c.op) s

end Moab
