import Moab.Tasks.Threads

namespace Moab

open OrderedStore

variable [OrderedStore]

inductive OverwriteOnDuplicate where
  | invalid
  | payload
  | scheduledAt
  | expiresAt
  deriving DecidableEq

/-- Which lifetime counter a deletion increments. -/
inductive TaskDeletionReason where
  | none
  | succeeded
  | expired
  deriving DecidableEq

inductive ReportStatus where
  | invalid
  | succeeded
  | inProgress
  | failed
  deriving DecidableEq

inductive ReportResult where
  | invalid
  | ok
  | notFound
  | notInProgress
  | staleAttempt
  deriving DecidableEq

def State.claimDedupeKey (s : State) (t : Task) : State :=
  if t.dedupeKey = [] then s
  else { s with dedupeKeysIndex := s.dedupeKeysIndex.set t.dedupe t.id.taskId }

def State.releaseDedupeKey (s : State) (t : Task) : State :=
  if t.dedupeKey = [] then s
  else { s with dedupeKeysIndex := s.dedupeKeysIndex.delete t.dedupe }

def State.addExpiration (s : State) (t : Task) : State :=
  { s with expiration := s.expiration.add () t.expirationItem }

def State.removeExpiration (s : State) (t : Task) : State :=
  { s with expiration := s.expiration.remove () t.expirationItem }

def State.addQueued (s : State) (t : Task) : State :=
  { s with queueIndex := s.queueIndex.add t.id.queue t.queueIndexItem }

def State.removeQueued (s : State) (t : Task) : State :=
  { s with queueIndex := s.queueIndex.remove t.id.queue t.queueIndexItem }

def State.addInProgress (s : State) (t : Task) : State :=
  { s with inProgressIndex := s.inProgressIndex.add t.id.queue t.inProgressIndexItem }

def State.removeInProgress (s : State) (t : Task) : State :=
  { s with inProgressIndex := s.inProgressIndex.remove t.id.queue t.inProgressIndexItem }

def State.addDead (s : State) (t : Task) : State :=
  { s with deadTasksIndex := s.deadTasksIndex.add t.id.queue t.deadTasksIndexItem }

def State.removeDead (s : State) (t : Task) : State :=
  { s with deadTasksIndex := s.deadTasksIndex.remove t.id.queue t.deadTasksIndexItem }

def State.updateCounter (s : State) (q : QueueId) (f : TasksCounter → TasksCounter) : State :=
  s.setCounter q (f (s.getCounter q))

/-- Changes of the current-occupancy gauges. -/
def TasksCounter.addEnqueued (c : TasksCounter) (n : Int) : TasksCounter :=
  { c with enqueuedTasksCount := c.enqueuedTasksCount + n }

def TasksCounter.addInProgress (c : TasksCounter) (n : Int) : TasksCounter :=
  { c with inProgressTasksCount := c.inProgressTasksCount + n }

def TasksCounter.addDead (c : TasksCounter) (n : Int) : TasksCounter :=
  { c with deadTasksCount := c.deadTasksCount + n }

/-- The lifetime counter of a deletion. -/
def TasksCounter.countDeletion (c : TasksCounter) : TaskDeletionReason → TasksCounter
  | .none => c
  | .succeeded => { c with processedTasksCount := c.processedTasksCount + 1 }
  | .expired => { c with expiredTasksCount := c.expiredTasksCount + 1 }

def State.deleteRow (s : State) (id : TaskId) : State := { s with tasks := s.tasks.delete id }

/-- A task without a thread is always dequeueable; one with a thread only as its
head. -/
def joinQueue (s : State) (t : Task) : Except CoreError State :=
  if t.threadId = [] then .ok (s.addQueued t) else attachTaskToThread s t

/-- Inserts a newly enqueued task. The row is written before the thread is
looked at, since reconciling may read it back. -/
def createTask (s : State) (t : Task) : Except CoreError State := do
  let s := (s.setTask t).claimDedupeKey t
  let s ← joinQueue s t
  let s := s.addExpiration t
  .ok (s.updateCounter t.id.queue (·.addEnqueued 1))

def getTaskIdByDedupeKey (s : State) (q : QueueId) (dedupeKey : Bytes) : Option TaskId :=
  (s.dedupeKeysIndex.get ⟨q, dedupeKey⟩).map q.task

/-- One overwrite of an enqueued duplicate. A changed time of a threaded task is
persisted first, because the thread's head is reconciled from the stored rows. -/
def overwriteField (scheduledAt : Time) (payload : Bytes) (expiresAt : Time) (a : State × Task)
    (o : OverwriteOnDuplicate) : Except CoreError (State × Task) :=
  match o with
  | .expiresAt =>
    let t := { a.2 with expiresAt := expiresAt }
    .ok ((a.1.removeExpiration a.2).addExpiration t, t)
  | .payload => .ok (a.1, { a.2 with payload := payload })
  | .scheduledAt =>
    let t := { a.2 with scheduledAt := scheduledAt }
    if t.threadId = [] then .ok ((a.1.removeQueued a.2).addQueued t, t)
    else do
      let s ← rescheduleTaskInThread (a.1.setTask t) t a.2.scheduledAt
      .ok (s, t)
  | .invalid => .ok a

/-- Applies the overwrites of an entry to the task its dedupe key points at.
Only a task that has not started can be overwritten. -/
def overwriteDuplicate (s : State) (duplicateId : TaskId)
    (overwriteOnDuplicate : List OverwriteOnDuplicate) (scheduledAt : Time) (payload : Bytes)
    (expiresAt : Time) : Except CoreError (State × Option Task) :=
  if overwriteOnDuplicate = [] then .ok (s, none)
  else do
    let duplicate ← s.getTask duplicateId
    if duplicate.state = .enqueued then
      let a ← overwriteOnDuplicate.foldlM (overwriteField scheduledAt payload expiresAt)
        (s, duplicate)
      .ok (a.1.setTask a.2, some a.2)
    else .ok (s, some duplicate)

def leaveThread (s : State) (t : Task) : Except CoreError State :=
  if t.threadId = [] then .ok s else detachTaskFromThread s t

/-- The index entries and the gauge of the state a task is deleted in. -/
def removeFromState (s : State) (t : Task) (c : TasksCounter) :
    Except CoreError (State × TasksCounter) :=
  match t.state with
  | .enqueued => do
    let s ← leaveThread ((s.removeQueued t).releaseDedupeKey t) t
    .ok (s, c.addEnqueued (-1))
  | .dead => .ok (s.removeDead t, c.addDead (-1))
  | .inProgress => do
    let s ← leaveThread ((s.removeInProgress t).releaseDedupeKey t) t
    .ok (s, c.addInProgress (-1))
  | .invalid => .ok (s, c)

/-- Removes a task and every index entry of its current state. -/
def deleteTask (s : State) (t : Task) (reason : TaskDeletionReason) : Except CoreError State := do
  let a ← removeFromState s t ((s.getCounter t.id.queue).countDeletion reason)
  let s := a.1.removeExpiration t
  .ok ((s.deleteRow t.id).setCounter t.id.queue a.2)

/-- The renewed lease is mirrored on the thread, whose head the task must be. -/
def renewThread (s : State) (t : Task) : Except CoreError State :=
  if t.threadId = [] then .ok s
  else do
    let thread ← s.getThread t.threadKey
    if thread.headTaskId.taskId ≠ t.id.taskId then .error .notHead
    else .ok (s.setThread t.id.queue { thread with visibleAt := t.visibleAt })

def heartbeatTask (s : State) (t : Task) (now keepaliveTimeoutInSeconds : Time) :
    Except CoreError State := do
  let s := s.removeInProgress t
  let t := { t with visibleAt := plusSeconds now keepaliveTimeoutInSeconds }
  let s ← renewThread (s.setTask t) t
  .ok (s.addInProgress t)

/-- Deletes the oldest dead tasks of a queue beyond maxSize. A maxSize that is
not positive means no bound. -/
def evictExcessDeadTasks (s : State) (q : QueueId) (maxSize deadTasksCount : Int) :
    Except CoreError State :=
  if maxSize ≤ 0 ∨ deadTasksCount - maxSize ≤ 0 then .ok s
  else do
    let items := (s.deadTasksIndex.items q).take (deadTasksCount - maxSize).toNat
    let oldest ← items.mapM (fun i => s.getTask (q.task i.taskId))
    oldest.foldlM (fun s t => deleteTask s t .none) s

/-- The row of a task that died at now, kept for the retention period. -/
def Task.die (t : Task) (now : Time) (dlqConfig : DeadLetterQueueConfig) : Task :=
  { t with
    state := .dead
    lastFailedAt := now
    expiresAt := plusSeconds now dlqConfig.retentionPeriodInSeconds }

/-- The part of failTaskToDead before the eviction: the dead task keeps its row,
but neither its dedupe key nor its thread. -/
def moveToDead (s : State) (t : Task) (now : Time) (dlqConfig : DeadLetterQueueConfig) :
    Except CoreError State := do
  let s := s.removeInProgress t
  let t := t.die now dlqConfig
  let s := ((s.setTask t).addExpiration t).releaseDedupeKey t
  let s ← leaveThread s t
  let s := s.addDead t
  .ok (s.updateCounter t.id.queue (fun c => (c.addInProgress (-1)).addDead 1))

/-- Moves a task whose retries are exhausted to the dead letter queue, or
deletes it when the queue has none. -/
def failTaskToDead (s : State) (t : Task) (now : Time)
    (dlqConfig : Option DeadLetterQueueConfig) : Except CoreError State :=
  match dlqConfig with
  | none => deleteTask s t .none
  | some dlqConfig =>
    if dlqConfig.enable = false then deleteTask s t .none
    else do
      let s ← moveToDead s t now dlqConfig
      evictExcessDeadTasks s t.id.queue dlqConfig.maxSize
        (s.getCounter t.id.queue).deadTasksCount

/-- The backoff before the next delivery. Attempts counts deliveries, the failed
one included. -/
def retryInterval (t : Task) : Except CoreError Time :=
  match t.retryStrategy with
  | none => .error .nilDereference
  | some r =>
    if t.attempts < 1 then .error .indexOutOfRange
    else
      match r.retryIntervalsInSeconds[(t.attempts - 1).toNat]? with
      | some i => .ok i
      | none => .error .indexOutOfRange

def Task.retry (t : Task) (now interval : Time) : Task :=
  { t with
    state := .enqueued
    scheduledAt := plusSeconds now interval
    lastFailedAt := now
    visibleAt := 0 }

/-- A retried task competes for the head of its thread again, and the thread's
mirrored lease ends. -/
def rejoinThread (s : State) (t : Task) (oldScheduledAt : Time) : Except CoreError State := do
  let s ← rescheduleTaskInThread s t oldScheduledAt
  let thread ← s.getThread t.threadKey
  .ok (s.setThread t.id.queue { thread with visibleAt := 0 })

def rejoinQueue (s : State) (t : Task) (oldScheduledAt : Time) : Except CoreError State :=
  if t.threadId = [] then .ok (s.addQueued t) else rejoinThread s t oldScheduledAt

def failTaskToRetry (s : State) (t : Task) (now : Time) : Except CoreError State := do
  let interval ← retryInterval t
  let s := s.removeInProgress t
  let t' := t.retry now interval
  let s := (s.setTask t').addExpiration t'
  let s ← rejoinQueue s t' t.scheduledAt
  .ok (s.updateCounter t'.id.queue (fun c => (c.addInProgress (-1)).addEnqueued 1))

/-- The retry budget is spent: no strategy, or more deliveries than intervals. -/
def Task.exhausted (t : Task) : Bool :=
  match t.retryStrategy with
  | none => true
  | some r => t.attempts > r.retryIntervalsInSeconds.length

/-- The outcome of one failed delivery, reported or lapsed. -/
def handleTaskFailure (s : State) (t : Task) (now : Time)
    (dlqConfig : Option DeadLetterQueueConfig) : Except CoreError State :=
  if t.expiresAt < now then deleteTask s t .expired
  else if t.exhausted then failTaskToDead s t now dlqConfig
  else failTaskToRetry s t now

/-- One report: it is applied only to a task in progress under the same attempt. -/
def reportStatus (s : State) (taskId : TaskId) (now : Time) (status : ReportStatus) (attempt : Int)
    (keepaliveTimeoutInSeconds : Time) (dlqConfig : Option DeadLetterQueueConfig) :
    Except CoreError (State × ReportResult) :=
  match s.tasks.get taskId with
  | none => .ok (s, .notFound)
  | some t =>
    if t.state ≠ .inProgress then .ok (s, .notInProgress)
    else if t.attempts ≠ attempt then .ok (s, .staleAttempt)
    else
      match status with
      | .inProgress => do
        let s ← heartbeatTask s t now keepaliveTimeoutInSeconds
        .ok (s, .ok)
      | .failed => do
        let s ← handleTaskFailure s t now dlqConfig
        .ok (s, .ok)
      | .succeeded => do
        let s ← deleteTask s t .succeeded
        .ok (s, .ok)
      | .invalid => .ok (s, .invalid)

/-- A requested time, or now when it is unset or in the past. -/
def notBefore (scheduledAt now : Time) : Time := if scheduledAt < now then now else scheduledAt

/-- The row of a restarted task: a fresh arrival under its old id. -/
def Task.restart (t : Task) (now scheduledAt expiresAt : Time) : Task :=
  { t with
    state := .enqueued
    attempts := 0
    scheduledAt := notBefore scheduledAt now
    expiresAt := expiresAt
    visibleAt := 0
    lastFailedAt := 0 }

def restartTask (s : State) (t : Task) (now scheduledAt expiresAt : Time) :
    Except CoreError (State × Task) := do
  let s := (s.removeDead t).removeExpiration t
  let s := s.updateCounter t.id.queue (·.addDead (-1))
  let t := t.restart now scheduledAt expiresAt
  let s ← createTask s t
  .ok (s, t)

end Moab
