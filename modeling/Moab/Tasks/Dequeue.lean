import Moab.Tasks.Lifecycle

namespace Moab

open OrderedStore

variable [OrderedStore]

/-- Bounds how many index entries one Dequeue visits in each of its passes. -/
def maxVisitedTasksForDequeuing : Nat := 100

structure DequeueRequest where
  queueId : QueueId
  dequeuingSettings : Option DequeuingSettings
  dequeueLimit : Time
  deadLetterQueueConfig : Option DeadLetterQueueConfig
  keepaliveTimeoutInSeconds : Time
  deriving DecidableEq

/-- Integer division of Go, which panics on a zero divisor. -/
def divide (a b : Time) : Except CoreError Time :=
  if b = 0 then .error .divideByZero else .ok (a / b)

def getRefillInterval (r : TokenBucketRateLimiting) : Except CoreError Time :=
  match r.intervalUnit with
  | .seconds => divide (r.interval * second) r.maxTokens
  | .minutes => divide (r.interval * minute) r.maxTokens
  | .hours => divide (r.interval * hour) r.maxTokens
  | .invalid => .error (.unknownIntervalUnit r.intervalUnit)

def rateLimitingOf (settings : Option DequeuingSettings) : Option TokenBucketRateLimiting :=
  (settings.bind (·.rateLimiting)).filter (fun r => r.interval > 0 ∧ r.maxTokens > 0)

/-- rateLimitersTable.GetOrDefault: a queue that never dequeued has a full bucket. -/
def State.getRateLimiter (s : State) (q : QueueId) (r : TokenBucketRateLimiting) (now : Time) :
    RateLimiterState :=
  (s.rateLimiters.get q).getD ⟨r.maxTokens, now⟩

def refillTokens (st : RateLimiterState) (r : TokenBucketRateLimiting) (now : Time) :
    Except CoreError RateLimiterState := do
  let refillInterval ← getRefillInterval r
  if st.tokens < r.maxTokens then
    let newTokens ← divide (now - st.lastRefilledAt) refillInterval
    if newTokens > 0 then
      if st.tokens + newTokens > r.maxTokens then .ok ⟨r.maxTokens, now⟩
      else .ok ⟨st.tokens + newTokens, st.lastRefilledAt + newTokens * refillInterval⟩
    else .ok st
  else .ok { st with lastRefilledAt := now }

/-- The refilled bucket of a rate-limited call. -/
def rateLimiterFor (s : State) (req : DequeueRequest) (now : Time) :
    Except CoreError (Option RateLimiterState) :=
  match rateLimitingOf req.dequeuingSettings with
  | none => .ok none
  | some r => do
    let st ← refillTokens (s.getRateLimiter req.queueId r now) r now
    .ok (some st)

def effectiveLimit (limiter : Option RateLimiterState) (dequeueLimit : Time) : Time :=
  match limiter with
  | none => dequeueLimit
  | some st => if st.tokens < dequeueLimit then st.tokens else dequeueLimit

/-- The leases that lapsed since the last call, as far as one call visits them. -/
def timedOutItems (s : State) (q : QueueId) (now : Time) : List IndexItem :=
  (listInRange s.inProgressIndex q (s.getQueueState q).lastVisitedInProgress now).take
    maxVisitedTasksForDequeuing

/-- Routes the leases that lapsed through the failure handler. They are
collected before any of them is handled, since handling changes the index. -/
def dequeueInProgressTasksBeforeTime (s : State) (q : QueueId) (now : Time)
    (dlqConfig : Option DeadLetterQueueConfig) : Except CoreError State := do
  let st := s.getQueueState q
  let items := timedOutItems s q now
  let timedOutTasks ← items.mapM (fun i => s.getTask (q.task i.taskId))
  let cursor := (items.getLast?.map IndexItem.time).getD now
  let s := s.setQueueState q { st with lastVisitedInProgress := cursor }
  timedOutTasks.foldlM (fun s t => handleTaskFailure s t now dlqConfig) s

/-- What the scan of the queue index has collected so far. -/
structure Scan where
  dequeuedTasks : List Task
  expiredTasks : List Task
  lastVisitedEnqueued : Time
  counters : TasksCounter
  visitedTasks : Nat

def atMaxInProgress (c : TasksCounter) (settings : Option DequeuingSettings) : Bool :=
  settings.any (fun d => d.maxInProgressTasks > 0 ∧ c.inProgressTasksCount ≥ d.maxInProgressTasks)

/-- A cap is already used up, so the next item is left where it is. -/
def Scan.saturated (a : Scan) (limit : Time) (settings : Option DequeuingSettings) : Bool :=
  limit.toInt ≤ a.dequeuedTasks.length ∨ a.visitedTasks ≥ maxVisitedTasksForDequeuing ∨
    atMaxInProgress a.counters settings

def Scan.visit (a : Scan) (i : IndexItem) (t : Task) (now : Time) : Scan :=
  if t.expiresAt < now then
    { a with
      expiredTasks := a.expiredTasks ++ [t]
      lastVisitedEnqueued := i.time
      counters := a.counters.addEnqueued (-1)
      visitedTasks := a.visitedTasks + 1 }
  else
    { a with
      dequeuedTasks := a.dequeuedTasks ++ [t]
      lastVisitedEnqueued := i.time
      counters := (a.counters.addInProgress 1).addEnqueued (-1)
      visitedTasks := a.visitedTasks + 1 }

def scanQueue (s : State) (q : QueueId) (now limit : Time) (settings : Option DequeuingSettings) :
    Scan → List IndexItem → Except CoreError Scan
  | a, [] => .ok a
  | a, i :: is =>
    if a.saturated limit settings then .ok a
    else do
      let t ← s.getTask (q.task i.taskId)
      scanQueue s q now limit settings (a.visit i t now) is

/-- Removes a task the scan found expired. The thread of the task is not told. -/
def dropExpired (q : QueueId) (s : State) (t : Task) : State :=
  { s with
    queueIndex := s.queueIndex.remove q t.queueIndexItem
    expiration := s.expiration.remove () t.expirationItem
    tasks := s.tasks.delete t.id
    dedupeKeysIndex :=
      if t.dedupeKey = [] then s.dedupeKeysIndex else s.dedupeKeysIndex.delete ⟨q, t.dedupeKey⟩ }

def Task.lease (t : Task) (now keepaliveTimeoutInSeconds : Time) : Task :=
  { t with
    visibleAt := plusSeconds now keepaliveTimeoutInSeconds
    attempts := t.attempts + 1
    state := .inProgress }

/-- Hands a task out: its delivery deadline makes way for a lease. -/
def leaseTask (q : QueueId) (now keepaliveTimeoutInSeconds : Time) (s : State) (t : Task) : State :=
  let t' := t.lease now keepaliveTimeoutInSeconds
  { s with
    queueIndex := s.queueIndex.remove q t.queueIndexItem
    expiration := s.expiration.remove () t.expirationItem
    tasks := s.tasks.set t'.id t'
    inProgressIndex := s.inProgressIndex.add q t'.inProgressIndexItem }

/-- Writes back what the scan decided. -/
def applyScan (s : State) (q : QueueId) (now keepaliveTimeoutInSeconds cursor : Time) (a : Scan) :
    State :=
  let s := s.setQueueState q { s.getQueueState q with lastVisitedEnqueued := cursor }
  let c := a.counters
  let s := s.setCounter q
    { c with expiredTasksCount := c.expiredTasksCount + a.expiredTasks.length }
  let s := a.expiredTasks.foldl (dropExpired q) s
  a.dequeuedTasks.foldl (leaseTask q now keepaliveTimeoutInSeconds) s

/-- Pulls due tasks from the front of the queue. The cursor moves to now only
when the scan found nothing in range. -/
def dequeueTasksBeforeTime (s : State) (q : QueueId) (now limit : Time)
    (settings : Option DequeuingSettings) (keepaliveTimeoutInSeconds : Time) :
    Except CoreError (State × List Task) := do
  let st := s.getQueueState q
  let items := listInRange s.queueIndex q st.lastVisitedEnqueued now
  let a ← scanQueue s q now limit settings
    ⟨[], [], st.lastVisitedEnqueued, s.getCounter q, 0⟩ items
  let cursor := if items = [] then now else a.lastVisitedEnqueued
  .ok (applyScan s q now keepaliveTimeoutInSeconds cursor a,
    a.dequeuedTasks.map (·.lease now keepaliveTimeoutInSeconds))

/-- Takes the tokens of the tasks handed out. -/
def chargeLimiter (s : State) (q : QueueId) (limiter : Option RateLimiterState) (n : Nat) : State :=
  match limiter with
  | none => s
  | some st =>
    { s with rateLimiters := s.rateLimiters.set q { st with tokens := st.tokens - Int64.ofNat n } }

/-- Dequeue past the purge check: the limiter is refilled, lapsed leases are
failed, and then due tasks are handed out. -/
def dequeueTasks (s : State) (now : Time) (req : DequeueRequest) :
    Except CoreError (State × List Task) := do
  let limiter ← rateLimiterFor s req now
  let s ← dequeueInProgressTasksBeforeTime s req.queueId now req.deadLetterQueueConfig
  let a ← dequeueTasksBeforeTime s req.queueId now (effectiveLimit limiter req.dequeueLimit)
    req.dequeuingSettings req.keepaliveTimeoutInSeconds
  .ok (chargeLimiter a.1 req.queueId limiter a.2.length, a.2)

end Moab
