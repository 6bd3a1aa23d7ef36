import Moab.Framework.OrderedStore
import Moab.Queues.Types

namespace Moab.Queues

open OrderedStore

variable [OrderedStore]

/-- What a call on the queues core can fail with. Every failed call discards its
transaction. -/
inductive CoreError where
  | notFound
  | unknownTimezone
  | noNextTick
  deriving DecidableEq

structure QueuesCounter where
  numberOfQueues : Int
  deriving DecidableEq

/-- Every table and index of the queues core. -/
structure State where
  queues : Table QueueId Queue
  queueNames : Table QueueName Nat
  schedules : Table ScheduleId Schedule
  scheduleNames : Table ScheduleName Nat
  scheduledIndex : Index Unit ScheduledItem
  counters : Table Nat QueuesCounter
  gcRecords : Table QueueId Unit

namespace State

def empty : State where
  queues := Table.empty
  queueNames := Table.empty
  schedules := Table.empty
  scheduleNames := Table.empty
  scheduledIndex := Index.empty
  counters := Table.empty
  gcRecords := Table.empty

variable (s : State)

/-- queuesTable.GetByName: a name that resolves to no row is not found either. -/
def queueByName (accountId : Nat) (name : Bytes) : Option Queue :=
  (s.queueNames.get ⟨accountId, name⟩).bind (fun n => s.queues.get ⟨accountId, n⟩)

def createQueue (queue : Queue) : State :=
  { s with
    queueNames := s.queueNames.set ⟨queue.id.accountId, queue.name⟩ queue.id.queueId
    queues := s.queues.set queue.id queue }

def updateQueue (queue : Queue) : State := { s with queues := s.queues.set queue.id queue }

/-- queuesTable.SwapId: the name now resolves to the new row. -/
def swapId (oldQueueId : QueueId) (newQueue : Queue) : State :=
  { s with
    queueNames := s.queueNames.set ⟨newQueue.id.accountId, newQueue.name⟩ newQueue.id.queueId
    queues := (s.queues.set newQueue.id newQueue).delete oldQueueId }

def deleteQueue (queue : Queue) : State :=
  { s with
    queues := s.queues.delete queue.id
    queueNames := s.queueNames.delete ⟨queue.id.accountId, queue.name⟩ }

/-- countersTable.Get: an account without a row has no queues. -/
def getCounter (accountId : Nat) : QueuesCounter := (s.counters.get accountId).getD ⟨0⟩

def addQueues (accountId : Nat) (n : Int) : State :=
  { s with counters := s.counters.set accountId ⟨(s.getCounter accountId).numberOfQueues + n⟩ }

/-- schedulesTable.GetByName. -/
def scheduleByName (q : QueueId) (name : Bytes) : Option Schedule :=
  (s.scheduleNames.get ⟨q, name⟩).bind (fun n => s.schedules.get (q.schedule n))

/-- The schedule that a queue name and a schedule name resolve to. -/
def scheduleNamed (accountId : Nat) (queueName scheduleName : Bytes) : Option Schedule :=
  (s.queueByName accountId queueName).bind (fun queue => s.scheduleByName queue.id scheduleName)

def getSchedule (id : ScheduleId) : Except CoreError Schedule :=
  match s.schedules.get id with
  | some x => .ok x
  | none => .error .notFound

def getQueue (q : QueueId) : Except CoreError Queue :=
  match s.queues.get q with
  | some x => .ok x
  | none => .error .notFound

def createSchedule (x : Schedule) : State :=
  { s with
    scheduledIndex := s.scheduledIndex.add () x.scheduledItem
    scheduleNames := s.scheduleNames.set ⟨x.id.queue, x.name⟩ x.id.scheduleId
    schedules := s.schedules.set x.id x }

/-- schedulesTable.Update: the index entry moves only if the time changed. -/
def updateSchedule (x : Schedule) : Except CoreError State := do
  let existing ← s.getSchedule x.id
  let scheduledIndex :=
    if x.nextScheduledAt ≠ existing.nextScheduledAt then
      (s.scheduledIndex.remove () ⟨existing.nextScheduledAt, x.id⟩).add () x.scheduledItem
    else s.scheduledIndex
  .ok { s with scheduledIndex := scheduledIndex, schedules := s.schedules.set x.id x }

def deleteSchedule (x : Schedule) : State :=
  { s with
    scheduledIndex := s.scheduledIndex.remove () x.scheduledItem
    scheduleNames := s.scheduleNames.delete ⟨x.id.queue, x.name⟩
    schedules := s.schedules.delete x.id }

/-- schedulesTable.List: a page of the schedules of a queue after the one the
token names, and the token of the next page. -/
def listSchedules (q : QueueId) (token : Option ScheduleId) (limit : Nat) :
    List Schedule × Option ScheduleId :=
  let page := s.schedules.page (fun id => id.queue = q) token limit
  (page.1.map Prod.snd, page.2)

/-- schedulesTable.ListDue: up to limit schedules from zero to before, in the
order of the index. An entry without a row stops the scan. -/
def listDue (before : Time) (limit : Nat) : Except CoreError (List Schedule) :=
  (((s.scheduledIndex.items ()).filter
    (fun i => (0 : Time).rank ≤ i.time.rank ∧ i.time.rank ≤ before.rank)).take limit).mapM
      (fun i => s.getSchedule i.id)

end State

end Moab.Queues
