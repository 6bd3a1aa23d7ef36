import Moab.Framework.OrderedStore
import Moab.Tasks.Types

namespace Moab

open OrderedStore

variable [OrderedStore]

/-- What a call on the tasks core can fail with. Every failed call discards its
transaction. The wrapped lookups carry the thread id and task id they report. -/
inductive CoreError where
  | notFound
  | notHead
  | getEarliest (threadId : Bytes) (taskId : Nat)
  | getCurrentHead (threadId : Bytes) (headTaskId : Nat)
  | getNextHead (threadId : Bytes) (taskId : Nat)
  | unknownIntervalUnit (unit : IntervalUnit)
  | divideByZero
  | indexOutOfRange
  | nilDereference
  deriving DecidableEq

/-- Every table and index of the tasks core. -/
structure State where
  tasks : Table TaskId Task
  dedupeKeysIndex : Table DedupeKey Nat
  queueIndex : Index QueueId IndexItem
  inProgressIndex : Index QueueId IndexItem
  deadTasksIndex : Index QueueId IndexItem
  expiration : Index Unit ExpirationItem
  threads : Table ThreadKey Thread
  threadedTasksIndex : Index ThreadKey IndexItem
  counters : Table QueueId TasksCounter
  queueState : Table QueueId QueueState
  rateLimiters : Table QueueId RateLimiterState
  purgeGCRecords : Table QueueId Unit

namespace State

def empty : State where
  tasks := Table.empty
  dedupeKeysIndex := Table.empty
  queueIndex := Index.empty
  inProgressIndex := Index.empty
  deadTasksIndex := Index.empty
  expiration := Index.empty
  threads := Table.empty
  threadedTasksIndex := Index.empty
  counters := Table.empty
  queueState := Table.empty
  rateLimiters := Table.empty
  purgeGCRecords := Table.empty

end State

def TasksCounter.zero : TasksCounter := ⟨0, 0, 0, 0, 0⟩

def QueueState.zero : QueueState := ⟨0, 0, 0⟩

/-- countersTable.Get: a queue without a row has zero counters. -/
def State.getCounter (s : State) (q : QueueId) : TasksCounter := (s.counters.get q).getD .zero

/-- queueStateTable.Get: a queue without a row has a zero state. -/
def State.getQueueState (s : State) (q : QueueId) : QueueState := (s.queueState.get q).getD .zero

def State.getTask (s : State) (id : TaskId) : Except CoreError Task :=
  match s.tasks.get id with
  | some t => .ok t
  | none => .error .notFound

def State.getThread (s : State) (k : ThreadKey) : Except CoreError Thread :=
  match s.threads.get k with
  | some t => .ok t
  | none => .error .notFound

def State.setTask (s : State) (t : Task) : State := { s with tasks := s.tasks.set t.id t }

def State.setCounter (s : State) (q : QueueId) (c : TasksCounter) : State :=
  { s with counters := s.counters.set q c }

def State.setQueueState (s : State) (q : QueueId) (st : QueueState) : State :=
  { s with queueState := s.queueState.set q st }

/-- threadsTable.set: the key comes from the record's own thread id. -/
def State.setThread (s : State) (q : QueueId) (thread : Thread) : State :=
  { s with threads := s.threads.set ⟨q, thread.threadId⟩ thread }

def Task.threadKey (t : Task) : ThreadKey := ⟨t.id.queue, t.threadId⟩

def Task.dedupe (t : Task) : DedupeKey := ⟨t.id.queue, t.dedupeKey⟩

def Task.queueIndexItem (t : Task) : IndexItem := ⟨t.scheduledAt, t.id.taskId⟩

def Task.inProgressIndexItem (t : Task) : IndexItem := ⟨t.visibleAt, t.id.taskId⟩

def Task.deadTasksIndexItem (t : Task) : IndexItem := ⟨t.lastFailedAt, t.id.taskId⟩

def Task.expirationItem (t : Task) : ExpirationItem := ⟨t.expiresAt, t.id⟩

/-- OneToManySortedIndex.ListInRange: the items whose time prefix lies in the
closed range, in index order. -/
def listInRange (x : Index QueueId IndexItem) (q : QueueId) (lower upper : Time) : List IndexItem :=
  (x.items q).filter (fun i => lower.rank ≤ i.time.rank ∧ i.time.rank ≤ upper.rank)

/-- expirationIndex.ListDue: up to limit items from zero to before. -/
def listDue (s : State) (before : Time) (limit : Nat) : List ExpirationItem :=
  ((s.expiration.items ()).filter
    (fun i => (0 : Time).rank ≤ i.expiresAt.rank ∧ i.expiresAt.rank ≤ before.rank)).take limit

/-- tasksTable.List of the first page over all states, and whether more follow. -/
def listTasks (s : State) (q : QueueId) (limit : Nat) : List Task × Bool :=
  let page := s.tasks.page (fun id => id.queue = q) none limit
  (page.1.map Prod.snd, page.2.isSome)

theorem State.getTask_eq_ok {s : State} {id : TaskId} {t : Task} :
    s.getTask id = .ok t ↔ s.tasks.get id = some t := by
  unfold State.getTask
  cases s.tasks.get id <;> simp

theorem State.getThread_eq_ok {s : State} {k : ThreadKey} {thread : Thread} :
    s.getThread k = .ok thread ↔ s.threads.get k = some thread := by
  unfold State.getThread
  cases s.threads.get k <;> simp

theorem mem_listInRange {x : Index QueueId IndexItem} {q : QueueId} {lower upper : Time}
    {i : IndexItem} : i ∈ listInRange x q lower upper ↔
      i ∈ x.items q ∧ lower.rank ≤ i.time.rank ∧ i.time.rank ≤ upper.rank := by
  simp [listInRange]

end Moab
