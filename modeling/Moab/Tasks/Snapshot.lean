import Moab.Tasks.Core

namespace Moab

open OrderedStore

variable [OrderedStore]

/-- The primary entities of a core, section by section in the order they are
streamed. No index is part of a snapshot. -/
structure Snapshot where
  threads : List Thread
  tasks : List Task
  counters : List (QueueId × TasksCounter)
  queueState : List (QueueId × QueueState)
  rateLimiters : List (QueueId × RateLimiterState)
  purgeGCRecords : List QueueId

def snapshot (s : State) : Snapshot where
  threads := s.threads.entries.map Prod.snd
  tasks := s.tasks.entries.map Prod.snd
  counters := s.counters.entries
  queueState := s.queueState.entries
  rateLimiters := s.rateLimiters.entries
  purgeGCRecords := s.purgeGCRecords.entries.map Prod.fst

/-- threadsTable.RestoreEntity. An entity the shard does not own is skipped. -/
def restoreThread (owns : QueueId → Bool) (s : State) (thread : Thread) : State :=
  if owns thread.headTaskId.queue then s.setThread thread.headTaskId.queue thread else s

/-- Persists a task and rebuilds the index entries the tasks table owns. -/
def restoreIndexes (s : State) (t : Task) (isHead : Bool) : State :=
  let s := s.setTask t
  let s := if t.dedupeKey ≠ [] ∧ t.state ≠ .dead then
      { s with dedupeKeysIndex := s.dedupeKeysIndex.set t.dedupe t.id.taskId }
    else s
  let s := match t.state with
    | .enqueued => if isHead then s.addQueued t else s
    | .inProgress => s.addInProgress t
    | .dead => s.addDead t
    | .invalid => s
  s.addExpiration t

/-- taskRestorer.RestoreEntity: whether a threaded task is a head is read off the
thread records, which are restored before. -/
def restoreTask (owns : QueueId → Bool) (s : State) (t : Task) : Except CoreError State :=
  if owns t.id.queue = false then .ok s
  else if t.threadId = [] then .ok (restoreIndexes s t true)
  else do
    let s := { s with threadedTasksIndex := s.threadedTasksIndex.add t.threadKey t.queueIndexItem }
    let thread ← s.getThread t.threadKey
    .ok (restoreIndexes s t (thread.headTaskId.taskId = t.id.taskId))

/-- RestoreEntity of the tables whose rows are keyed by queue. -/
def restoreRow {α : Type} (set : State → QueueId → α → State) (owns : QueueId → Bool) (s : State)
    (e : QueueId × α) : State :=
  if owns e.1 then set s e.1 e.2 else s

def restoreCounter : (QueueId → Bool) → State → QueueId × TasksCounter → State :=
  restoreRow State.setCounter

def restoreQueueState : (QueueId → Bool) → State → QueueId × QueueState → State :=
  restoreRow State.setQueueState

def restoreRateLimiter : (QueueId → Bool) → State → QueueId × RateLimiterState → State :=
  restoreRow (fun s q limiter => { s with rateLimiters := s.rateLimiters.set q limiter })

def restorePurgeGCRecord (owns : QueueId → Bool) (s : State) (q : QueueId) : State :=
  if owns q then purgeQueue s q else s

/-- Feeds the entities of one stream to their tables. -/
def restoreStream (owns : QueueId → Bool) (s : State) (stream : Snapshot) :
    Except CoreError State := do
  let s := stream.threads.foldl (restoreThread owns) s
  let s ← stream.tasks.foldlM (restoreTask owns) s
  let s := stream.counters.foldl (restoreCounter owns) s
  let s := stream.queueState.foldl (restoreQueueState owns) s
  let s := stream.rateLimiters.foldl (restoreRateLimiter owns) s
  .ok (stream.purgeGCRecords.foldl (restorePurgeGCRecord owns) s)

/-- Every table is cleared first, so what was there before does not matter. -/
def restore (owns : QueueId → Bool) (readers : List Snapshot) : Except CoreError State :=
  readers.foldlM (restoreStream owns) State.empty

end Moab
