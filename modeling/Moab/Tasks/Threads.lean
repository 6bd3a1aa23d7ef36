import Moab.Tasks.Tables

namespace Moab

open OrderedStore

variable [OrderedStore]

/-- threadsTable.ListIndex stopped at its first item, resolved to the task row.
The index is sorted, so this is the earliest member. -/
def firstMember (s : State) (q : QueueId) (thread : Thread)
    (err : Bytes → Nat → CoreError) : Except CoreError (Option Task) :=
  match s.threadedTasksIndex.items ⟨q, thread.threadId⟩ with
  | [] => .ok none
  | i :: _ =>
    match s.tasks.get (q.task i.taskId) with
    | some t => .ok (some t)
    | none => .error (err thread.threadId i.taskId)

def getCurrentHead (s : State) (thread : Thread) : Except CoreError Task :=
  match s.tasks.get thread.headTaskId with
  | some t => .ok t
  | none => .error (.getCurrentHead thread.threadId thread.headTaskId.taskId)

/-- The head is still the earliest member, but under another time. -/
def rescheduleHead (s : State) (q : QueueId) (thread : Thread) (currentHead earliest : Task) :
    State :=
  let s := if currentHead.state = .enqueued then
      let ready := s.queueIndex.remove q ⟨thread.scheduledAt, currentHead.id.taskId⟩
      { s with queueIndex := ready.add q ⟨earliest.scheduledAt, currentHead.id.taskId⟩ }
    else s
  s.setThread q { thread with scheduledAt := earliest.scheduledAt }

/-- Another member takes over from an enqueued head. -/
def replaceHead (s : State) (q : QueueId) (thread : Thread) (currentHead earliest : Task) : State :=
  let s := { s with queueIndex := s.queueIndex.remove q currentHead.queueIndexItem }
  let s := s.setThread q
    { thread with headTaskId := earliest.id, scheduledAt := earliest.scheduledAt }
  { s with queueIndex := s.queueIndex.add q earliest.queueIndexItem }

/-- Re-derives a thread's head after a member arrived or was rescheduled. A head
that is in progress is never preempted. -/
def reconcileThreadHead (s : State) (q : QueueId) (thread : Thread) : Except CoreError State := do
  let earliest ← firstMember s q thread .getEarliest
  let currentHead ← getCurrentHead s thread
  match earliest with
  | none => .error .nilDereference
  | some earliest =>
    if earliest.id.taskId = currentHead.id.taskId then
      if thread.scheduledAt = earliest.scheduledAt then .ok s
      else .ok (rescheduleHead s q thread currentHead earliest)
    else if currentHead.state ≠ .enqueued then .ok s
    else .ok (replaceHead s q thread currentHead earliest)

/-- The earliest remaining member becomes the head of a thread whose head left;
without one the thread record goes. -/
def promoteNextThreadHead (s : State) (q : QueueId) (thread : Thread) : Except CoreError State := do
  let nextHead ← firstMember s q thread .getNextHead
  match nextHead with
  | none => .ok { s with threads := s.threads.delete ⟨q, thread.threadId⟩ }
  | some nextHead =>
    let s := s.setThread q
      { thread with visibleAt := 0, headTaskId := nextHead.id, scheduledAt := nextHead.scheduledAt }
    .ok { s with queueIndex := s.queueIndex.add q nextHead.queueIndexItem }

/-- Adds a newly created task to its thread, as the head of a new thread or as
one more member of an existing one. -/
def attachTaskToThread (s : State) (t : Task) : Except CoreError State :=
  let s := { s with threadedTasksIndex := s.threadedTasksIndex.add t.threadKey t.queueIndexItem }
  match s.threads.get t.threadKey with
  | none =>
    let s := s.setThread t.id.queue ⟨t.threadId, t.id, t.scheduledAt, 0⟩
    .ok { s with queueIndex := s.queueIndex.add t.id.queue t.queueIndexItem }
  | some thread => reconcileThreadHead s t.id.queue thread

/-- Removes a task that leaves its thread for good. -/
def detachTaskFromThread (s : State) (t : Task) : Except CoreError State := do
  let s := { s with threadedTasksIndex := s.threadedTasksIndex.remove t.threadKey t.queueIndexItem }
  let thread ← s.getThread t.threadKey
  if thread.headTaskId.taskId ≠ t.id.taskId then .ok s
  else promoteNextThreadHead s t.id.queue thread

/-- Moves a member whose row already holds its new time. -/
def rescheduleTaskInThread (s : State) (t : Task) (oldScheduledAt : Time) :
    Except CoreError State := do
  let members := s.threadedTasksIndex.remove t.threadKey ⟨oldScheduledAt, t.id.taskId⟩
  let s := { s with threadedTasksIndex := members.add t.threadKey t.queueIndexItem }
  let thread ← s.getThread t.threadKey
  reconcileThreadHead s t.id.queue thread

end Moab
