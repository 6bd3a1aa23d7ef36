import Moab.Framework.Secondary
import Moab.Framework.Trace
import Moab.Tasks.Core

namespace Moab

open OrderedStore

variable [OrderedStore]

/-- The part of the state that is kept row by row: everything except the queue
index and the threads, which decide only who may be handed out next. -/
structure Rows where
  tasks : Table TaskId Task
  dedupeKeysIndex : Table DedupeKey Nat
  inProgressIndex : Index QueueId IndexItem
  deadTasksIndex : Index QueueId IndexItem
  expiration : Index Unit ExpirationItem
  counters : Table QueueId TasksCounter
  queueState : Table QueueId QueueState
  rateLimiters : Table QueueId RateLimiterState
  purgeGCRecords : Table QueueId Unit

def State.rows (s : State) : Rows where
  tasks := s.tasks
  dedupeKeysIndex := s.dedupeKeysIndex
  inProgressIndex := s.inProgressIndex
  deadTasksIndex := s.deadTasksIndex
  expiration := s.expiration
  counters := s.counters
  queueState := s.queueState
  rateLimiters := s.rateLimiters
  purgeGCRecords := s.purgeGCRecords

namespace Rows

def counter (r : Rows) (q : QueueId) : TasksCounter := (r.counters.get q).getD .zero

def claimed (x : Table DedupeKey Nat) (t : Task) : Table DedupeKey Nat :=
  if t.dedupeKey = [] then x else x.set t.dedupe t.id.taskId

def released (x : Table DedupeKey Nat) (t : Task) : Table DedupeKey Nat :=
  if t.dedupeKey = [] then x else x.delete t.dedupe

def create (r : Rows) (t : Task) : Rows :=
  { r with
    tasks := r.tasks.set t.id t
    dedupeKeysIndex := claimed r.dedupeKeysIndex t
    expiration := r.expiration.add () t.expirationItem
    counters := r.counters.set t.id.queue ((r.counter t.id.queue).addEnqueued 1) }

def overwrite (r : Rows) (t t' : Task) : Rows :=
  { r with
    tasks := r.tasks.set t.id t'
    expiration := (r.expiration.remove () t.expirationItem).add () t'.expirationItem }

/-- The gauge of the state a task leaves. -/
def leave (c : TasksCounter) : TaskState → TasksCounter
  | .enqueued => c.addEnqueued (-1)
  | .inProgress => c.addInProgress (-1)
  | .dead => c.addDead (-1)
  | .invalid => c

def delete (r : Rows) (t : Task) (reason : TaskDeletionReason) : Rows :=
  { r with
    tasks := r.tasks.delete t.id
    dedupeKeysIndex := if t.live then released r.dedupeKeysIndex t else r.dedupeKeysIndex
    inProgressIndex := if t.state = .inProgress
      then r.inProgressIndex.remove t.id.queue t.inProgressIndexItem else r.inProgressIndex
    deadTasksIndex := if t.state = .dead
      then r.deadTasksIndex.remove t.id.queue t.deadTasksIndexItem else r.deadTasksIndex
    expiration := r.expiration.remove () t.expirationItem
    counters := r.counters.set t.id.queue
      (leave ((r.counter t.id.queue).countDeletion reason) t.state) }

def renew (r : Rows) (t t' : Task) : Rows :=
  { r with
    tasks := r.tasks.set t.id t'
    inProgressIndex := (r.inProgressIndex.remove t.id.queue t.inProgressIndexItem).add t.id.queue
      t'.inProgressIndexItem }

def retry (r : Rows) (t t' : Task) : Rows :=
  { r with
    tasks := r.tasks.set t.id t'
    inProgressIndex := r.inProgressIndex.remove t.id.queue t.inProgressIndexItem
    expiration := r.expiration.add () t'.expirationItem
    counters := r.counters.set t.id.queue
      (((r.counter t.id.queue).addInProgress (-1)).addEnqueued 1) }

def die (r : Rows) (t t' : Task) : Rows :=
  { r with
    tasks := r.tasks.set t.id t'
    dedupeKeysIndex := released r.dedupeKeysIndex t
    inProgressIndex := r.inProgressIndex.remove t.id.queue t.inProgressIndexItem
    deadTasksIndex := r.deadTasksIndex.add t.id.queue t'.deadTasksIndexItem
    expiration := r.expiration.add () t'.expirationItem
    counters := r.counters.set t.id.queue (((r.counter t.id.queue).addInProgress (-1)).addDead 1) }

def restart (r : Rows) (t t' : Task) : Rows :=
  { r with
    tasks := r.tasks.set t.id t'
    dedupeKeysIndex := claimed r.dedupeKeysIndex t
    deadTasksIndex := r.deadTasksIndex.remove t.id.queue t.deadTasksIndexItem
    expiration := (r.expiration.remove () t.expirationItem).add () t'.expirationItem
    counters := r.counters.set t.id.queue (((r.counter t.id.queue).addDead (-1)).addEnqueued 1) }

def expire (r : Rows) (t : Task) : Rows :=
  { r with
    tasks := r.tasks.delete t.id
    dedupeKeysIndex := released r.dedupeKeysIndex t
    expiration := r.expiration.remove () t.expirationItem }

def lease (r : Rows) (t t' : Task) : Rows :=
  { r with
    tasks := r.tasks.set t.id t'
    inProgressIndex := r.inProgressIndex.add t.id.queue t'.inProgressIndexItem
    expiration := r.expiration.remove () t.expirationItem }

/-- A scan is accounted for in one write, before its rows are touched. -/
def chargeScan (c : TasksCounter) (expired leased : Nat) : TasksCounter :=
  { c with
    enqueuedTasksCount := c.enqueuedTasksCount - (expired + leased)
    inProgressTasksCount := c.inProgressTasksCount + leased
    expiredTasksCount := c.expiredTasksCount + expired }

def charge (r : Rows) (q : QueueId) (expired leased : Nat) : Rows :=
  { r with counters := r.counters.set q (chargeScan (r.counter q) expired leased) }

def drop (r : Rows) (q : QueueId) : Rows :=
  { r with
    purgeGCRecords := r.purgeGCRecords.delete q
    counters := r.counters.delete q
    queueState := r.queueState.delete q
    rateLimiters := r.rateLimiters.delete q }

end Rows

def Task.overwrite (t : Task) (payload : Bytes) (scheduledAt expiresAt : Time) : Task :=
  { t with payload := payload, scheduledAt := scheduledAt, expiresAt := expiresAt }

/-- What happened to one row, with the row before and after. -/
inductive Event where
  | created (t : Task)
  | overwritten (t t' : Task)
  | deleted (t : Task) (reason : TaskDeletionReason)
  | renewed (t t' : Task)
  | retried (t t' : Task)
  | died (t t' : Task)
  | restarted (t t' : Task)
  | charged (q : QueueId) (expired leased : Nat)
  | expired (t : Task)
  | leased (t t' : Task)
  | dropped (q : QueueId)
  | sequenced (q : QueueId) (n : Nat)
  | purged (q : QueueId)
  | tuned

/-- A task that may make a call fail is threaded, or leased without having been
counted. Neither exists when th is False. -/
def Task.Calm (th : Prop) (t : Task) : Prop :=
  (t.threadId ≠ [] → th) ∧ (t.attempts < (if t.state = .inProgress then 1 else 0) → th)

def sequenceOf (queueState : Table QueueId QueueState) (q : QueueId) : Nat :=
  ((queueState.get q).getD .zero).taskIdSequence

/-- The row changes a call is made of. Each constructor states what the code
knows about the row when it makes the change. -/
inductive Step (th : Prop) : Rows → Event → Rows → Prop where
  | create {r : Rows} {t : Task} (fresh : r.tasks.get t.id = none) (state : t.state = .enqueued)
    (free : t.dedupeKey ≠ [] → r.dedupeKeysIndex.get t.dedupe = none) (calm : t.Calm th) :
    Step th r (.created t) (r.create t)
  | overwrite {r : Rows} {t : Task} {payload : Bytes} {scheduledAt expiresAt : Time}
    (row : r.tasks.get t.id = some t) (state : t.state = .enqueued) :
    Step th r (.overwritten t (t.overwrite payload scheduledAt expiresAt))
      (r.overwrite t (t.overwrite payload scheduledAt expiresAt))
  | delete {r : Rows} {t : Task} {reason : TaskDeletionReason} (row : r.tasks.get t.id = some t) :
    Step th r (.deleted t reason) (r.delete t reason)
  | renew {r : Rows} {t : Task} {visibleAt : Time} (row : r.tasks.get t.id = some t)
    (state : t.state = .inProgress) :
    Step th r (.renewed t { t with visibleAt := visibleAt })
      (r.renew t { t with visibleAt := visibleAt })
  | retry {r : Rows} {t : Task} {now interval : Time} (row : r.tasks.get t.id = some t)
    (state : t.state = .inProgress) :
    Step th r (.retried t (t.retry now interval)) (r.retry t (t.retry now interval))
  | die {r : Rows} {t : Task} {now : Time} {dlq : DeadLetterQueueConfig}
    (row : r.tasks.get t.id = some t) (state : t.state = .inProgress) :
    Step th r (.died t (t.die now dlq)) (r.die t (t.die now dlq))
  | restart {r : Rows} {t : Task} {now scheduledAt expiresAt : Time}
    (row : r.tasks.get t.id = some t) (state : t.state = .dead)
    (free : t.dedupeKey ≠ [] → r.dedupeKeysIndex.get t.dedupe = none) :
    Step th r (.restarted t (t.restart now scheduledAt expiresAt))
      (r.restart t (t.restart now scheduledAt expiresAt))
  | charge {r : Rows} {q : QueueId} {expired leased : Nat} :
    Step th r (.charged q expired leased) (r.charge q expired leased)
  | expire {r : Rows} {t : Task} (row : r.tasks.get t.id = some t) (state : t.state = .enqueued) :
    Step th r (.expired t) (r.expire t)
  | lease {r : Rows} {t : Task} {now keepalive : Time} (row : r.tasks.get t.id = some t)
    (state : t.state = .enqueued) :
    Step th r (.leased t (t.lease now keepalive)) (r.lease t (t.lease now keepalive))
  | drop {r : Rows} {q : QueueId} (empty : ∀ id t, r.tasks.get id = some t → id.queue ≠ q) :
    Step th r (.dropped q) (r.drop q)
  | sequence {r : Rows} {q : QueueId} (st : QueueState) :
    Step th r (.sequenced q st.taskIdSequence) { r with queueState := r.queueState.set q st }
  | purge {r : Rows} {q : QueueId} :
    Step th r (.purged q) { r with purgeGCRecords := r.purgeGCRecords.set q () }
  | tune {r : Rows} (queueState : Table QueueId QueueState)
    (rateLimiters : Table QueueId RateLimiterState)
    (same : ∀ q, sequenceOf queueState q = sequenceOf r.queueState q) :
    Step th r .tuned { r with queueState := queueState, rateLimiters := rateLimiters }

inductive EventKind where
  | created
  | overwritten
  | deleted
  | renewed
  | retried
  | died
  | restarted
  | charged
  | expired
  | leased
  | dropped
  | sequenced
  | purged
  | tuned
  deriving DecidableEq

def Event.kind : Event → EventKind
  | .created _ => .created
  | .overwritten _ _ => .overwritten
  | .deleted _ _ => .deleted
  | .renewed _ _ => .renewed
  | .retried _ _ => .retried
  | .died _ _ => .died
  | .restarted _ _ => .restarted
  | .charged _ _ _ => .charged
  | .expired _ => .expired
  | .leased _ _ => .leased
  | .dropped _ => .dropped
  | .sequenced _ _ => .sequenced
  | .purged _ => .purged
  | .tuned => .tuned

/-- The row an event is about. -/
def Event.task : Event → Option TaskId
  | .created t => some t.id
  | .overwritten t _ => some t.id
  | .deleted t _ => some t.id
  | .renewed t _ => some t.id
  | .retried t _ => some t.id
  | .died t _ => some t.id
  | .restarted t _ => some t.id
  | .charged _ _ _ => none
  | .expired t => some t.id
  | .leased t _ => some t.id
  | .dropped _ => none
  | .sequenced _ _ => none
  | .purged _ => none
  | .tuned => none

/-- A step changes no other row. -/
theorem Step.frame {th : Prop} {r r' : Rows} {e : Event} {id : TaskId} (hs : Step th r e r')
    (h : e.task ≠ some id) : r'.tasks.get id = r.tasks.get id := by
  cases hs with
  | charge | drop | sequence | purge | tune => rfl
  | delete | expire => exact Table.get_delete_ne _ (fun he => h (by simp [Event.task, he]))
  | _ => exact Table.get_set_ne _ _ (fun he => h (by simp [Event.task, he]))

/-- The fields that a task keeps for life. -/
structure Task.Kin (t u : Task) : Prop where
  threadId : t.threadId = u.threadId
  retryStrategy : t.retryStrategy = u.retryStrategy

omit [OrderedStore] in
theorem Task.Kin.refl (t : Task) : t.Kin t := ⟨rfl, rfl⟩

omit [OrderedStore] in
theorem Task.Kin.trans {t u v : Task} (h : t.Kin u) (k : u.Kin v) : t.Kin v :=
  ⟨h.threadId.trans k.threadId, h.retryStrategy.trans k.retryStrategy⟩

/-- Only a creation adds a row, and a row never changes its thread or its retries. -/
theorem Step.origin {th : Prop} {r r' : Rows} {e : Event} {id : TaskId} {u : Task}
    (hs : Step th r e r') (hc : e.kind ≠ .created) (hu : r'.tasks.get id = some u) :
    ∃ v, r.tasks.get id = some v ∧ v.Kin u := by
  have hset : ∀ {t t' : Task}, (r.tasks.set t.id t').get id = some u → r.tasks.get t.id = some t →
      t.Kin t' → ∃ v, r.tasks.get id = some v ∧ v.Kin u := by
    intro t t' hg ht hkin
    rw [Table.get_set] at hg
    split_ifs at hg with hid
    · exact ⟨t, hid ▸ ht, Option.some.inj hg ▸ hkin⟩
    · exact ⟨u, hg, .refl u⟩
  have hdel : ∀ {t : Task}, (r.tasks.delete t.id).get id = some u →
      ∃ v, r.tasks.get id = some v ∧ v.Kin u := by
    intro t hg
    rw [Table.get_delete] at hg
    split_ifs at hg
    exact ⟨u, hg, .refl u⟩
  cases hs with
  | create => simp [Event.kind] at hc
  | overwrite row => exact hset hu row ⟨rfl, rfl⟩
  | delete => exact hdel hu
  | renew row | retry row | die row | restart row => exact hset hu row ⟨rfl, rfl⟩
  | expire => exact hdel hu
  | lease row => exact hset hu row ⟨rfl, rfl⟩
  | _ => exact ⟨u, hu, .refl u⟩

abbrev Steps (th : Prop) : Rows → List Event → Rows → Prop := Trace (Step th)

theorem Steps.frame {th : Prop} {r r' : Rows} {es : List Event} {id : TaskId}
    (hs : Steps th r es r') (h : ∀ e ∈ es, e.task ≠ some id) :
    r'.tasks.get id = r.tasks.get id :=
  Trace.invariant_of (I := fun u => u.tasks.get id = r.tasks.get id) hs
    (fun e he _ _ hi hl => (hl.frame (h e he)).trans hi) rfl

theorem Steps.origin {th : Prop} {r r' : Rows} {es : List Event} {id : TaskId} {u : Task}
    (hs : Steps th r es r') (hc : ∀ e ∈ es, e.kind ≠ .created) (hu : r'.tasks.get id = some u) :
    ∃ v, r.tasks.get id = some v ∧ v.Kin u := by
  induction hs with
  | nil => exact ⟨u, hu, .refl u⟩
  | cons hs _ ih =>
    obtain ⟨v, hv, hvu⟩ := ih (fun e he => hc e (List.mem_cons_of_mem _ he)) hu
    obtain ⟨w, hw, hwv⟩ := hs.origin (hc _ List.mem_cons_self) hv
    exact ⟨w, hw, hwv.trans hvu⟩

end Moab
