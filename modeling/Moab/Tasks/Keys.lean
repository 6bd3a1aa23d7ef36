import Moab.Framework.BigEndian
import Moab.Tasks.Tables

namespace Moab

open OrderedStore

/-- Both parts of the id are uint64, as every id of the source is. -/
structure QueueId.IsUInt64 (q : QueueId) : Prop where
  accountId : q.accountId < 256 ^ 8
  queueId : q.queueId < 256 ^ 8

instance (q : QueueId) : Decidable q.IsUInt64 :=
  decidable_of_iff (q.accountId < 256 ^ 8 ∧ q.queueId < 256 ^ 8)
    ⟨fun h => ⟨h.1, h.2⟩, fun h => ⟨h.accountId, h.queueId⟩⟩

def tablePrefixTasks : Fin 256 := 0x00
def tablePrefixDedupeKeysIndex : Fin 256 := 0x01
def tablePrefixQueueIndex : Fin 256 := 0x02
def tablePrefixInProgressIndex : Fin 256 := 0x03
def tablePrefixDeadTasksIndex : Fin 256 := 0x04
def tablePrefixExpirationIndex : Fin 256 := 0x05
def tablePrefixThreads : Fin 256 := 0x06
def tablePrefixThreadedTasksIndex : Fin 256 := 0x07
def tablePrefixCounters : Fin 256 := 0x08
def tablePrefixQueueState : Fin 256 := 0x09
def tablePrefixRateLimiters : Fin 256 := 0x0a
def tablePrefixPurgeGCRecords : Fin 256 := 0x0b

/-- utils.ConcatBytes of a uint64, and of an int64 through its rank. -/
def uint64 (n : Nat) : Bytes := bigEndian 8 n

def uint32 (n : Nat) : Bytes := bigEndian 4 n

def QueueId.tablePK (q : QueueId) : Bytes := uint64 q.accountId ++ uint64 q.queueId

def DedupeKey.dedupeKeysIndexPK (k : DedupeKey) : Bytes := k.queue.tablePK ++ k.dedupeKey

/-- The thread id follows its own length, so that none is the beginning of another. -/
def ThreadKey.threadIndexPK (k : ThreadKey) : Bytes :=
  k.queue.tablePK ++ (uint32 k.threadId.length ++ k.threadId)

def IndexItem.bytes (i : IndexItem) : Bytes := uint64 i.time.rank ++ uint64 i.taskId

def ExpirationItem.bytes (i : ExpirationItem) : Bytes :=
  uint64 i.expiresAt.rank ++ (i.taskId.queue.tablePK ++ uint64 i.taskId.taskId)

/-- A place in the store of the tasks core: a row of a table, or one item of an
index under its owner. -/
inductive Address where
  | task (id : TaskId)
  | dedupeKey (k : DedupeKey)
  | queued (q : QueueId) (i : IndexItem)
  | inProgress (q : QueueId) (i : IndexItem)
  | dead (q : QueueId) (i : IndexItem)
  | expiration (i : ExpirationItem)
  | thread (k : ThreadKey)
  | member (k : ThreadKey) (i : IndexItem)
  | counter (q : QueueId)
  | queueState (q : QueueId)
  | rateLimiter (q : QueueId)
  | purgeGCRecord (q : QueueId)
  deriving DecidableEq

namespace Address

/-- What is stored at an address. The items of an index carry no value. -/
def Value : Address → Type
  | .task _ => Task
  | .dedupeKey _ => Nat
  | .thread _ => Thread
  | .counter _ => TasksCounter
  | .queueState _ => QueueState
  | .rateLimiter _ => RateLimiterState
  | .queued _ _ | .inProgress _ _ | .dead _ _ | .expiration _ | .member _ _ | .purgeGCRecord _ =>
    Unit

/-- The queue a row belongs to. -/
def queue : Address → QueueId
  | .task id => id.queue
  | .dedupeKey k => k.queue
  | .queued q _ | .inProgress q _ | .dead q _ => q
  | .expiration i => i.taskId.queue
  | .thread k | .member k _ => k.queue
  | .counter q | .queueState q | .rateLimiter q | .purgeGCRecord q => q

def table : Address → Fin 256
  | .task _ => tablePrefixTasks
  | .dedupeKey _ => tablePrefixDedupeKeysIndex
  | .queued _ _ => tablePrefixQueueIndex
  | .inProgress _ _ => tablePrefixInProgressIndex
  | .dead _ _ => tablePrefixDeadTasksIndex
  | .expiration _ => tablePrefixExpirationIndex
  | .thread _ => tablePrefixThreads
  | .member _ _ => tablePrefixThreadedTasksIndex
  | .counter _ => tablePrefixCounters
  | .queueState _ => tablePrefixQueueState
  | .rateLimiter _ => tablePrefixRateLimiters
  | .purgeGCRecord _ => tablePrefixPurgeGCRecords

/-- The record part of a key. -/
def record : Address → Bytes
  | .task id => id.queue.tablePK ++ uint64 id.taskId
  | .dedupeKey k => k.dedupeKeysIndexPK
  | .queued q i | .inProgress q i | .dead q i => q.tablePK ++ i.bytes
  | .expiration i => i.bytes
  | .thread k => k.threadIndexPK
  | .member k i => k.threadIndexPK ++ i.bytes
  | .counter q | .queueState q | .rateLimiter q | .purgeGCRecord q => q.tablePK

/-- The key under which a row is stored, after the prefix of the replica. -/
def key (a : Address) : Bytes := a.table :: a.record

end Address

/-- The ranges that the calls on one queue list: each is all that is stored under
the beginning of a key. -/
inductive Range where
  | tasks (q : QueueId)
  | queued (q : QueueId)
  | inProgress (q : QueueId)
  | dead (q : QueueId)
  | members (k : ThreadKey)
  deriving DecidableEq

namespace Range

def queue : Range → QueueId
  | .tasks q | .queued q | .inProgress q | .dead q => q
  | .members k => k.queue

def key : Range → Bytes
  | .tasks q => tablePrefixTasks :: q.tablePK
  | .queued q => tablePrefixQueueIndex :: q.tablePK
  | .inProgress q => tablePrefixInProgressIndex :: q.tablePK
  | .dead q => tablePrefixDeadTasksIndex :: q.tablePK
  | .members k => tablePrefixThreadedTasksIndex :: k.threadIndexPK

end Range

/-- The bytes a call on a queue reads or writes at, or lists from. -/
inductive Owned (q : QueueId) : Bytes → Prop where
  | row (a : Address) (h : a.queue = q) : Owned q a.key
  | range (x : Range) (h : x.queue = q) : Owned q x.key

section Shape

variable {q r : QueueId} {table table' : Fin 256} {p key : Bytes}

/-- Only the expiration index has something before the queue id: the time. -/
def leadLength (table : Fin 256) : Nat := if table = tablePrefixExpirationIndex then 8 else 0

/-- Every key has the id of its queue at a place that its table fixes. -/
def Shaped (table : Fin 256) (q : QueueId) (key : Bytes) : Prop :=
  ∃ lead rest, lead.length = leadLength table ∧ key = table :: (lead ++ (q.tablePK ++ rest))

theorem Shaped.direct {rest : Bytes} (h : leadLength table = 0) :
    Shaped table q (table :: (q.tablePK ++ rest)) := ⟨[], rest, h.symm, rfl⟩

theorem Shaped.whole (h : leadLength table = 0) : Shaped table q (table :: q.tablePK) :=
  ⟨[], [], h.symm, by simp⟩

theorem Address.shaped (a : Address) : Shaped a.table a.queue a.key := by
  cases a with
  | expiration i =>
    exact ⟨uint64 i.expiresAt.rank, uint64 i.taskId.taskId, length_bigEndian .., rfl⟩
  | member k i =>
    refine ⟨[], uint32 k.threadId.length ++ k.threadId ++ i.bytes, rfl, ?_⟩
    simp [Address.key, Address.record, Address.table, Address.queue, ThreadKey.threadIndexPK]
  | counter q | queueState q | rateLimiter q | purgeGCRecord q => exact .whole rfl
  | _ => exact .direct rfl

theorem Range.shaped (x : Range) : ∃ table, Shaped table x.queue x.key := by
  cases x with
  | members k => exact ⟨_, .direct rfl⟩
  | _ => exact ⟨_, .whole rfl⟩

theorem tablePK_append_inj {a b : Bytes} (hq : q.IsUInt64) (hr : r.IsUInt64)
    (h : q.tablePK ++ a = r.tablePK ++ b) : q = r := by
  simp only [QueueId.tablePK, List.append_assoc] at h
  obtain ⟨haccount, hrest⟩ := bigEndian_append_inj hq.accountId hr.accountId h
  obtain ⟨hqueue, _⟩ := bigEndian_append_inj hq.queueId hr.queueId hrest
  cases q
  cases r
  simp_all

/-- Whatever begins a key shares its queue with it. -/
theorem Shaped.queue_eq (h : Shaped table q p) (h' : Shaped table' r key) (hq : q.IsUInt64)
    (hr : r.IsUInt64) (hp : p <+: key) : r = q := by
  obtain ⟨lead, rest, hlead, rfl⟩ := h
  obtain ⟨lead', rest', hlead', rfl⟩ := h'
  obtain ⟨more, hmore⟩ := hp
  obtain ⟨rfl, htail⟩ := List.cons.inj hmore
  have hids : lead ++ (q.tablePK ++ (rest ++ more)) = lead' ++ (r.tablePK ++ rest') := by
    simpa using htail
  obtain ⟨_, hids⟩ := List.append_inj hids (hlead.trans hlead'.symm)
  exact (tablePK_append_inj hq hr hids).symm

theorem Owned.queue_eq {a : Address} (h : Owned q p) (hq : q.IsUInt64) (ha : a.queue.IsUInt64)
    (hp : p <+: a.key) : a.queue = q := by
  cases h with
  | row b hb =>
    subst hb
    exact b.shaped.queue_eq a.shaped hq ha hp
  | range x hx =>
    subst hx
    obtain ⟨table, hshaped⟩ := x.shaped
    exact hshaped.queue_eq a.shaped hq ha hp

end Shape

section Values

variable [OrderedStore]

/-- An item of an index is there or not. -/
def presence (c : Prop) [Decidable c] : Option Unit := if c then some () else none

/-- The row at an address. -/
def State.value (s : State) : (a : Address) → Option a.Value
  | .task id => s.tasks.get id
  | .dedupeKey k => s.dedupeKeysIndex.get k
  | .queued q i => presence (i ∈ s.queueIndex.items q)
  | .inProgress q i => presence (i ∈ s.inProgressIndex.items q)
  | .dead q i => presence (i ∈ s.deadTasksIndex.items q)
  | .expiration i => presence (i ∈ s.expiration.items ())
  | .thread k => s.threads.get k
  | .member k i => presence (i ∈ s.threadedTasksIndex.items k)
  | .counter q => s.counters.get q
  | .queueState q => s.queueState.get q
  | .rateLimiter q => s.rateLimiters.get q
  | .purgeGCRecord q => s.purgeGCRecords.get q

section Presence

omit [OrderedStore]

variable {c d : Prop} [Decidable c] [Decidable d]

theorem presence_pos (h : c) : presence c = some () := if_pos h

theorem of_presence {v : Unit} (h : presence c = some v) : c := by
  by_contra hc
  rw [presence, if_neg hc] at h
  exact absurd h (by simp)

theorem presence_neg (h : ¬c) : presence c = none := if_neg h

theorem presence_congr (h : c ↔ d) : presence c = presence d := by simp [presence, h]

theorem presence_inj (h : presence c = presence d) : c ↔ d := by
  unfold presence at h
  by_cases hc : c <;> by_cases hd : d <;> simp_all

end Presence

section Index

variable {π ι : Type} [DecidableEq π] [LinearOrder ι] {x : Index π ι} {p p' : π} {i j : ι}

theorem presence_add [Decidable (j ∈ (x.add p i).items p')] [Decidable (j ∈ x.items p')]
    (h : ¬(p' = p ∧ j = i)) :
    presence (j ∈ (x.add p i).items p') = presence (j ∈ x.items p') :=
  presence_congr (by simp [h])

theorem presence_remove [Decidable (j ∈ (x.remove p i).items p')] [Decidable (j ∈ x.items p')]
    (h : ¬(p' = p ∧ j = i)) :
    presence (j ∈ (x.remove p i).items p') = presence (j ∈ x.items p') :=
  presence_congr (by simp [h])

end Index

/-- A store is determined by the rows at its addresses. -/
theorem State.ext_value {s u : State} (h : ∀ a, s.value a = u.value a) : s = u := by
  have htasks : s.tasks = u.tasks := Table.ext (fun id => h (.task id))
  have hdedupe : s.dedupeKeysIndex = u.dedupeKeysIndex := Table.ext (fun k => h (.dedupeKey k))
  have hqueue : s.queueIndex = u.queueIndex := Index.ext (fun q i => presence_inj (h (.queued q i)))
  have hleased : s.inProgressIndex = u.inProgressIndex :=
    Index.ext (fun q i => presence_inj (h (.inProgress q i)))
  have hdead : s.deadTasksIndex = u.deadTasksIndex :=
    Index.ext (fun q i => presence_inj (h (.dead q i)))
  have hexpiration : s.expiration = u.expiration :=
    Index.ext (fun _ i => presence_inj (h (.expiration i)))
  have hthreads : s.threads = u.threads := Table.ext (fun k => h (.thread k))
  have hmembers : s.threadedTasksIndex = u.threadedTasksIndex :=
    Index.ext (fun k i => presence_inj (h (.member k i)))
  have hcounters : s.counters = u.counters := Table.ext (fun q => h (.counter q))
  have hstate : s.queueState = u.queueState := Table.ext (fun q => h (.queueState q))
  have hlimiters : s.rateLimiters = u.rateLimiters := Table.ext (fun q => h (.rateLimiter q))
  have hpurged : s.purgeGCRecords = u.purgeGCRecords := Table.ext (fun q => h (.purgeGCRecord q))
  cases s
  cases u
  subst htasks hdedupe hqueue hleased hdead hexpiration hthreads hmembers hcounters hstate
  subst hlimiters hpurged
  rfl

/-- One row is written or deleted, and every other one is as it was. -/
structure Wrote (a : Address) (v : Option a.Value) (s s' : State) : Prop where
  here : s'.value a = v
  there : ∀ b, b ≠ a → s'.value b = s.value b

namespace Wrote

variable {s : State} {x : Index QueueId IndexItem} {q : QueueId} {k : ThreadKey} {i : IndexItem}

theorem setTask (t : Task) : Wrote (.task t.id) (some t) s (s.setTask t) where
  here := Table.get_set_self ..
  there b hb := by
    cases b with
    | task id => exact Table.get_set_ne _ _ (fun h => hb (congrArg _ h))
    | _ => rfl

theorem deleteTask (id : TaskId) : Wrote (.task id) none s
    { s with tasks := s.tasks.delete id } where
  here := Table.get_delete_self ..
  there b hb := by
    cases b with
    | task id => exact Table.get_delete_ne _ (fun h => hb (congrArg _ h))
    | _ => rfl

theorem setDedupeKey (k : DedupeKey) (n : Nat) :
    Wrote (.dedupeKey k) (some n) s { s with dedupeKeysIndex := s.dedupeKeysIndex.set k n } where
  here := Table.get_set_self ..
  there b hb := by
    cases b with
    | dedupeKey k => exact Table.get_set_ne _ _ (fun h => hb (congrArg _ h))
    | _ => rfl

theorem deleteDedupeKey (k : DedupeKey) :
    Wrote (.dedupeKey k) none s { s with dedupeKeysIndex := s.dedupeKeysIndex.delete k } where
  here := Table.get_delete_self ..
  there b hb := by
    cases b with
    | dedupeKey k => exact Table.get_delete_ne _ (fun h => hb (congrArg _ h))
    | _ => rfl

theorem addQueued (q : QueueId) (i : IndexItem) :
    Wrote (.queued q i) (some ()) s { s with queueIndex := s.queueIndex.add q i } where
  here := presence_pos (by simp)
  there b hb := by
    cases b with
    | queued p j => exact presence_add (fun h => hb (by rw [h.1, h.2]))
    | _ => rfl

theorem removeQueued (q : QueueId) (i : IndexItem) :
    Wrote (.queued q i) none s { s with queueIndex := s.queueIndex.remove q i } where
  here := presence_neg (by simp)
  there b hb := by
    cases b with
    | queued p j => exact presence_remove (fun h => hb (by rw [h.1, h.2]))
    | _ => rfl

theorem addInProgress (q : QueueId) (i : IndexItem) :
    Wrote (.inProgress q i) (some ()) s
      { s with inProgressIndex := s.inProgressIndex.add q i } where
  here := presence_pos (by simp)
  there b hb := by
    cases b with
    | inProgress p j => exact presence_add (fun h => hb (by rw [h.1, h.2]))
    | _ => rfl

theorem removeInProgress (q : QueueId) (i : IndexItem) :
    Wrote (.inProgress q i) none s { s with inProgressIndex := s.inProgressIndex.remove q i } where
  here := presence_neg (by simp)
  there b hb := by
    cases b with
    | inProgress p j => exact presence_remove (fun h => hb (by rw [h.1, h.2]))
    | _ => rfl

theorem addDead (q : QueueId) (i : IndexItem) :
    Wrote (.dead q i) (some ()) s { s with deadTasksIndex := s.deadTasksIndex.add q i } where
  here := presence_pos (by simp)
  there b hb := by
    cases b with
    | dead p j => exact presence_add (fun h => hb (by rw [h.1, h.2]))
    | _ => rfl

theorem removeDead (q : QueueId) (i : IndexItem) :
    Wrote (.dead q i) none s { s with deadTasksIndex := s.deadTasksIndex.remove q i } where
  here := presence_neg (by simp)
  there b hb := by
    cases b with
    | dead p j => exact presence_remove (fun h => hb (by rw [h.1, h.2]))
    | _ => rfl

theorem addExpiration (i : ExpirationItem) :
    Wrote (.expiration i) (some ()) s { s with expiration := s.expiration.add () i } where
  here := presence_pos (by simp)
  there b hb := by
    cases b with
    | expiration j => exact presence_add (fun h => hb (by rw [h.2]))
    | _ => rfl

theorem removeExpiration (i : ExpirationItem) :
    Wrote (.expiration i) none s { s with expiration := s.expiration.remove () i } where
  here := presence_neg (by simp)
  there b hb := by
    cases b with
    | expiration j => exact presence_remove (fun h => hb (by rw [h.2]))
    | _ => rfl

theorem setThread (q : QueueId) (thread : Thread) :
    Wrote (.thread ⟨q, thread.threadId⟩) (some thread) s (s.setThread q thread) where
  here := Table.get_set_self ..
  there b hb := by
    cases b with
    | thread k => exact Table.get_set_ne _ _ (fun h => hb (congrArg _ h))
    | _ => rfl

theorem deleteThread (k : ThreadKey) :
    Wrote (.thread k) none s { s with threads := s.threads.delete k } where
  here := Table.get_delete_self ..
  there b hb := by
    cases b with
    | thread k => exact Table.get_delete_ne _ (fun h => hb (congrArg _ h))
    | _ => rfl

theorem addMember (k : ThreadKey) (i : IndexItem) :
    Wrote (.member k i) (some ()) s
      { s with threadedTasksIndex := s.threadedTasksIndex.add k i } where
  here := presence_pos (by simp)
  there b hb := by
    cases b with
    | member p j => exact presence_add (fun h => hb (by rw [h.1, h.2]))
    | _ => rfl

theorem removeMember (k : ThreadKey) (i : IndexItem) :
    Wrote (.member k i) none s
      { s with threadedTasksIndex := s.threadedTasksIndex.remove k i } where
  here := presence_neg (by simp)
  there b hb := by
    cases b with
    | member p j => exact presence_remove (fun h => hb (by rw [h.1, h.2]))
    | _ => rfl

theorem setCounter (q : QueueId) (c : TasksCounter) :
    Wrote (.counter q) (some c) s (s.setCounter q c) where
  here := Table.get_set_self ..
  there b hb := by
    cases b with
    | counter p => exact Table.get_set_ne _ _ (fun h => hb (congrArg _ h))
    | _ => rfl

theorem setQueueState (q : QueueId) (st : QueueState) :
    Wrote (.queueState q) (some st) s (s.setQueueState q st) where
  here := Table.get_set_self ..
  there b hb := by
    cases b with
    | queueState p => exact Table.get_set_ne _ _ (fun h => hb (congrArg _ h))
    | _ => rfl

theorem setRateLimiter (q : QueueId) (st : RateLimiterState) :
    Wrote (.rateLimiter q) (some st) s { s with rateLimiters := s.rateLimiters.set q st } where
  here := Table.get_set_self ..
  there b hb := by
    cases b with
    | rateLimiter p => exact Table.get_set_ne _ _ (fun h => hb (congrArg _ h))
    | _ => rfl

theorem setPurgeGCRecord (q : QueueId) :
    Wrote (.purgeGCRecord q) (some ()) s
      { s with purgeGCRecords := s.purgeGCRecords.set q () } where
  here := Table.get_set_self ..
  there b hb := by
    cases b with
    | purgeGCRecord p => exact Table.get_set_ne _ _ (fun h => hb (congrArg _ h))
    | _ => rfl

end Wrote

end Values

end Moab
