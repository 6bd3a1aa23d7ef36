import Mathlib.Data.Prod.Lex
import Mathlib.Data.List.Lex
import Mathlib.Order.Fin.Basic
import Moab.Framework.Machine

namespace Moab

/-- Go byte strings: payloads, thread ids, dedupe keys and names. -/
abbrev Bytes := List (Fin 256)

instance neZero_byte : @NeZero Nat Zero.ofOfNat0 256 := ⟨by decide⟩

/-- A nanosecond timestamp or a duration, with the wrap-around of int64. -/
abbrev Time := Int64

/-- int64(time.Second) and its multiples. -/
def second : Time := 1000000000
def minute : Time := 60 * second
def hour : Time := 60 * minute

/-- A time some seconds after now, wrapping around as int64 does. It is computed
on integers, so that unfolding it never meets 64-bit addition. -/
def plusSeconds (now seconds : Time) : Time := Int64.ofInt (now.toInt + seconds.toInt * 1000000000)

/-- In 64-bit arithmetic, as the source writes it. -/
theorem plusSeconds_eq (now seconds : Time) : plusSeconds now seconds = now + seconds * second := by
  unfold plusSeconds
  rw [Int64.ofInt_add, Int64.ofInt_mul, Int64.ofInt_toInt, Int64.ofInt_toInt]
  rfl

theorem toInt_plusSeconds {t seconds : Time} (h : Fits (t.toInt + seconds.toInt * 1000000000)) :
    (plusSeconds t seconds).toInt = t.toInt + seconds.toInt * 1000000000 := by
  unfold plusSeconds
  rw [Int64.toInt_ofInt]
  exact h.bmod

/-- Identifiers are uint64 in the source. They are only compared, and the task
id sequence only counts up, so they are natural numbers here. -/
structure QueueId where
  accountId : Nat
  queueId : Nat
  deriving DecidableEq

structure TaskId where
  accountId : Nat
  queueId : Nat
  taskId : Nat
  deriving DecidableEq

/-- The (account id, queue id) part of a task id, under which every per-queue
row and index is stored. -/
def TaskId.queue (id : TaskId) : QueueId := ⟨id.accountId, id.queueId⟩

def QueueId.task (q : QueueId) (n : Nat) : TaskId := ⟨q.accountId, q.queueId, n⟩

@[simp] theorem QueueId.task_queue (q : QueueId) (n : Nat) : (q.task n).queue = q := rfl

@[simp] theorem QueueId.task_taskId (q : QueueId) (n : Nat) : (q.task n).taskId = n := rfl

@[simp] theorem TaskId.queue_task (id : TaskId) : id.queue.task id.taskId = id := rfl

theorem TaskId.eq_of_queue {a b : TaskId} (hq : a.queue = b.queue) (hn : a.taskId = b.taskId) :
    a = b := by
  rw [← queue_task a, hq, hn, queue_task]

theorem QueueId.task_inj {q r : QueueId} {m n : Nat} (h : q.task m = r.task n) : q = r ∧ m = n := by
  have hq := congrArg TaskId.queue h
  have hn := congrArg TaskId.taskId h
  exact ⟨hq, hn⟩

/-- A request field that is not positive selects the default. -/
def orDefault (n : Int) (default : Nat) : Nat := if n ≤ 0 then default else n.toNat

theorem orDefault_pos (n : Int) {d : Nat} (hd : 0 < d) : 0 < orDefault n d := by
  unfold orDefault
  split_ifs <;> omega

inductive TaskState where
  | invalid
  | enqueued
  | inProgress
  | dead
  deriving DecidableEq

structure RetryStrategy where
  retryIntervalsInSeconds : List Time
  deriving DecidableEq

structure Task where
  id : TaskId
  payload : Bytes
  createdAt : Time
  scheduledAt : Time
  expiresAt : Time
  dedupeKey : Bytes
  state : TaskState
  attempts : Int
  visibleAt : Time
  lastFailedAt : Time
  retryStrategy : Option RetryStrategy
  threadId : Bytes
  deriving DecidableEq

/-- A task holds its dedupe key and its place in a thread while it is live. -/
def Task.live (t : Task) : Bool := t.state = .enqueued ∨ t.state = .inProgress

structure Thread where
  threadId : Bytes
  headTaskId : TaskId
  scheduledAt : Time
  visibleAt : Time
  deriving DecidableEq

structure TasksCounter where
  enqueuedTasksCount : Int
  inProgressTasksCount : Int
  deadTasksCount : Int
  processedTasksCount : Int
  expiredTasksCount : Int
  deriving DecidableEq

/-- The sequence is a uint64 in the source: it starts over after 2^64 tasks of one queue id,
which this model leaves out. -/
structure QueueState where
  taskIdSequence : Nat
  lastVisitedEnqueued : Time
  lastVisitedInProgress : Time
  deriving DecidableEq

structure RateLimiterState where
  tokens : Time
  lastRefilledAt : Time
  deriving DecidableEq

structure DeadLetterQueueConfig where
  enable : Bool
  maxSize : Int
  retentionPeriodInSeconds : Time
  deriving DecidableEq

inductive IntervalUnit where
  | invalid
  | seconds
  | minutes
  | hours
  deriving DecidableEq

structure TokenBucketRateLimiting where
  maxTokens : Time
  interval : Time
  intervalUnit : IntervalUnit
  deriving DecidableEq

structure DequeuingSettings where
  maxInProgressTasks : Int
  rateLimiting : Option TokenBucketRateLimiting
  dequeuingPaused : Bool
  deriving DecidableEq

/-- The key of a thread record and of its member index. -/
structure ThreadKey where
  queue : QueueId
  threadId : Bytes
  deriving DecidableEq

structure DedupeKey where
  queue : QueueId
  dedupeKey : Bytes
  deriving DecidableEq

/-- The rank of a timestamp in an index: its eight big-endian bytes read as a
number. It agrees with the order of timestamps on non-negative ones only. -/
def Time.rank (t : Time) : Nat := t.toUInt64.toNat

theorem Time.rank_injective : Function.Injective Time.rank := by
  intro a b h
  have hu : a.toUInt64 = b.toUInt64 := UInt64.toNat_inj.mp h
  exact Int64.toBitVec_inj.mp (congrArg UInt64.toBitVec hu)

/-- A time from the epoch on is its own rank. -/
theorem Time.rank_of_nonneg {t : Time} (h : 0 ≤ t) : (t.rank : Int) = t.toInt := by
  have h0 : (0 : Int) ≤ t.toInt := Int64.le_iff_toInt_le.mp h
  have hb : t.toBitVec.toInt = t.toInt := rfl
  have hn : t.rank = t.toBitVec.toNat := rfl
  rw [hn, ← hb]
  rw [← hb] at h0
  rw [BitVec.toInt_eq_toNat_cond] at h0 ⊢
  split_ifs at h0 ⊢ with hlt
  · rfl
  · have := t.toBitVec.isLt
    omega

theorem Time.rank_le {a b : Time} (ha : 0 ≤ a) (hab : a ≤ b) : a.rank ≤ b.rank := by
  have hra := Time.rank_of_nonneg ha
  have hrb := Time.rank_of_nonneg (Int64.le_trans ha hab)
  have hle := Int64.le_iff_toInt_le.mp hab
  omega

/-- From the epoch on, the ranks of two times compare as the times do. -/
theorem Time.rank_lt_rank {a b : Time} (ha : 0 ≤ a) (hb : 0 ≤ b) : a.rank < b.rank ↔ a < b := by
  have hra := Time.rank_of_nonneg ha
  have hrb := Time.rank_of_nonneg hb
  rw [Int64.lt_iff_toInt_lt]
  omega

/-- The times before the epoch sort last. -/
theorem Time.nonneg_of_rank {a b : Time} (hb : 0 ≤ b) (hab : a.rank ≤ b.rank) : 0 ≤ a := by
  have hrb := Time.rank_of_nonneg hb
  have hlt : b.toInt < 2 ^ 63 := b.toInt_lt
  have hn : a.rank = a.toBitVec.toNat := rfl
  have ha : a.toInt = a.toBitVec.toInt := rfl
  rw [Int64.le_iff_toInt_le, ha, BitVec.toInt_eq_toNat_cond, if_pos (by omega)]
  exact Int.natCast_nonneg _

theorem Time.le_of_rank {a b : Time} (hb : 0 ≤ b) (hab : a.rank ≤ b.rank) : a ≤ b := by
  have hra := Time.rank_of_nonneg (Time.nonneg_of_rank hb hab)
  have hrb := Time.rank_of_nonneg hb
  exact Int64.le_iff_toInt_le.mpr (by omega)

/-- An item of the queue, in-progress, dead and threaded tasks indexes. -/
structure IndexItem where
  time : Time
  taskId : Nat
  deriving DecidableEq

structure ExpirationItem where
  expiresAt : Time
  taskId : TaskId
  deriving DecidableEq

def QueueId.rank (q : QueueId) : Nat ×ₗ Nat := toLex (q.accountId, q.queueId)

def TaskId.rank (id : TaskId) : Nat ×ₗ (Nat ×ₗ Nat) :=
  toLex (id.accountId, toLex (id.queueId, id.taskId))

def ThreadKey.rank (k : ThreadKey) : (Nat ×ₗ Nat) ×ₗ (Nat ×ₗ Bytes) :=
  toLex (k.queue.rank, toLex (k.threadId.length, k.threadId))

def DedupeKey.rank (k : DedupeKey) : (Nat ×ₗ Nat) ×ₗ Bytes := toLex (k.queue.rank, k.dedupeKey)

def IndexItem.rank (i : IndexItem) : Nat ×ₗ Nat := toLex (i.time.rank, i.taskId)

def ExpirationItem.rank (i : ExpirationItem) : Nat ×ₗ (Nat ×ₗ (Nat ×ₗ Nat)) :=
  toLex (i.expiresAt.rank, i.taskId.rank)

theorem QueueId.rank_injective : Function.Injective QueueId.rank := by
  intro a b h
  have ha : a.accountId = b.accountId := congrArg (fun x => (ofLex x).1) h
  have hq : a.queueId = b.queueId := congrArg (fun x => (ofLex x).2) h
  cases a; cases b
  subst ha hq
  rfl

theorem TaskId.rank_injective : Function.Injective TaskId.rank := by
  intro a b h
  have ha : a.accountId = b.accountId := congrArg (fun x => (ofLex x).1) h
  have hq : a.queueId = b.queueId := congrArg (fun x => (ofLex (ofLex x).2).1) h
  have ht : a.taskId = b.taskId := congrArg (fun x => (ofLex (ofLex x).2).2) h
  cases a; cases b
  subst ha hq ht
  rfl

theorem ThreadKey.rank_injective : Function.Injective ThreadKey.rank := by
  intro a b h
  have hq : a.queue = b.queue := QueueId.rank_injective (congrArg (fun x => (ofLex x).1) h)
  have ht : a.threadId = b.threadId := congrArg (fun x => (ofLex (ofLex x).2).2) h
  cases a; cases b
  subst hq ht
  rfl

theorem DedupeKey.rank_injective : Function.Injective DedupeKey.rank := by
  intro a b h
  have hq : a.queue = b.queue := QueueId.rank_injective (congrArg (fun x => (ofLex x).1) h)
  have hd : a.dedupeKey = b.dedupeKey := congrArg (fun x => (ofLex x).2) h
  cases a; cases b
  subst hq hd
  rfl

theorem IndexItem.rank_injective : Function.Injective IndexItem.rank := by
  intro a b h
  have ht : a.time = b.time := Time.rank_injective (congrArg (fun x => (ofLex x).1) h)
  have hi : a.taskId = b.taskId := congrArg (fun x => (ofLex x).2) h
  cases a; cases b
  subst ht hi
  rfl

theorem ExpirationItem.rank_injective : Function.Injective ExpirationItem.rank := by
  intro a b h
  have he : a.expiresAt = b.expiresAt := Time.rank_injective (congrArg (fun x => (ofLex x).1) h)
  have hi : a.taskId = b.taskId := TaskId.rank_injective (congrArg (fun x => (ofLex x).2) h)
  cases a; cases b
  subst he hi
  rfl

instance : LinearOrder QueueId := LinearOrder.lift' QueueId.rank QueueId.rank_injective
instance : LinearOrder TaskId := LinearOrder.lift' TaskId.rank TaskId.rank_injective
instance : LinearOrder ThreadKey := LinearOrder.lift' ThreadKey.rank ThreadKey.rank_injective
instance : LinearOrder DedupeKey := LinearOrder.lift' DedupeKey.rank DedupeKey.rank_injective
instance : LinearOrder IndexItem := LinearOrder.lift' IndexItem.rank IndexItem.rank_injective
instance : LinearOrder ExpirationItem :=
  LinearOrder.lift' ExpirationItem.rank ExpirationItem.rank_injective

/-- From the epoch on, an index compares times as numbers. -/
theorem IndexItem.lt_iff {i j : IndexItem} (hi : 0 ≤ i.time) (hj : 0 ≤ j.time) :
    i < j ↔ i.time < j.time ∨ i.time = j.time ∧ i.taskId < j.taskId := by
  have hlex : i < j ↔ i.time.rank < j.time.rank ∨ i.time.rank = j.time.rank ∧ i.taskId < j.taskId :=
    Prod.Lex.lt_iff
  rw [hlex, Time.rank_lt_rank hi hj, Time.rank_injective.eq_iff]

end Moab
