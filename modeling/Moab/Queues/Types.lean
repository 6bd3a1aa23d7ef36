import Mathlib.Order.Bounds.Basic
import Moab.Tasks.Types

namespace Moab

namespace Time

theorem le_total (a b : Time) : a ≤ b ∨ b ≤ a := by
  rw [Int64.le_iff_toInt_le, Int64.le_iff_toInt_le]
  omega

theorem lt_iff_le_not_le (a b : Time) : a < b ↔ a ≤ b ∧ ¬b ≤ a := by
  rw [Int64.lt_iff_toInt_lt, Int64.le_iff_toInt_le, Int64.le_iff_toInt_le]
  omega

/-- Timestamps in the order in which the program compares them. -/
scoped instance linearOrder : LinearOrder Time where
  le := (· ≤ ·)
  lt := (· < ·)
  le_refl a := Int64.le_refl a
  le_trans a b c := Int64.le_trans
  le_antisymm a b := Int64.le_antisymm
  le_total := le_total
  lt_iff_le_not_ge := lt_iff_le_not_le
  toDecidableLE := inferInstance

end Time

open scoped Time

structure ScheduleId where
  accountId : Nat
  queueId : Nat
  scheduleId : Nat
  deriving DecidableEq

/-- The queue a schedule belongs to. -/
def ScheduleId.queue (id : ScheduleId) : QueueId := ⟨id.accountId, id.queueId⟩

def QueueId.schedule (q : QueueId) (n : Nat) : ScheduleId := ⟨q.accountId, q.queueId, n⟩

@[simp] theorem QueueId.schedule_queue (q : QueueId) (n : Nat) : (q.schedule n).queue = q := rfl

@[simp] theorem QueueId.schedule_scheduleId (q : QueueId) (n : Nat) :
    (q.schedule n).scheduleId = n := rfl

@[simp] theorem ScheduleId.queue_schedule (id : ScheduleId) :
    id.queue.schedule id.scheduleId = id :=
  rfl

structure Queue where
  id : QueueId
  name : Bytes
  description : Bytes
  createdAt : Time
  updatedAt : Time
  version : Int
  keepaliveTimeoutInSeconds : Time
  retryStrategy : Option RetryStrategy
  dequeuingSettings : Option DequeuingSettings
  deadLetterQueueConfig : Option DeadLetterQueueConfig
  expiresInSeconds : Time
  schedulesCount : Int
  deriving DecidableEq

structure Schedule where
  id : ScheduleId
  name : Bytes
  description : Bytes
  createdAt : Time
  updatedAt : Time
  version : Int
  cron : Bytes
  payload : Bytes
  dedupeKey : Bytes
  expiresInSeconds : Time
  retryStrategy : Option RetryStrategy
  timezone : Bytes
  lastCheckedAt : Time
  nextScheduledAt : Time
  lastEnqueuedFor : Time
  deriving DecidableEq

/-- The cron library and the timezone database: which expressions parse, which
zones load, and the first tick of an expression strictly after a time. -/
class Gronx where
  Location : Type
  loadLocation : Bytes → Option Location
  isValid : Bytes → Bool
  isTick : Bytes → Location → Time → Prop
  nextTickAfter : Bytes → Location → Time → Option Time
  isLeast_nextTickAfter {cron : Bytes} {tz : Location} {t u : Time} :
    nextTickAfter cron tz t = some u → IsLeast {x | isTick cron tz x ∧ t < x} u

/-- The key of a queue in the names index. -/
structure QueueName where
  accountId : Nat
  name : Bytes
  deriving DecidableEq

/-- The key of a schedule in the names index. -/
structure ScheduleName where
  queue : QueueId
  name : Bytes
  deriving DecidableEq

/-- An item of the scheduled index. -/
structure ScheduledItem where
  time : Time
  id : ScheduleId
  deriving DecidableEq

def Schedule.scheduledItem (x : Schedule) : ScheduledItem := ⟨x.nextScheduledAt, x.id⟩

def ScheduleId.rank (id : ScheduleId) : Nat ×ₗ (Nat ×ₗ Nat) :=
  toLex (id.accountId, toLex (id.queueId, id.scheduleId))

def QueueName.rank (k : QueueName) : Nat ×ₗ Bytes := toLex (k.accountId, k.name)

def ScheduleName.rank (k : ScheduleName) : (Nat ×ₗ Nat) ×ₗ Bytes := toLex (k.queue.rank, k.name)

def ScheduledItem.rank (i : ScheduledItem) : Nat ×ₗ (Nat ×ₗ (Nat ×ₗ Nat)) :=
  toLex (i.time.rank, i.id.rank)

theorem ScheduleId.rank_injective : Function.Injective ScheduleId.rank := by
  intro a b h
  have ha : a.accountId = b.accountId := congrArg (fun x => (ofLex x).1) h
  have hq : a.queueId = b.queueId := congrArg (fun x => (ofLex (ofLex x).2).1) h
  have hs : a.scheduleId = b.scheduleId := congrArg (fun x => (ofLex (ofLex x).2).2) h
  cases a; cases b
  subst ha hq hs
  rfl

theorem QueueName.rank_injective : Function.Injective QueueName.rank := by
  intro a b h
  have ha : a.accountId = b.accountId := congrArg (fun x => (ofLex x).1) h
  have hn : a.name = b.name := congrArg (fun x => (ofLex x).2) h
  cases a; cases b
  subst ha hn
  rfl

theorem ScheduleName.rank_injective : Function.Injective ScheduleName.rank := by
  intro a b h
  have hq : a.queue = b.queue := QueueId.rank_injective (congrArg (fun x => (ofLex x).1) h)
  have hn : a.name = b.name := congrArg (fun x => (ofLex x).2) h
  cases a; cases b
  subst hq hn
  rfl

theorem ScheduledItem.rank_injective : Function.Injective ScheduledItem.rank := by
  intro a b h
  have ht : a.time = b.time := Time.rank_injective (congrArg (fun x => (ofLex x).1) h)
  have hi : a.id = b.id := ScheduleId.rank_injective (congrArg (fun x => (ofLex x).2) h)
  cases a; cases b
  subst ht hi
  rfl

instance : LinearOrder ScheduleId := LinearOrder.lift' ScheduleId.rank ScheduleId.rank_injective

instance : LinearOrder QueueName := LinearOrder.lift' QueueName.rank QueueName.rank_injective
instance : LinearOrder ScheduleName :=
  LinearOrder.lift' ScheduleName.rank ScheduleName.rank_injective
instance : LinearOrder ScheduledItem :=
  LinearOrder.lift' ScheduledItem.rank ScheduledItem.rank_injective

end Moab
