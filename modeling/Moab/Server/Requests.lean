import Moab.Framework.BigEndian
import Moab.Queues.Core
import Moab.Tasks.Core

namespace Moab

-- The messages of the public API. Those that the front end and the core share in shape
-- (retry strategies, dequeuing settings, dead letter queue configs, and the enumerations,
-- whose unknown values are all INVALID) have one type, on which the conversions are the
-- identity.
namespace Moabpb

structure CreateQueueRequest extends Queues.QueueSettings where
  name : Bytes
  deriving DecidableEq

structure GetQueueRequest where
  queueName : Bytes
  deriving DecidableEq

structure UpdateQueueRequest extends Queues.QueueSettings where
  queueName : Bytes
  expectedVersion : Int
  deriving DecidableEq

structure DeleteQueueRequest where
  queueName : Bytes
  deriving DecidableEq

structure ListQueuesRequest where
  paginationToken : Bytes
  limit : Int
  deriving DecidableEq

structure EnqueueRequestEntry where
  payload : Bytes
  scheduledAt : Time
  expiresAt : Time
  dedupeKey : Bytes
  threadId : Bytes
  retryStrategy : Option RetryStrategy
  overwriteOnDuplicate : List OverwriteOnDuplicate
  deriving DecidableEq

structure EnqueueRequest where
  queueName : Bytes
  entries : List EnqueueRequestEntry
  deriving DecidableEq

structure DequeueRequest where
  queueName : Bytes
  batchSize : Time
  keepaliveTimeoutInSeconds : Time
  deriving DecidableEq

structure ReportStatusRequestEntry where
  taskId : Bytes
  attempt : Int
  status : ReportStatus
  keepaliveTimeoutInSeconds : Time
  deriving DecidableEq

structure ReportStatusRequest where
  queueName : Bytes
  entries : List ReportStatusRequestEntry
  deriving DecidableEq

structure DeleteTasksRequest where
  queueName : Bytes
  taskIds : List Bytes
  deriving DecidableEq

structure RestartTasksRequestEntry where
  taskId : Bytes
  scheduledAt : Time
  expiresAt : Time
  deriving DecidableEq

structure RestartTasksRequest where
  queueName : Bytes
  entries : List RestartTasksRequestEntry
  deriving DecidableEq

structure CreateScheduleRequest extends Queues.ScheduleSettings where
  queueName : Bytes
  name : Bytes
  deriving DecidableEq

structure GetScheduleRequest where
  queueName : Bytes
  scheduleName : Bytes
  deriving DecidableEq

structure UpdateScheduleRequest extends Queues.ScheduleSettings where
  queueName : Bytes
  scheduleName : Bytes
  expectedVersion : Int
  deriving DecidableEq

structure DeleteScheduleRequest where
  queueName : Bytes
  scheduleName : Bytes
  deriving DecidableEq

structure ListSchedulesRequest where
  queueName : Bytes
  paginationToken : Bytes
  limit : Int
  deriving DecidableEq

structure PurgeQueueRequest where
  queueName : Bytes
  deriving DecidableEq

structure GetTaskRequest where
  queueName : Bytes
  taskId : Bytes
  deriving DecidableEq

structure ListTasksRequest where
  queueName : Bytes
  state : TaskState
  paginationToken : Bytes
  limit : Int
  deriving DecidableEq

/-- The calls of the public API. -/
inductive Request where
  | createQueue (req : CreateQueueRequest)
  | getQueue (req : GetQueueRequest)
  | updateQueue (req : UpdateQueueRequest)
  | deleteQueue (req : DeleteQueueRequest)
  | listQueues (req : ListQueuesRequest)
  | enqueue (req : EnqueueRequest)
  | dequeue (req : DequeueRequest)
  | reportStatus (req : ReportStatusRequest)
  | deleteTasks (req : DeleteTasksRequest)
  | restartTasks (req : RestartTasksRequest)
  | createSchedule (req : CreateScheduleRequest)
  | getSchedule (req : GetScheduleRequest)
  | updateSchedule (req : UpdateScheduleRequest)
  | deleteSchedule (req : DeleteScheduleRequest)
  | listSchedules (req : ListSchedulesRequest)
  | purgeQueue (req : PurgeQueueRequest)
  | getTask (req : GetTaskRequest)
  | listTasks (req : ListTasksRequest)
  deriving DecidableEq

structure Queue where
  name : Bytes
  description : Bytes
  createdAt : Time
  updatedAt : Time
  version : Int
  keepaliveTimeoutInSeconds : Time
  expiresInSeconds : Time
  retryStrategy : Option RetryStrategy
  dequeuingSettings : Option DequeuingSettings
  deadLetterQueueConfig : Option DeadLetterQueueConfig
  deriving DecidableEq

structure QueueStats where
  enqueuedTasksCount : Int
  inProgressTasksCount : Int
  deadTasksCount : Int
  processedTasksCount : Int
  expiredTasksCount : Int
  ageOfOldestEnqueuedTask : Time
  deriving DecidableEq

/-- A task under its public id, which does not name the queue. -/
structure Task where
  id : Bytes
  payload : Bytes
  createdAt : Time
  scheduledAt : Time
  expiresAt : Time
  attempts : Int
  dedupeKey : Bytes
  threadId : Bytes
  state : TaskState
  visibleAt : Time
  deriving DecidableEq

structure ReportStatusResponseEntry where
  taskId : Bytes
  result : ReportResult
  deriving DecidableEq

structure RestartTasksResponseEntry where
  taskId : Bytes
  result : RestartResult
  task : Option Task
  deriving DecidableEq

structure Schedule where
  name : Bytes
  description : Bytes
  queueName : Bytes
  createdAt : Time
  updatedAt : Time
  cron : Bytes
  version : Int
  payload : Bytes
  dedupeKey : Bytes
  expiresInSeconds : Time
  retryStrategy : Option RetryStrategy
  timezone : Bytes
  deriving DecidableEq

inductive Response where
  | queue (queue : Queue)
  | getQueue (queue : Queue) (stats : QueueStats) (now : Time)
  | listQueues (queues : List Queue) (nextPaginationToken previousPaginationToken : Bytes)
  | tasks (tasks : List Task) (now : Time)
  | reportStatus (entries : List ReportStatusResponseEntry)
  | restartTasks (entries : List RestartTasksResponseEntry) (now : Time)
  | schedule (schedule : Schedule)
  | listSchedules (schedules : List Schedule) (nextPaginationToken previousPaginationToken : Bytes)
  | task (task : Task) (now : Time)
  | listTasks (tasks : List Task) (nextPaginationToken previousPaginationToken : Bytes) (now : Time)
  | done
  deriving DecidableEq

end Moabpb

/-- The limits of an account that the handlers read. -/
structure ServiceLimits where
  maxNumberOfQueues : Int
  maxNumberOfSchedulesPerQueue : Int
  maxEnqueueBatchSize : Int
  maxDequeueBatchSize : Time
  maxScheduledDelayInSeconds : Time
  deriving DecidableEq

def defaultServiceLimits : ServiceLimits where
  maxNumberOfQueues := 10000
  maxNumberOfSchedulesPerQueue := 1000
  maxEnqueueBatchSize := 25
  maxDequeueBatchSize := 25
  maxScheduledDelayInSeconds := 1209600

section Ids

/-- A byte of [0-9a-zA-Z]. -/
def isAlphanumeric (c : Fin 256) : Bool :=
  (48 ≤ c.val ∧ c.val ≤ 57) ∨ (97 ≤ c.val ∧ c.val ≤ 122) ∨ (65 ≤ c.val ∧ c.val ≤ 90)

/-- The base62 library: decoding inverts encoding, into digits and letters. -/
class Base62 where
  encode : Bytes → Bytes
  decodeString : Bytes → Option Bytes
  decodeString_encode (b : Bytes) : decodeString (encode b) = some b
  encode_alphanumeric (b : Bytes) : (encode b).all isAlphanumeric
  encode_ne_nil (b : Bytes) : b ≠ [] → encode b ≠ []

/-- The bytes of tsk_. -/
def taskIdMark : Bytes := [116, 115, 107, 95]

/-- The pattern ^tsk_[0-9a-zA-Z]+$. -/
def taskIdRegex (s : Bytes) : Bool :=
  s.take 4 = taskIdMark ∧ s.drop 4 ≠ [] ∧ (s.drop 4).all isAlphanumeric

variable [Base62]

def decodeTaskId (s : Bytes) : Option Nat :=
  if taskIdRegex s then
    match Base62.decodeString (s.drop 4) with
    | none => none
    | some b => if b.length = 8 then some (ofBigEndian b) else none
  else none

def encodeTaskId (id : Nat) : Bytes := taskIdMark ++ Base62.encode (bigEndian 8 id)

/-- Every uint64 has a public string, and the string names no other one. -/
theorem decodeTaskId_encodeTaskId {id : Nat} (h : id < 256 ^ 8) :
    decodeTaskId (encodeTaskId id) = some id := by
  have htake : (encodeTaskId id).take 4 = taskIdMark := rfl
  have hdrop : (encodeTaskId id).drop 4 = Base62.encode (bigEndian 8 id) := rfl
  have hbytes : bigEndian 8 id ≠ [] := List.ne_nil_of_length_pos (by simp)
  have hmatch : taskIdRegex (encodeTaskId id) = true :=
    decide_eq_true ⟨htake, hdrop ▸ Base62.encode_ne_nil _ hbytes,
      hdrop ▸ Base62.encode_alphanumeric _⟩
  rw [decodeTaskId, if_pos hmatch, hdrop, Base62.decodeString_encode]
  simp [ofBigEndian_bigEndian h]

end Ids

section Letters

/-- The letter from a to p for half a byte, and back. -/
def letter (n : Nat) : Fin 256 := Fin.ofNat 256 (97 + n)

def joinLetters (a b : Fin 256) : Fin 256 := Fin.ofNat 256 ((a.val - 97) * 16 + (b.val - 97))

def lettersOf : Bytes → Bytes
  | [] => []
  | c :: cs => letter (c.val / 16) :: letter (c.val % 16) :: lettersOf cs

def ofLetters : Bytes → Option Bytes
  | a :: b :: rest => (ofLetters rest).map (joinLetters a b :: ·)
  | [] => some []
  | _ => none

theorem joinLetters_letter (c : Fin 256) :
    joinLetters (letter (c.val / 16)) (letter (c.val % 16)) = c := by
  apply Fin.ext
  have hc := c.isLt
  simp only [joinLetters, letter, Fin.val_ofNat]
  omega

theorem ofLetters_lettersOf (b : Bytes) : ofLetters (lettersOf b) = some b := by
  induction b with
  | nil => rfl
  | cons c cs ih => simp [lettersOf, ofLetters, ih, joinLetters_letter]

theorem isAlphanumeric_letter {n : Nat} (h : n < 16) : isAlphanumeric (letter n) = true := by
  have hval : (letter n).val = 97 + n := by
    simp only [letter, Fin.val_ofNat]
    omega
  simp only [isAlphanumeric, hval, decide_eq_true_eq]
  omega

/-- A codec with two letters for each byte, to evaluate the model with. -/
instance letters : Base62 where
  encode := lettersOf
  decodeString := ofLetters
  decodeString_encode := ofLetters_lettersOf
  encode_alphanumeric b := by
    induction b with
    | nil => rfl
    | cons c cs ih =>
      have hc := c.isLt
      have hhigh := isAlphanumeric_letter (n := c.val / 16) (by omega)
      have hlow := isAlphanumeric_letter (n := c.val % 16) (by omega)
      simp [lettersOf, hhigh, hlow, ih]
  encode_ne_nil b h := by
    cases b with
    | nil => exact absurd rfl h
    | cons c cs => simp [lettersOf]

end Letters

/-- Base64 and the wire format of pagination tokens. -/
class Wire where
  decodeString : Bytes → Option Bytes
  encodeToString : Bytes → Bytes
  marshal : PaginationToken → Option Bytes
  unmarshal : Bytes → Option PaginationToken

/-- Tokens in plain bytes, the direction last, to evaluate the model with. -/
instance plainWire : Wire where
  decodeString := some
  encodeToString := id
  marshal token := some (token.value ++ [if token.previous then 1 else 0])
  unmarshal b := some ⟨b.dropLast, b.getLast? = some 1⟩

end Moab
