import Moab.Queues.Core
import Moab.Validators

namespace Moab

/-- The error of a check of the core. A value is named where the text quotes it. -/
structure ValidationError where
  message : String
  quoted : Option Bytes
  deriving DecidableEq

namespace Corepb

def maxKeepaliveTimeoutInSeconds : Time := 60
def minKeepaliveTimeoutInSeconds : Time := 5
def maxExpiresTimeoutInSeconds : Time := 1209600
def minExpiresTimeoutInSeconds : Time := 60
def maxDLQRetentionPeriod : Time := 1209600
def maxPayloadSize : Nat := 65536
def maxNumberOfRetryIntervalsInSeconds : Nat := 21
def maxRetryIntervalInSeconds : Time := 900

def require (ok : Bool) (message : String) (quoted : Option Bytes) :
    Except ValidationError Unit :=
  if ok then .ok () else .error ⟨message, quoted⟩

def validateQueueId (id : QueueId) : Except ValidationError Unit :=
  require (id.queueId ≠ 0) "QueueId.QueueId must be positive" none

def validateScheduleId (id : ScheduleId) : Except ValidationError Unit := do
  require (id.queueId ≠ 0) "ScheduleId.QueueId must be positive" none
  require (id.scheduleId ≠ 0) "ScheduleId.ScheduleId must be positive" none

/-- A value outside its bounds. The text names the bounds. -/
def validateBetween (field : String) (lower upper value : Time) : Except ValidationError Unit :=
  require (¬(value < lower ∨ value > upper))
    (field ++ " must be between " ++ toString lower ++ " and " ++ toString upper ++ " seconds") none

def validateExpiresInSeconds : Time → Except ValidationError Unit :=
  validateBetween "ExpiresInSeconds" minExpiresTimeoutInSeconds maxExpiresTimeoutInSeconds

def validateKeepaliveTimeoutInSeconds : Time → Except ValidationError Unit :=
  validateBetween "KeepaliveTimeoutInSeconds" minKeepaliveTimeoutInSeconds
    maxKeepaliveTimeoutInSeconds

def validateRetryIntervals : Nat → List Time → Except ValidationError Unit
  | _, [] => .ok ()
  | i, interval :: intervals => do
    validateBetween ("RetryStrategy.RetryIntervalsInSeconds[" ++ toString i ++ "]") 0
      maxRetryIntervalInSeconds interval
    validateRetryIntervals (i + 1) intervals

def validateRetryStrategy : Option RetryStrategy → Except ValidationError Unit
  | none => .ok ()
  | some value => do
    require (value.retryIntervalsInSeconds.length ≤ maxNumberOfRetryIntervalsInSeconds)
      ("RetryStrategy.RetryIntervalsInSeconds exceeds max length (" ++
        toString maxNumberOfRetryIntervalsInSeconds ++ ")") none
    validateRetryIntervals 0 value.retryIntervalsInSeconds

def validateDeadLetterQueueConfig : Option DeadLetterQueueConfig → Except ValidationError Unit
  | none => .ok ()
  | some value => do
    require (0 ≤ value.maxSize) "DeadLetterQueueConfig.MaxSize must be non-negative" none
    validateBetween "DeadLetterQueueConfig.RetentionPeriodInSeconds" minExpiresTimeoutInSeconds
      maxDLQRetentionPeriod value.retentionPeriodInSeconds

end Corepb

namespace Queues

open Corepb

/-- The checks that CreateQueueRequest and UpdateQueueRequest share. -/
def QueueSettings.validate (settings : QueueSettings) : Except ValidationError Unit := do
  validateExpiresInSeconds settings.expiresInSeconds
  validateKeepaliveTimeoutInSeconds settings.keepaliveTimeoutInSeconds
  validateRetryStrategy settings.retryStrategy
  (validateDequeuingSettings settings.dequeuingSettings).mapError (⟨·, none⟩)
  validateDeadLetterQueueConfig settings.deadLetterQueueConfig

/-- Zero seconds leave the expiration to the queue. -/
def validateOverride (expiresInSeconds : Time) : Except ValidationError Unit :=
  if expiresInSeconds ≠ 0 then validateExpiresInSeconds expiresInSeconds else .ok ()

variable [Gronx]

/-- The checks of CreateScheduleRequest and UpdateScheduleRequest. -/
def ScheduleSettings.validate (settings : ScheduleSettings) : Except ValidationError Unit := do
  require (Gronx.isValid settings.cron) "invalid cron expression: %q" (some settings.cron)
  require (Gronx.loadLocation settings.timezone).isSome "invalid timezone: %q"
    (some settings.timezone)
  validateOverride settings.expiresInSeconds
  validateRetryStrategy settings.retryStrategy
  require (settings.payload.length ≤ maxPayloadSize)
    ("Payload exceeds max size (" ++ toString maxPayloadSize ++ " bytes)") none

/-- The Validate method of the request. -/
def Op.validate : Op → Except ValidationError Unit
  | .createQueue req => do
    validateQueueId req.queueId
    req.toQueueSettings.validate
  | .updateQueue req => req.toQueueSettings.validate
  | .createSchedule req => req.toScheduleSettings.validate
  | .updateSchedule req => req.toScheduleSettings.validate
  | .reportSchedulesStatus req => do
    validateScheduleId req.scheduleId
    require (0 ≤ req.nextScheduledAt) "NextScheduledAt must be non-negative" none
    require (0 ≤ req.lastEnqueuedFor) "LastEnqueuedFor must be non-negative" none
  | .deleteQueue _ => .ok ()
  | .swapQueueId _ => .ok ()
  | .deleteSchedule _ => .ok ()
  | .runQueuesGarbageCollection _ => .ok ()

end Queues

end Moab
