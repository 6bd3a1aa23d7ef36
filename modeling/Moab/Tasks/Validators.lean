import Moab.Queues.Validators
import Moab.Tasks.Core

namespace Moab

namespace Corepb

def maxNumberOfEnqueueRequestEntries : Nat := 50
def maxNumberOfTaskIds : Nat := 50
def maxNumberOfReportStatusEntries : Nat := 50

/-- The field of an entry that an error names. -/
def entryField (i : Nat) (field : String) : String := "Entries[" ++ toString i ++ "]." ++ field

/-- The checks of one entry of an Enqueue. -/
def validateEnqueueEntry (i : Nat) (e : EnqueueRequestEntry) : Except ValidationError Unit := do
  require (0 ≤ e.scheduledAt) (entryField i "ScheduledAt must be non-negative") none
  require (0 ≤ e.expiresAt) (entryField i "ExpiresAt must be non-negative") none
  (validateRetryStrategy e.retryStrategy).mapError
    (fun err => { err with message := entryField i err.message })
  require (e.payload.length ≤ maxPayloadSize) (entryField i ("Payload exceeds max payload size (" ++
    toString maxPayloadSize ++ " bytes)")) none

def validateEnqueueEntries : Nat → List EnqueueRequestEntry → Except ValidationError Unit
  | _, [] => .ok ()
  | i, e :: es => do
    validateEnqueueEntry i e
    validateEnqueueEntries (i + 1) es

def validateTaskId (id : TaskId) : Except ValidationError Unit := do
  require (id.queueId ≠ 0) "TaskId.QueueId must be positive" none
  require (id.taskId ≠ 0) "TaskId.TaskId must be positive" none

/-- Zero seconds leave the lease to the queue. -/
def validateKeepaliveOverride (seconds : Time) : Except ValidationError Unit :=
  if seconds ≠ 0 then validateKeepaliveTimeoutInSeconds seconds else .ok ()

/-- The checks of a list of entries, each of which knows its place. -/
def validateEach {α : Type} (f : Nat → α → Except ValidationError Unit) :
    Nat → List α → Except ValidationError Unit
  | _, [] => .ok ()
  | i, a :: as => do
    f i a
    validateEach f (i + 1) as

def validateReportEntry (i : Nat) (e : ReportStatusRequestEntry) : Except ValidationError Unit := do
  (validateTaskId e.taskId).mapError (fun err => { err with message := entryField i err.message })
  (validateKeepaliveOverride e.keepaliveTimeoutInSeconds).mapError
    (fun err => { err with message := entryField i err.message })

def validateRestartEntry (i : Nat) (e : RestartTasksRequestEntry) :
    Except ValidationError Unit := do
  require (0 ≤ e.scheduledAt) (entryField i "ScheduledAt must be non-negative") none
  require (0 ≤ e.expiresAt) (entryField i "ExpiresAt must be non-negative") none

end Corepb

open Corepb

/-- The Validate method of the request. -/
def EnqueueRequest.validate (req : EnqueueRequest) : Except ValidationError Unit := do
  validateQueueId req.queueId
  require (req.entries.length ≤ maxNumberOfEnqueueRequestEntries)
    ("Entries exceeds max number of entries (" ++ toString maxNumberOfEnqueueRequestEntries ++ ")")
      none
  validateEnqueueEntries 0 req.entries

def DequeueRequest.validate (req : DequeueRequest) : Except ValidationError Unit := do
  validateQueueId req.queueId
  (validateDequeuingSettings req.dequeuingSettings).mapError (⟨·, none⟩)
  validateDeadLetterQueueConfig req.deadLetterQueueConfig
  validateKeepaliveOverride req.keepaliveTimeoutInSeconds

def ReportStatusRequest.validate (req : ReportStatusRequest) : Except ValidationError Unit := do
  require (req.entries.length ≤ maxNumberOfReportStatusEntries)
    ("Entries exceeds max number of entries (" ++ toString maxNumberOfReportStatusEntries ++ ")")
      none
  validateEach validateReportEntry 0 req.entries
  validateDeadLetterQueueConfig req.deadLetterQueueConfig

def DeleteTasksRequest.validate (req : DeleteTasksRequest) : Except ValidationError Unit := do
  validateQueueId req.queueId
  require (req.taskIds.length ≤ maxNumberOfTaskIds)
    ("TaskIds exceeds max length (" ++ toString maxNumberOfTaskIds ++ ")") none

def RestartTasksRequest.validate (req : RestartTasksRequest) : Except ValidationError Unit := do
  validateQueueId req.queueId
  require (req.entries.length ≤ maxNumberOfTaskIds)
    ("Entries exceeds max length (" ++ toString maxNumberOfTaskIds ++ ")") none
  validateEach validateRestartEntry 0 req.entries

/-- What the checks ask of an entry, wherever it stands. -/
structure EnqueueRequestEntry.Valid (e : EnqueueRequestEntry) : Prop where
  scheduledAt : 0 ≤ e.scheduledAt
  expiresAt : 0 ≤ e.expiresAt
  retryStrategy : validateRetryStrategy e.retryStrategy = .ok ()
  payload : e.payload.length ≤ maxPayloadSize

section Checks

variable {ε : Type} {x y : Except ε Unit}

/-- Checks in sequence pass if each does. -/
theorem checks_ok_iff : (do x; y) = .ok () ↔ x = .ok () ∧ y = .ok () := by
  cases x with
  | error e | ok u => simp [bind, Except.bind]

theorem mapError_ok_iff {δ : Type} {f : ε → δ} : x.mapError f = .ok () ↔ x = .ok () := by
  cases x <;> simp [Except.mapError]

theorem require_ok_iff {ok : Bool} {message : String} {quoted : Option Bytes} :
    require ok message quoted = .ok () ↔ ok = true := by
  unfold require
  cases ok <;> simp

/-- A list passes if each entry does, wherever it stands. -/
theorem validateEach_ok_iff {α : Type} {f : Nat → α → Except ValidationError Unit} {P : α → Prop}
    (h : ∀ i a, f i a = .ok () ↔ P a) (i : Nat) (as : List α) :
    validateEach f i as = .ok () ↔ ∀ a ∈ as, P a := by
  induction as generalizing i with
  | nil => simp [validateEach]
  | cons a as ih => rw [validateEach, checks_ok_iff, h, ih, List.forall_mem_cons]

theorem validateEach_ok {α : Type} {f : Nat → α → Except ValidationError Unit}
    {i : Nat} {as : List α} (h : validateEach f i as = .ok ()) : ∀ a ∈ as, ∃ j, f j a = .ok () := by
  induction as generalizing i with
  | nil => simp
  | cons a as ih =>
    rw [validateEach, checks_ok_iff] at h
    exact List.forall_mem_cons.mpr ⟨⟨i, h.1⟩, ih h.2⟩

end Checks

theorem validateEnqueueEntry_ok_iff (i : Nat) (e : EnqueueRequestEntry) :
    validateEnqueueEntry i e = .ok () ↔ e.Valid := by
  unfold validateEnqueueEntry
  rw [checks_ok_iff, checks_ok_iff, checks_ok_iff, require_ok_iff, require_ok_iff, require_ok_iff,
    mapError_ok_iff, decide_eq_true_eq, decide_eq_true_eq, decide_eq_true_eq]
  constructor
  · intro h
    exact ⟨h.1, h.2.1, h.2.2.1, h.2.2.2⟩
  · intro h
    exact ⟨h.scheduledAt, h.expiresAt, h.retryStrategy, h.payload⟩

theorem validateEnqueueEntries_ok_iff (i : Nat) (es : List EnqueueRequestEntry) :
    validateEnqueueEntries i es = .ok () ↔ ∀ e ∈ es, e.Valid := by
  induction es generalizing i with
  | nil => simp [validateEnqueueEntries]
  | cons e es ih =>
    rw [validateEnqueueEntries, checks_ok_iff, validateEnqueueEntry_ok_iff, ih,
      List.forall_mem_cons]

theorem EnqueueRequest.validate_ok_iff (req : EnqueueRequest) :
    req.validate = .ok () ↔ validateQueueId req.queueId = .ok () ∧
      req.entries.length ≤ maxNumberOfEnqueueRequestEntries ∧ ∀ e ∈ req.entries, e.Valid := by
  rw [EnqueueRequest.validate, checks_ok_iff, checks_ok_iff, require_ok_iff, decide_eq_true_eq,
    validateEnqueueEntries_ok_iff]

end Moab
