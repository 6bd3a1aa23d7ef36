import Moab.Tasks.Dequeue

namespace Moab

/-- The error of a check of the front end. -/
def invalid (fieldName details : String) : String :=
  if details = "" then "invalid " ++ fieldName else "invalid " ++ fieldName ++ ": " ++ details

inductive DequeuingField where
  | maxInProgressTasks
  | interval
  | maxTokens
  | intervalUnit

def DequeuingField.path : DequeuingField → String
  | .maxInProgressTasks => "MaxInProgressTasks"
  | .interval => "RateLimiting.Interval"
  | .maxTokens => "RateLimiting.MaxTokens"
  | .intervalUnit => "RateLimiting.IntervalUnit"

/-- The checks that the front end and the core both make on dequeuing settings. -/
def checkDequeuingSettings (fail : DequeuingField → String) :
    Option DequeuingSettings → Except String Unit
  | none => .ok ()
  | some value =>
    if value.maxInProgressTasks < 0 then .error (fail .maxInProgressTasks)
    else
      match value.rateLimiting with
      | none => .ok ()
      | some rateLimiting =>
        if rateLimiting.interval < 0 then .error (fail .interval)
        else if rateLimiting.maxTokens < 0 then .error (fail .maxTokens)
        else
          match rateLimiting.intervalUnit with
          | .seconds => .ok ()
          | .minutes => .ok ()
          | .hours => .ok ()
          | .invalid => .error (fail .intervalUnit)

namespace Server

def dequeuingDetails : DequeuingField → String
  | .maxInProgressTasks => "max in progress tasks must be non-negative"
  | .interval => "rate limiting interval must be non-negative"
  | .maxTokens => "rate limiting max tokens must be non-negative"
  | .intervalUnit => "unrecognized value"

def validateDequeuingSettings (value : Option DequeuingSettings) (fieldName : String) :
    Except String Unit :=
  checkDequeuingSettings (fun f => invalid (fieldName ++ "." ++ f.path) (dequeuingDetails f)) value

end Server

namespace Corepb

def dequeuingDetails : DequeuingField → String
  | .intervalUnit => ": unrecognized value"
  | _ => " must be non-negative"

def validateDequeuingSettings (value : Option DequeuingSettings) : Except String Unit :=
  checkDequeuingSettings (fun f => "DequeuingSettings." ++ f.path ++ dequeuingDetails f) value

end Corepb

/-- Whatever the messages, the settings that pass are the same. -/
theorem checkDequeuingSettings_ok {fail : DequeuingField → String} {value : DequeuingSettings} :
    checkDequeuingSettings fail (some value) = .ok () ↔ 0 ≤ value.maxInProgressTasks ∧
      ∀ r, value.rateLimiting = some r →
        ¬r.interval < 0 ∧ ¬r.maxTokens < 0 ∧ r.intervalUnit ≠ .invalid := by
  unfold checkDequeuingSettings
  dsimp only
  cases value.rateLimiting with
  | none => simp
  | some r =>
    dsimp only
    cases hu : r.intervalUnit <;> split_ifs <;> simp_all

end Moab
