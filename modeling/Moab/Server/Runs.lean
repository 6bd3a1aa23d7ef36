import Moab.Server.Handler

namespace Moab.Server

open Coreapis

/-- The request of a call of a core. -/
def request : Event → Option Request
  | ⟨.call req, _⟩ => some req
  | _ => none

/-- The queue that the event resolved a name to, out of the cache or by the core. -/
def resolution : Event → Option Queue
  | ⟨.cached _, some (.ok queue)⟩ => some queue
  | ⟨.call (.getQueueByName _), .ok reply⟩ => some reply.response
  | _ => none

/-- The requests that a run sends, in their order. -/
def sent (es : List Event) : List Request := es.filterMap request

/-- The queues that a run resolves its name to, in their order. -/
def resolved (es : List Event) : List Queue := es.filterMap resolution

theorem effect_of_request {e : Event} {req : Request} (h : request e = some req) :
    e.effect = .call req := by
  obtain ⟨effect, answer⟩ := e
  cases effect with
  | call req' => exact congrArg Effect.call (Option.some.inj h)
  | _ => exact nomatch h

@[simp] theorem sent_nil : sent [] = [] := rfl

@[simp] theorem resolved_nil : resolved [] = [] := rfl

@[simp] theorem sent_append (es es' : List Event) : sent (es ++ es') = sent es ++ sent es' :=
  List.filterMap_append

@[simp] theorem resolved_append (es es' : List Event) :
    resolved (es ++ es') = resolved es ++ resolved es' := List.filterMap_append

variable {accountId : Nat} {queueName : Bytes} {es : List Event} {outcome : Outcome}

theorem perform_runs {α : Type} {e : Effect} {f : e.Answer → Handler α} {a : α} :
    (perform e >>= f).Runs es a ↔ ∃ r rest, es = ⟨e, r⟩ :: rest ∧ (f r).Runs rest a := Iff.rfl

theorem call_runs {α : Type} {req : Request} {f : Except Error (Reply req.Response) → Handler α}
    {a : α} : (call req >>= f).Runs es a ↔
      ∃ r rest, es = ⟨.call req, r⟩ :: rest ∧ (f r).Runs rest a := Iff.rfl

/-- A lookup sends nothing but a request for the queue. -/
def Lookup (accountId : Nat) (queueName : Bytes) (es : List Event) : Prop :=
  ∀ req ∈ sent es, req = .getQueueByName ⟨accountId, queueName⟩

theorem getQueue_runs {r : Except Error Queue} (h : (getQueue accountId queueName).Runs es r) :
    Lookup accountId queueName es ∧ resolved es = r.toOption.toList := by
  obtain ⟨cached, rest, rfl, hload⟩ := perform_runs.mp h
  cases cached with
  | some entry =>
    obtain ⟨rfl, rfl⟩ := hload
    cases entry <;> exact ⟨by simp [Lookup, sent, request], rfl⟩
  | none =>
    obtain ⟨answer, rest, rfl, hkeep⟩ := call_runs.mp hload
    cases answer with
    | ok reply =>
      obtain ⟨_, rest, rfl, rfl, rfl⟩ := perform_runs.mp hkeep
      exact ⟨by simp [Lookup, sent, request], rfl⟩
    | error err =>
      dsimp only at hkeep
      split_ifs at hkeep with hnot
      · obtain ⟨_, rest, rfl, rfl, rfl⟩ := perform_runs.mp hkeep
        exact ⟨by simp [Lookup, sent, request], rfl⟩
      · obtain ⟨rfl, rfl⟩ := hkeep
        exact ⟨by simp [Lookup, sent, request], rfl⟩

/-- The name is resolved anew only after NotFound, and a new queue is handed back. -/
theorem retryWithFreshQueueIfPurged_runs {err : Error} {r : Except Error (Option Queue)}
    (h : (retryWithFreshQueueIfPurged accountId queueName err).Runs es r) :
    Lookup accountId queueName es ∧ resolved es = (r.toOption.bind id).toList := by
  unfold retryWithFreshQueueIfPurged at h
  split_ifs at h with hnot
  · obtain ⟨_, rest, rfl, hload⟩ := perform_runs.mp h
    obtain ⟨es₁, es₂, found, rfl, hlookup, hfound⟩ := Program.runs_bind.mp hload
    obtain ⟨hsent, hresolved⟩ := getQueue_runs hlookup
    cases found with
    | ok queue | error err =>
      obtain ⟨rfl, rfl⟩ := hfound
      rw [List.append_nil]
      exact ⟨hsent, hresolved⟩
  · obtain ⟨rfl, rfl⟩ := h
    exact ⟨by simp [Lookup], rfl⟩

/-- The program performs nothing. -/
def Silent {α : Type} (p : Handler α) : Prop := ∀ es a, p.Runs es a → es = []

theorem silent_pure {α : Type} (a : α) : Silent (pure a : Handler α) := fun _ _ h => h.1

theorem orFail_runs {α : Type} {result : Except Error (Reply α)} {next : Reply α → Handler Outcome}
    (h : (orFail result next).Runs es outcome) :
    (∃ err, result = .error err ∧ es = []) ∨ ∃ reply, result = .ok reply ∧
    (next reply).Runs es outcome := by
  cases result with
  | error err => exact Or.inl ⟨err, rfl, h.1⟩
  | ok reply => exact Or.inr ⟨reply, rfl, h⟩

theorem Silent.orFail {α : Type} {result : Except Error (Reply α)}
    {next : Reply α → Handler Outcome} (h : ∀ reply, Silent (next reply)) :
      Silent (orFail result next) := by
  intro es outcome hruns
  rcases orFail_runs hruns with ⟨_, _, rfl⟩ | ⟨reply, _, hnext⟩
  · rfl
  · exact h reply es outcome hnext

/-- A call for a queue, and then either no other one, or one for the queue that the name
is resolved to anew. -/
theorem sendToQueue_runs {α : Type} {queue : Queue}
    {send : Queue → Handler (Except Error (Reply α))} {next : Reply α → Handler Outcome}
    (silent : ∀ reply, Silent (next reply))
    (h : (sendToQueue accountId queueName queue send next).Runs es outcome) :
    ∃ first lookup second r, es = first ++ (lookup ++ second) ∧ (send queue).Runs first r ∧
      Lookup accountId queueName lookup ∧
      (resolved lookup = [] ∧ second = [] ∨
        ∃ freshQueue r', resolved lookup = [freshQueue] ∧ (send freshQueue).Runs second r') := by
  obtain ⟨first, rest, r, rfl, hfirst, hrest⟩ := Program.runs_bind.mp h
  cases r with
  | ok reply =>
    obtain rfl := silent reply _ _ hrest
    exact ⟨first, [], [], _, rfl, hfirst, by simp [Lookup], Or.inl ⟨rfl, rfl⟩⟩
  | error err =>
    obtain ⟨lookup, rest, fresh, rfl, hlookup, hretry⟩ := Program.runs_bind.mp hrest
    obtain ⟨hsent, hresolved⟩ := retryWithFreshQueueIfPurged_runs hlookup
    refine ⟨first, lookup, rest, _, rfl, hfirst, hsent, ?_⟩
    match fresh, hresolved, hretry with
    | .error refreshErr, hresolved, hretry => exact Or.inl ⟨hresolved, hretry.1⟩
    | .ok none, hresolved, hretry => exact Or.inl ⟨hresolved, hretry.1⟩
    | .ok (some freshQueue), hresolved, hretry =>
      obtain ⟨second, rest, r', rfl, hsecond, hnext⟩ := Program.runs_bind.mp hretry
      obtain rfl := Silent.orFail silent _ _ hnext
      exact Or.inr ⟨freshQueue, r', hresolved, by simpa using hsecond⟩

section Deadlines

/-- The time is not too far in the future. -/
def Near (now : Time) (limits : ServiceLimits) (scheduledAt : Time) : Prop :=
  ¬scheduledAt > plusSeconds now limits.maxScheduledDelayInSeconds

instance (now : Time) (limits : ServiceLimits) (scheduledAt : Time) :
    Decidable (Near now limits scheduledAt) := inferInstanceAs (Decidable (¬_))

/-- The latest deadline that the queue allows. -/
def ceiling (now : Time) (queue : Queue) (scheduledAt : Time) : Time :=
  plusSeconds (notBefore scheduledAt now) queue.expiresInSeconds

def deadline (now : Time) (queue : Queue) (scheduledAt expiresAt : Time) : Time :=
  if expiresAt = 0 ∨ expiresAt > ceiling now queue scheduledAt then ceiling now queue scheduledAt
  else expiresAt

variable {now scheduledAt expiresAt : Time} {limits : ServiceLimits} {queue : Queue}

/-- Whether a time is accepted does not depend on the queue, but the deadline does. -/
theorem resolve_near (h : Near now limits scheduledAt) :
    resolveScheduledAtAndExpiresAt now scheduledAt expiresAt queue.expiresInSeconds
        limits.maxScheduledDelayInSeconds =
      .ok (notBefore scheduledAt now, deadline now queue scheduledAt expiresAt) := if_neg h

theorem resolve_far (h : ¬Near now limits scheduledAt) :
    resolveScheduledAtAndExpiresAt now scheduledAt expiresAt queue.expiresInSeconds
        limits.maxScheduledDelayInSeconds = .error "ScheduledAt is too far in the future" :=
  if_pos (not_not.mp h)

end Deadlines

end Moab.Server
