import Moab.Server.Runs

namespace Moab.Server

open Coreapis

variable {A : Event → Prop} {P : Request → Prop} {T : Queue → Prop} {α : Type}

/-- Only calls are restricted. -/
def Effect.Within (P : Request → Prop) : Effect → Prop
  | .call req => P req
  | _ => True

/-- Wherever the answers meet A, the handler sends only requests that meet P. -/
def Sends (A : Event → Prop) (P : Request → Prop) (Q : α → Prop) (p : Handler α) : Prop :=
  Program.Obeys A (Effect.Within P) Q p

theorem Sends.sent {Q : α → Prop} {p : Handler α} (h : Sends A P Q p) {es : List Event} {a : α}
    (hruns : p.Runs es a) (hes : ∀ e ∈ es, A e) : ∀ req ∈ sent es, P req := by
  intro req hreq
  obtain ⟨e, he, hr⟩ := List.mem_filterMap.mp hreq
  have hwithin := (h es a hruns hes).1 e he
  rw [effect_of_request hr] at hwithin
  exact hwithin

/-- The handler may ask for queues, and what the answers to that tell of them. -/
structure Contract (A : Event → Prop) (P : Request → Prop) (T : Queue → Prop) : Prop where
  lookup : ∀ req, P (.getQueueByName req)
  cached : ∀ key queue, A ⟨.cached key, some (.ok queue)⟩ → T queue
  named : ∀ req reply, A ⟨.call (.getQueueByName req), .ok reply⟩ → T reply.response

theorem sends_pure {Q : α → Prop} {a : α} (h : Q a) : Sends A P Q (pure a) := Program.Obeys.pure h

theorem sends_call {req : Request} {Q : α → Prop}
    {f : Except Error (Reply req.Response) → Handler α} (h : P req)
    (hf : ∀ r, A ⟨.call req, r⟩ → Sends A P Q (f r)) : Sends A P Q (call req >>= f) :=
  (Program.Obeys.operation (show Effect.Within P (.call req) from h)).bind hf

theorem sends_single {req : Request} (h : P req) : Sends A P (fun _ => True) (call req) :=
  (Program.Obeys.operation (show Effect.Within P (.call req) from h)).mono (fun _ _ => trivial)

theorem sends_perform {e : Effect} {Q : α → Prop} {f : e.Answer → Handler α} (h : e.Within P)
    (hf : ∀ r, A ⟨e, r⟩ → Sends A P Q (f r)) : Sends A P Q (perform e >>= f) :=
  (Program.Obeys.operation h).bind hf

theorem sends_orFail {result : Except Error (Reply α)} {next : Reply α → Handler Outcome}
    (h : ∀ reply, result = .ok reply → Sends A P (fun _ => True) (next reply)) :
    Sends A P (fun _ => True) (orFail result next) := by
  cases result with
  | error err => exact sends_pure trivial
  | ok reply => exact h reply rfl

/-- A call whose response is handed on. -/
theorem sends_orFail_call {req : Request} {next : Reply req.Response → Handler Outcome} (h : P req)
    (hnext : ∀ reply, A ⟨.call req, .ok reply⟩ → Sends A P (fun _ => True) (next reply)) :
    Sends A P (fun _ => True) (call req >>= fun r => orFail r next) := by
  refine sends_call h (fun r hr => sends_orFail ?_)
  intro reply hreply
  rw [hreply] at hr
  exact hnext reply hr

theorem sends_withTokens [Wire] {next previous : Option PaginationToken} {unwritable : Status}
    {response : Bytes → Bytes → Moabpb.Response} :
    Sends A P (fun _ => True) (withTokens next previous unwritable response) := by
  unfold withTokens
  split <;> exact sends_pure trivial

theorem Contract.getQueue (c : Contract A P T) (accountId : Nat) (queueName : Bytes) :
    Sends A P (fun r => ∀ queue, r = .ok queue → T queue) (getQueue accountId queueName) := by
  refine sends_perform trivial (fun cached hcached => ?_)
  cases cached with
  | some entry =>
    refine sends_pure (fun queue hq => c.cached (cacheKey accountId queueName) queue ?_)
    rw [← hq]
    exact hcached
  | none =>
    refine sends_call (c.lookup _) (fun r hr => ?_)
    cases r with
    | ok reply =>
      refine sends_perform trivial (fun _ _ => sends_pure (fun queue hq => ?_))
      obtain rfl := Except.ok.inj hq
      exact c.named _ reply hr
    | error err =>
      dsimp only
      split_ifs
      · exact sends_perform trivial (fun _ _ => sends_pure (fun _ hq => nomatch hq))
      · exact sends_pure (fun _ hq => nomatch hq)

/-- The rest of a handler that resolves the name of a queue first. -/
theorem Contract.withCachedQueue (c : Contract A P T) {accountId : Nat} {queueName : Bytes}
    {next : Queue → Handler Outcome}
    (h : ∀ queue, T queue → Sends A P (fun _ => True) (next queue)) :
    Sends A P (fun _ => True) (Server.getQueue accountId queueName >>= fun found =>
      match found with
      | .error err => fail err
      | .ok queue => next queue) := by
  refine (c.getQueue accountId queueName).bind (fun found hfound => ?_)
  cases found with
  | error err => exact sends_pure trivial
  | ok queue => exact h queue (hfound queue rfl)

theorem Contract.retryWithFreshQueueIfPurged (c : Contract A P T) (accountId : Nat)
    (queueName : Bytes) (err : Error) :
    Sends A P (fun r => ∀ queue, r = .ok (some queue) → T queue)
      (retryWithFreshQueueIfPurged accountId queueName err) := by
  unfold Server.retryWithFreshQueueIfPurged
  split_ifs
  · refine sends_perform trivial (fun _ _ => ?_)
    refine (c.getQueue accountId queueName).bind (fun found hfound => ?_)
    cases found with
    | ok queue =>
      refine sends_pure (fun fresh hfresh => ?_)
      obtain rfl := Option.some.inj (Except.ok.inj hfresh)
      exact hfound queue rfl
    | error err => exact sends_pure (fun _ hq => nomatch hq)
  · exact sends_pure (fun _ hq => nomatch hq)

theorem Contract.sendToQueue (c : Contract A P T) {accountId : Nat} {queueName : Bytes}
    {queue : Queue} {send : Queue → Handler (Except Error (Reply α))}
    {next : Reply α → Handler Outcome} (hqueue : T queue)
    (hsend : ∀ queue, T queue → Sends A P (fun _ => True) (send queue))
    (hnext : ∀ reply, Sends A P (fun _ => True) (next reply)) :
    Sends A P (fun _ => True) (sendToQueue accountId queueName queue send next) := by
  refine (hsend queue hqueue).bind (fun r _ => ?_)
  cases r with
  | ok reply => exact hnext reply
  | error err =>
    refine (c.retryWithFreshQueueIfPurged accountId queueName err).bind (fun fresh hfresh => ?_)
    match fresh, hfresh with
    | .error refreshErr, _ => exact sends_pure trivial
    | .ok none, _ => exact sends_pure trivial
    | .ok (some freshQueue), hfresh =>
      exact (hsend freshQueue (hfresh freshQueue rfl)).bind
        (fun r _ => sends_orFail (fun reply _ => hnext reply))

theorem Contract.withQueue (c : Contract A P T) {accountId : Nat} {queueName : Bytes}
    {next : Queue → Handler Outcome}
    (h : ∀ queue, T queue → Sends A P (fun _ => True) (next queue)) :
    Sends A P (fun _ => True) (withQueue accountId queueName next) :=
  sends_orFail_call (c.lookup _) (fun reply hreply => h reply.response (c.named _ reply hreply))

theorem sends_withGeneratedId {attempt : Nat → Handler (Option Outcome)}
    (h : ∀ id, A ⟨.rand, id⟩ → Sends A P (fun _ => True) (attempt id)) (attempts : Nat) :
    Sends A P (fun _ => True) (withGeneratedId attempt attempts) := by
  induction attempts with
  | zero => exact sends_pure trivial
  | succ attempts ih =>
    refine sends_perform trivial (fun id hid => (h id hid).bind (fun r _ => ?_))
    cases r with
    | some outcome => exact sends_pure trivial
    | none => exact ih

/-- A call with a random id whose response is handed on. -/
theorem sends_attemptId_call {req : Request}
    {next : Reply req.Response → Handler Outcome} (h : P req)
    (hnext : ∀ reply, A ⟨.call req, .ok reply⟩ → Sends A P (fun _ => True) (next reply)) :
    Sends A P (fun _ => True) (call req >>= fun r => attemptId r next) := by
  refine sends_call h (fun r hr => ?_)
  cases r with
  | ok reply => exact (hnext reply hr).bind (fun _ _ => sends_pure trivial)
  | error err =>
    unfold attemptId
    dsimp only
    split_ifs
    · exact sends_pure trivial
    · exact Program.Obeys.bind (sends_pure (Q := fun _ => True) trivial)
        (fun _ _ => sends_pure trivial)

end Moab.Server
