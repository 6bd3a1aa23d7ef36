import Moab.Framework.Machine
import Moab.Framework.TokenBucket
import Moab.Tasks.Exec
import Moab.Tasks.Stable

namespace Moab

open OrderedStore

section Dequeue

variable [OrderedStore] {s : State} {q : QueueId} {now limit : Time}

/-- A scan stops when it has taken as many tasks as it may. -/
theorem scanQueue_length (settings : Option DequeuingSettings) (items : List IndexItem) (a : Scan) :
    Ensures True (scanQueue s q now limit settings a items)
      (fun b => (b.dequeuedTasks.length : Int) ≤
        max (a.dequeuedTasks.length : Int) limit.toInt) := by
  induction items generalizing a with
  | nil => exact Ensures.ok (le_max_left _ _)
  | cons i items ih =>
    apply Ensures.ite
    · exact fun _ => Ensures.ok (le_max_left _ _)
    · intro hopen
      apply Ensures.bind_any
      intro t
      have hroom : (a.dequeuedTasks.length : Int) < limit.toInt := by
        simp only [Scan.saturated, decide_eq_true_eq, not_or, not_le] at hopen
        exact hopen.1
      have hvisit : (a.visit i t now).dequeuedTasks.length ≤ a.dequeuedTasks.length + 1 := by
        unfold Scan.visit
        split_ifs <;> simp
      apply (ih (a.visit i t now)).mono
      intro b hb
      omega

theorem dequeueTasksBeforeTime_length (settings : Option DequeuingSettings) (keepalive : Time) :
    Ensures True (dequeueTasksBeforeTime s q now limit settings keepalive)
      (fun a => (a.2.length : Int) ≤ max 0 limit.toInt) := by
  apply (scanQueue_length settings _ _).bind
  intro b hb
  apply Ensures.ok
  rw [List.length_map]
  exact hb

/-- The number of tasks a response carries. -/
def Response.handedOut : Response → Nat
  | .dequeue (.ok ts) => ts.length
  | _ => 0

/-- A Dequeue is refused, or it refills the limiter and charges it for the tasks it
hands out, which are no more than the limiter allows. -/
structure Charged (s : State) (now : Time) (req : DequeueRequest)
    (limiter : Option RateLimiterState) (a : State × Response) : Prop where
  refilled : rateLimiterFor s req now = .ok limiter
  charged : a.1.rateLimiters = (chargeLimiter s req.queueId limiter a.2.handedOut).rateLimiters
  allowed : (a.2.handedOut : Int) ≤ max 0 (effectiveLimit limiter req.dequeueLimit).toInt

theorem dequeue_charged (s : State) (now : Time) (req : DequeueRequest) :
    Ensures True (exec s now (.dequeue req)) (fun a =>
      (s.purgeGCRecords.get req.queueId ≠ none ∧ a.1 = s ∧ a.2.handedOut = 0) ∨
      ∃ limiter, Charged s now req limiter a) := by
  have hsame : Stable (fun x => x.rateLimiters = s.rateLimiters) :=
    Stable.of_side (fun limiters _ => limiters = s.rateLimiters)
  apply Ensures.map
  unfold dequeue
  cases hp : checkQueueNotPurged s req.queueId with
  | some e =>
    have hmark : s.purgeGCRecords.get req.queueId ≠ none := by
      intro hnone
      simp [checkQueueNotPurged, hnone] at hp
    exact Ensures.ok (Or.inl ⟨hmark, rfl, rfl⟩)
  | none =>
    apply Ensures.bind (P := fun a =>
      ∃ limiter, Charged s now req limiter (a.1, .dequeue (.ok a.2)))
    · apply Ensures.bind (P := fun limiter => rateLimiterFor s req now = .ok limiter)
      · exact Ensures.of_eq (fun _ h => h) (fun _ _ => trivial)
      intro limiter hlimiter
      apply (hsame.dequeueInProgressTasksBeforeTime rfl req.queueId req.deadLetterQueueConfig).bind
      intro mid hmid
      have hlimits : Ensures True (dequeueTasksBeforeTime mid req.queueId now
          (effectiveLimit limiter req.dequeueLimit) req.dequeuingSettings
          req.keepaliveTimeoutInSeconds) _ := hsame.dequeueTasksBeforeTime hmid _ _ _ _
      apply (hlimits.and (dequeueTasksBeforeTime_length _ _)).bind
      intro a ha
      apply Ensures.ok
      refine ⟨limiter, hlimiter, ?_, ha.2⟩
      have hkept : a.1.rateLimiters = s.rateLimiters := ha.1
      cases limiter with
      | none => exact hkept
      | some st =>
        exact congrArg (fun x : Table QueueId RateLimiterState => x.set req.queueId _) hkept
    · intro a ha
      exact Ensures.ok (Or.inr ha)

/-- Rule for what all stored limiters have in common: only a rate limited Dequeue
writes one. -/
theorem commit_limiters {K : RateLimiterState → Prop} {c : Call}
    (h : ∀ q st, s.rateLimiters.get q = some st → K st)
    (hstep : ∀ req r st (n : Nat), c.op = .dequeue req →
      rateLimitingOf req.dequeuingSettings = some r →
      refillTokens (s.getRateLimiter req.queueId r c.now) r c.now = .ok st →
      (n : Int) ≤ max 0 (effectiveLimit (some st) req.dequeueLimit).toInt →
      K { st with tokens := st.tokens - Int64.ofNat n }) :
    ∀ q st, (commit s c.now c.op).rateLimiters.get q = some st → K st := by
  obtain ⟨now, op⟩ := c
  apply commit_keeps (I := fun s => ∀ q st, s.rateLimiters.get q = some st → K st) h
  have hother : (∀ req, op ≠ .dequeue req) →
      Ensures True (exec s now op) (fun a => ∀ q st, a.1.rateLimiters.get q = some st → K st) := by
    intro hop
    apply (Stable.of_side (fun limiters _ => ∀ q st, limiters.get q = some st → K st)).exec h op
    · exact fun req _ _ he => absurd he (hop req)
    · exact fun _ _ _ hx => hx
    · intro _ r x _ _ hx q st hget
      rw [Table.get_delete] at hget
      split_ifs at hget
      exact hx q st hget
  cases op with
  | dequeue req =>
    apply (dequeue_charged s now req).mono
    intro a ha q st hget
    rcases ha with ⟨_, hs, _⟩ | ⟨limiter, hcharged⟩
    · rw [hs] at hget
      exact h q st hget
    · have hrefilled := hcharged.refilled
      have hallowed := hcharged.allowed
      rw [hcharged.charged] at hget
      cases limiter with
      | none => exact h q st hget
      | some st' =>
        rw [rateLimiterFor] at hrefilled
        cases hr : rateLimitingOf req.dequeuingSettings with
        | none => simp [hr] at hrefilled
        | some r =>
          rw [hr] at hrefilled
          cases hx : refillTokens (s.getRateLimiter req.queueId r now) r now with
          | error e => simp [hx, bind, Except.bind] at hrefilled
          | ok st₁ =>
            simp only [hx, bind, Except.bind, Except.ok.injEq, Option.some.injEq] at hrefilled
            subst hrefilled
            change (s.rateLimiters.set _ _).get q = some st at hget
            rw [Table.get_set] at hget
            split_ifs at hget
            · rw [← Option.some.inj hget]
              exact hstep req r st₁ a.2.handedOut rfl hr hx hallowed
            · exact h q st hget
  | _ => exact hother (by simp)

/-- A call on another queue, or none at all, leaves the limiter of a queue that is
not marked as purged. -/
theorem exec_limiter {op : Op} (hmark : s.purgeGCRecords.get q = none)
    (hdequeue : ∀ req, op = .dequeue req → req.queueId ≠ q) :
    Ensures True (exec s now op) (fun a => a.1.rateLimiters.get q = s.rateLimiters.get q) := by
  apply (Stable.of_side (fun limiters _ => limiters.get q = s.rateLimiters.get q)).exec rfl op
  · intro req x limiter hop hx
    exact (Table.get_set_ne _ _ (Ne.symm (hdequeue req hop))).trans hx
  · exact fun r x _ hx => hx
  · intro req r x _ hr hx
    have hne : q ≠ r := by
      intro he
      rw [he, hr] at hmark
      exact absurd hmark (by simp)
    exact (Table.get_delete_ne _ hne).trans hx

/-- A queue that no one purges is never marked. -/
theorem exec_unmarked {op : Op} (hmark : s.purgeGCRecords.get q = none) (hop : op ≠ .purgeQueue q) :
    Ensures True (exec s now op) (fun a => a.1.purgeGCRecords.get q = none) := by
  apply (Stable.of_side (fun _ markers => markers.get q = none)).exec hmark op
  · exact fun _ _ _ _ hx => hx
  · intro r x hr hx
    have hne : q ≠ r := by
      intro he
      rw [hr, he] at hop
      exact hop rfl
    exact (Table.get_set_ne _ _ hne).trans hx
  · intro req r x _ _ hx
    rw [Table.get_delete]
    split_ifs
    · rfl
    · exact hx

/-- The number of tasks of the queue that a call hands out. -/
def Call.handsOut (q : QueueId) (s : State) (c : Call) : Nat :=
  match c.op, exec s c.now c.op with
  | .dequeue req, .ok a => if req.queueId = q then a.2.handedOut else 0
  | _, _ => 0

/-- The number of tasks of the queue that a run hands out. -/
def handedOut (q : QueueId) : State → List Call → Nat
  | _, [] => 0
  | s, c :: cs => c.handsOut q s + handedOut q (commit s c.now c.op) cs

/-- A call leaves the limiter alone and hands out nothing of the queue, or it is a
Dequeue of it that went through. -/
theorem commit_limiter (q : QueueId) (s : State) (c : Call)
    (hmark : s.purgeGCRecords.get q = none) :
    (c.handsOut q s = 0 ∧ (commit s c.now c.op).rateLimiters.get q = s.rateLimiters.get q) ∨
    ∃ req limiter a, c.op = .dequeue req ∧ req.queueId = q ∧ exec s c.now c.op = .ok a ∧
      c.handsOut q s = a.2.handedOut ∧ Charged s c.now req limiter a := by
  obtain ⟨now, op⟩ := c
  have hother : (∀ req, op = .dequeue req → req.queueId ≠ q) →
      (commit s now op).rateLimiters.get q = s.rateLimiters.get q := fun hne =>
    commit_keeps (I := fun u => u.rateLimiters.get q = s.rateLimiters.get q) rfl
      (exec_limiter hmark hne)
  cases op with
  | dequeue req =>
    by_cases hq : req.queueId = q
    · cases hx : exec s now (.dequeue req) with
      | error e => exact Or.inl ⟨by simp [Call.handsOut, hx], by simp [commit, hx]⟩
      | ok a =>
        have hhands : Call.handsOut q s ⟨now, .dequeue req⟩ = a.2.handedOut := by
          simp [Call.handsOut, hx, hq]
        rcases (dequeue_charged s now req).elim hx with ⟨_, hs, hnone⟩ | ⟨limiter, hcharged⟩
        · exact Or.inl ⟨hhands.trans hnone, by simp [commit, hx, hs]⟩
        · exact Or.inr ⟨req, limiter, a, rfl, hq, rfl, hhands, hcharged⟩
    · refine Or.inl ⟨?_, hother ?_⟩
      · unfold Call.handsOut
        cases exec s now (.dequeue req) <;> simp [hq]
      · intro req' he
        obtain rfl := Op.dequeue.inj he
        exact hq
  | _ => exact Or.inl ⟨rfl, hother (by simp)⟩

end Dequeue

section Refill

/-- The nanoseconds of a unit. -/
def IntervalUnit.nanos : IntervalUnit → Int
  | .invalid => 0
  | .seconds => 1000000000
  | .minutes => 60000000000
  | .hours => 3600000000000

def RateLimiterState.bucket (st : RateLimiterState) : Bucket :=
  ⟨st.tokens.toInt, st.lastRefilledAt.toInt⟩

variable {r : TokenBucketRateLimiting} {R now : Time} {st : RateLimiterState}

/-- The refill of the code is that of a bucket where nothing wraps. -/
theorem refillTokens_bucket (hR : getRefillInterval r = .ok R) (hpos : 0 < R.toInt)
    (hmax : r.maxTokens.toInt < 2 ^ 62) (hready : st.bucket.Ready r.maxTokens.toInt now.toInt)
    (hlast : 0 ≤ st.lastRefilledAt.toInt) (hnow : now.toInt < 2 ^ 62) :
    ∃ st', refillTokens st r now = .ok st' ∧ 0 ≤ st'.lastRefilledAt.toInt ∧
      st'.bucket = st.bucket.refill r.maxTokens.toInt R.toInt now.toInt := by
  obtain ⟨htokens, hcap, hpast⟩ := hready
  simp only [RateLimiterState.bucket] at htokens hcap hpast
  have hne : R ≠ 0 := by
    intro h
    rw [h] at hpos
    exact absurd hpos (by decide)
  have helapsed : (now - st.lastRefilledAt).toInt = now.toInt - st.lastRefilledAt.toInt :=
    toInt_sub_of_fits ⟨by omega, by omega⟩
  have hnew : ((now - st.lastRefilledAt) / R).toInt =
      (now.toInt - st.lastRefilledAt.toInt) / R.toInt := by
    rw [toInt_div_of_nonneg (by omega), helapsed]
  have hnonneg := Bucket.elapsed_nonneg hpos (by omega : 0 ≤ now.toInt - st.lastRefilledAt.toInt)
  have hmul := Bucket.elapsed_mul_le hpos (now.toInt - st.lastRefilledAt.toInt)
  have hle : (now.toInt - st.lastRefilledAt.toInt) / R.toInt ≤
      now.toInt - st.lastRefilledAt.toInt :=
    Int.ediv_le_self _ (by omega)
  have hprod : 0 ≤ (now.toInt - st.lastRefilledAt.toInt) / R.toInt * R.toInt :=
    Int.mul_nonneg hnonneg (by omega)
  have hsum : (st.tokens + (now - st.lastRefilledAt) / R).toInt =
      st.tokens.toInt + (now.toInt - st.lastRefilledAt.toInt) / R.toInt := by
    rw [toInt_add_of_fits (by rw [hnew]; exact ⟨by omega, by omega⟩), hnew]
  have hgain : ((now - st.lastRefilledAt) / R * R).toInt =
      (now.toInt - st.lastRefilledAt.toInt) / R.toInt * R.toInt := by
    rw [toInt_mul_of_fits (by rw [hnew]; exact ⟨by omega, by omega⟩), hnew]
  have hmoved : (st.lastRefilledAt + (now - st.lastRefilledAt) / R * R).toInt =
      st.lastRefilledAt.toInt + (now.toInt - st.lastRefilledAt.toInt) / R.toInt * R.toInt := by
    rw [toInt_add_of_fits (by rw [hgain]; exact ⟨by omega, by omega⟩), hgain]
  have hzero : (0 : Time).toInt = 0 := rfl
  -- every comparison of the code is now one of integers
  simp only [refillTokens, hR, divide, hne, if_false, bind, Except.bind, gt_iff_lt,
    Int64.lt_iff_toInt_lt, hsum, hzero, hnew]
  split_ifs with hroom hsome hfull
  · refine ⟨_, rfl, by simp only; omega, ?_⟩
    simp [Bucket.refill, RateLimiterState.bucket, hroom, hsome, hfull]
  · refine ⟨_, rfl, by simp only [hmoved]; omega, ?_⟩
    simp [Bucket.refill, RateLimiterState.bucket, hroom, hsome, hfull, hsum, hmoved]
  · exact ⟨_, rfl, hlast, by simp [Bucket.refill, RateLimiterState.bucket, hroom, hsome]⟩
  · exact ⟨_, rfl, by simp only; omega, by simp [Bucket.refill, RateLimiterState.bucket, hroom]⟩

end Refill

end Moab
