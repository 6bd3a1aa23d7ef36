import Mathlib.Data.List.Pairwise
import Moab.Framework.SortedList
import Moab.Tasks.Limiter

namespace Moab

open OrderedStore

section Setting

/-- The unit as a duration. -/
def IntervalUnit.duration : IntervalUnit → Time
  | .invalid => 0
  | .seconds => second
  | .minutes => minute
  | .hours => hour

theorem IntervalUnit.duration_toInt (u : IntervalUnit) : u.duration.toInt = u.nanos := by
  cases u <;> decide

theorem IntervalUnit.nanos_nonneg (u : IntervalUnit) : 0 ≤ u.nanos := by
  cases u <;> decide

variable {r : TokenBucketRateLimiting} {R : Time}

theorem getRefillInterval_valid (hunit : r.intervalUnit ≠ .invalid) (hmax : r.maxTokens ≠ 0) :
    getRefillInterval r = .ok (r.interval * r.intervalUnit.duration / r.maxTokens) := by
  unfold getRefillInterval divide
  rw [if_neg hmax, if_neg hmax, if_neg hmax]
  cases hu : r.intervalUnit with
  | invalid => exact absurd hu hunit
  | seconds | minutes | hours => rfl

/-- A rate limit of less than 2^62 tokens whose refill interval is positive and
computed without overflow. -/
structure Rate (r : TokenBucketRateLimiting) (R : Time) : Prop where
  tokens_pos : 0 < r.maxTokens.toInt
  tokens_lt : r.maxTokens.toInt < 2 ^ 62
  fits : Fits (r.interval.toInt * r.intervalUnit.nanos)
  interval : getRefillInterval r = .ok R
  pos : 0 < R.toInt

theorem toInt_pos {a : Time} : 0 < a.toInt ↔ 0 < a := by
  rw [Int64.lt_iff_toInt_lt]
  rfl

theorem Rate.enabled (h : Rate r R) : 0 < r.interval := by
  have hmax : r.maxTokens ≠ 0 := by
    intro he
    have hpos := h.tokens_pos
    rw [he] at hpos
    exact absurd hpos (by decide)
  have hunit : r.intervalUnit ≠ .invalid := by
    intro hu
    have hinterval := h.interval
    rw [getRefillInterval, hu] at hinterval
    exact absurd hinterval (by simp)
  have hR := h.interval
  rw [getRefillInterval_valid hunit hmax] at hR
  have hprod : (r.interval * r.intervalUnit.duration).toInt =
      r.interval.toInt * r.intervalUnit.nanos := by
    rw [toInt_mul_of_fits (by rw [IntervalUnit.duration_toInt]; exact h.fits),
      IntervalUnit.duration_toInt]
  by_contra hneg
  have hinterval : r.interval.toInt ≤ 0 := not_lt.mp (fun hlt => hneg (toInt_pos.mp hlt))
  have hnonpos : r.interval.toInt * r.intervalUnit.nanos ≤ 0 :=
    Int.mul_nonpos_of_nonpos_of_nonneg hinterval r.intervalUnit.nanos_nonneg
  have hquot : (r.interval.toInt * r.intervalUnit.nanos).tdiv r.maxTokens.toInt ≤ 0 :=
    tdiv_nonpos hnonpos (by have := h.tokens_pos; omega)
  have hsmall : ((r.interval.toInt * r.intervalUnit.nanos).tdiv r.maxTokens.toInt).natAbs ≤
      (r.interval.toInt * r.intervalUnit.nanos).natAbs := by
    rw [Int.natAbs_tdiv]
    exact Nat.div_le_self _ _
  have hpos := h.pos
  have hlow := h.fits.1
  rw [← Except.ok.inj hR, Int64.toInt_div, hprod, Fits.bmod ⟨by omega, by omega⟩] at hpos
  omega

theorem Rate.limits (h : Rate r R) {settings : Option DequeuingSettings}
    (hs : settings.bind (·.rateLimiting) = some r) : rateLimitingOf settings = some r := by
  have hmax : 0 < r.maxTokens := toInt_pos.mp h.tokens_pos
  have hinterval := h.enabled
  rw [rateLimitingOf, hs]
  simp [Option.filter, hmax, hinterval]

end Setting

section Runs

variable [OrderedStore] {s : State} {q : QueueId} {r : TokenBucketRateLimiting}
    {R : Time} {c : Call}
  {lo : Int}

/-- The bucket of the queue as a run under one setting leaves it. -/
structure Steady (q : QueueId) (r : TokenBucketRateLimiting) (lo : Int) (s : State) : Prop where
  unmarked : s.purgeGCRecords.get q = none
  ready : ∀ st, s.rateLimiters.get q = some st →
    st.bucket.Ready r.maxTokens.toInt lo ∧ 0 ≤ st.lastRefilledAt.toInt

/-- A Dequeue of the queue carries the setting. -/
def Op.carries (q : QueueId) (r : TokenBucketRateLimiting) : Op → Prop
  | .dequeue req => req.queueId = q → req.dequeuingSettings.bind (·.rateLimiting) = some r
  | _ => True

/-- A call of such a run. -/
structure Rated (q : QueueId) (r : TokenBucketRateLimiting) (c : Call) : Prop where
  now : 0 ≤ c.now.toInt ∧ c.now.toInt < 2 ^ 62
  setting : c.op.carries q r
  unpurged : c.op ≠ .purgeQueue q

omit [OrderedStore] in
theorem effectiveLimit_le (st : RateLimiterState) (limit : Time) :
    (effectiveLimit (some st) limit).toInt ≤ st.tokens.toInt := by
  unfold effectiveLimit
  dsimp only
  split_ifs with hlt
  · exact le_refl _
  · exact not_lt.mp (fun h => hlt (Int64.lt_iff_toInt_lt.mpr h))

omit [OrderedStore] in
/-- The tasks handed out are paid for with tokens that are there. -/
theorem charge_toInt {st : RateLimiterState} {n : Nat} (hn : (n : Int) ≤ st.tokens.toInt) :
    (st.tokens - Int64.ofNat n).toInt = st.tokens.toInt - n := by
  have hlt := st.tokens.toInt_lt
  have hcount : (Int64.ofNat n).toInt = n := Int64.toInt_ofNat_of_lt (by omega)
  rw [toInt_sub_of_fits (by rw [hcount]; exact ⟨by omega, by omega⟩), hcount]

/-- What one call does to the bucket of the queue: nothing, or a refill that some of
the tokens are then taken from. -/
theorem Steady.step (hr : Rate r R) (h : Steady q r lo s) (hc : Rated q r c)
    (hlo : lo ≤ c.now.toInt) :
    (c.handsOut q s = 0 ∧ (commit s c.now c.op).rateLimiters.get q = s.rateLimiters.get q) ∨
    ∃ b st, b.Ready r.maxTokens.toInt c.now.toInt ∧
      (∀ st₀, s.rateLimiters.get q = some st₀ → b = st₀.bucket) ∧
      (commit s c.now c.op).rateLimiters.get q = some st ∧ 0 ≤ st.lastRefilledAt.toInt ∧
      (c.handsOut q s : Int) ≤ (b.refill r.maxTokens.toInt R.toInt c.now.toInt).tokens ∧
      st.bucket = (b.refill r.maxTokens.toInt R.toInt c.now.toInt).spend (c.handsOut q s) := by
  rcases commit_limiter q s c h.unmarked with hquiet | ⟨req, limiter, a, hop, hq, hx,
    hhands, hcharged⟩
  · exact Or.inl hquiet
  right
  have hready : (s.getRateLimiter q r c.now).bucket.Ready r.maxTokens.toInt c.now.toInt ∧
      0 ≤ (s.getRateLimiter q r c.now).lastRefilledAt.toInt := by
    unfold State.getRateLimiter
    cases hget : s.rateLimiters.get q with
    | none =>
      exact ⟨⟨by have := hr.tokens_pos; simp only [RateLimiterState.bucket, Option.getD]; omega,
        le_refl _, le_refl _⟩, hc.now.1⟩
    | some st => exact ⟨(h.ready st hget).1.mono hlo, (h.ready st hget).2⟩
  obtain ⟨st, hst, hlast, hbucket⟩ := refillTokens_bucket hr.interval hr.pos hr.tokens_lt hready.1
    hready.2 hc.now.2
  have hlimiter : limiter = some st := by
    have hrefilled := hcharged.refilled
    have hsetting := hc.setting
    rw [hop] at hsetting
    rw [rateLimiterFor, hr.limits (hsetting hq), hq] at hrefilled
    dsimp only at hrefilled
    rw [hst] at hrefilled
    exact (Except.ok.inj hrefilled).symm
  have htokens : 0 ≤ st.tokens.toInt := by
    have hnonneg := (Bucket.refill_ready hr.pos hready.1).nonneg
    rw [← hbucket] at hnonneg
    exact hnonneg
  have hpaid : (c.handsOut q s : Int) ≤ st.tokens.toInt := by
    have hallowed := hcharged.allowed
    have hle := effectiveLimit_le st req.dequeueLimit
    rw [hlimiter, ← hhands] at hallowed
    omega
  refine ⟨(s.getRateLimiter q r c.now).bucket,
    { st with tokens := st.tokens - Int64.ofNat (c.handsOut q s) }, hready.1, ?_, ?_, hlast, ?_, ?_⟩
  · intro st₀ hget
    rw [State.getRateLimiter, hget]
    rfl
  · have hcommit : commit s c.now c.op = a.1 := by rw [commit, hx]
    rw [hcommit, hcharged.charged, hlimiter, ← hhands, hq]
    exact Table.get_set_self _ _ _
  · rw [← hbucket]
    exact hpaid
  · rw [← hbucket]
    exact Bucket.ext (charge_toInt hpaid) rfl

theorem Steady.commit (hr : Rate r R) (h : Steady q r lo s) (hc : Rated q r c)
    (hlo : lo ≤ c.now.toInt) : Steady q r c.now.toInt (commit s c.now c.op) where
  unmarked := commit_keeps (I := fun s => s.purgeGCRecords.get q = none) h.unmarked
    (exec_unmarked h.unmarked hc.unpurged)
  ready st hst := by
    rcases h.step hr hc hlo with ⟨_, hsame⟩ | ⟨b, st', hb, _, hst', hlast, hpaid, hbucket⟩
    · rw [hsame] at hst
      exact ⟨(h.ready st hst).1.mono hlo, (h.ready st hst).2⟩
    · obtain rfl := Option.some.inj (hst'.symm.trans hst)
      rw [hbucket]
      exact ⟨Bucket.spend_ready (Bucket.refill_ready hr.pos hb) (by omega) hpaid, hlast⟩

/-- The calls come in the order of their times, none before lo or after hi. -/
def Clocked (lo hi : Int) : List Call → Prop
  | [] => True
  | c :: cs => lo ≤ c.now.toInt ∧ c.now.toInt ≤ hi ∧ Clocked c.now.toInt hi cs

omit [OrderedStore] in
theorem clocked_of_pairwise {lo hi : Int} {cs : List Call}
    (h : cs.Pairwise (fun a b => a.now.toInt ≤ b.now.toInt))
    (hcs : ∀ c ∈ cs, lo ≤ c.now.toInt ∧ c.now.toInt ≤ hi) : Clocked lo hi cs := by
  induction cs generalizing lo with
  | nil => trivial
  | cons c cs ih =>
    obtain ⟨hfirst, hrest⟩ := List.pairwise_cons.mp h
    obtain ⟨hlo, hhi⟩ := hcs c List.mem_cons_self
    exact ⟨hlo, hhi, ih hrest (fun d hd => ⟨hfirst d hd, (hcs d (List.mem_cons_of_mem _ hd)).2⟩)⟩

theorem Steady.empty : Steady q r 0 State.empty where
  unmarked := Table.get_empty q
  ready st hst := by simp [State.empty] at hst

theorem Steady.run (hr : Rate r R) {hi : Int} (cs : List Call) (s : State) (lo : Int)
    (h : Steady q r lo s) (hcs : ∀ c ∈ cs, Rated q r c) (hclock : Clocked lo hi cs)
    (hle : lo ≤ hi) : Steady q r hi (run s cs) := by
  induction cs generalizing s lo with
  | nil => exact ⟨h.unmarked, fun st hst => ⟨(h.ready st hst).1.mono hle, (h.ready st hst).2⟩⟩
  | cons c cs ih =>
    obtain ⟨hlo, hhi, hrest⟩ := hclock
    have hnext := h.commit hr (hcs c List.mem_cons_self) hlo
    exact ih _ _ hnext (fun d hd => hcs d (List.mem_cons_of_mem _ hd)) hrest hhi

/-- A run hands out no more than the bucket allows until its end. -/
theorem Steady.handedOut_le_allowance (hr : Rate r R) {m : Int} (cs : List Call) (s : State)
    (lo : Int) (h : Steady q r lo s) (hcs : ∀ c ∈ cs, Rated q r c) (hclock : Clocked lo m cs)
    (hm : lo ≤ m) {st : RateLimiterState} (hst : s.rateLimiters.get q = some st) :
    (handedOut q s cs : Int) ≤ st.bucket.allowance R.toInt m := by
  induction cs generalizing s lo st with
  | nil =>
    obtain ⟨hready, _⟩ := h.ready st hst
    have hpast := hready.past
    have helapsed := Bucket.elapsed_nonneg hr.pos (by omega : 0 ≤ m - st.bucket.refilledAt)
    have hnonneg := hready.nonneg
    simp only [handedOut, Bucket.allowance]
    omega
  | cons c cs ih =>
    obtain ⟨hlo, hhi, hrest⟩ := hclock
    have hc := hcs c List.mem_cons_self
    have hcs' : ∀ c ∈ cs, Rated q r c := fun c hm => hcs c (List.mem_cons_of_mem _ hm)
    have hnext := h.commit hr hc hlo
    rw [handedOut]
    rcases h.step hr hc hlo with ⟨hnone, hsame⟩ | ⟨b, st', hb, hsame, hst', _, _, hbucket⟩
    · have hlater := ih _ _ hnext hcs' hrest hhi (hsame.trans hst)
      omega
    · have hlater := ih _ _ hnext hcs' hrest hhi hst'
      have hspend := (b.refill r.maxTokens.toInt R.toInt c.now.toInt).spend_allowance
        (R := R.toInt) (m := m) (c.handsOut q s)
      have hrefill := Bucket.refill_allowance (m := m) hr.pos hb
      rw [hbucket] at hlater
      rw [← hsame st hst]
      omega

/-- From any call on, a run hands out no more than a full bucket and one task for every
interval begun. -/
theorem Steady.handedOut_le (hr : Rate r R) {lo m n : Int} (cs : List Call) (s : State)
    (h : Steady q r lo s) (hcs : ∀ c ∈ cs, Rated q r c) (hclock : Clocked n m cs) (hlo : lo ≤ n)
    (hm : n ≤ m) :
    (handedOut q s cs : Int) ≤ r.maxTokens.toInt + (m - n + (R.toInt - 1)) / R.toInt := by
  have hpos := hr.pos
  have hmax := hr.tokens_pos
  induction cs generalizing s lo n with
  | nil =>
    have hnonneg := Bucket.elapsed_nonneg hpos (by omega : 0 ≤ m - n + (R.toInt - 1))
    simp only [handedOut]
    omega
  | cons c cs ih =>
    obtain ⟨hfirst, hhi, hrest⟩ := hclock
    have hc := hcs c List.mem_cons_self
    have hcs' : ∀ c ∈ cs, Rated q r c := fun c hm => hcs c (List.mem_cons_of_mem _ hm)
    have hnext := h.commit hr hc (hlo.trans hfirst)
    have hmono : (m - c.now.toInt + (R.toInt - 1)) / R.toInt ≤ (m - n + (R.toInt - 1)) / R.toInt :=
      Int.ediv_le_ediv hpos (by omega)
    rw [handedOut]
    rcases h.step hr hc (hlo.trans hfirst) with ⟨hnone, _⟩ | ⟨b, st, hb, _, hst, _, _, hbucket⟩
    · have hlater := ih _ hnext hcs' hrest (le_refl _) hhi
      omega
    · have hlater := hnext.handedOut_le_allowance hr cs _ _ hcs' hrest hhi hst
      have hspend := (b.refill r.maxTokens.toInt R.toInt c.now.toInt).spend_allowance
        (R := R.toInt) (m := m) (c.handsOut q s)
      have hbound := Bucket.refill_bound (m := m) hpos hb
      rw [hbucket] at hlater
      omega

/-- Under one setting the stored tokens stay between zero and the size of the bucket,
and any stretch of a run hands out no more than a full bucket and one task for every
refill interval begun. -/
theorem run_rate_limited (q : QueueId) (hr : Rate r R) (before : List Call) (first : Call)
    (rest : List Call) (hc : ∀ c ∈ before ++ first :: rest, Rated q r c)
    (hclock : (before ++ first :: rest).Pairwise (fun a b => a.now.toInt ≤ b.now.toInt)) :
    (∀ st, (Moab.run State.empty (before ++ first :: rest)).rateLimiters.get q = some st →
      0 ≤ st.tokens.toInt ∧ st.tokens.toInt ≤ r.maxTokens.toInt) ∧
    (handedOut q (Moab.run State.empty before) (first :: rest) : Int) ≤ r.maxTokens.toInt +
      (((first :: rest).getLast (by simp)).now.toInt - first.now.toInt + (R.toInt - 1)) /
        R.toInt := by
  have hnow : ∀ c ∈ before ++ first :: rest, 0 ≤ c.now.toInt := fun c hm => (hc c hm).now.1
  obtain ⟨hbefore, hstretch, hcross⟩ := List.pairwise_append.mp hclock
  have hfirst : ∀ c ∈ first :: rest, first.now.toInt ≤ c.now.toInt := by
    intro c hm
    rcases List.mem_cons.mp hm with rfl | hm
    · exact le_refl _
    · exact (List.pairwise_cons.mp hstretch).1 c hm
  have hlast : ∀ c ∈ first :: rest, c.now.toInt ≤ ((first :: rest).getLast (by simp)).now.toInt :=
    fun c hm => hstretch.rel_getLast_of_rel_getLast_getLast hm (le_refl _)
  have hstart : Steady q r first.now.toInt (Moab.run State.empty before) := by
    apply Steady.empty.run hr before
    · exact fun c hm => hc c (List.mem_append_left _ hm)
    · exact clocked_of_pairwise hbefore (fun c hm => ⟨hnow c (List.mem_append_left _ hm),
        hcross c hm first List.mem_cons_self⟩)
    · exact hnow first (List.mem_append_right _ List.mem_cons_self)
  have hrated : ∀ c ∈ first :: rest, Rated q r c := fun c hm => hc c (List.mem_append_right _ hm)
  have hclocked := clocked_of_pairwise hstretch (fun c hm => ⟨hfirst c hm, hlast c hm⟩)
  have hspan := hlast first List.mem_cons_self
  constructor
  · intro st hst
    have hend := hstart.run hr (first :: rest) _ _ hrated hclocked hspan
    have hsplit : Moab.run State.empty (before ++ first :: rest) =
        Moab.run (Moab.run State.empty before) (first :: rest) := by
      simp [Moab.run]
    rw [hsplit] at hst
    have hready := (hend.ready st hst).1
    exact ⟨hready.nonneg, hready.le_cap⟩
  · exact hstart.handedOut_le hr (first :: rest) _ hrated hclocked (le_refl _) hspan

end Runs

section Sizes

variable [OrderedStore] {s : State} {r : TokenBucketRateLimiting} {now : Time}
  {st : RateLimiterState}

/-- The stored tokens are no more than the bucket now holds, and adding the tokens that
came in does not wrap. -/
def fitsBucket (st : RateLimiterState) (r : TokenBucketRateLimiting) (now : Time) : Prop :=
  st.tokens ≤ r.maxTokens ∧ (st.tokens < r.maxTokens →
    match getRefillInterval r with
    | .ok R => st.tokens.toInt + ((now - st.lastRefilledAt) / R).toInt < 2 ^ 63
    | .error _ => True)

instance (st : RateLimiterState) (r : TokenBucketRateLimiting) (now : Time) :
    Decidable (fitsBucket st r now) := by
  unfold fitsBucket
  cases getRefillInterval r <;> infer_instance

omit [OrderedStore] in
theorem refillTokens_size (h : fitsBucket st r now) (hnonneg : 0 ≤ st.tokens.toInt) :
    Ensures True (refillTokens st r now)
      (fun st' => 0 ≤ st'.tokens.toInt ∧ st'.tokens.toInt ≤ r.maxTokens.toInt) := by
  obtain ⟨hsize, hroom⟩ := h
  have hsize' := Int64.le_iff_toInt_le.mp hsize
  unfold refillTokens
  cases hR : getRefillInterval r with
  | error e => exact Ensures.error trivial
  | ok R =>
    rw [hR] at hroom
    apply Ensures.ite
    · intro hlt
      apply Ensures.bind (P := fun n => n = (now - st.lastRefilledAt) / R)
      · apply Ensures.ite
        · exact fun _ => Ensures.error trivial
        · exact fun _ => Ensures.ok rfl
      intro n hn
      apply Ensures.ite
      · intro hpos
        have hsum : (st.tokens + n).toInt = st.tokens.toInt + n.toInt := by
          have hn' := toInt_pos.mpr hpos
          exact toInt_add_of_fits ⟨by omega, by rw [hn]; exact hroom hlt⟩
        apply Ensures.ite
        · exact fun _ => Ensures.ok ⟨by simp only; omega, le_refl _⟩
        · intro hfull
          have hle : (st.tokens + n).toInt ≤ r.maxTokens.toInt :=
            not_lt.mp (fun h => hfull (Int64.lt_iff_toInt_lt.mpr h))
          have hn' := toInt_pos.mpr hpos
          exact Ensures.ok ⟨by simp only [hsum]; omega, hle⟩
      · exact fun _ => Ensures.ok ⟨hnonneg, hsize'⟩
    · exact fun _ => Ensures.ok ⟨hnonneg, hsize'⟩

/-- A rate limited Dequeue finds a bucket that fits its setting. -/
def Call.fitsBucket (s : State) (c : Call) : Prop :=
  match c.op with
  | .dequeue req =>
    match rateLimitingOf req.dequeuingSettings with
    | some r => Moab.fitsBucket (s.getRateLimiter req.queueId r c.now) r c.now
    | none => True
  | _ => True

instance (s : State) (c : Call) : Decidable (c.fitsBucket s) := by
  unfold Call.fitsBucket
  split
  · split <;> infer_instance
  · infer_instance

/-- No limiter holds a negative number of tokens. -/
def Solvent (s : State) : Prop :=
  ∀ q st, s.rateLimiters.get q = some st → 0 ≤ st.tokens.toInt

omit [OrderedStore] in
theorem rateLimitingOf_pos {settings : Option DequeuingSettings}
    (h : rateLimitingOf settings = some r) : 0 < r.maxTokens.toInt := by
  obtain ⟨_, hpos⟩ := Option.filter_eq_some_iff.mp h
  exact toInt_pos.mpr (of_decide_eq_true hpos).2

theorem Solvent.rateLimiter (h : Solvent s) (q : QueueId) (now : Time)
    (hmax : 0 < r.maxTokens.toInt) : 0 ≤ (s.getRateLimiter q r now).tokens.toInt := by
  unfold State.getRateLimiter
  cases hget : s.rateLimiters.get q with
  | none => exact le_of_lt hmax
  | some st => exact h q st hget

/-- A rate limited Dequeue hands out no more than its bucket holds, and leaves no more
in it. -/
theorem Solvent.dequeue {req : DequeueRequest} (h : Solvent s)
    (hr : rateLimitingOf req.dequeuingSettings = some r)
    (hfits : Moab.fitsBucket (s.getRateLimiter req.queueId r now) r now) :
    Ensures True (exec s now (.dequeue req)) (fun a => (a.2.handedOut : Int) ≤ r.maxTokens.toInt ∧
      ∀ st, a.1.rateLimiters.get req.queueId = some st →
        0 ≤ st.tokens.toInt ∧ st.tokens.toInt ≤ r.maxTokens.toInt) := by
  have hmax := rateLimitingOf_pos hr
  have hnonneg := h.rateLimiter req.queueId now hmax
  apply (dequeue_charged s now req).mono
  intro a ha
  rcases ha with ⟨_, hs, hnone⟩ | ⟨limiter, hcharged⟩
  · rw [hs, hnone]
    refine ⟨by omega, ?_⟩
    intro st hst
    have hsize := hfits.1
    rw [State.getRateLimiter, hst] at hsize
    exact ⟨h _ st hst, Int64.le_iff_toInt_le.mp hsize⟩
  · have hrefilled := hcharged.refilled
    rw [rateLimiterFor, hr] at hrefilled
    cases hx : refillTokens (s.getRateLimiter req.queueId r now) r now with
    | error e =>
      dsimp only at hrefilled
      rw [hx] at hrefilled
      exact absurd hrefilled (by simp [bind, Except.bind])
    | ok st =>
      dsimp only at hrefilled
      rw [hx] at hrefilled
      obtain ⟨htokens, hle⟩ := (refillTokens_size hfits hnonneg).elim hx
      have hlimiter : limiter = some st := (Except.ok.inj hrefilled).symm
      have hallowed := hcharged.allowed
      have hlimit := effectiveLimit_le st req.dequeueLimit
      have hset := hcharged.charged
      rw [hlimiter] at hallowed hset
      have hpaid : (a.2.handedOut : Int) ≤ st.tokens.toInt := by omega
      have hleft := charge_toInt hpaid
      refine ⟨by omega, ?_⟩
      intro st' hst'
      rw [hset] at hst'
      obtain rfl := Option.some.inj ((Table.get_set_self _ _ _).symm.trans hst')
      simp only [hleft]
      exact ⟨by omega, by omega⟩

theorem Solvent.commit {c : Call} (h : Solvent s) (hfits : c.fitsBucket s) :
    Solvent (commit s c.now c.op) := by
  apply commit_limiters h
  intro req r st n hop hr hst hn
  rw [Call.fitsBucket, hop] at hfits
  simp only [hr] at hfits
  have hmax := rateLimitingOf_pos hr
  have htokens := ((refillTokens_size hfits (h.rateLimiter req.queueId c.now hmax)).elim hst).1
  have hlimit := effectiveLimit_le st req.dequeueLimit
  have hpaid : (n : Int) ≤ st.tokens.toInt := by omega
  simp only [charge_toInt hpaid]
  omega

theorem along_snoc {P : State → Call → Prop} {calls : List Call} {c : Call} {s : State}
    (h : Along runStep P s (calls ++ [c])) : Along runStep P s calls ∧ P (run s calls) c := by
  induction calls generalizing s with
  | nil => exact ⟨trivial, h.1⟩
  | cons d calls ih =>
    obtain ⟨hcalls, hc⟩ := ih (h.tail rfl)
    exact ⟨⟨h.1, hcalls⟩, hc⟩

/-- In a run whose rate limited Dequeues all find a bucket that fits their setting,
each hands out at most as many tasks as its bucket holds and stores a token count
between zero and that. -/
theorem run_bucket_size (calls : List Call) (now : Time) (req : DequeueRequest)
    (h : Along runStep Call.fitsBucket State.empty (calls ++ [⟨now, .dequeue req⟩]))
    (hr : rateLimitingOf req.dequeuingSettings = some r) (a : State × Response)
    (ha : exec (run State.empty calls) now (.dequeue req) = .ok a) :
    (a.2.handedOut : Int) ≤ r.maxTokens.toInt ∧ ∀ st, a.1.rateLimiters.get req.queueId = some st →
      0 ≤ st.tokens.toInt ∧ st.tokens.toInt ≤ r.maxTokens.toInt := by
  obtain ⟨hcalls, hfits⟩ := along_snoc h
  have hempty : Solvent State.empty := by
    intro q st hst
    simp [State.empty] at hst
  have hsolvent : Solvent (run State.empty calls) :=
    run_keeps (fun _ _ hs hc => hs.commit hc) calls _ hcalls hempty
  simp only [Call.fitsBucket, hr] at hfits
  exact (hsolvent.dequeue hr hfits).elim ha

end Sizes

section Samples

/-- Two tokens a second. -/
def twoPerSecond : TokenBucketRateLimiting := ⟨2, 1, .seconds⟩

def limitedQueue : QueueId := ⟨1, 3⟩

def limitedEntry : EnqueueRequestEntry := ⟨[], 0, 9000000000, [], none, [], []⟩

def fillLimited : Call :=
  ⟨5, .enqueue ⟨limitedQueue, [limitedEntry, limitedEntry, limitedEntry, limitedEntry]⟩⟩

def limitedDequeue (r : TokenBucketRateLimiting) : Op :=
  .dequeue ⟨limitedQueue, some ⟨0, some r, false⟩, 10, none, 60⟩

theorem twoPerSecond_rate : Rate twoPerSecond 500000000 where
  tokens_pos := by decide
  tokens_lt := by decide
  fits := ⟨by decide, by decide⟩
  interval := by decide
  pos := by decide

/-- Three tasks in little more than half a second: a full bucket and one refill. -/
theorem run_rate_limited_burst :
    handedOut limitedQueue (run State.empty [fillLimited]) [⟨10, limitedDequeue twoPerSecond⟩,
      ⟨600000000, limitedDequeue twoPerSecond⟩] = 3 ∧
    (handedOut limitedQueue (run State.empty [fillLimited]) [⟨10, limitedDequeue twoPerSecond⟩,
      ⟨600000000, limitedDequeue twoPerSecond⟩] : Int) ≤
        2 + (600000000 - 10 + 499999999) / 500000000 := by
  refine ⟨by decide +kernel, (run_rate_limited limitedQueue twoPerSecond_rate [fillLimited]
    ⟨10, limitedDequeue twoPerSecond⟩ [⟨600000000, limitedDequeue twoPerSecond⟩] ?_ ?_).2⟩
  · intro c hm
    simp only [List.cons_append, List.nil_append, List.mem_cons, List.not_mem_nil, or_false] at hm
    rcases hm with rfl | rfl | rfl
    · exact ⟨by decide, trivial, by simp [fillLimited]⟩
    · exact ⟨by decide, fun _ => rfl, by simp [limitedDequeue]⟩
    · exact ⟨by decide, fun _ => rfl, by simp [limitedDequeue]⟩
  · decide

/-- A bucket of two is raised to five, and two more tasks are handed out. -/
theorem run_bucket_size_raised : ∃ a,
    exec (run State.empty [fillLimited, ⟨10, limitedDequeue twoPerSecond⟩]) 600000000
      (limitedDequeue ⟨5, 1, .seconds⟩) = .ok a ∧ a.2.handedOut = 2 ∧ (a.2.handedOut : Int) ≤ 5 ∧
    ∀ st, a.1.rateLimiters.get limitedQueue = some st →
      0 ≤ st.tokens.toInt ∧ st.tokens.toInt ≤ 5 := by
  have hruns : Ensures False (exec (run State.empty [fillLimited,
      ⟨10, limitedDequeue twoPerSecond⟩]) 600000000 (limitedDequeue ⟨5, 1, .seconds⟩))
      (fun a => a.2.handedOut = 2) := by decide +kernel
  obtain ⟨a, ha, htwo⟩ := hruns.returns
  exact ⟨a, ha, htwo, run_bucket_size (r := ⟨5, 1, .seconds⟩) [fillLimited,
    ⟨10, limitedDequeue twoPerSecond⟩] 600000000 _ (by decide +kernel) (by decide) a ha⟩

/-- A bucket of five is lowered to two: all four tasks are handed out at once. -/
theorem run_bucket_lowered : Call.handsOut limitedQueue (run State.empty
    [⟨1, limitedDequeue ⟨5, 1, .seconds⟩⟩, fillLimited]) ⟨10, limitedDequeue twoPerSecond⟩ = 4 := by
  decide +kernel

end Samples

end Moab
