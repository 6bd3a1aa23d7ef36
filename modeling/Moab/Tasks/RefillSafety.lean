import Moab.Tasks.RateLimits
import Moab.Tasks.Unthreaded
import Moab.Validators

namespace Moab

open OrderedStore

section Arithmetic

variable {r : TokenBucketRateLimiting} {st : RateLimiterState} {now : Time}

/-- A time before 2^62, as a clock in nanoseconds gives. -/
def InRange (t : Time) : Prop := 0 ≤ t.toInt ∧ t.toInt < 2 ^ 62

/-- Nothing in the refill wraps around, and it divides by a positive interval. -/
def RefillSafe (r : TokenBucketRateLimiting) (st : RateLimiterState) (now : Time) : Prop :=
  (r.interval * r.intervalUnit.duration).toInt = r.interval.toInt * r.intervalUnit.nanos ∧
  ∃ R, getRefillInterval r = .ok R ∧ 0 < R.toInt ∧ (st.tokens < r.maxTokens →
    (now - st.lastRefilledAt).toInt = now.toInt - st.lastRefilledAt.toInt ∧
    (0 < (now - st.lastRefilledAt) / R →
      (st.tokens + (now - st.lastRefilledAt) / R).toInt =
        st.tokens.toInt + ((now - st.lastRefilledAt) / R).toInt ∧
      (st.lastRefilledAt + (now - st.lastRefilledAt) / R * R).toInt =
        st.lastRefilledAt.toInt + ((now - st.lastRefilledAt) / R).toInt * R.toInt))

/-- The interval covers every token with a nanosecond, fits into 64 bits, and the tokens
of the longest wait fit on top of a bucket that is not full. -/
def Sized (r : TokenBucketRateLimiting) : Prop :=
  r.maxTokens.toInt ≤ r.interval.toInt * r.intervalUnit.nanos ∧
  r.interval.toInt * r.intervalUnit.nanos < 2 ^ 63 ∧
  r.maxTokens.toInt - 1 +
    (2 ^ 62 - 1) / (r.interval.toInt * r.intervalUnit.nanos / r.maxTokens.toInt) < 2 ^ 63

/-- The refill interval of a limit that fits. -/
theorem getRefillInterval_toInt (hunit : r.intervalUnit ≠ .invalid) (hi : 0 < r.interval.toInt)
    (hmax : 0 < r.maxTokens.toInt)
    (hprod : (r.interval * r.intervalUnit.duration).toInt =
      r.interval.toInt * r.intervalUnit.nanos) :
    ∃ R, getRefillInterval r = .ok R ∧
      R.toInt = r.interval.toInt * r.intervalUnit.nanos / r.maxTokens.toInt := by
  have hne : r.maxTokens ≠ 0 := by
    intro he
    rw [he] at hmax
    exact absurd hmax (by decide)
  refine ⟨_, getRefillInterval_valid hunit hne, ?_⟩
  have hnonneg : 0 ≤ r.interval.toInt * r.intervalUnit.nanos :=
    Int.mul_nonneg (by omega) r.intervalUnit.nanos_nonneg
  rw [toInt_div_of_nonneg (by omega), hprod]

theorem Sized.product (h : Sized r) (hmax : 0 < r.maxTokens.toInt) :
    (r.interval * r.intervalUnit.duration).toInt = r.interval.toInt * r.intervalUnit.nanos := by
  obtain ⟨hcover, hfits, _⟩ := h
  rw [toInt_mul_of_fits (by rw [IntervalUnit.duration_toInt]; exact ⟨by omega, hfits⟩),
    IntervalUnit.duration_toInt]

theorem Sized.safe (h : Sized r) (hunit : r.intervalUnit ≠ .invalid) (hi : 0 < r.interval.toInt)
    (hmax : 0 < r.maxTokens.toInt) (hlast : InRange st.lastRefilledAt) (hnow : InRange now) :
    RefillSafe r st now := by
  have hprod := h.product hmax
  obtain ⟨R, hR, hquot⟩ := getRefillInterval_toInt hunit hi hmax hprod
  obtain ⟨hcover, _, hroom⟩ := h
  have hpos : 1 ≤ R.toInt := by
    rw [hquot]
    exact (Int.le_ediv_iff_mul_le hmax).mpr (by omega)
  rw [← hquot] at hroom
  refine ⟨hprod, R, hR, hpos, fun hlt => ?_⟩
  have hlt' := Int64.lt_iff_toInt_lt.mp hlt
  obtain ⟨hlast0, hlast1⟩ := hlast
  obtain ⟨hnow0, hnow1⟩ := hnow
  have helapsed : (now - st.lastRefilledAt).toInt = now.toInt - st.lastRefilledAt.toInt :=
    toInt_sub_of_fits ⟨by omega, by omega⟩
  have hnew : ((now - st.lastRefilledAt) / R).toInt =
      (now.toInt - st.lastRefilledAt.toInt).tdiv R.toInt := by
    rw [toInt_div_of_lt (by omega), helapsed]
  refine ⟨helapsed, fun hsome => ?_⟩
  have hsome' := toInt_pos.mpr hsome
  rw [hnew] at hsome'
  have hforward : 0 ≤ now.toInt - st.lastRefilledAt.toInt := by
    by_contra hback
    have hnone := tdiv_nonpos (by omega : now.toInt - st.lastRefilledAt.toInt ≤ 0)
      (by omega : 0 ≤ R.toInt)
    omega
  have hfew : (now.toInt - st.lastRefilledAt.toInt).tdiv R.toInt ≤ (2 ^ 62 - 1) / R.toInt := by
    rw [Int.tdiv_eq_ediv_of_nonneg hforward]
    exact Int.ediv_le_ediv (by omega) (by omega)
  have hbetween := tdiv_mul_between st.lastRefilledAt.toInt
    (now.toInt - st.lastRefilledAt.toInt) R.toInt
  have hlow := st.tokens.le_toInt
  have hgain : ((now - st.lastRefilledAt) / R * R).toInt =
      (now.toInt - st.lastRefilledAt.toInt).tdiv R.toInt * R.toInt := by
    rw [toInt_mul_of_fits (by rw [hnew]; exact ⟨by omega, by omega⟩), hnew]
  constructor
  · exact toInt_add_of_fits (by rw [hnew]; exact ⟨by omega, by omega⟩)
  · rw [toInt_add_of_fits (by rw [hgain]; exact ⟨by omega, by omega⟩), hgain, hnew]

/-- Whatever the setting, a refill moves the time of the last refill towards now. -/
theorem refillTokens_inRange (hlast : InRange st.lastRefilledAt) (hnow : InRange now) :
    Ensures True (refillTokens st r now) (fun st' => InRange st'.lastRefilledAt) := by
  obtain ⟨hlast0, hlast1⟩ := hlast
  obtain ⟨hnow0, hnow1⟩ := hnow
  apply Ensures.bind_any
  intro R
  apply Ensures.ite
  · intro _
    apply Ensures.bind (P := fun n => n = (now - st.lastRefilledAt) / R)
    · apply Ensures.ite
      · exact fun _ => Ensures.error trivial
      · exact fun _ => Ensures.ok rfl
    intro n hn
    apply Ensures.ite
    · intro _
      apply Ensures.ite
      · exact fun _ => Ensures.ok ⟨hnow0, hnow1⟩
      · intro _
        apply Ensures.ok
        have helapsed : (now - st.lastRefilledAt).toInt = now.toInt - st.lastRefilledAt.toInt :=
          toInt_sub_of_fits ⟨by omega, by omega⟩
        have hnew : n.toInt = (now.toInt - st.lastRefilledAt.toInt).tdiv R.toInt := by
          rw [hn, toInt_div_of_lt (by omega), helapsed]
        have hbetween := tdiv_mul_between st.lastRefilledAt.toInt
          (now.toInt - st.lastRefilledAt.toInt) R.toInt
        have hgain : (n * R).toInt =
            (now.toInt - st.lastRefilledAt.toInt).tdiv R.toInt * R.toInt := by
          rw [toInt_mul_of_fits (by rw [hnew]; exact ⟨by omega, by omega⟩), hnew]
        have hmoved : (st.lastRefilledAt + n * R).toInt = st.lastRefilledAt.toInt +
            (now.toInt - st.lastRefilledAt.toInt).tdiv R.toInt * R.toInt := by
          rw [toInt_add_of_fits (by rw [hgain]; exact ⟨by omega, by omega⟩), hgain]
        exact ⟨by simp only [hmoved]; omega, by simp only [hmoved]; omega⟩
    · exact fun _ => Ensures.ok ⟨hlast0, hlast1⟩
  · exact fun _ => Ensures.ok ⟨hnow0, hnow1⟩

end Arithmetic

section Runs

variable [OrderedStore] {s : State} {r : TokenBucketRateLimiting}

/-- Every limiter was last refilled in range. -/
def RefilledInRange (s : State) : Prop :=
  ∀ q st, s.rateLimiters.get q = some st → InRange st.lastRefilledAt

theorem RefilledInRange.rateLimiter (h : RefilledInRange s) (q : QueueId) {now : Time}
    (hnow : InRange now) : InRange (s.getRateLimiter q r now).lastRefilledAt := by
  unfold State.getRateLimiter
  cases hget : s.rateLimiters.get q with
  | none => exact hnow
  | some st => exact h q st hget

theorem RefilledInRange.commit {c : Call} (h : RefilledInRange s) (hnow : InRange c.now) :
    RefilledInRange (commit s c.now c.op) := by
  apply commit_limiters (K := fun st => InRange st.lastRefilledAt) h
  intro req r st n _ _ hst _
  have hmoved := refillTokens_inRange (r := r) (h.rateLimiter (r := r) req.queueId hnow) hnow
  exact Ensures.elim (P := fun st => InRange st.lastRefilledAt) hmoved hst

theorem run_refilledInRange (calls : List Call) (h : ∀ c ∈ calls, InRange c.now) :
    RefilledInRange (run State.empty calls) := by
  apply run_keeps (fun _ _ hs hc => hs.commit hc) calls _ (Along.of_mem h)
  intro q st hst
  simp [State.empty] at hst

/-- A Dequeue at time zero with a bucket of one token less. -/
def dequeueOneLess (r : TokenBucketRateLimiting) (q : QueueId) : Call :=
  ⟨0, .dequeue ⟨q, some ⟨0, some { r with maxTokens := r.maxTokens - 1 }, false⟩, 0, none, 0⟩⟩

theorem run_nearly_full (hunit : r.intervalUnit ≠ .invalid) (hi : 0 < r.interval.toInt)
    (hmax : 1 < r.maxTokens.toInt)
    (hcover : r.maxTokens.toInt ≤ r.interval.toInt * r.intervalUnit.nanos)
    (hprod : (r.interval * r.intervalUnit.duration).toInt = r.interval.toInt * r.intervalUnit.nanos)
    (q : QueueId) :
    (run State.empty [dequeueOneLess r q]).rateLimiters.get q = some ⟨r.maxTokens - 1, 0⟩ := by
  let r' : TokenBucketRateLimiting := { r with maxTokens := r.maxTokens - 1 }
  let req : DequeueRequest := ⟨q, some ⟨0, some r', false⟩, 0, none, 0⟩
  have hone : (1 : Time).toInt = 1 := rfl
  have hless : r'.maxTokens.toInt = r.maxTokens.toInt - 1 := by
    have hlt := r.maxTokens.toInt_lt
    exact toInt_sub_of_fits ⟨by omega, by omega⟩
  obtain ⟨R, hR, hquot⟩ := getRefillInterval_toInt (r := r') hunit hi (by omega) hprod
  have hpos : 1 ≤ R.toInt := by
    rw [hquot, hless]
    exact (Int.le_ediv_iff_mul_le (by omega)).mpr (by
      change 1 * _ ≤ r.interval.toInt * r.intervalUnit.nanos
      omega)
  have hlimited : rateLimitingOf req.dequeuingSettings = some r' := by
    have hinterval : r'.interval > 0 := toInt_pos.mp hi
    have htokens : r'.maxTokens > 0 := toInt_pos.mp (by omega)
    simp [req, rateLimitingOf, Option.filter, hinterval, htokens]
  have hrefills : (Op.dequeue req).refills := by
    intro r₁ hr₁
    obtain rfl := Option.some.inj (hlimited.symm.trans hr₁)
    refine ⟨R, hR, fun he => ?_⟩
    rw [he] at hpos
    exact absurd hpos (by decide)
  obtain ⟨a, ha⟩ := (Sound.empty.serves).returns 0 (.dequeue req) (by simp [Op.threaded]) hrefills
  have hcommit : run State.empty [dequeueOneLess r q] = a.1 := by
    change commit State.empty 0 (.dequeue req) = a.1
    rw [commit, ha]
  rcases (dequeue_charged State.empty 0 req).elim ha with ⟨hmark, _⟩ | ⟨limiter, hcharged⟩
  · exact absurd (Table.get_empty q) hmark
  have hrefill : refillTokens (State.empty.getRateLimiter q r' 0) r' 0 =
      .ok ⟨r.maxTokens - 1, 0⟩ := by
    have hfull : State.empty.getRateLimiter q r' 0 = ⟨r.maxTokens - 1, 0⟩ := by
      simp [State.getRateLimiter, State.empty, r']
    have hnot : ¬r.maxTokens - 1 < r'.maxTokens := fun h => by
      have hlt := Int64.lt_iff_toInt_lt.mp h
      exact absurd hlt (lt_irrefl _)
    rw [hfull, refillTokens, hR]
    simp [hnot, bind, Except.bind]
  have hlimiter : limiter = some ⟨r.maxTokens - 1, 0⟩ := by
    have hrefilled := hcharged.refilled
    rw [rateLimiterFor, hlimited] at hrefilled
    dsimp only at hrefilled
    rw [hrefill] at hrefilled
    exact (Except.ok.inj hrefilled).symm
  have hnone : a.2.handedOut = 0 := by
    have hallowed := hcharged.allowed
    have hzero : effectiveLimit limiter req.dequeueLimit = 0 := by
      have hnot : ¬r.maxTokens - 1 < 0 := fun h => by
        have hlt := Int64.lt_iff_toInt_lt.mp h
        change r'.maxTokens.toInt < 0 at hlt
        omega
      simp [hlimiter, effectiveLimit, req, hnot]
    rw [hzero] at hallowed
    have hint : (0 : Time).toInt = 0 := rfl
    omega
  rw [hcommit, hcharged.charged, hlimiter, hnone]
  have hsame : r.maxTokens - 1 - Int64.ofNat 0 = r.maxTokens - 1 := Int64.sub_zero _
  change (State.empty.rateLimiters.set q ⟨r.maxTokens - 1 - Int64.ofNat 0, 0⟩).get q = _
  rw [hsame]
  exact Table.get_set_self _ _ _

/-- The rate limiter of an admitted setting computes safely, whatever the run and the
clock, exactly when the setting is sized for 64 bits. -/
theorem refill_safe_iff {settings : DequeuingSettings} {fieldName : String}
    (hvalid : Server.validateDequeuingSettings (some settings) fieldName = .ok () ∧
      Corepb.validateDequeuingSettings (some settings) = .ok ())
    (hr : settings.rateLimiting = some r) (hi : 0 < r.interval) (hmax : 0 < r.maxTokens) :
    (∀ calls q now, (∀ c ∈ calls, InRange c.now) → InRange now →
      RefillSafe r ((run State.empty calls).getRateLimiter q r now) now) ↔ Sized r := by
  have hunit := ((checkDequeuingSettings_ok.mp hvalid.2).2 r hr).2.2
  have hi' := toInt_pos.mpr hi
  have hmax' := toInt_pos.mpr hmax
  constructor
  · intro h
    have hzero : InRange 0 := ⟨by decide, by decide⟩
    obtain ⟨hprod, R, hR, hpos, _⟩ := h [] ⟨0, 0⟩ 0 (by simp) hzero
    obtain ⟨R', hR', hquot⟩ := getRefillInterval_toInt hunit hi' hmax' hprod
    obtain rfl := Except.ok.inj (hR.symm.trans hR')
    have hcover : r.maxTokens.toInt ≤ r.interval.toInt * r.intervalUnit.nanos := by
      rw [hquot] at hpos
      have hmul := (Int.le_ediv_iff_mul_le hmax').mp
        (by omega : 1 ≤ r.interval.toInt * r.intervalUnit.nanos / r.maxTokens.toInt)
      omega
    have hfits : r.interval.toInt * r.intervalUnit.nanos < 2 ^ 63 := by
      rw [← hprod]
      exact Int64.toInt_lt _
    refine ⟨hcover, hfits, ?_⟩
    rw [← hquot]
    have htop : ((2 : Int) ^ 62 - 1) / R.toInt ≤ 2 ^ 62 - 1 := Int.ediv_le_self _ (by omega)
    by_cases hsmall : r.maxTokens.toInt = 1
    · omega
    -- a bucket one short of full, refilled at zero and next at the last moment in range
    have hmost : InRange 4611686018427387903 := ⟨by decide, by decide⟩
    have hshort := run_nearly_full hunit hi' (by omega) hcover hprod ⟨0, 0⟩
    obtain ⟨_, R₁, hR₁, _, hsafe⟩ := h [dequeueOneLess r ⟨0, 0⟩] ⟨0, 0⟩ 4611686018427387903
      (by intro c hc; rw [List.mem_singleton.mp hc]; exact hzero) hmost
    obtain rfl := Except.ok.inj (hR.symm.trans hR₁)
    rw [State.getRateLimiter, hshort, Option.getD_some] at hsafe
    have hone : (1 : Time).toInt = 1 := rfl
    have hless : (r.maxTokens - 1).toInt = r.maxTokens.toInt - 1 := by
      have hlt := r.maxTokens.toInt_lt
      exact toInt_sub_of_fits ⟨by omega, by omega⟩
    obtain ⟨helapsed, hadd⟩ := hsafe (Int64.lt_iff_toInt_lt.mpr (by rw [hless]; omega))
    have hwait : ((4611686018427387903 : Time) - 0).toInt = 2 ^ 62 - 1 := by decide
    have hnew : (((4611686018427387903 : Time) - 0) / R).toInt = (2 ^ 62 - 1) / R.toInt := by
      rw [toInt_div_of_nonneg (by rw [hwait]; omega), hwait]
    by_cases hsome : 0 < ((4611686018427387903 : Time) - 0) / R
    · have hsum := (hadd hsome).1
      rw [hnew, hless] at hsum
      rw [← hsum]
      exact Int64.toInt_lt _
    · have hnone : ((2 : Int) ^ 62 - 1) / R.toInt ≤ 0 := by
        rw [← hnew]
        exact not_lt.mp (fun hlt => hsome (toInt_pos.mp hlt))
      have hlt := r.maxTokens.toInt_lt
      omega
  · intro h calls q now hcalls hnow
    have hstored := run_refilledInRange calls hcalls
    exact h.safe hunit hi' hmax' (hstored.rateLimiter q hnow) hnow

end Runs

section Samples

def fifteenPerHour : TokenBucketRateLimiting := ⟨15, 1, .hours⟩

theorem refill_safe_hourly : RefillSafe fifteenPerHour ((run State.empty [fillLimited,
    ⟨10, limitedDequeue fifteenPerHour⟩]).getRateLimiter limitedQueue fifteenPerHour 20) 20 := by
  have hvalid : Server.validateDequeuingSettings (some ⟨0, some fifteenPerHour, false⟩)
      "CreateQueueRequest.DequeuingSettings" = .ok () ∧
      Corepb.validateDequeuingSettings (some ⟨0, some fifteenPerHour, false⟩) = .ok () := ⟨rfl, rfl⟩
  apply (refill_safe_iff hvalid rfl (by decide) (by decide)).mpr
  · exact ⟨by decide, by decide, by decide⟩
  · intro c hc
    simp only [List.mem_cons, List.not_mem_nil, or_false] at hc
    rcases hc with rfl | rfl
    · exact ⟨by decide, by decide⟩
    · exact ⟨by decide, by decide⟩
  · exact ⟨by decide, by decide⟩

/-- More tokens than nanoseconds. -/
def twoPerNanosecond : TokenBucketRateLimiting := ⟨2000000000, 1, .seconds⟩

/-- The setting passes both checks, and the second Dequeue divides by zero. -/
theorem refill_divides_by_zero :
    Server.validateDequeuingSettings (some ⟨0, some twoPerNanosecond, false⟩)
      "CreateQueueRequest.DequeuingSettings" = .ok () ∧
    Corepb.validateDequeuingSettings (some ⟨0, some twoPerNanosecond, false⟩) = .ok () ∧
    (exec (run State.empty [fillLimited, ⟨10, limitedDequeue twoPerNanosecond⟩]) 20
      (limitedDequeue twoPerNanosecond)).map (fun _ => ()) = .error .divideByZero := by
  refine ⟨rfl, rfl, ?_⟩
  decide +kernel

end Samples

end Moab
