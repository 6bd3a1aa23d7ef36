import Moab.Tasks.Refine

namespace Moab

open OrderedStore

variable [OrderedStore] {now : Time} {t t' : Task} {o : Option Task}

section Budget

omit [OrderedStore]

/-- The intervals of a retry strategy. A task without a strategy has none. -/
def intervalsOf (strategy : Option RetryStrategy) : List Time :=
  (strategy.map (·.retryIntervalsInSeconds)).getD []

/-- From its first delivery on, a task is exhausted once it has been handed out more often
than it has intervals. -/
theorem exhausted_iff (h : 1 ≤ t.attempts) :
    t.exhausted = true ↔ ((intervalsOf t.retryStrategy).length : Int) < t.attempts := by
  unfold Task.exhausted intervalsOf
  cases t.retryStrategy with
  | none => simp; omega
  | some strategy => simp

theorem retryInterval_eq {interval : Time} (h : retryInterval t = .ok interval) :
    (intervalsOf t.retryStrategy)[(t.attempts - 1).toNat]? = some interval := by
  unfold retryInterval at h
  unfold intervalsOf
  cases hr : t.retryStrategy with
  | none => simp [hr] at h
  | some strategy =>
    simp only [hr] at h
    split_ifs at h
    cases hi : strategy.retryIntervalsInSeconds[(t.attempts - 1).toNat]? with
    | none =>
      rw [hi] at h
      cases h
    | some i =>
      rw [hi] at h
      rw [← Except.ok.inj h]
      exact hi

end Budget

section Rows

omit [OrderedStore]

/-- A row after some changes: it is in the given state, and has been handed out n more
times. -/
structure Task.Turned (t t' : Task) (state : TaskState) (n : Int) : Prop where
  state : t'.state = state
  attempts : t'.attempts = t.attempts + n
  retryStrategy : t'.retryStrategy = t.retryStrategy

theorem Task.Turned.refl (t : Task) : t.Turned t t.state 0 := ⟨rfl, (Int.add_zero _).symm, rfl⟩

theorem Task.Turned.trans {t'' : Task} (h : t.Turned t' t.state 0) (k : t'.Turned t'' t'.state 0) :
    t.Turned t'' t.state 0 where
  state := k.state.trans h.state
  attempts := by rw [k.attempts, h.attempts]; omega
  retryStrategy := k.retryStrategy.trans h.retryStrategy

/-- A failure before the deadline that leaves the task a retry. -/
structure Retries (now : Time) (t : Task) (interval : Time) : Prop where
  unexpired : ¬t.expiresAt < now
  exhausted : t.exhausted = false
  interval : retryInterval t = .ok interval

/-- What a failed delivery makes of a row. -/
inductive Failure (now : Time) (t : Task) : Option Task → Prop where
  | retried {interval : Time} (h : Retries now t interval) :
    Failure now t (some (t.retry now interval))
  | buried {t' : Task} (h : t.exhausted = true) (turned : t.Turned t' .dead 0) :
    Failure now t (some t')
  | gone (h : t.expiresAt < now ∨ t.exhausted = true) : Failure now t none

/-- What one call makes of a row, with the number of its failures and of its deliveries. -/
inductive Fate (now : Time) (t : Task) : Nat → Nat → Option Task → Prop where
  | gone : Fate now t 0 0 none
  | kept {t' : Task} (turned : t.Turned t' t.state 0) : Fate now t 0 0 (some t')
  | delivered (state : t.state = .enqueued) (keepalive : Time) :
    Fate now t 0 1 (some (t.lease now keepalive))
  | failed {o : Option Task} (state : t.state = .inProgress) (h : Failure now t o) :
    Fate now t 1 0 o
  | again {interval : Time} (state : t.state = .inProgress) (h : Retries now t interval)
    (keepalive : Time) : Fate now t 1 1 (some ((t.retry now interval).lease now keepalive))

/-- The excess of the dead letter queue goes: nothing but a dead task. -/
def Evicted (o o' : Option Task) : Prop :=
  o' = o ∨ o' = none ∧ ∃ t, o = some t ∧ t.state = .dead

theorem Evicted.refl (o : Option Task) : Evicted o o := Or.inl rfl

theorem Evicted.trans {o o' o'' : Option Task} (h : Evicted o o') (k : Evicted o' o'') :
    Evicted o o'' := by
  rcases h with rfl | ⟨rfl, hdead⟩
  · exact k
  · rcases k with rfl | ⟨_, t, ht, _⟩
    · exact Or.inr ⟨rfl, hdead⟩
    · exact absurd ht (by simp)

/-- A task that is not dead is not evicted. -/
theorem Evicted.eq {o' : Option Task} (h : Evicted (some t) o') (state : t.state ≠ .dead) :
    o' = some t := by
  rcases h with h | ⟨_, u, hu, hdead⟩
  · exact h
  · rw [← Option.some.inj hu] at hdead
    exact absurd hdead state

theorem Failure.evicted {o' : Option Task} (h : Failure now t o) (he : Evicted o o') :
    Failure now t o' := by
  cases h with
  | retried hr => exact he.eq (by simp [Task.retry]) ▸ .retried hr
  | buried hx turned =>
    rcases he with rfl | ⟨rfl, _⟩
    · exact .buried hx turned
    · exact .gone (Or.inr hx)
  | gone hx =>
    rcases he with rfl | ⟨rfl, _⟩ <;> exact .gone hx

/-- Renewals of the lease make no difference to a failure. -/
theorem Failure.renewed {visibleAt : Time} (h : Failure now { t with visibleAt := visibleAt } o) :
    Failure now t o := by
  cases h with
  | retried hr => exact .retried { hr with }
  | buried hx turned => exact .buried hx { turned with }
  | gone hx => exact .gone hx

theorem Fate.renewed {f : Nat} {visibleAt : Time}
    (h : Fate now { t with visibleAt := visibleAt } f 0 o) : Fate now t f 0 o := by
  cases h with
  | gone => exact .gone
  | kept turned => exact .kept { turned with }
  | failed state hf => exact .failed state hf.renewed

/-- A call fails a task once, and may hand it out again only after a retry. -/
theorem Fate.of_failures {f d : Nat} (h : Fate now t f d o) (hf : f ≠ 0) :
    f = 1 ∧ t.state = .inProgress ∧ (d = 0 ∧ Failure now t o ∨ d = 1 ∧ ∃ interval keepalive,
      Retries now t interval ∧ o = some ((t.retry now interval).lease now keepalive)) := by
  cases h with
  | failed state hfail => exact ⟨rfl, state, Or.inl ⟨rfl, hfail⟩⟩
  | again state hr keepalive => exact ⟨rfl, state, Or.inr ⟨rfl, _, keepalive, hr, rfl⟩⟩
  | _ => exact absurd rfl hf

theorem Fate.evicted (h : Evicted (some t) o) : Fate now t 0 0 o := by
  rcases h with rfl | ⟨rfl, _⟩
  · exact .kept (.refl t)
  · exact .gone

/-- The deliveries and failures of a task that are on the books when it has the row t. -/
structure Within (strategy : Option RetryStrategy) (deliveries failures : Nat)
    (t : Task) : Prop where
  retryStrategy : t.retryStrategy = strategy
  attempts : t.attempts = deliveries
  enqueued : t.state = .enqueued →
    deliveries = failures ∧ failures ≤ (intervalsOf strategy).length
  inProgress : t.state = .inProgress →
    deliveries = failures + 1 ∧ failures ≤ (intervalsOf strategy).length
  spent : deliveries ≤ (intervalsOf strategy).length + 1

namespace Within

variable {strategy : Option RetryStrategy} {d f : Nat}

/-- A new task has neither been handed out nor failed. -/
theorem new (attempts : t.attempts = 0) (state : t.state = .enqueued) :
    Within t.retryStrategy 0 0 t where
  retryStrategy := rfl
  attempts := attempts
  enqueued _ := ⟨rfl, Nat.zero_le _⟩
  inProgress h := by simp [state] at h
  spent := Nat.zero_le _

/-- A leased task is exhausted by its last failure, and has an interval for every other. -/
theorem exhausted_iff (h : Within strategy d f t) (state : t.state = .inProgress) :
    t.exhausted = true ↔ f = (intervalsOf strategy).length := by
  have hb := h.inProgress state
  have ha := h.attempts
  rw [Moab.exhausted_iff (by omega), h.retryStrategy]
  omega

theorem interval_eq (h : Within strategy d f t) (state : t.state = .inProgress) {interval : Time}
    (hi : retryInterval t = .ok interval) : (intervalsOf strategy)[f]? = some interval := by
  have hb := h.inProgress state
  have ha := h.attempts
  have hk := retryInterval_eq hi
  rw [h.retryStrategy] at hk
  rwa [show (t.attempts - 1).toNat = f by omega] at hk

/-- A retry counts as a failure, and waits for its delivery. -/
theorem retried (h : Within strategy d f t) (state : t.state = .inProgress) {interval : Time}
    (hr : Retries now t interval) : Within strategy d (f + 1) (t.retry now interval) where
  retryStrategy := h.retryStrategy
  attempts := h.attempts
  enqueued _ := by
    have hb := h.inProgress state
    have hx : ¬f = (intervalsOf strategy).length := by
      rw [← h.exhausted_iff state, hr.exhausted]
      simp
    omega
  inProgress hp := by simp [Task.retry] at hp
  spent := h.spent

theorem leased (h : Within strategy d f t) (state : t.state = .enqueued) (keepalive : Time) :
    Within strategy (d + 1) f (t.lease now keepalive) where
  retryStrategy := h.retryStrategy
  attempts := by
    have ha := h.attempts
    simp only [Task.lease]
    omega
  enqueued he := by simp [Task.lease] at he
  inProgress _ := by
    have hb := h.enqueued state
    omega
  spent := by
    have hb := h.enqueued state
    omega

/-- The books are kept by every call. -/
theorem fate {f' d' : Nat} (h : Within strategy d f t) (hf : Fate now t f' d' (some t')) :
    Within strategy (d + d') (f + f') t' := by
  cases hf with
  | kept turned =>
    have ha := h.attempts
    have hk := turned.attempts
    refine ⟨turned.retryStrategy.trans h.retryStrategy, by omega, ?_, ?_, h.spent⟩
    · intro hs
      exact h.enqueued (turned.state.symm.trans hs)
    · intro hs
      exact h.inProgress (turned.state.symm.trans hs)
  | delivered state keepalive => exact h.leased state keepalive
  | failed state hfail =>
    cases hfail with
    | retried hr => exact h.retried state hr
    | buried hx turned =>
      have ha := h.attempts
      have hk := turned.attempts
      have hs := turned.state
      refine ⟨turned.retryStrategy.trans h.retryStrategy, by omega, ?_, ?_, h.spent⟩
      · simp [hs]
      · simp [hs]
  | again state hr keepalive =>
    have hretried := h.retried state hr
    exact hretried.leased (by simp [Task.retry]) keepalive

/-- No call goes over the budget of deliveries. -/
theorem fate_spent {f' d' : Nat} (h : Within strategy d f t) (hf : Fate now t f' d' o) :
    d + d' ≤ (intervalsOf strategy).length + 1 := by
  cases o with
  | some t' => exact (h.fate hf).spent
  | none =>
    have hspent := h.spent
    cases hf <;> exact hspent

end Within

end Rows

end Moab
