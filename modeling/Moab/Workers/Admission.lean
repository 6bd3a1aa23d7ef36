import Mathlib.Data.Set.Card
import Moab.Tasks.Validators
import Moab.Workers.ExactlyOnce

namespace Moab

namespace Queues

/-- The settings a stored queue has from its last create or update request. -/
def settingsOf (x : Queue) : QueueSettings :=
  ⟨x.description, x.keepaliveTimeoutInSeconds, x.retryStrategy, x.dequeuingSettings,
    x.deadLetterQueueConfig, x.expiresInSeconds⟩

def scheduleSettingsOf (x : Schedule) : ScheduleSettings :=
  ⟨x.description, x.cron, x.payload, x.dedupeKey, x.expiresInSeconds, x.retryStrategy, x.timezone⟩

end Queues

namespace Workers

open OrderedStore Queues Corepb
open scoped Time

section Gronx

variable [Gronx]

/-- A queue and a schedule that passed the checks of their requests. -/
structure Accepted (e : Entry) : Prop where
  queueId : validateQueueId e.queue.id = .ok ()
  queue : (settingsOf e.queue).validate = .ok ()
  schedule : (scheduleSettingsOf e.schedule).validate = .ok ()

/-- The times that a round at now enqueues a schedule for: the stored one and the
later ticks, as far as they are neither missed nor more than a minute ahead. -/
def dueTicks (now : Time) (e : Entry) : Set Time :=
  {t | (t = e.schedule.nextScheduledAt ∨
      t ∈ pointsAfter (scheduleTicks e.schedule) e.schedule.nextScheduledAt) ∧
    t ≤ dueBefore now ∧ enqueues now e t}

/-- At most fifty ticks fall into the window of a round, and none of them is before
the epoch. -/
def Admissible (now : Time) (e : Entry) : Prop :=
  (dueTicks now e).ncard ≤ maxNumberOfEnqueueRequestEntries ∧ ∀ t ∈ dueTicks now e, 0 ≤ t

theorem Accepted.expires {e : Entry} (h : Accepted e) : Expires (expiresInSeconds e) := by
  have hqueue := (QueueSettings.validate_expires (settingsOf e.queue)).elim h.queue
  have hschedule := (ScheduleSettings.validate_expires (scheduleSettingsOf e.schedule)).elim
    h.schedule
  unfold expiresInSeconds
  split_ifs with hpos
  · rcases hschedule with hzero | hexpires
    · have hzero' : e.schedule.expiresInSeconds = 0 := hzero
      rw [hzero'] at hpos
      exact absurd hpos (by decide)
    · exact hexpires
  · exact hqueue

theorem Accepted.retryStrategy {e : Entry} (h : Accepted e) :
    validateRetryStrategy (retryStrategy e) = .ok () := by
  have hqueue := h.queue
  have hschedule := h.schedule
  rw [QueueSettings.validate, checks_ok_iff, checks_ok_iff, checks_ok_iff] at hqueue
  rw [ScheduleSettings.validate, checks_ok_iff, checks_ok_iff, checks_ok_iff, checks_ok_iff]
    at hschedule
  unfold Workers.retryStrategy
  split_ifs
  · exact hschedule.2.2.2.1
  · exact hqueue.2.2.1

theorem Accepted.payload {e : Entry} (h : Accepted e) :
    e.schedule.payload.length ≤ maxPayloadSize := by
  have hschedule := h.schedule
  rw [ScheduleSettings.validate, checks_ok_iff, checks_ok_iff, checks_ok_iff, checks_ok_iff,
    require_ok_iff, require_ok_iff, require_ok_iff] at hschedule
  exact of_decide_eq_true hschedule.2.2.2.2

/-- A tick of the window that is not before the epoch expires after it. -/
theorem Accepted.expiresAt_nonneg {e : Entry} {now t : Time} (h : Accepted e)
    (ht : t ∈ dueTicks now e) (hpos : 0 ≤ t) : 0 ≤ (enqueueEntry e t).expiresAt := by
  obtain ⟨_, hdue, henqueues⟩ := ht
  have hafter : now < (enqueueEntry e t).expiresAt := (of_decide_eq_true henqueues).2
  by_cases hnow : 0 ≤ now
  · exact le_trans hnow (le_of_lt hafter)
  · -- before the epoch the window ends within the first minute, so no sum wraps around
    obtain ⟨hlow, hhigh⟩ := h.expires
    have hsixty : (60 : Time).toInt = 60 := by decide
    have hzero : (0 : Time).toInt = 0 := by decide
    have hmin := now.le_toInt
    rw [not_le, Int64.lt_iff_toInt_lt] at hnow
    rw [Int64.le_iff_toInt_le] at hpos hdue
    have hend : (dueBefore now).toInt = now.toInt + (60 : Time).toInt * 1000000000 :=
      toInt_plusSeconds ⟨by omega, by omega⟩
    have hexpires : (enqueueEntry e t).expiresAt.toInt =
        t.toInt + (expiresInSeconds e).toInt * 1000000000 :=
      toInt_plusSeconds ⟨by omega, by omega⟩
    rw [Int64.le_iff_toInt_le, hexpires]
    omega

/-- Every entry of a pass is the one of its tick. -/
theorem tickLoop_entries (now : Time) (e : Entry) (n : Nat) (p : Pass)
    (hp : ∀ x ∈ p.entries, x = enqueueEntry e x.scheduledAt) :
    Ensures True (tickLoop now e n p)
      (fun p' => ∀ x ∈ p'.entries, x = enqueueEntry e x.scheduledAt) := by
  induction n generalizing p with
  | zero => exact Ensures.ok hp
  | succ n ih =>
    unfold tickLoop
    apply Ensures.ite
    · intro _
      apply Ensures.bind_any
      intro scheduledAt
      apply ih
      intro x hx
      change x ∈ (p.visit now e).entries at hx
      unfold Pass.visit at hx
      split_ifs at hx
      · rcases List.mem_append.mp hx with hx | hx
        · exact hp x hx
        · rw [List.mem_singleton.mp hx]
          rfl
      · exact hp x hx
    · exact fun _ => Ensures.ok hp

/-- What a pass asks the tasks core for. -/
structure Asks (now : Time) (e : Entry) (p : Pass) : Prop where
  entries : p.entries = (times p.entries).map (enqueueEntry e)
  nodup : (times p.entries).Nodup
  mem_iff : ∀ t, t ∈ times p.entries ↔ t ∈ dueTicks now e
  advances : dueBefore now < p.scheduledAt

theorem pass_asks (now : Time) (e : Entry) : Ensures True (pass now e) (Asks now e) := by
  have hentries : Ensures True (pass now e) _ :=
    tickLoop_entries now e _ ⟨[], 0, e.schedule.nextScheduledAt⟩ (by simp)
  refine ((pass_walks now e).and hentries).mono ?_
  intro p hp
  obtain ⟨⟨_, l, hwalk, htimes⟩, hentries⟩ := hp
  refine ⟨?_, ?_, ?_, hwalk.beyond⟩
  · rw [times, List.map_map]
    exact (List.map_id _).symm.trans (List.map_congr_left (fun x hx => hentries x hx))
  · rw [htimes]
    exact (hwalk.sorted.imp (fun hlt => ne_of_lt hlt)).filter _
  · intro t
    rw [htimes, List.mem_filter, hwalk.mem_iff]
    constructor
    · exact fun ht => ⟨ht.1.2, ht.1.1, ht.2⟩
    · exact fun ht => ⟨⟨ht.2.1, ht.1⟩, ht.2.2⟩

theorem Asks.ncard {now : Time} {e : Entry} {p : Pass} (h : Asks now e p) :
    (dueTicks now e).ncard = p.entries.length := by
  have hset : dueTicks now e = ((times p.entries).toFinset : Set Time) := by
    ext t
    simp [h.mem_iff]
  rw [hset, Set.ncard_coe_finset, List.toFinset_card_of_nodup h.nodup, times, List.length_map]

theorem Asks.valid_iff {now : Time} {e : Entry} {p : Pass} (h : Asks now e p) (hc : Accepted e) :
    (EnqueueRequest.mk e.queue.id p.entries).validate = .ok () ↔ Admissible now e := by
  have hvalid : (∀ x ∈ p.entries, x.Valid) ↔ ∀ t ∈ dueTicks now e, 0 ≤ t := by
    rw [h.entries, List.forall_mem_map]
    constructor
    · intro hall t ht
      exact (hall t ((h.mem_iff t).mpr ht)).scheduledAt
    · intro hall t ht
      have hdue := (h.mem_iff t).mp ht
      exact ⟨hall t hdue, hc.expiresAt_nonneg hdue (hall t hdue), hc.retryStrategy, hc.payload⟩
  rw [EnqueueRequest.validate_ok_iff, hvalid, Admissible, h.ncard]
  exact and_iff_right hc.queueId

section Worlds

variable [OrderedStore]

/-- The clustered stub hands an Enqueue on if it passes its checks. -/
def stubAccepts (req : EnqueueRequest) : Bool := req.validate.isOk

/-- The Enqueue that a pass over an accepted schedule leads to is admissible exactly when
at most fifty ticks fall into its window and none of them is before the epoch; exactly
then the worker gets to report the schedule, whose next time is beyond the window. -/
theorem pass_admissible_iff (now : Time) (e : Entry) (h : Accepted e) :
    Ensures True (pass now e) (fun p =>
      ((EnqueueRequest.mk e.queue.id p.entries).validate = .ok () ↔ Admissible now e) ∧
      (∀ (w : World) (clock : Time) (rest : List Entry), w.worker = .serving now e rest →
        ((w.fetch clock (stubAccepts ⟨e.queue.id, p.entries⟩)).worker = .reporting now e p rest ↔
          Admissible now e)) ∧
      dueBefore now < p.scheduledAt) := by
  refine (pass_asks now e).self.mono ?_
  intro p hp
  obtain ⟨hpass, hasks⟩ := hp
  have hvalid := hasks.valid_iff h
  refine ⟨hvalid, ?_, hasks.advances⟩
  intro w clock rest hw
  rw [← hvalid]
  unfold World.fetch stubAccepts
  rw [hw]
  dsimp only
  rw [hpass]
  cases hv : (EnqueueRequest.mk e.queue.id p.entries).validate with
  | ok u => simp [Except.isOk, Except.toBool]
  | error err => simp [Except.isOk, Except.toBool, World.fail]

end Worlds

end Gronx

section Runs

/-- An expression that names the seconds between two ticks. -/
def secondsPeriod : Bytes → Int
  | [n] => n.val * 1000000000
  | _ => 0

/-- A calendar without timezones in which schedules may tick every second. -/
@[reducible] def secondsGronx : Gronx where
  Location := Unit
  loadLocation _ := some ()
  isValid cron := 0 < secondsPeriod cron
  isTick cron _ t := 0 < secondsPeriod cron ∧ secondsPeriod cron ∣ t.toInt
  nextTickAfter cron _ t :=
    if 0 < secondsPeriod cron ∧ Minutes.nextMultiple (secondsPeriod cron) t.toInt < 2 ^ 63 then
      some (Int64.ofInt (Minutes.nextMultiple (secondsPeriod cron) t.toInt))
    else none
  isLeast_nextTickAfter := by
    intro cron _ t u h
    split at h
    · next hc =>
      obtain rfl := Option.some.inj h
      exact Minutes.isLeast_multiple hc.1 hc.2
    · exact absurd h (by simp)

/-- A schedule whose expression is the number one, due at the given time. -/
def cronEntry (nextScheduledAt : Time) : Entry :=
  ⟨newSchedule firstSchedule ⟨1, 1, 1⟩ 0 nextScheduledAt, newQueue firstQueue 0⟩

/-- A schedule for every minute, ten seconds after the epoch. -/
theorem pass_admissible_minutes :
    Ensures True (pass (10 * second) (cronEntry minute))
      (fun p => (EnqueueRequest.mk ⟨1, 1⟩ p.entries).validate = .ok ()) := by
  refine (pass_admissible_iff (10 * second) (cronEntry minute) ⟨rfl, rfl, rfl⟩).mono ?_
  intro p hp
  refine hp.1.mpr ?_
  have honly : ∀ t ∈ dueTicks (10 * second) (cronEntry minute), t = minute := by
    intro t ht
    obtain ⟨hpoint, hdue, _⟩ := ht
    rcases hpoint with hstored | hafter
    · exact hstored
    · obtain ⟨⟨_, _, _, hdvd⟩, hlt⟩ := hafter
      have hend : (dueBefore (10 * second)).toInt = 70000000000 := by decide
      have hstart : (cronEntry minute).schedule.nextScheduledAt.toInt = 60000000000 := by decide
      have hperiod : Minutes.period (cronEntry minute).schedule.cron = 60000000000 := by decide
      rw [Int64.le_iff_toInt_le, hend] at hdue
      rw [Int64.lt_iff_toInt_lt, hstart] at hlt
      rw [hperiod] at hdvd
      omega
  have hsubset : dueTicks (10 * second) (cronEntry minute) ⊆ {minute} := honly
  refine ⟨?_, ?_⟩
  · have hle := Set.ncard_le_ncard hsubset (Set.finite_singleton _)
    rw [Set.ncard_singleton] at hle
    exact hle.trans (by decide)
  · intro t ht
    rw [honly t ht]
    decide

/-- The same expression in the calendar of seconds: sixty-one ticks are due a second
after the epoch, and the stub refuses them. -/
theorem pass_of_seconds_rejected :
    @Accepted secondsGronx (cronEntry second) ∧
    Ensures False (@pass secondsGronx second (cronEntry second)) (fun p => p.entries.length = 61 ∧
      (EnqueueRequest.mk ⟨1, 1⟩ p.entries).validate =
        .error ⟨"Entries exceeds max number of entries (50)", none⟩) :=
  ⟨@Accepted.mk secondsGronx _ rfl rfl rfl, by decide +kernel⟩

end Runs

end Workers

end Moab
