import Mathlib.Data.Int.Basic
import Moab.Framework.Machine
import Moab.Queues.Core

namespace Moab.Minutes

open scoped Time

/-- The period of an expression: a number of minutes, in nanoseconds. -/
def period : Bytes → Int
  | [n] => n.val * 60000000000
  | _ => 0

/-- The first multiple of a period after a time. -/
def nextMultiple (p t : Int) : Int := (t / p + 1) * p

theorem lt_nextMultiple {p t : Int} (hp : 0 < p) : t < nextMultiple p t :=
  Int.lt_ediv_add_one_mul_self t hp

theorem nextMultiple_le {p t x : Int} (hp : 0 < p) (hx : p ∣ x) (ht : t < x) :
    nextMultiple p t ≤ x := by
  obtain ⟨c, rfl⟩ := hx
  have hlt : t / p < c := Int.ediv_lt_of_lt_mul hp (by rw [Int.mul_comm]; exact ht)
  rw [Int.mul_comm p c]
  exact Int.mul_le_mul_of_nonneg_right hlt (le_of_lt hp)

def nextTickAfter (cron : Bytes) (t : Time) : Option Time :=
  if 0 < period cron ∧ nextMultiple (period cron) t.toInt < 2 ^ 63 then
    some (Int64.ofInt (nextMultiple (period cron) t.toInt))
  else none

/-- The multiples of a period, as far as 64 bits hold them. -/
theorem isLeast_multiple {p : Int} {t : Time} (hp : 0 < p) (hlt : nextMultiple p t.toInt < 2 ^ 63) :
    IsLeast {x : Time | (0 < p ∧ p ∣ x.toInt) ∧ t < x} (Int64.ofInt (nextMultiple p t.toInt)) := by
  have hafter := lt_nextMultiple (t := t.toInt) hp
  have hlow := t.le_toInt
  have hu : (Int64.ofInt (nextMultiple p t.toInt)).toInt = nextMultiple p t.toInt := by
    rw [Int64.toInt_ofInt]
    exact Fits.bmod ⟨by omega, hlt⟩
  refine ⟨⟨⟨hp, ?_⟩, ?_⟩, ?_⟩
  · rw [hu]
    exact Int.dvd_mul_left _ _
  · rw [Int64.lt_iff_toInt_lt, hu]
    exact hafter
  · intro x hx
    rw [Int64.le_iff_toInt_le, hu]
    exact nextMultiple_le hp hx.1.2 (Int64.lt_iff_toInt_lt.mp hx.2)

/-- A calendar without timezones, in which an expression names the minutes
between two ticks. It shows that the laws are consistent and lets a run be
computed. -/
instance gronx : Gronx where
  Location := Unit
  loadLocation _ := some ()
  isValid cron := 0 < period cron
  isTick cron _ t := 0 < period cron ∧ period cron ∣ t.toInt
  nextTickAfter cron _ t := nextTickAfter cron t
  isLeast_nextTickAfter := by
    intro cron _ t u h
    unfold nextTickAfter at h
    split at h
    · next hc =>
      obtain rfl := Option.some.inj h
      exact isLeast_multiple hc.1 hc.2
    · exact absurd h (by simp)

end Moab.Minutes

namespace Moab.Queues

def firstQueue : CreateQueueRequest where
  description := []
  keepaliveTimeoutInSeconds := 60
  retryStrategy := none
  dequeuingSettings := none
  deadLetterQueueConfig := none
  expiresInSeconds := 3600
  queueId := ⟨1, 1⟩
  name := [1]
  maxNumberOfQueues := 10

def cronSettings (minutes : Fin 256) : ScheduleSettings where
  description := []
  cron := [minutes]
  payload := []
  dedupeKey := []
  expiresInSeconds := 0
  retryStrategy := none
  timezone := []

/-- A schedule for every minute. -/
def firstSchedule : CreateScheduleRequest :=
  { cronSettings 1 with
    accountId := 1
    queueName := [1]
    scheduleId := 1
    scheduleName := [1]
    maxNumberOfSchedulesPerQueue := 10 }

end Moab.Queues
