import Moab.Framework.Ensures
import Moab.Framework.Machine
import Moab.Framework.Walk
import Moab.Queues.Core
import Moab.Tasks.Core

namespace Moab.Workers

open OrderedStore Queues
open scoped Time

section Definitions

variable [Gronx]

def nextTick (nanos : Time) (schedule : Schedule) : Except Queues.CoreError Time :=
  nextTickAfter schedule.cron schedule.timezone nanos

/-- A round enqueues the ticks of the next minute. -/
def dueBefore (now : Time) : Time := plusSeconds now 60

abbrev Entry := DequeSchedulesResponseEntry

/-- The expiration of the schedule, if it overrides that of its queue. -/
def expiresInSeconds (e : Entry) : Time :=
  if e.schedule.expiresInSeconds > 0 then e.schedule.expiresInSeconds else e.queue.expiresInSeconds

def retryStrategy (e : Entry) : Option RetryStrategy :=
  if e.schedule.retryStrategy.isSome then e.schedule.retryStrategy else e.queue.retryStrategy

/-- What the loop over the ticks of a schedule has done so far. -/
structure Pass where
  entries : List EnqueueRequestEntry
  lastEnqueuedFor : Time
  scheduledAt : Time
  deriving DecidableEq

def enqueueEntry (e : Entry) (scheduledAt : Time) : EnqueueRequestEntry where
  payload := e.schedule.payload
  scheduledAt := scheduledAt
  expiresAt := plusSeconds scheduledAt (expiresInSeconds e)
  dedupeKey := e.schedule.dedupeKey
  retryStrategy := retryStrategy e
  overwriteOnDuplicate := []
  threadId := []

/-- Ticks that were missed are not made up for. -/
def enqueues (now : Time) (e : Entry) (scheduledAt : Time) : Bool :=
  now ≤ scheduledAt ∧ now < (enqueueEntry e scheduledAt).expiresAt

def Pass.visit (now : Time) (e : Entry) (p : Pass) : Pass :=
  if enqueues now e p.scheduledAt then
    { p with
      entries := p.entries ++ [enqueueEntry e p.scheduledAt]
      lastEnqueuedFor := p.scheduledAt }
  else p

/-- The loop over the ticks of a schedule. Each tick is later than the one
before, so the distance to the end bounds the rounds. -/
def tickLoop (now : Time) (e : Entry) : Nat → Pass → Except Queues.CoreError Pass
  | 0, p => .ok p
  | n + 1, p =>
    if p.scheduledAt ≤ dueBefore now then do
      let scheduledAt ← nextTick p.scheduledAt e.schedule
      tickLoop now e n { p.visit now e with scheduledAt := scheduledAt }
    else .ok p

/-- How far a time is from the first one that is not due. -/
def distance (due t : Time) : Nat := (due.toInt + 1 - t.toInt).toNat

def pass (now : Time) (e : Entry) : Except Queues.CoreError Pass :=
  tickLoop now e (distance (dueBefore now) e.schedule.nextScheduledAt)
    ⟨[], 0, e.schedule.nextScheduledAt⟩

variable [OrderedStore]

/-- Where a round stands: the next remote call it makes. -/
inductive Worker where
  | idle
  | polling (now : Time)
  | serving (now : Time) (entry : Entry) (rest : List Entry)
  | reporting (now : Time) (entry : Entry) (pass : Pass) (rest : List Entry)
  deriving DecidableEq

/-- An Enqueue of the worker, and the schedule it is for. -/
structure Passed where
  scheduleId : ScheduleId
  request : EnqueueRequest
  deriving DecidableEq

/-- The queues core of a shard with its cron worker. The rounds and what they
passed to Enqueue are kept in order. -/
structure World where
  core : Queues.State
  worker : Worker
  rounds : List Time
  enqueued : List Passed
  errorsTotal : Nat

def World.start (s : Queues.State) : World := ⟨s, .idle, [], [], 0⟩

/-- A round that meets an error is given up. -/
def World.fail (w : World) : World := { w with worker := .idle, errorsTotal := w.errorsTotal + 1 }

/-- After the last entry of a page the core is asked for more. -/
def nextEntry (now : Time) : List Entry → Worker
  | [] => .polling now
  | e :: rest => .serving now e rest

/-- fetch up to its next remote call. The clock is read by the client of the
core, and the tasks core may or may not accept an Enqueue. -/
def World.fetch (w : World) (clock : Time) (accepted : Bool) : World :=
  match w.worker with
  | .idle => w
  | .polling now =>
    match dequeSchedules w.core (dueBefore now) with
    | .error _ => w.fail
    | .ok [] => { w with worker := .idle }
    | .ok (e :: rest) => { w with worker := .serving now e rest }
  | .serving now e rest =>
    match pass now e with
    | .error _ => w.fail
    | .ok p =>
      let passed : Passed := ⟨e.schedule.id, e.queue.id, p.entries⟩
      let w := { w with enqueued := w.enqueued ++ [passed] }
      if accepted then { w with worker := .reporting now e p rest } else w.fail
  | .reporting now e p rest =>
    match reportSchedulesStatus w.core clock ⟨e.schedule.id, p.scheduledAt, p.lastEnqueuedFor⟩ with
    | .ok (core, .ok ()) => { w with core := core, worker := nextEntry now rest }
    | _ => w.fail

/-- A client calls the core, a round begins, or a round makes its next call. -/
inductive Event where
  | call (now : Time) (op : Queues.Op)
  | round (now : Time)
  | fetch (clock : Time) (accepted : Bool)
  deriving DecidableEq

/-- Rounds follow each other, so one that is still going on is not disturbed. -/
def step (w : World) : Event → World
  | .call now op => { w with core := Queues.commit w.core now op }
  | .round now =>
    match w.worker with
    | .idle => { w with worker := .polling now, rounds := w.rounds ++ [now] }
    | _ => w
  | .fetch clock accepted => w.fetch clock accepted

def run (w : World) (events : List Event) : World := events.foldl step w

/-- The times a schedule was enqueued for. -/
def World.passed (w : World) (id : ScheduleId) : List Time :=
  (w.enqueued.filter (fun r => r.scheduleId = id)).flatMap
    (fun r => r.request.entries.map (·.scheduledAt))

end Definitions

section Ticks

theorem distance_eq_zero {due t : Time} (h : distance due t = 0) : due < t := by
  unfold distance at h
  rw [Int64.lt_iff_toInt_lt]
  omega

theorem distance_lt {due t u : Time} (ht : t ≤ due) (htu : t < u) :
    distance due u < distance due t := by
  unfold distance
  rw [Int64.le_iff_toInt_le] at ht
  rw [Int64.lt_iff_toInt_lt] at htu
  omega

def times (entries : List EnqueueRequestEntry) : List Time := entries.map (·.scheduledAt)

theorem Pass.visit_times (now : Time) (e : Entry) (p : Pass) :
    times (p.visit now e).entries = times p.entries ++ [p.scheduledAt].filter (enqueues now e) := by
  unfold Pass.visit
  by_cases h : enqueues now e p.scheduledAt
  · simp [h, times, enqueueEntry]
  · simp [h]

/-- The last time enqueued, or zero if there is none. -/
def Pass.Recorded (p : Pass) : Prop := p.lastEnqueuedFor = ((times p.entries).getLast?).getD 0

theorem Pass.Recorded.visit {p : Pass} (h : p.Recorded) (now : Time) (e : Entry) :
    (p.visit now e).Recorded := by
  unfold Pass.visit
  split
  · simp [Pass.Recorded, times, enqueueEntry]
  · exact h

variable [Gronx]

/-- The ticks of an expression in a timezone. -/
def ticks (cron timezone : Bytes) : Set Time :=
  {t | ∃ tz, Gronx.loadLocation timezone = some tz ∧ Gronx.isTick cron tz t}

theorem isLeast_nextTickAfter {cron timezone : Bytes} {t u : Time}
    (h : nextTickAfter cron timezone t = .ok u) :
    IsLeast (pointsAfter (ticks cron timezone) t) u := by
  unfold nextTickAfter at h
  cases hz : Gronx.loadLocation timezone with
  | none => simp [hz] at h
  | some tz =>
    cases hn : Gronx.nextTickAfter cron tz t with
    | none => simp [hz, hn] at h
    | some v =>
      simp only [hz, hn, Except.ok.injEq] at h
      obtain rfl := h
      obtain ⟨⟨htick, hlt⟩, hleast⟩ := Gronx.isLeast_nextTickAfter hn
      refine ⟨⟨⟨tz, hz, htick⟩, hlt⟩, ?_⟩
      rintro x ⟨⟨tz', hz', hx⟩, hxt⟩
      rw [hz] at hz'
      obtain rfl := Option.some.inj hz'
      exact hleast ⟨hx, hxt⟩

def scheduleTicks (x : Schedule) : Set Time := ticks x.cron x.timezone

/-- The loop walks over the ticks and enqueues those it does not skip. -/
theorem tickLoop_walks (now : Time) (e : Entry) (n : Nat) (p : Pass) (hp : p.Recorded)
    (hn : distance (dueBefore now) p.scheduledAt ≤ n) :
    Ensures True (tickLoop now e n p) (fun p' => p'.Recorded ∧ ∃ l,
      Walk (scheduleTicks e.schedule) (dueBefore now) p.scheduledAt l p'.scheduledAt ∧
      times p'.entries = times p.entries ++ l.filter (enqueues now e)) := by
  induction n generalizing p with
  | zero =>
    have hdue := distance_eq_zero (Nat.le_zero.mp hn)
    exact Ensures.ok ⟨hp, [], Walk.stop hdue, by simp⟩
  | succ n ih =>
    unfold tickLoop
    refine Ensures.ite (fun hdue => ?_) (fun hdue => ?_)
    · unfold nextTick
      cases htick : nextTickAfter e.schedule.cron e.schedule.timezone p.scheduledAt with
      | error err => trivial
      | ok u =>
        have hleast := isLeast_nextTickAfter htick
        have hfuel := distance_lt hdue hleast.1.2
        refine (ih { p.visit now e with scheduledAt := u } (hp.visit now e)
          (by simp only; omega)).mono ?_
        rintro p' ⟨hlast, l, hwalk, htimes⟩
        refine ⟨hlast, p.scheduledAt :: l, Walk.step hdue hleast hwalk, ?_⟩
        rw [htimes]
        change times (p.visit now e).entries ++ _ = _
        rw [Pass.visit_times, List.append_assoc, ← List.filter_append]
        rfl
    · exact Ensures.ok ⟨hp, [], Walk.stop (Int64.not_le.mp hdue), by simp⟩

theorem pass_walks (now : Time) (e : Entry) :
    Ensures True (pass now e) (fun p => p.Recorded ∧ ∃ l,
      Walk (scheduleTicks e.schedule) (dueBefore now) e.schedule.nextScheduledAt l p.scheduledAt ∧
      times p.entries = l.filter (enqueues now e)) :=
  tickLoop_walks now e _ ⟨[], 0, e.schedule.nextScheduledAt⟩ rfl (le_refl _)

end Ticks

end Moab.Workers
