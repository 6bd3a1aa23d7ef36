import Moab.Workers.Replays

namespace Moab.Workers

open OrderedStore Queues
open scoped Time

section Updates

variable [Gronx]

/-- The next time of the schedule is one that its own expression names. -/
def OnTick (x : Schedule) : Prop := x.nextScheduledAt ∈ scheduleTicks x

/-- What a round has read was on a tick, and so is what it is about to report. -/
def Worker.OnTick : Worker → Prop
  | .serving _ e rest => ∀ e' ∈ e :: rest, Workers.OnTick e'.schedule
  | .reporting _ e p rest => p.scheduledAt ∈ scheduleTicks e.schedule ∧
      ∀ e' ∈ rest, Workers.OnTick e'.schedule
  | _ => True

theorem Worker.OnTick.nextEntry {now : Time} {es : List Entry}
    (h : ∀ e ∈ es, Workers.OnTick e.schedule) : (nextEntry now es).OnTick := by
  cases es with
  | nil => trivial
  | cons e rest => exact h

variable [OrderedStore] {w w' : World}

/-- A report finds the expression that it was computed from. -/
def Event.ReportsCurrent (w : World) : Event → Prop
  | .fetch _ _ =>
    match w.worker with
    | .reporting _ e _ _ => ∀ x ∈ w.core.schedules.get e.schedule.id,
        x.cron = e.schedule.cron ∧ x.timezone = e.schedule.timezone
    | _ => True
  | _ => True

instance (w : World) (e : Event) : Decidable (e.ReportsCurrent w) :=
  match w, e with
  | { core, worker := .reporting _ e _ _, .. }, .fetch _ _ =>
    inferInstanceAs (Decidable (∀ x ∈ core.schedules.get e.schedule.id, _))
  | { worker := .idle, .. }, .fetch _ _ | { worker := .polling _, .. }, .fetch _ _
  | { worker := .serving _ _ _, .. }, .fetch _ _ | _, .call _ _ | _, .round _ => .isTrue trivial

structure Current (w : World) : Prop where
  row : ∀ id x, w.core.schedules.get id = some x → OnTick x
  worker : w.worker.OnTick

theorem Current.call (h : Current w) (hs : Sound w.core) {now : Time} {op : Queues.Op}
    (hv : ValidCall w.core now op) : Current (step w (.call now op)) := by
  refine ⟨?_, h.worker⟩
  refine commit_every hs.keyed hv.2.2.1 h.row ?_ ?_ ?_ ?_
  · rintro req id nextTime rfl htick
    exact (isLeast_nextTickAfter htick).1.1
  · rintro req x nextTime rfl htick _
    exact (isLeast_nextTickAfter htick).1.1
  · rintro req x rfl
    exact absurd hv.2.2.2 (by simp [fromClient])
  · intro x q hx
    exact hx

theorem Current.round (h : Current w) (now : Time) : Current (step w (.round now)) := by
  obtain ⟨core, worker, rounds, enqueued, errorsTotal⟩ := w
  cases worker with
  | idle => exact ⟨h.row, trivial⟩
  | _ => exact h

theorem Current.fetched (h : Current w) (hs : Sane (fun _ => False) w) {clock : Time}
    {accepted : Bool} (hc : Event.ReportsCurrent w (.fetch clock accepted)) (hf : Fetched w w') :
    Current w' := by
  have hworker := h.worker
  have hgoing := hs.going
  cases hf with
  | rest hw => exact h
  | finish hw hes => exact ⟨h.row, trivial⟩
  | @poll now e rest hw hes =>
    rw [hw] at hgoing
    have hpage := (dequeSchedules_page hs.core hgoing hes).1
    exact ⟨h.row, fun e' he' => h.row _ _ (hpage.row e' he' trivial)⟩
  | @enqueue now e rest p hw hp =>
    rw [hw] at hworker
    obtain ⟨_, l, hwalk, _⟩ := (pass_walks now e).elim hp
    refine ⟨h.row, hwalk.end_mem (hworker e List.mem_cons_self), ?_⟩
    intro e' he'
    exact hworker e' (List.mem_cons_of_mem _ he')
  | @report now clock e p rest core hw hok =>
    unfold Event.ReportsCurrent at hc
    rw [hw] at hworker
    simp only [hw] at hc
    obtain ⟨x, hx, hid, hstep, _⟩ := reportSchedulesStatus_ok hs.core.keyed hok
    obtain ⟨hcron, htimezone⟩ := hc x hx
    refine ⟨?_, Worker.OnTick.nextEntry hworker.2⟩
    refine Queues.Step.every hstep h.row (by simp) ?_ (fun y q hy => hy)
    intro a b hab _
    obtain ⟨rfl, rfl⟩ := Queues.Event.updated.inj hab
    change p.scheduledAt ∈ ticks x.cron x.timezone
    rw [hcron, htimezone]
    exact hworker.1

/-- In every run in which no expression is replaced between reading a schedule and
reporting it, every schedule is on a tick of its own expression. -/
theorem run_keeps_updates (events : List Event)
    (hevents : Along (total step) (fun w e => e.Valid w ∧ e.ReportsCurrent w) (World.start .empty)
      events) (id : ScheduleId) (x : Schedule)
    (hx : (run (World.start .empty) events).core.schedules.get id = some x) :
    x.nextScheduledAt ∈ scheduleTicks x := by
  have hrun : Sane (fun _ => False) (run (World.start .empty) events) ∧
      Current (run (World.start .empty) events) := by
    refine Along.foldl hevents (I := fun w => Sane (fun _ => False) w ∧ Current w) ?_
      ⟨.start .empty, by simp [World.start, Queues.State.empty], trivial⟩
    rintro w e ⟨hs, hcurrent⟩ ⟨hv, hc⟩
    cases e with
    | call now op => exact ⟨hs.call hv (fun _ => False.elim), hcurrent.call hs.core hv⟩
    | round now => exact ⟨hs.round hv.2, hcurrent.round now⟩
    | fetch clock accepted =>
      refine ⟨hs.fetch clock accepted, ?_⟩
      rcases fetch_cases w clock accepted with hf | hg
      · exact hcurrent.fetched hs hc hf
      · refine ⟨?_, ?_⟩
        · change ∀ id x, (w.fetch clock accepted).core.schedules.get id = some x → OnTick x
          rw [hg.core]
          exact hcurrent.row
        · change (w.fetch clock accepted).worker.OnTick
          rw [hg.worker]
          trivial
  exact hrun.2.row id x hx

end Updates

section Runs

/-- The schedule is to run every hour. -/
def hourly : Queues.Op :=
  .updateSchedule { cronSettings 60 with
    accountId := 1
    queueName := [1]
    scheduleName := [1]
    expectedVersion := 1 }

/-- A round whose first calls come before the update, and the others after it. -/
def updatedRun (calls : Nat) : List Event :=
  cronSetup ++ (cronRound (10 * second)).take calls ++ .call (12 * second) hourly ::
    (cronRound (10 * second)).drop calls

/-- The row after the update. -/
def hourlySchedule (nextScheduledAt lastCheckedAt lastEnqueuedFor : Time) : Schedule :=
  { withScheduleSettings (newSchedule firstSchedule ⟨1, 1, 1⟩ second minute) (cronSettings 60)
      (12 * second) nextScheduledAt with
    lastCheckedAt := lastCheckedAt
    lastEnqueuedFor := lastEnqueuedFor }

theorem run_keeps_updates_reported :
    60 * minute ∈ scheduleTicks (hourlySchedule (60 * minute) (10 * second) minute) :=
  run_keeps_updates (updatedRun 4) (by decide +kernel) ⟨1, 1, 1⟩
    (hourlySchedule (60 * minute) (10 * second) minute) (by decide +kernel)

/-- Updated after it was read, the schedule is set to the next minute by the
report of a round, which then ends without an error. -/
theorem run_update_lost :
    Along (total step) (fun w e => e.Valid w) (World.start .empty) (updatedRun 2) ∧
    (run (World.start .empty) (updatedRun 2)).worker = .idle ∧
    (run (World.start .empty) (updatedRun 2)).errorsTotal = 0 ∧
    (run (World.start .empty) (updatedRun 2)).core.schedules.get ⟨1, 1, 1⟩ =
      some (hourlySchedule (2 * minute) (10 * second) minute) ∧
    2 * minute ∉ scheduleTicks (hourlySchedule (2 * minute) (10 * second) minute) := by
  refine ⟨by decide +kernel, by decide +kernel, by decide +kernel, by decide +kernel, ?_⟩
  rintro ⟨_, _, htick⟩
  have hdvd : Minutes.period [60] ∣ (2 * minute).toInt := htick.2
  exact absurd hdvd (by decide)

end Runs

end Moab.Workers
