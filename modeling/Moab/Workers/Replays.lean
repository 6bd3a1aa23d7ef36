import Moab.Workers.ExactlyOnce

namespace Moab.Workers

open OrderedStore Queues
open scoped Time

section Replays

/-- The next time of a schedule as a round has read it, or else as it is stored. -/
def readNext (id : ScheduleId) (y : Schedule) (es : List Entry) : Time :=
  ((es.find? (fun e => e.schedule.id = id)).map (·.schedule.nextScheduledAt)).getD y.nextScheduledAt

variable {id : ScheduleId} {y y' : Schedule} {e : Entry} {es : List Entry}

theorem readNext_cons_self (h : e.schedule.id = id) :
    readNext id y (e :: es) = e.schedule.nextScheduledAt := by
  simp [readNext, h]

theorem readNext_cons_ne (h : e.schedule.id ≠ id) : readNext id y (e :: es) = readNext id y es := by
  simp [readNext, h]

theorem readNext_stored (h : ∀ e ∈ es, e.schedule.id = id → e.schedule = y) :
    readNext id y es = y.nextScheduledAt := by
  induction es with
  | nil => rfl
  | cons e es ih =>
    by_cases hid : e.schedule.id = id
    · rw [readNext_cons_self hid, h e List.mem_cons_self hid]
    · rw [readNext_cons_ne hid]
      exact ih (fun e' he' => h e' (List.mem_cons_of_mem _ he'))

/-- What is stored does not matter once the schedule has been read. -/
theorem readNext_read (h : es.any (fun e => e.schedule.id = id) = true) :
    readNext id y es = readNext id y' es := by
  induction es with
  | nil => simp at h
  | cons e es ih =>
    by_cases hid : e.schedule.id = id
    · rw [readNext_cons_self hid, readNext_cons_self hid]
    · rw [readNext_cons_ne hid, readNext_cons_ne hid]
      exact ih (by simpa [hid] using h)

/-- A round has read the schedule and will report it. -/
def Worker.holds (worker : Worker) (id : ScheduleId) : Bool :=
  match worker with
  | .serving _ e rest => (e :: rest).any (fun e => e.schedule.id = id)
  | .reporting _ e _ rest => (e :: rest).any (fun e => e.schedule.id = id)
  | _ => false

/-- The first time that is to be enqueued next. -/
def Worker.resumesAt (worker : Worker) (id : ScheduleId) (y : Schedule) : Time :=
  match worker with
  | .serving _ e rest => readNext id y (e :: rest)
  | .reporting _ e p rest => if e.schedule.id = id then p.scheduledAt else readNext id y rest
  | _ => y.nextScheduledAt

/-- The last time enqueued, once the round has reported it. -/
def Worker.lastFor (worker : Worker) (id : ScheduleId) (y : Schedule) : Time :=
  match worker with
  | .reporting _ e p _ =>
    if e.schedule.id = id ∧ p.lastEnqueuedFor ≠ 0 then p.lastEnqueuedFor else y.lastEnqueuedFor
  | _ => y.lastEnqueuedFor

/-- Once a round has read the schedule, its report decides what comes next. -/
theorem resumesAt_held {worker : Worker} (h : worker.holds id = true) :
    worker.resumesAt id y = worker.resumesAt id y' := by
  cases worker with
  | idle | polling now => simp [Worker.holds] at h
  | serving now e rest => exact readNext_read h
  | reporting now e p rest =>
    unfold Worker.resumesAt
    dsimp only
    split
    · rfl
    · next hid => exact readNext_read (by simpa [Worker.holds, hid] using h)

theorem resumesAt_free {worker : Worker} (h : worker.holds id = false) :
    worker.resumesAt id y = y.nextScheduledAt := by
  have hfree : ∀ {es : List Entry}, es.any (fun e => e.schedule.id = id) = false →
      readNext id y es = y.nextScheduledAt := by
    intro es hes
    refine readNext_stored (fun e he hid => ?_)
    have hall := List.any_eq_false.mp hes e he
    exact absurd (decide_eq_true hid) hall
  cases worker with
  | idle => rfl
  | polling now => rfl
  | serving now e rest => exact hfree h
  | reporting now e p rest =>
    have hnot : e.schedule.id ≠ id ∧ rest.any (fun e => e.schedule.id = id) = false := by
      simpa [Worker.holds] using h
    simp only [Worker.resumesAt, if_neg hnot.1]
    exact hfree hnot.2

theorem lastFor_congr {worker : Worker} (h : y'.lastEnqueuedFor = y.lastEnqueuedFor) :
    worker.lastFor id y' = worker.lastFor id y := by
  unfold Worker.lastFor
  split <;> simp [h]

theorem lastFor_free {worker : Worker} (h : worker.holds id = false) :
    worker.lastFor id y = y.lastEnqueuedFor := by
  cases worker with
  | reporting now e p rest =>
    have hnot : e.schedule.id ≠ id := fun hid => by simp [Worker.holds, hid] at h
    simp [Worker.lastFor, hnot]
  | _ => rfl

variable [OrderedStore] [Gronx] {w w' : World}

/-- No client takes the schedule away or gives it another expression. -/
def Event.KeepsCron (id : ScheduleId) (w : World) : Event → Prop
  | .call now op =>
    ((Queues.commit w.core now op).schedules.get id).map (fun x => (x.cron, x.timezone)) =
      (w.core.schedules.get id).map (fun x => (x.cron, x.timezone))
  | _ => True

/-- An UpdateSchedule that the core applies to the schedule. -/
def edits (s : Queues.State) (id : ScheduleId) : Queues.Op → Bool
  | .updateSchedule req => (s.scheduleNamed req.accountId req.queueName req.scheduleName).any
      (fun x => x.id = id ∧ x.version = req.expectedVersion)
  | _ => false

/-- The first tick after a time is later than all that have been enqueued. -/
def staysAhead (x : Schedule) (now : Time) : Bool :=
  match nextTick now x with
  | .ok t => x.lastEnqueuedFor < t
  | .error _ => true

/-- A client edits the schedule when its next tick has not been enqueued, or while
a round is about to report it. -/
def Event.NoRewind (id : ScheduleId) (w : World) : Event → Prop
  | .call now op => edits w.core id op = true → w.worker.holds id = false →
      ∀ x ∈ w.core.schedules.get id, staysAhead x now = true
  | _ => True

instance (w : World) (e : Event) : Decidable (e.KeepsCron id w) :=
  match e with
  | .call _ _ => inferInstanceAs (Decidable (_ = _))
  | .round _ | .fetch _ _ => .isTrue trivial

instance (w : World) (e : Event) : Decidable (e.NoRewind id w) :=
  match e with
  | .call _ _ =>
    inferInstanceAs (Decidable (_ = true → _ = false → ∀ x ∈ w.core.schedules.get id, _))
  | .round _ | .fetch _ _ => .isTrue trivial

/-- Each time was enqueued once, and what comes next is later. -/
structure Unrepeated (id : ScheduleId) (y : Schedule) (w : World) : Prop where
  row : w.core.schedules.get id = some y
  nodup : (w.passed id).Nodup
  before : ∀ t ∈ w.passed id, t < w.worker.resumesAt id y ∧ t ≤ w.worker.lastFor id y

omit [Gronx] in
theorem Unrepeated.start {s : Queues.State} (h : s.schedules.get id = some y) :
    Unrepeated id y (World.start s) := ⟨h, List.nodup_nil, by simp [World.start, World.passed]⟩

theorem Unrepeated.call (h : Unrepeated id y w) (hs : Sound w.core) {now : Time} {op : Queues.Op}
    (hv : ValidCall w.core now op) (hk : Event.KeepsCron id w (.call now op))
    (hr : Event.NoRewind id w (.call now op)) :
    ∃ y', Unrepeated id y' (step w (.call now op)) := by
  unfold Event.KeepsCron at hk
  rw [h.row] at hk
  obtain ⟨y', hy', hcron⟩ := Option.map_eq_some_iff.mp hk
  refine ⟨y', hy', h.nodup, ?_⟩
  change ∀ t ∈ w.passed id, t < w.worker.resumesAt id y' ∧ t ≤ w.worker.lastFor id y'
  have hrewritten := commit_rewrites now hs.keyed hv.2.2.1 h.row hy'
  cases hrewritten with
  | same => exact h.before
  | @updateSchedule req nextTime named version tick =>
    intro t ht
    obtain ⟨hlt, hle⟩ := h.before t ht
    have hlast : w.worker.lastFor id (withScheduleSettings y req.toScheduleSettings now nextTime) =
        w.worker.lastFor id y := lastFor_congr rfl
    refine ⟨?_, hlast ▸ hle⟩
    cases hholds : w.worker.holds id with
    | true =>
      have hheld : w.worker.resumesAt id (withScheduleSettings y req.toScheduleSettings now
          nextTime) = w.worker.resumesAt id y := resumesAt_held hholds
      exact hheld ▸ hlt
    | false =>
      have hid := hs.keyed.schedule id y h.row
      have hedits : edits w.core id (.updateSchedule req) = true := by
        simp [edits, named, hid, version]
      have hahead := hr hedits hholds y h.row
      obtain ⟨hc, hz⟩ := Prod.mk.inj hcron
      have htick : nextTick now y = .ok nextTime := by
        unfold nextTick
        rw [← hc, ← hz]
        exact tick
      unfold staysAhead at hahead
      rw [htick] at hahead
      rw [lastFor_free hholds] at hle
      rw [resumesAt_free hholds]
      exact lt_of_le_of_lt hle (of_decide_eq_true hahead)
  | reportSchedulesStatus => exact absurd hv.2.2.2 (by simp [fromClient])

theorem Unrepeated.round (h : Unrepeated id y w) (now : Time) :
    Unrepeated id y (step w (.round now)) := by
  obtain ⟨core, worker, rounds, enqueued, errorsTotal⟩ := w
  cases worker with
  | idle => exact ⟨h.row, h.nodup, h.before⟩
  | _ => exact h

omit [OrderedStore] [Gronx] in
theorem Pass.Recorded.mem {p : Pass} (h : p.Recorded) (hne : p.lastEnqueuedFor ≠ 0) :
    p.lastEnqueuedFor ∈ times p.entries := by
  unfold Pass.Recorded at h
  cases hlast : (times p.entries).getLast? with
  | none => exact absurd (by rw [h, hlast]; rfl) hne
  | some t =>
    rw [h, hlast]
    exact List.mem_of_getLast? hlast

omit [OrderedStore] [Gronx] in
theorem Pass.Recorded.le {p : Pass} (h : p.Recorded) (hs : (times p.entries).Pairwise (· < ·))
    {t : Time} (ht : t ∈ times p.entries) : t ≤ p.lastEnqueuedFor := by
  unfold Pass.Recorded at h
  cases hlast : (times p.entries).getLast? with
  | none =>
    rw [List.getLast?_eq_none_iff.mp hlast] at ht
    exact absurd ht (by simp)
  | some u =>
    obtain ⟨l, hl⟩ := List.getLast?_eq_some_iff.mp hlast
    rw [h, hlast]
    rw [hl] at hs ht
    rcases List.mem_append.mp ht with hmem | hmem
    · exact le_of_lt ((List.pairwise_append.mp hs).2.2 t hmem u (by simp))
    · exact le_of_eq (List.mem_singleton.mp hmem)

/-- A pass adds times from where the schedule was read. -/
theorem Unrepeated.enqueue (h : Unrepeated id y w) (hs : Sane (fun _ => False) w) {now : Time}
    {e : Entry} {rest : List Entry} {p : Pass} (hw : w.worker = .serving now e rest)
    (hp : pass now e = .ok p) :
    Unrepeated id y { w with
      worker := .reporting now e p rest
      enqueued := w.enqueued ++ [⟨e.schedule.id, e.queue.id, p.entries⟩] } := by
  have hbefore := h.before
  rw [hw] at hbefore
  have hpassed := passed_append w ⟨e.schedule.id, e.queue.id, p.entries⟩ id
  change World.passed { w with
    worker := .reporting now e p rest
    enqueued := w.enqueued ++ [⟨e.schedule.id, e.queue.id, p.entries⟩] } id = _ at hpassed
  by_cases hid : e.schedule.id = id
  · rw [if_pos hid] at hpassed
    obtain ⟨hrecorded, l, hwalk, htimes⟩ := (pass_walks now e).elim hp
    have hsorted : (times p.entries).Pairwise (· < ·) := htimes ▸ hwalk.sorted.filter _
    have hfrom : ∀ t ∈ times p.entries, e.schedule.nextScheduledAt ≤ t ∧ t < p.scheduledAt := by
      intro t ht
      rw [htimes] at ht
      obtain ⟨hdue, hpoint⟩ := hwalk.mem_iff.mp (List.mem_of_mem_filter ht)
      refine ⟨?_, lt_of_le_of_lt hdue hwalk.beyond⟩
      rcases hpoint with rfl | hafter
      · exact le_refl _
      · exact le_of_lt hafter.2
    have hold : ∀ t ∈ w.passed id, t < e.schedule.nextScheduledAt ∧ t ≤ y.lastEnqueuedFor := by
      intro t ht
      obtain ⟨hlt, hle⟩ := hbefore t ht
      change t < readNext id y (e :: rest) at hlt
      rw [readNext_cons_self hid] at hlt
      exact ⟨hlt, hle⟩
    have hlast := (hs.core.schedule id y h.row).last
    refine ⟨h.row, ?_, ?_⟩
    · rw [hpassed]
      refine List.Nodup.append h.nodup (hsorted.imp (fun hlt => ne_of_lt hlt)) ?_
      intro t ht ht'
      exact absurd (hold t ht).1 (not_lt.mpr (hfrom t ht').1)
    · rw [hpassed]
      intro t ht
      simp only [Worker.resumesAt, Worker.lastFor, hid, if_true, true_and]
      rcases List.mem_append.mp ht with hmem | hmem
      · obtain ⟨hlt, hle⟩ := hold t hmem
        refine ⟨lt_of_lt_of_le hlt hwalk.start_le, ?_⟩
        split
        · next hne => exact le_trans (le_of_lt hlt) (hfrom _ (hrecorded.mem hne)).1
        · exact hle
      · refine ⟨(hfrom t hmem).2, ?_⟩
        have hle := hrecorded.le hsorted hmem
        split
        · exact hle
        · next hzero =>
          rw [not_not.mp hzero] at hle
          exact le_trans hle hlast
  · rw [if_neg hid, List.append_nil] at hpassed
    refine ⟨h.row, hpassed ▸ h.nodup, ?_⟩
    rw [hpassed]
    intro t ht
    obtain ⟨hlt, hle⟩ := hbefore t ht
    change t < readNext id y (e :: rest) at hlt
    rw [readNext_cons_ne hid] at hlt
    simp only [Worker.resumesAt, Worker.lastFor, hid, if_false, false_and]
    exact ⟨hlt, hle⟩

/-- A report stores what the round has in mind. -/
theorem Unrepeated.report (h : Unrepeated id y w) (hs : Sane (fun _ => False) w) {now clock : Time}
    {e : Entry} {p : Pass} {rest : List Entry} {core : Queues.State}
    (hw : w.worker = .reporting now e p rest)
    (hok : reportSchedulesStatus w.core clock ⟨e.schedule.id, p.scheduledAt, p.lastEnqueuedFor⟩ =
      .ok (core, .ok ())) :
    ∃ y', Unrepeated id y' { w with core := core, worker := nextEntry now rest } := by
  have hbefore := h.before
  have hgoing := hs.going
  rw [hw] at hbefore hgoing
  have hnext : ∀ z, (nextEntry now rest).resumesAt id z = readNext id z rest ∧
      (nextEntry now rest).lastFor id z = z.lastEnqueuedFor := by
    intro z
    cases rest <;> exact ⟨rfl, rfl⟩
  by_cases hid : e.schedule.id = id
  · obtain ⟨x, hx, hxid, hstep, _⟩ := reportSchedulesStatus_ok hs.core.keyed hok
    rw [hid, h.row] at hx
    obtain rfl := Option.some.inj hx
    have hset := hstep.updated_schedules
    refine ⟨withStatus y ⟨e.schedule.id, p.scheduledAt, p.lastEnqueuedFor⟩ clock, ?_, h.nodup, ?_⟩
    · change core.rows.schedules.get id = _
      rw [hset]
      change (w.core.schedules.set y.id _).get id = _
      rw [hxid]
      change (w.core.schedules.set e.schedule.id _).get id = _
      rw [hid, Table.get_set_self]
    · have hrest : ∀ z, readNext id z rest = z.nextScheduledAt := by
        intro z
        refine readNext_stored (fun e' he' hid' => ?_)
        exact absurd (hid.trans hid'.symm) (List.rel_of_pairwise_cons hgoing.2.1.apart he')
      intro t ht
      change t < (nextEntry now rest).resumesAt id _ ∧ t ≤ (nextEntry now rest).lastFor id _
      rw [(hnext _).1, (hnext _).2, hrest]
      have hlt := hbefore t ht
      simp only [Worker.resumesAt, Worker.lastFor, hid, if_true, true_and] at hlt
      exact hlt
  · have hget : core.schedules.get id = w.core.schedules.get id :=
      reportSchedulesStatus_get hs.core.keyed hok (Ne.symm hid)
    refine ⟨y, hget.trans h.row, h.nodup, ?_⟩
    intro t ht
    change t < (nextEntry now rest).resumesAt id _ ∧ t ≤ (nextEntry now rest).lastFor id _
    rw [(hnext _).1, (hnext _).2]
    have hlt := hbefore t ht
    simp only [Worker.resumesAt, Worker.lastFor, hid, if_false, false_and] at hlt
    exact hlt

theorem Unrepeated.fetched (h : Unrepeated id y w) (hs : Sane (fun _ => False) w)
    (hf : Fetched w w') : ∃ y', Unrepeated id y' w' := by
  have hbefore := h.before
  cases hf with
  | rest hw => exact ⟨y, h⟩
  | finish hw hes =>
    rw [hw] at hbefore
    exact ⟨y, h.row, h.nodup, hbefore⟩
  | @poll now e rest hw hes =>
    have hgoing := hs.going
    rw [hw] at hbefore hgoing
    have hpage := (dequeSchedules_page hs.core hgoing hes).1
    have hread : readNext id y (e :: rest) = y.nextScheduledAt := by
      refine readNext_stored (fun e' he' hid => ?_)
      have hrow := hpage.row e' he' trivial
      rw [hid, h.row] at hrow
      exact (Option.some.inj hrow).symm
    refine ⟨y, h.row, h.nodup, ?_⟩
    intro t ht
    change t < readNext id y (e :: rest) ∧ t ≤ y.lastEnqueuedFor
    rw [hread]
    exact hbefore t ht
  | enqueue hw hp => exact ⟨y, h.enqueue hs hw hp⟩
  | report hw hok => exact h.report hs hw hok

/-- In every run of successful rounds and of edits that come when the next tick
has not been enqueued, no tick of the schedule is enqueued twice. -/
theorem run_never_replays (before events : List Event) (id : ScheduleId) (x : Schedule)
    (hbefore : Along (total step) (fun w e => e.Valid w) (World.start .empty) before)
    (hx : (coreAfter before).schedules.get id = some x)
    (hevents : Along (total step) (fun w e => e.Valid w ∧ e.KeepsCron id w ∧ e.NoRewind id w)
      (World.start (coreAfter before)) events)
    (hok : (run (World.start (coreAfter before)) events).errorsTotal = 0) :
    ((run (World.start (coreAfter before)) events).passed id).Nodup := by
  have hrun : Sane (fun _ => False) (run (World.start (coreAfter before)) events) ∧
      ((run (World.start (coreAfter before)) events).errorsTotal = 0 →
        ∃ y, Unrepeated id y (run (World.start (coreAfter before)) events)) := by
    refine run_successful (I := fun w => ∃ y, Unrepeated id y w) hevents ?_ ?_ ?_ ?_
      (.start (coreAfter_sound hbefore)) ⟨x, .start hx⟩
    · intro w now op _ _ hp
      exact False.elim hp
    · rintro w now op hs hv ⟨hk, hr⟩ ⟨y, hy⟩
      exact hy.call hs.core hv hk hr
    · rintro w now _ _ ⟨y, hy⟩
      exact ⟨y, hy.round now⟩
    · rintro w w' hs hf ⟨y, hy⟩
      exact hy.fetched hs hf
  obtain ⟨y, hy⟩ := hrun.2 hok
  exact hy.nodup

end Replays

section Runs

/-- The schedule gets another description. -/
def describe : Queues.Op :=
  .updateSchedule { cronSettings 1 with
    description := [7]
    accountId := 1
    queueName := [1]
    scheduleName := [1]
    expectedVersion := 1 }

/-- Two rounds with an edit in between. The first one enqueues the first minute. -/
def editedRun (edit later : Time) : List Event :=
  cronRound (10 * second) ++ .call edit describe :: cronRound later

theorem run_never_replays_late :
    ((run (World.start (coreAfter cronSetup))
      (editedRun (65 * second) (70 * second))).passed ⟨1, 1, 1⟩).Nodup :=
  run_never_replays cronSetup (editedRun (65 * second) (70 * second)) ⟨1, 1, 1⟩
    (newSchedule firstSchedule ⟨1, 1, 1⟩ second minute) (by decide +kernel) (by decide +kernel)
    (by decide +kernel) (by decide +kernel)

/-- Edited within the minute that was enqueued ahead, the schedule is taken back
to it. -/
theorem run_edited_replays :
    Along (total step) (fun w e => e.Valid w) (World.start .empty) cronSetup ∧
    Along (total step) (fun w e => e.Valid w ∧ e.KeepsCron ⟨1, 1, 1⟩ w)
      (World.start (coreAfter cronSetup)) (editedRun (20 * second) (30 * second)) ∧
    (run (World.start (coreAfter cronSetup))
      (editedRun (20 * second) (30 * second))).errorsTotal = 0 ∧
    (run (World.start (coreAfter cronSetup))
      (editedRun (20 * second) (30 * second))).passed ⟨1, 1, 1⟩ = [minute, minute] := by
  decide +kernel

end Runs

end Moab.Workers
