import Moab.Framework.SortedList
import Moab.Queues.Minutes
import Moab.Workers.Worlds

namespace Moab.Workers

open OrderedStore Queues
open scoped Time

section Ends

variable [OrderedStore] [Gronx]

/-- The round is left alone: only its own calls happen. -/
def World.fetches (w : World) (answers : List (Time × Bool)) : World :=
  answers.foldl (fun w a => w.fetch a.1 a.2) w

/-- Whatever its calls answer, the round comes to an end. -/
def Ends (w : World) : Prop :=
  ∀ answers : Nat → Time × Bool, ∃ n, (w.fetches ((List.range n).map answers)).worker = .idle

theorem Ends.of_idle {w : World} (h : w.worker = .idle) : Ends w := fun _ => ⟨0, h⟩

theorem Ends.of_fetch {w : World} (h : ∀ clock accepted, Ends (w.fetch clock accepted)) :
    Ends w := by
  intro answers
  obtain ⟨n, hn⟩ := h (answers 0).1 (answers 0).2 (fun i => answers (i + 1))
  refine ⟨n + 1, ?_⟩
  rw [List.range_succ_eq_map, List.map_cons, List.map_map]
  exact hn

/-- The schedules a round still finds due. -/
def dueRows (s : Queues.State) (now : Time) : Nat :=
  s.schedules.count (fun _ x => x.nextScheduledAt ≤ dueBefore now)

/-- Every call of a round that is left alone takes it closer to its end. -/
def World.toGo (w : World) : Nat :=
  match w.worker with
  | .idle => 0
  | .polling now => 3 * dueRows w.core now + 1
  | .serving now _ _ => 3 * dueRows w.core now
  | .reporting now _ _ _ => 3 * dueRows w.core now - 1

omit [Gronx] in
theorem dueRows_pos {s : Queues.State} {now : Time} {es : List Entry} {e : Entry}
    (h : Page (fun _ => True) s now es) (he : e ∈ es) : 0 < dueRows s now := by
  rw [Nat.pos_iff_ne_zero]
  intro hzero
  have hnone := Table.count_eq_zero.mp hzero _ _ (h.row e he trivial)
  exact absurd (h.due e he) (of_decide_eq_false hnone)

/-- A schedule that was served is no longer due. -/
theorem dueRows_report {s s' : Queues.State} {now clock : Time} {e : Entry} {p : Pass}
    {rest : List Entry} (h : Sound s) (hpage : Page (fun _ => True) s now (e :: rest))
    (hp : pass now e = .ok p)
    (hok : reportSchedulesStatus s clock ⟨e.schedule.id, p.scheduledAt, p.lastEnqueuedFor⟩ =
      .ok (s', .ok ())) : dueRows s' now + 1 = dueRows s now := by
  have hrow := hpage.row e List.mem_cons_self trivial
  obtain ⟨x, hx, hid, hstep, _⟩ := reportSchedulesStatus_ok h.keyed hok
  obtain rfl := Option.some.inj (hrow.symm.trans hx)
  obtain ⟨_, l, hwalk, _⟩ := (pass_walks now e).elim hp
  have hcount := Table.count_set (fun _ (x : Schedule) =>
    decide (x.nextScheduledAt ≤ dueBefore now)) s.schedules e.schedule.id
    (withStatus e.schedule ⟨e.schedule.id, p.scheduledAt, p.lastEnqueuedFor⟩ clock)
  have hbeyond : ¬p.scheduledAt ≤ dueBefore now := Int64.not_le.mpr hwalk.beyond
  have hset : s'.schedules = s.schedules.set e.schedule.id (withStatus e.schedule
      ⟨e.schedule.id, p.scheduledAt, p.lastEnqueuedFor⟩ clock) := hstep.updated_schedules
  unfold dueRows
  rw [hset]
  rw [hrow] at hcount
  simpa [Table.hit, hpage.due e List.mem_cons_self, withStatus, hbeyond] using hcount

theorem Sane.ends_fresh (n : Nat) (w : World) (h : Sane (fun _ => True) w) (hn : w.toGo ≤ n) :
    Ends w := by
  induction n using Nat.strong_induction_on generalizing w with
  | _ n ih =>
    by_cases hidle : w.worker = .idle
    · exact Ends.of_idle hidle
    refine Ends.of_fetch (fun clock accepted => ?_)
    rcases fetch_cases w clock accepted with hf | hg
    swap
    · exact Ends.of_idle hg.worker
    have hsane := hf.sane h
    have closer : ∀ w', Sane (fun _ => True) w' → w'.toGo < w.toGo → Ends w' :=
      fun w' hw' hlt => ih w'.toGo (lt_of_lt_of_le hlt hn) w' hw' (le_refl _)
    obtain ⟨hcore, hgoing⟩ := h
    generalize w.fetch clock accepted = w' at hf hsane
    cases hf with
    | rest hw => exact absurd hw hidle
    | finish hw hes => exact Ends.of_idle rfl
    | poll hw hes =>
      apply closer _ hsane
      simp only [World.toGo, hw]
      omega
    | enqueue hw hp =>
      rw [hw] at hgoing
      have hpos := dueRows_pos hgoing.2 List.mem_cons_self
      apply closer _ hsane
      simp only [World.toGo, hw]
      omega
    | @report now _ e p rest core hw hok =>
      rw [hw] at hgoing
      have hless := dueRows_report hcore hgoing.2.1 hgoing.2.2 hok
      apply closer _ hsane
      cases rest with
      | nil | cons e' rest =>
        simp only [World.toGo, hw, nextEntry]
        omega

variable {P : ScheduleId → Prop}

/-- A round that polls next knows nothing that could be stale. -/
theorem Sane.ends_polling {w : World} {now : Time} (h : Sane P w) (hw : w.worker = .polling now) :
    Ends w := by
  obtain ⟨hcore, hgoing⟩ := h
  rw [hw] at hgoing
  exact Sane.ends_fresh _ w ⟨hcore, by rw [hw]; exact hgoing⟩ (le_refl _)

/-- The calls a round still makes for its page. -/
def Worker.pending : Worker → Nat
  | .idle => 0
  | .polling _ => 0
  | .serving _ _ rest => 2 * rest.length + 2
  | .reporting _ _ _ rest => 2 * rest.length + 1

/-- Every round ends, if it is left alone from some time on. -/
theorem Sane.ends (n : Nat) (w : World) (h : Sane P w) (hn : w.worker.pending ≤ n) : Ends w := by
  induction n using Nat.strong_induction_on generalizing w with
  | _ n ih =>
    by_cases hidle : w.worker = .idle
    · exact Ends.of_idle hidle
    by_cases hpoll : ∃ now, w.worker = .polling now
    · obtain ⟨now, hw⟩ := hpoll
      exact h.ends_polling hw
    refine Ends.of_fetch (fun clock accepted => ?_)
    rcases fetch_cases w clock accepted with hf | hg
    swap
    · exact Ends.of_idle hg.worker
    have hsane := hf.sane h
    generalize w.fetch clock accepted = w' at hf hsane
    have closer : w'.worker.pending < w.worker.pending → Ends w' :=
      fun hlt => ih _ (lt_of_lt_of_le hlt hn) w' hsane (le_refl _)
    cases hf with
    | rest hw => exact absurd hw hidle
    | finish hw hes | poll hw hes => exact absurd ⟨_, hw⟩ hpoll
    | enqueue hw hp =>
      apply closer
      rw [hw]
      exact Nat.lt_succ_self _
    | @report now _ e p rest core hw hok =>
      apply closer
      rw [hw]
      cases rest with
      | nil => exact Nat.succ_pos _
      | cons e' rest =>
        simp only [nextEntry, Worker.pending, List.length_cons]
        omega

end Ends

section Progress

variable [OrderedStore] [Gronx] {id : ScheduleId} {x y : Schedule} {w w' : World}

/-- The time of the round that is going on. -/
def Worker.round : Worker → Option Time
  | .idle => none
  | .polling now => some now
  | .serving now _ _ => some now
  | .reporting now _ _ _ => some now

/-- The first time not yet dealt with: the stored one, or the one about to be
reported. -/
def Worker.frontier (worker : Worker) (id : ScheduleId) (y : Schedule) : Time :=
  match worker with
  | .reporting _ e p _ => if e.schedule.id = id then p.scheduledAt else y.nextScheduledAt
  | _ => y.nextScheduledAt

omit [Gronx] in
theorem passed_append (w : World) (r : Passed) (id : ScheduleId) :
    World.passed { w with enqueued := w.enqueued ++ [r] } id =
      w.passed id ++ if r.scheduleId = id then times r.request.entries else [] := by
  unfold World.passed
  rw [List.filter_append, List.flatMap_append]
  by_cases h : r.scheduleId = id <;> simp [h, times]

/-- Rounds come in order, and none comes more than a minute after the one before. -/
def Event.OnPace (w : World) : Event → Prop
  | .round now => ∀ last ∈ w.rounds.getLast?, last ≤ now ∧ now ≤ dueBefore last
  | _ => True

/-- No client changes the schedule. -/
def Event.Leaves (id : ScheduleId) (w : World) : Event → Prop
  | .call now op => (Queues.commit w.core now op).schedules.get id = w.core.schedules.get id
  | _ => True

/-- How far the rounds have come with a schedule that was x when they began. -/
structure Progress (id : ScheduleId) (x y : Schedule) (w : World) : Prop where
  row : w.core.schedules.get id = some y
  ticks : scheduleTicks y = scheduleTicks x
  horizon : ∀ now ∈ w.rounds, Horizon now
  none : w.rounds = [] → w.passed id = [] ∧ w.worker.frontier id y = x.nextScheduledAt
  log : ∀ first ∈ w.rounds.head?, Covers (scheduleTicks x) x.nextScheduledAt first
    (w.worker.frontier id y) (w.passed id)
  reached : w.worker.frontier id y = x.nextScheduledAt ∨
    ∃ m last, w.rounds.getLast? = some last ∧ x.nextScheduledAt ≤ m ∧ m ≤ dueBefore last ∧
      IsLeast (pointsAfter (scheduleTicks x) m) (w.worker.frontier id y)
  rest : w.worker = .idle → ∀ first ∈ w.rounds.head?, ∀ last ∈ w.rounds.getLast?,
    first ≤ last ∧ dueBefore last < w.worker.frontier id y
  going : ∀ now, w.worker.round = some now → w.rounds.getLast? = some now ∧
    ∀ first ∈ w.rounds.head?, first ≤ now ∧ (first = now ∨ now ≤ w.worker.frontier id y)

theorem Progress.start {s : Queues.State} (h : s.schedules.get id = some x) :
    Progress id x x (World.start s) where
  row := h
  ticks := rfl
  horizon now hnow := by simp [World.start] at hnow
  none _ := ⟨rfl, rfl⟩
  log first hfirst := by simp [World.start] at hfirst
  reached := Or.inl rfl
  rest _ first hfirst := by simp [World.start] at hfirst
  going now hnow := by simp [World.start, Worker.round] at hnow

theorem Progress.call (h : Progress id x y w) {now : Time} {op : Queues.Op}
    (hl : Event.Leaves id w (.call now op)) : Progress id x y (step w (.call now op)) where
  row := hl.trans h.row
  ticks := h.ticks
  horizon := h.horizon
  none := h.none
  log := h.log
  reached := h.reached
  rest := h.rest
  going := h.going

/-- A round begins after the ones before have dealt with their minute. -/
theorem Progress.round (h : Progress id x y w) {now : Time}
    (hv : Event.Valid w (.round now)) (hp : Event.OnPace w (.round now)) :
    Progress id x y (step w (.round now)) := by
  obtain ⟨core, worker, rounds, enqueued, errorsTotal⟩ := w
  obtain ⟨rfl, hnow⟩ := hv
  have hlast : (rounds ++ [now]).getLast? = some now := by simp
  change Progress id x y ⟨core, .polling now, rounds ++ [now], enqueued, errorsTotal⟩
  refine ⟨h.row, h.ticks, ?_, by simp, ?_, ?_, by simp, ?_⟩
  · intro r hr
    rcases List.mem_append.mp hr with hr | hr
    · exact h.horizon r hr
    · rw [List.mem_singleton.mp hr]
      exact hnow
  · intro first hfirst
    cases rounds with
    | nil =>
      obtain ⟨hpassed, hfront⟩ := h.none rfl
      change World.passed ⟨core, .polling now, [now], enqueued, errorsTotal⟩ id = [] at hpassed
      change y.nextScheduledAt = x.nextScheduledAt at hfront
      change Covers _ _ _ y.nextScheduledAt _
      rw [List.nil_append, hpassed, hfront]
      exact Covers.nil
    | cons r rounds => exact h.log first hfirst
  · rcases h.reached with heq | ⟨m, last, hm, hxm, hle, hleast⟩
    · exact Or.inl heq
    · have hmono := (h.horizon last (List.mem_of_getLast? hm)).dueBefore_le hnow (hp last hm).1
      exact Or.inr ⟨m, now, hlast, hxm, le_trans hle hmono, hleast⟩
  · intro now' hnow'
    obtain rfl : now = now' := Option.some.inj hnow'
    refine ⟨hlast, ?_⟩
    intro first hfirst
    cases rounds with
    | nil =>
      obtain rfl : now = first := Option.some.inj hfirst
      exact ⟨le_refl _, Or.inl rfl⟩
    | cons r rounds =>
      obtain ⟨last, hl⟩ := Option.isSome_iff_exists.mp
        (List.getLast?_isSome.mpr (List.cons_ne_nil r rounds))
      obtain ⟨hfl, hdue⟩ := h.rest rfl first hfirst last hl
      obtain ⟨hle, hgap⟩ := hp last hl
      exact ⟨le_trans hfl hle, Or.inr (le_of_lt (lt_of_le_of_lt hgap hdue))⟩

/-- A call of a round that does not deal with the schedule. -/
theorem Progress.pass_by (h : Progress id x y w) {y' : Schedule}
    (hrow : w'.core.schedules.get id = some y') (hticks : scheduleTicks y' = scheduleTicks y)
    (hrounds : w'.rounds = w.rounds) (hpassed : w'.passed id = w.passed id)
    (hfront : w'.worker.frontier id y' = w.worker.frontier id y)
    (hround : w'.worker.round = w.worker.round) (hbusy : w.worker ≠ .idle) :
    Progress id x y' w' := by
  have hbusy' : w'.worker ≠ .idle := by
    intro hidle
    rw [hidle] at hround
    cases hw : w.worker with
    | idle => exact hbusy hw
    | _ => simp [hw, Worker.round] at hround
  refine ⟨hrow, hticks.trans h.ticks, ?_, ?_, ?_, ?_, fun hidle => absurd hidle hbusy', ?_⟩
  · rw [hrounds]
    exact h.horizon
  · rw [hrounds, hpassed, hfront]
    exact h.none
  · rw [hrounds, hpassed, hfront]
    exact h.log
  · rw [hrounds, hfront]
    exact h.reached
  · rw [hrounds, hround, hfront]
    exact h.going

theorem Progress.visited (h : Progress id x y w) :
    w.worker.frontier id y = x.nextScheduledAt ∨
      w.worker.frontier id y ∈ pointsAfter (scheduleTicks x) x.nextScheduledAt := by
  rcases h.reached with heq | ⟨m, _, _, hxm, _, hleast⟩
  · exact Or.inl heq
  · exact Or.inr ⟨hleast.1.1, lt_of_le_of_lt hxm hleast.1.2⟩

/-- Serving the schedule enqueues its ticks of the next minute. -/
theorem Progress.serve (h : Progress id x y w) (hs : Sane (· = id) w) {now : Time} {e : Entry}
    {rest : List Entry} {p : Pass} (hw : w.worker = .serving now e rest) (hp : pass now e = .ok p) :
    Progress id x y { w with
      worker := .reporting now e p rest
      enqueued := w.enqueued ++ [⟨e.schedule.id, e.queue.id, p.entries⟩] } := by
  obtain ⟨core, worker, rounds, enqueued, errorsTotal⟩ := w
  obtain rfl : worker = .serving now e rest := hw
  have hpassed := passed_append ⟨core, .reporting now e p rest, rounds, enqueued, errorsTotal⟩
    ⟨e.schedule.id, e.queue.id, p.entries⟩ id
  by_cases hid : e.schedule.id = id
  swap
  · rw [if_neg hid, List.append_nil] at hpassed
    refine h.pass_by h.row rfl rfl hpassed ?_ rfl (by simp)
    simp [Worker.frontier, hid]
  rw [if_pos hid] at hpassed
  obtain ⟨hn, hpage⟩ := hs.going
  have hrow := hpage.row e List.mem_cons_self hid
  rw [hid] at hrow
  obtain rfl := Option.some.inj (h.row.symm.trans hrow)
  obtain ⟨hlast, hfirst⟩ := h.going now rfl
  obtain ⟨_, l, hwalk, htimes⟩ := (pass_walks now e).elim hp
  have hdue := hpage.due e List.mem_cons_self
  have hfront : Worker.frontier (.reporting now e p rest) id e.schedule = p.scheduledAt :=
    if_pos hid
  rw [h.ticks] at hwalk
  -- nothing of the look-ahead has expired, so only what is past is skipped
  have henqueued : times p.entries = l.filter (fun t => now ≤ t) := by
    rw [htimes]
    apply List.filter_congr
    intro t ht
    obtain ⟨hsound, hexp⟩ := hpage.sound e List.mem_cons_self
    rw [Bool.eq_iff_iff, enqueues_iff hn hsound hexp (hwalk.mem_iff.mp ht).1, decide_eq_true_eq]
  refine ⟨h.row, h.ticks, h.horizon, ?_, ?_, ?_, by simp, ?_⟩
  · intro hnil
    obtain rfl : rounds = [] := hnil
    simp at hlast
  · intro first hf
    change Covers _ _ _ (Worker.frontier (.reporting now e p rest) id e.schedule) _
    rw [hfront, hpassed, henqueued]
    obtain ⟨hle, hskip⟩ := hfirst first hf
    exact (h.log first hf).extend h.visited hwalk hle hskip
  · refine Or.inr ⟨dueBefore now, now, hlast, ?_, le_refl _, ?_⟩
    · refine le_trans ?_ hdue
      rcases h.visited with heq | hafter
      · exact le_of_eq heq.symm
      · exact le_of_lt hafter.2
    · change IsLeast _ (Worker.frontier (.reporting now e p rest) id e.schedule)
      rw [hfront]
      exact hwalk.least hdue
  · intro now' hnow'
    obtain rfl : now = now' := Option.some.inj hnow'
    refine ⟨hlast, fun first hf => ⟨(hfirst first hf).1, Or.inr ?_⟩⟩
    change now ≤ Worker.frontier (.reporting now e p rest) id e.schedule
    rw [hfront]
    exact le_of_lt (lt_trans hn.lt_dueBefore hwalk.beyond)

omit [OrderedStore] [Gronx] in
theorem frontier_nextEntry (now : Time) (es : List Entry) (id : ScheduleId) (y : Schedule) :
    (nextEntry now es).frontier id y = y.nextScheduledAt := by
  cases es <;> rfl

omit [OrderedStore] [Gronx] in
theorem round_nextEntry (now : Time) (es : List Entry) : (nextEntry now es).round = some now := by
  cases es <;> rfl

/-- The report stores what the round has dealt with. -/
theorem Progress.report (h : Progress id x y w) (hs : Sane (· = id) w)
    {now clock : Time} {e : Entry} {rest : List Entry} {p : Pass} {core : Queues.State}
    (hw : w.worker = .reporting now e p rest)
    (hok : reportSchedulesStatus w.core clock ⟨e.schedule.id, p.scheduledAt, p.lastEnqueuedFor⟩ =
      .ok (core, .ok ())) :
    ∃ y', Progress id x y' { w with core := core, worker := nextEntry now rest } := by
  have hbusy : w.worker ≠ .idle := by
    rw [hw]
    simp
  have hround : (nextEntry now rest).round = w.worker.round := by
    rw [hw]
    exact round_nextEntry now rest
  by_cases hid : e.schedule.id = id
  · obtain ⟨z, hz, hzid, hstep, _⟩ := reportSchedulesStatus_ok hs.core.keyed hok
    have hzid : z.id = id := hzid.trans hid
    have hz : w.core.schedules.get id = some z := by
      rw [← hid]
      exact hz
    obtain rfl := Option.some.inj (h.row.symm.trans hz)
    refine ⟨withStatus y ⟨e.schedule.id, p.scheduledAt, p.lastEnqueuedFor⟩ clock,
      h.pass_by ?_ rfl rfl rfl ?_ hround hbusy⟩
    · have hset : core.schedules = w.core.schedules.set y.id (withStatus y
        ⟨e.schedule.id, p.scheduledAt, p.lastEnqueuedFor⟩ clock) := hstep.updated_schedules
      rw [hset, hzid, Table.get_set_self]
    · rw [frontier_nextEntry, hw]
      exact (if_pos hid).symm
  · refine ⟨y, h.pass_by ?_ rfl rfl rfl ?_ hround hbusy⟩
    · rw [reportSchedulesStatus_get hs.core.keyed hok (Ne.symm hid)]
      exact h.row
    · rw [frontier_nextEntry, hw]
      exact (if_neg hid).symm

theorem Progress.fetched (h : Progress id x y w) (hs : Sane (· = id) w) (hf : Fetched w w') :
    ∃ y', Progress id x y' w' := by
  cases hf with
  | rest hw => exact ⟨y, h⟩
  | @finish now hw hes =>
    -- the core has no schedule left that is due
    have hgoing := hs.going
    rw [hw] at hgoing
    have hnone := (dequeSchedules_page hs.core hgoing hes).2 rfl id y h.row
    have hfront : w.worker.frontier id y = y.nextScheduledAt := by rw [hw]; rfl
    obtain ⟨hlast, hfirst⟩ := h.going now (by rw [hw]; rfl)
    refine ⟨y, h.row, h.ticks, h.horizon, ?_, ?_, ?_, ?_, ?_⟩
    · intro hnil
      have hnone := h.none hnil
      rw [hfront] at hnone
      exact hnone
    · intro first hf
      have hlog := h.log first hf
      rw [hfront] at hlog
      exact hlog
    · have hreached := h.reached
      rw [hfront] at hreached
      exact hreached
    · intro _ first hf last hl
      obtain rfl : now = last := Option.some.inj (hlast.symm.trans hl)
      exact ⟨(hfirst first hf).1, hnone⟩
    · intro now' hnow'
      simp [Worker.round] at hnow'
  | poll hw hes =>
    have hfront : w.worker.frontier id y = y.nextScheduledAt := by rw [hw]; rfl
    refine ⟨y, h.pass_by h.row rfl rfl rfl hfront.symm ?_ ?_⟩
    · rw [hw]
      rfl
    · rw [hw]
      simp
  | enqueue hw hp => exact ⟨y, h.serve hs hw hp⟩
  | report hw hok => exact h.report hs hw hok

end Progress

section Once

variable [OrderedStore] [Gronx] {id : ScheduleId} {x : Schedule}

/-- What the rounds from first to last have made of a schedule that was x when
they began. -/
structure EnqueuedOnce (id : ScheduleId) (x : Schedule) (first last : Time) (w : World) : Prop where
  once : ∀ t ∈ scheduleTicks x, max x.nextScheduledAt first ≤ t → t ≤ dueBefore last →
    (w.passed id).count t = 1
  outside : ∀ t ∈ scheduleTicks x, ¬(max x.nextScheduledAt first ≤ t ∧ t ≤ dueBefore last) →
    t ∉ w.passed id
  only : ∀ t ∈ w.passed id, t = x.nextScheduledAt ∨ t ∈ scheduleTicks x
  next : ∃ y, w.core.schedules.get id = some y ∧
    (x.nextScheduledAt ≤ dueBefore last →
      IsLeast (pointsAfter (scheduleTicks x) (dueBefore last)) y.nextScheduledAt) ∧
    (dueBefore last < x.nextScheduledAt → y.nextScheduledAt = x.nextScheduledAt)

theorem Progress.enqueuedOnce {y : Schedule} {w : World} (h : Progress id x y w)
    (hidle : w.worker = .idle) {first last : Time} (hfirst : w.rounds.head? = some first)
    (hlast : w.rounds.getLast? = some last) : EnqueuedOnce id x first last w := by
  have hfront : w.worker.frontier id y = y.nextScheduledAt := by rw [hidle]; rfl
  have hlog := h.log first hfirst
  have hreached := h.reached
  have hrest := (h.rest hidle first hfirst last hlast).2
  rw [hfront] at hlog hreached hrest
  have hin : ∀ t ∈ scheduleTicks x, max x.nextScheduledAt first ≤ t → t ≤ dueBefore last →
      t ∈ w.passed id := by
    intro t ht hle hdue
    rw [hlog.mem_iff]
    refine ⟨?_, lt_of_le_of_lt hdue hrest, le_trans (le_max_right _ _) hle⟩
    rcases eq_or_lt_of_le (le_trans (le_max_left _ _) hle) with heq | hlt
    · exact Or.inl heq.symm
    · exact Or.inr ⟨ht, hlt⟩
  refine ⟨?_, ?_, ?_, y, h.row, ?_⟩
  · intro t ht hle hdue
    exact List.count_eq_one_of_mem hlog.nodup (hin t ht hle hdue)
  · intro t ht hnot hmem
    obtain ⟨hpoint, hlt, hle⟩ := (hlog.mem_iff t).mp hmem
    have hfrom : x.nextScheduledAt ≤ t := by
      rcases hpoint with rfl | hafter
      · exact le_refl _
      · exact le_of_lt hafter.2
    refine hnot ⟨max_le hfrom hle, ?_⟩
    rcases hreached with heq | ⟨m, last', hl, _, hm, hleast⟩
    · rw [heq] at hlt
      exact absurd hlt (not_lt.mpr hfrom)
    · obtain rfl := Option.some.inj (hlast.symm.trans hl)
      by_contra hdue
      exact absurd hlt (not_lt.mpr (hleast.2 ⟨ht, lt_of_le_of_lt hm (not_le.mp hdue)⟩))
  · intro t hmem
    exact ((hlog.mem_iff t).mp hmem).1.imp_right (fun hafter => hafter.1)
  · rcases hreached with heq | ⟨m, last', hl, hxm, hm, hleast⟩
    · rw [heq] at hrest
      exact ⟨fun hdue => absurd hrest (not_lt.mpr hdue), fun _ => heq⟩
    · obtain rfl := Option.some.inj (hlast.symm.trans hl)
      exact ⟨fun _ => isLeast_advance hleast hm hrest,
        fun hdue => absurd (le_trans hxm hm) (not_le.mpr hdue)⟩

instance (w : World) (e : Event) : Decidable (e.OnPace w) :=
  match e with
  | .round _ => Option.decidableForallMem _
  | .call _ _ | .fetch _ _ => .isTrue trivial

instance (w : World) (e : Event) : Decidable (e.Leaves id w) :=
  match e with
  | .call _ _ => inferInstanceAs (Decidable (_ = _))
  | .round _ | .fetch _ _ => .isTrue trivial

/-- In every run of successful rounds that follow each other within a minute,
whatever clients do to other schedules, each tick of a schedule that they leave
alone is enqueued once; and left alone, every round ends. -/
theorem run_enqueues_once (before events : List Event) (id : ScheduleId) (x : Schedule)
    (hbefore : Along (total step) (fun w e => e.Valid w) (World.start .empty) before)
    (hx : (coreAfter before).schedules.get id = some x)
    (hevents : Along (total step) (fun w e => e.Valid w ∧ e.Leaves id w ∧ e.OnPace w)
      (World.start (coreAfter before)) events) :
    Ends (run (World.start (coreAfter before)) events) ∧ ∀ w first last,
      run (World.start (coreAfter before)) events = w → w.worker = .idle → w.errorsTotal = 0 →
      w.rounds.head? = some first → w.rounds.getLast? = some last →
      EnqueuedOnce id x first last w := by
  have hrun : Sane (· = id) (run (World.start (coreAfter before)) events) ∧
      ((run (World.start (coreAfter before)) events).errorsTotal = 0 →
        ∃ y, Progress id x y (run (World.start (coreAfter before)) events)) := by
    refine run_successful (I := fun w => ∃ y, Progress id x y w) hevents ?_ ?_ ?_ ?_
      (.start (coreAfter_sound hbefore)) ⟨x, .start hx⟩
    · rintro w now op hc _ rfl
      exact hc.1
    · rintro w now op _ _ hc ⟨y, hy⟩
      exact ⟨y, hy.call hc.1⟩
    · rintro w now hv hc ⟨y, hy⟩
      exact ⟨y, hy.round hv hc.2⟩
    · rintro w w' hs hf ⟨y, hy⟩
      exact hy.fetched hs hf
  refine ⟨Sane.ends _ _ hrun.1 (le_refl _), ?_⟩
  rintro w first last rfl hidle hok hfirst hlast
  obtain ⟨y, hy⟩ := hrun.2 hok
  exact hy.enqueuedOnce hidle hfirst hlast

end Once

section Runs

/-- A queue with a schedule for every minute. -/
def cronSetup : List Event :=
  [.call second (.createQueue firstQueue), .call second (.createSchedule firstSchedule)]

/-- A round with its calls, for one schedule. -/
def cronRound (now : Time) : List Event := .round now :: List.replicate 4 (.fetch now true)

def twoRounds : List Event := cronRound (10 * second) ++ cronRound (70 * second)

theorem run_enqueues_once_minutes :
    EnqueuedOnce ⟨1, 1, 1⟩ (newSchedule firstSchedule ⟨1, 1, 1⟩ second minute) (10 * second)
      (70 * second) (run (World.start (coreAfter cronSetup)) twoRounds) :=
  (run_enqueues_once cronSetup twoRounds ⟨1, 1, 1⟩ _ (by decide +kernel) (by decide +kernel)
    (by decide +kernel)).2 _ _ _ rfl (by decide +kernel) (by decide +kernel) (by decide +kernel)
    (by decide +kernel)

/-- The schedule was created by a client whose clock is ahead. -/
def aheadSetup : List Event :=
  [.call second (.createQueue firstQueue), .call (1000 * second) (.createSchedule firstSchedule)]

/-- Its first tick is then later than the first one that is not due yet. -/
theorem run_ahead_next_later :
    Along (total step) (fun w e => e.Valid w) (World.start .empty) aheadSetup ∧
    Along (total step) (fun w e => e.Valid w ∧ e.Leaves ⟨1, 1, 1⟩ w ∧ e.OnPace w)
      (World.start (coreAfter aheadSetup)) (cronRound (10 * second)) ∧
    (run (World.start (coreAfter aheadSetup)) (cronRound (10 * second))).worker = .idle ∧
    (run (World.start (coreAfter aheadSetup)) (cronRound (10 * second))).errorsTotal = 0 ∧
    ∃ y, (run (World.start (coreAfter aheadSetup))
        (cronRound (10 * second))).core.schedules.get ⟨1, 1, 1⟩ = some y ∧
      ¬IsLeast (pointsAfter (scheduleTicks y) (dueBefore (10 * second))) y.nextScheduledAt := by
  refine ⟨by decide +kernel, by decide +kernel, by decide +kernel, by decide +kernel,
    newSchedule firstSchedule ⟨1, 1, 1⟩ (1000 * second) (1020 * second), by decide +kernel, ?_⟩
  intro hleast
  have htick : 120 * second ∈ ticks firstSchedule.cron firstSchedule.timezone :=
    (isLeast_nextTickAfter (show nextTickAfter firstSchedule.cron firstSchedule.timezone
      (70 * second) = .ok (120 * second) by decide +kernel)).1.1
  exact absurd (hleast.2 ⟨htick, by decide⟩) (by decide)

end Runs

end Moab.Workers
