import Moab.Queues.Exec
import Moab.Queues.Validators
import Moab.Workers.Cron

namespace Moab.Workers

open OrderedStore Queues
open scoped Time

section Sound

/-- The bounds of an expiration in seconds. -/
def Expires (t : Time) : Prop := 60 ≤ t.toInt ∧ t.toInt ≤ 1209600

theorem validateExpiresInSeconds_expires (t : Time) :
    Ensures True (Corepb.validateExpiresInSeconds t) (fun _ => Expires t) := by
  unfold Corepb.validateExpiresInSeconds Corepb.validateBetween Corepb.require
  refine Ensures.ite (fun h => ?_) (fun _ => trivial)
  have hbounds := of_decide_eq_true h
  rw [not_or, gt_iff_lt, Int64.lt_iff_toInt_lt, Int64.lt_iff_toInt_lt] at hbounds
  have hlower : Corepb.minExpiresTimeoutInSeconds.toInt = 60 := by decide
  have hupper : Corepb.maxExpiresTimeoutInSeconds.toInt = 1209600 := by decide
  exact Ensures.ok ⟨by omega, by omega⟩

theorem QueueSettings.validate_expires (settings : QueueSettings) :
    Ensures True settings.validate (fun _ => Expires settings.expiresInSeconds) :=
  (validateExpiresInSeconds_expires _).bind
    (fun _ h => Ensures.of_eq (fun _ _ => h) (fun _ _ => trivial))

theorem validateOverride_expires (t : Time) :
    Ensures True (validateOverride t) (fun _ => t = 0 ∨ Expires t) := by
  unfold validateOverride
  refine Ensures.ite (fun _ => ?_) (fun h => Ensures.ok (Or.inl (not_not.mp h)))
  exact (validateExpiresInSeconds_expires t).mono (fun _ h => Or.inr h)

/-- A schedule as the core accepts it, with times from the epoch on. -/
structure SoundSchedule (x : Schedule) : Prop where
  expires : x.expiresInSeconds = 0 ∨ Expires x.expiresInSeconds
  next : 0 ≤ x.nextScheduledAt
  last : 0 ≤ x.lastEnqueuedFor

variable [Gronx]

theorem ScheduleSettings.validate_expires (settings : ScheduleSettings) :
    Ensures True settings.validate
      (fun _ => settings.expiresInSeconds = 0 ∨ Expires settings.expiresInSeconds) := by
  refine Ensures.bind_any (fun _ => Ensures.bind_any (fun _ => ?_))
  exact (validateOverride_expires _).bind
    (fun _ h => Ensures.of_eq (fun _ _ => h) (fun _ _ => trivial))

theorem nextTickAfter_nonneg {cron timezone : Bytes} {now t : Time} (hnow : 0 ≤ now)
    (h : nextTickAfter cron timezone now = .ok t) : 0 ≤ t :=
  le_trans hnow (le_of_lt (isLeast_nextTickAfter h).1.2)

theorem validate_ok {op : Queues.Op} (h : op.validate.isOk) : op.validate = .ok () := by
  cases hv : op.validate with
  | ok u => rfl
  | error e => simp [hv, Except.isOk, Except.toBool] at h

variable [OrderedStore]

/-- A state of the queues core that validated calls lead to. -/
structure Sound (s : Queues.State) : Prop where
  keyed : Keyed s
  filed : s.rows.Filed
  queue : ∀ q x, s.queues.get q = some x → Expires x.expiresInSeconds
  schedule : ∀ id x, s.schedules.get id = some x → SoundSchedule x

omit [Gronx] in
theorem Sound.empty : Sound Queues.State.empty where
  keyed := Keyed.empty
  filed := Exact.empty
  queue q x hx := by simp [Queues.State.empty] at hx
  schedule id x hx := by simp [Queues.State.empty] at hx

/-- The status of schedules is reported by the worker only. -/
def fromClient : Queues.Op → Bool
  | .reportSchedulesStatus _ => false
  | _ => true

/-- A call that a client makes: it passed validation, the clock is past the
epoch, and a queue id that a queue moves to has not been used. -/
def ValidCall (s : Queues.State) (now : Time) (op : Queues.Op) : Prop :=
  op.validate.isOk ∧ 0 ≤ now ∧ op.fresh s ∧ fromClient op

instance (s : Queues.State) (now : Time) (op : Queues.Op) : Decidable (ValidCall s now op) := by
  unfold ValidCall
  infer_instance

theorem Sound.commit {s : Queues.State} {now : Time} {op : Queues.Op} (h : Sound s)
    (hc : ValidCall s now op) : Sound (Queues.commit s now op) := by
  obtain ⟨hvalid, hnow, hfresh, hclient⟩ := hc
  have hvalid := validate_ok hvalid
  obtain ⟨⟨es, hes, _⟩, hqueues⟩ := commit_makes now h.keyed hfresh
  refine ⟨h.keyed.commit hfresh, Steps.filed hes h.filed, ?_, ?_⟩
  · intro q y hy
    rcases (hqueues q y hy).2 with ⟨c, hop, hy⟩ | ⟨p, x, hx, hy⟩
    · rw [hy]
      cases op with
      | createQueue req =>
        obtain rfl := Option.some.inj hop
        have hall : Ensures True (Op.validate (.createQueue req))
            (fun _ => Expires req.expiresInSeconds) :=
          Ensures.bind_any (fun _ => QueueSettings.validate_expires req.toQueueSettings)
        exact hall.elim hvalid
      | updateQueue req =>
        obtain rfl := Option.some.inj hop
        exact (QueueSettings.validate_expires req.toQueueSettings).elim hvalid
      | _ => simp [Op.queueSettings] at hop
    · rw [hy]
      exact h.queue p x hx
  · refine commit_every h.keyed hfresh h.schedule ?_ ?_ ?_ ?_
    · rintro req id nextTime rfl htick
      exact ⟨(ScheduleSettings.validate_expires req.toScheduleSettings).elim hvalid,
        nextTickAfter_nonneg hnow htick, Int64.le_refl 0⟩
    · rintro req x nextTime rfl htick hx
      exact ⟨(ScheduleSettings.validate_expires req.toScheduleSettings).elim hvalid,
        nextTickAfter_nonneg hnow htick, hx.last⟩
    · rintro req x rfl
      simp [fromClient] at hclient
    · intro x q hx
      exact ⟨hx.expires, hx.next, hx.last⟩

end Sound

section Horizon

/-- A clock reading from the epoch on, with room for the look-ahead and the
longest expiration. -/
def Horizon (now : Time) : Prop := 0 ≤ now ∧ now.toInt + 1209660 * 1000000000 < 2 ^ 63

instance (now : Time) : Decidable (Horizon now) := by
  unfold Horizon
  infer_instance

theorem Horizon.nonneg {now : Time} (h : Horizon now) :
    0 ≤ now.toInt := Int64.le_iff_toInt_le.mp h.1

theorem Horizon.toInt_dueBefore {now : Time} (h : Horizon now) :
    (dueBefore now).toInt = now.toInt + 60 * 1000000000 := by
  have hnow := h.nonneg
  have hroom := h.2
  apply toInt_plusSeconds
  have hminute : (60 : Time).toInt = 60 := by decide
  rw [hminute]
  exact ⟨by omega, by omega⟩

theorem Horizon.lt_dueBefore {now : Time} (h : Horizon now) : now < dueBefore now := by
  rw [Int64.lt_iff_toInt_lt, h.toInt_dueBefore]
  omega

theorem Horizon.dueBefore_le {now later : Time} (h : Horizon now) (hl : Horizon later)
    (hle : now ≤ later) : dueBefore now ≤ dueBefore later := by
  rw [Int64.le_iff_toInt_le] at hle ⊢
  rw [h.toInt_dueBefore, hl.toInt_dueBefore]
  omega

variable {e : Entry}

theorem expiresInSeconds_expires (hx : SoundSchedule e.schedule)
    (hq : Expires e.queue.expiresInSeconds) : Expires (expiresInSeconds e) := by
  unfold expiresInSeconds
  split
  · next hpos =>
    rcases hx.expires with hzero | hexp
    · rw [hzero] at hpos
      exact absurd hpos (by decide)
    · exact hexp
  · exact hq

/-- A tick of the look-ahead that is not missed is enqueued, since it has not
expired yet. -/
theorem enqueues_iff {now t : Time} (h : Horizon now) (hx : SoundSchedule e.schedule)
    (hq : Expires e.queue.expiresInSeconds) (ht : t ≤ dueBefore now) :
    enqueues now e t = true ↔ now ≤ t := by
  unfold enqueues
  rw [decide_eq_true_eq, and_iff_left_iff_imp]
  intro hnow
  have hexp := expiresInSeconds_expires hx hq
  have hroom := h.2
  have hpos := h.nonneg
  have hdue := h.toInt_dueBefore
  rw [Int64.le_iff_toInt_le] at hnow ht
  change now < plusSeconds t (expiresInSeconds e)
  obtain ⟨hmin, hmax⟩ := hexp
  rw [Int64.lt_iff_toInt_lt, toInt_plusSeconds ⟨by omega, by omega⟩]
  omega

end Horizon

section Page

variable [OrderedStore] {s : Queues.State} {now : Time}

/-- What a round knows of the schedules it was given: they were due, each is
there once, and those of a kind P are still stored as they were read. -/
structure Page (P : ScheduleId → Prop) (s : Queues.State) (now : Time)
    (es : List Entry) : Prop where
  row : ∀ e ∈ es, P e.schedule.id → s.schedules.get e.schedule.id = some e.schedule
  apart : es.Pairwise (fun a b => a.schedule.id ≠ b.schedule.id)
  due : ∀ e ∈ es, e.schedule.nextScheduledAt ≤ dueBefore now
  sound : ∀ e ∈ es, SoundSchedule e.schedule ∧ Expires e.queue.expiresInSeconds

/-- DequeSchedules reads the rows of the first due items and their queues. -/
theorem dequeSchedules_reads (h : Keyed s) {before : Time} {es : List Entry}
    (hes : dequeSchedules s before = .ok es) :
    List.Forall₂ (fun i e => s.schedules.get i.id = some e.schedule ∧ e.schedule.id = i.id ∧
      s.queues.get i.id.queue = some e.queue) (s.dueItems before) es := by
  unfold dequeSchedules at hes
  cases hxs : s.listDue before maxDequeueSchedules with
  | error err => simp [hxs, bind, Except.bind] at hes
  | ok xs =>
    simp only [hxs, bind, Except.bind] at hes
    have hrows := forall₂_of_mapM_ok hxs
    have hqueues := forall₂_of_mapM_ok hes
    change List.Forall₂ _ (s.dueItems before) xs at hrows
    clear hxs hes
    generalize s.dueItems before = is at hrows
    induction hrows generalizing es with
    | nil =>
      cases hqueues
      exact .nil
    | @cons i x is xs hx _ ih =>
      cases hqueues with
      | @cons _ e _ es he hrest =>
        refine .cons ?_ (ih hrest)
        unfold Queues.State.getSchedule at hx
        cases hget : s.schedules.get i.id with
        | none => simp [hget] at hx
        | some y =>
          simp only [hget, Except.ok.injEq] at hx
          obtain rfl := hx
          have hid := h.schedule _ y hget
          unfold Queues.State.getQueue at he
          cases hq : s.queues.get y.id.queue with
          | none => simp [hq] at he
          | some queue =>
            simp only [hq, Except.ok.injEq] at he
            obtain rfl := he
            rw [← hid]
            exact ⟨rfl, rfl, hq⟩

theorem dequeSchedules_page (h : Sound s) (hn : Horizon now) {es : List Entry}
    (hes : dequeSchedules s (dueBefore now) = .ok es) : Page (fun _ => True) s now es ∧
      (es = [] → ∀ id x, s.schedules.get id = some x → dueBefore now < x.nextScheduledAt) := by
  have hreads := dequeSchedules_reads h.keyed hes
  have hpast : (0 : Time) ≤ dueBefore now :=
    Int64.le_of_lt (Int64.lt_of_le_of_lt hn.1 hn.lt_dueBefore)
  have hitem : ∀ i ∈ s.dueItems (dueBefore now), ∃ x, s.schedules.get i.id = some x ∧
      x.nextScheduledAt = i.time ∧ i.time ≤ dueBefore now := by
    intro i hi
    obtain ⟨hmem, hrange⟩ := List.mem_filter.mp (List.mem_of_mem_take hi)
    obtain ⟨x, hx, htime⟩ := h.filed.mem_iff.mp hmem
    exact ⟨x, hx, htime, Time.le_of_rank hpast (of_decide_eq_true hrange).2⟩
  refine ⟨⟨?_, ?_, ?_, ?_⟩, ?_⟩
  · intro e he _
    obtain ⟨i, _, hget, hid, _⟩ := exists_of_mem_right hreads he
    rw [hid]
    exact hget
  · -- two items of one schedule would both hold its next time
    have hids : es.map (·.schedule.id) = (s.dueItems (dueBefore now)).map (·.id) := by
      rw [← List.forall₂_eq_eq_eq, List.forall₂_map_left_iff, List.forall₂_map_right_iff]
      exact hreads.flip.imp (fun _ _ hr => hr.2.1)
    have hapart : (s.dueItems (dueBefore now)).Pairwise (fun i j => i.id ≠ j.id) := by
      have hnodup : (s.dueItems (dueBefore now)).Nodup := (s.scheduledIndex.items_nodup ()).sublist
        ((List.take_sublist _ _).trans List.filter_sublist)
      refine hnodup.imp_of_mem ?_
      intro i j hi hj hne hid
      obtain ⟨x, hx, hxt, _⟩ := hitem i hi
      obtain ⟨y, hy, hyt, _⟩ := hitem j hj
      rw [hid, hy] at hx
      obtain rfl := Option.some.inj hx
      apply hne
      cases i; cases j
      simp_all
    have hmap := List.pairwise_map.mpr hapart
    rw [← hids] at hmap
    exact List.pairwise_map.mp hmap
  · intro e he
    obtain ⟨i, hi, hget, _, _⟩ := exists_of_mem_right hreads he
    obtain ⟨x, hx, hxt, hdue⟩ := hitem i hi
    rw [hget] at hx
    rw [Option.some.inj hx, hxt]
    exact hdue
  · intro e he
    obtain ⟨i, _, hget, _, hqueue⟩ := exists_of_mem_right hreads he
    exact ⟨h.schedule _ _ hget, h.queue _ _ hqueue⟩
  · intro hempty id x hx
    by_contra hle
    have hdue := Time.rank_le (h.schedule id x hx).next (Int64.not_lt.mp hle)
    have hmem : (⟨x.nextScheduledAt, id⟩ : ScheduledItem) ∈ (s.scheduledIndex.items ()).filter
        (fun i => (0 : Time).rank ≤ i.time.rank ∧ i.time.rank ≤ (dueBefore now).rank) := by
      refine List.mem_filter.mpr ⟨h.filed.mem_iff.mpr ⟨x, hx, rfl⟩, decide_eq_true ⟨?_, hdue⟩⟩
      exact Time.rank_le (Int64.le_refl 0) (h.schedule id x hx).next
    rw [hempty] at hreads
    have hnone := List.forall₂_nil_right_iff.mp hreads
    rw [Queues.State.dueItems, List.take_eq_nil_iff] at hnone
    rcases hnone with hlimit | hnone
    · exact absurd hlimit (by decide)
    · rw [hnone] at hmem
      exact absurd hmem (by simp)

theorem Page.tail {P : ScheduleId → Prop} {e : Entry} {es : List Entry}
    (h : Page P s now (e :: es)) : Page P s now es where
  row e' he' := h.row e' (List.mem_cons_of_mem _ he')
  apart := h.apart.of_cons
  due e' he' := h.due e' (List.mem_cons_of_mem _ he')
  sound e' he' := h.sound e' (List.mem_cons_of_mem _ he')

/-- A page stays good as long as its own schedules are left alone. -/
theorem Page.keep {P Q : ScheduleId → Prop} {s' : Queues.State} {es : List Entry}
    (h : Page P s now es) (hrows : ∀ e ∈ es, Q e.schedule.id → P e.schedule.id ∧
      s'.schedules.get e.schedule.id = s.schedules.get e.schedule.id) : Page Q s' now es where
  row e he hq := by
    obtain ⟨hp, hget⟩ := hrows e he hq
    rw [hget]
    exact h.row e he hp
  apart := h.apart
  due := h.due
  sound := h.sound

end Page

section Worlds

variable [OrderedStore]

/-- A report that the core accepts rewrites the row of its schedule. -/
theorem reportSchedulesStatus_ok {s s' : Queues.State} (h : Keyed s) {clock : Time}
    {req : ReportSchedulesStatusRequest}
    (hok : reportSchedulesStatus s clock req = .ok (s', .ok ())) :
    ∃ x, s.schedules.get req.scheduleId = some x ∧ x.id = req.scheduleId ∧
      Queues.Step s.rows (.updated x (withStatus x req clock)) s'.rows ∧ s'.queues = s.queues := by
  unfold reportSchedulesStatus at hok
  cases hx : s.schedules.get req.scheduleId with
  | none => simp [hx] at hok
  | some x =>
    have hid := h.schedule _ x hx
    have hrow : s.schedules.get x.id = some x := by
      rw [hid]
      exact hx
    obtain ⟨t, ht, hstep, hqueues⟩ := (updateSchedule_step (y := withStatus x req clock) hrow
      rfl).returns
    simp only [hx, ht, bind, Except.bind, Except.ok.injEq, Prod.mk.injEq] at hok
    obtain ⟨rfl, _⟩ := hok
    exact ⟨x, rfl, hid, hstep, hqueues⟩

theorem reportSchedulesStatus_get {s s' : Queues.State} (h : Keyed s) {clock : Time}
    {req : ReportSchedulesStatusRequest}
    (hok : reportSchedulesStatus s clock req = .ok (s', .ok ())) {id : ScheduleId}
    (hid : id ≠ req.scheduleId) : s'.schedules.get id = s.schedules.get id := by
  obtain ⟨x, _, hx, hstep, _⟩ := reportSchedulesStatus_ok h hok
  have hset : s'.schedules = s.schedules.set x.id (withStatus x req clock) :=
    hstep.updated_schedules
  rw [hset, hx, Table.get_set_ne _ _ hid]

theorem Sound.report {s s' : Queues.State} (h : Sound s) {clock : Time}
    {req : ReportSchedulesStatusRequest} (hnext : 0 ≤ req.nextScheduledAt)
    (hlast : 0 ≤ req.lastEnqueuedFor)
    (hok : reportSchedulesStatus s clock req = .ok (s', .ok ())) : Sound s' := by
  obtain ⟨x, hx, hid, hstep, hqueues⟩ := reportSchedulesStatus_ok h.keyed hok
  refine ⟨⟨?_, hstep.keyed h.keyed.schedule⟩, hstep.filed h.filed, ?_, ?_⟩
  · rw [hqueues]
    exact h.keyed.queue
  · rw [hqueues]
    exact h.queue
  · refine Queues.Step.every hstep h.schedule (by simp) ?_
      (fun x q hx => ⟨hx.expires, hx.next, hx.last⟩)
    intro a b hab ha
    obtain ⟨rfl, rfl⟩ := Queues.Event.updated.inj hab
    refine ⟨ha.expires, hnext, ?_⟩
    unfold withStatus
    dsimp only
    split
    · exact hlast
    · exact ha.last

variable [Gronx]

omit [OrderedStore] in
/-- What a pass over sound times records is sound. -/
theorem pass_nonneg {now : Time} {e : Entry} {p : Pass} (hn : Horizon now)
    (hx : SoundSchedule e.schedule) (hp : pass now e = .ok p) :
    0 ≤ p.scheduledAt ∧ 0 ≤ p.lastEnqueuedFor := by
  obtain ⟨hlast, l, hwalk, htimes⟩ := (pass_walks now e).elim hp
  refine ⟨le_trans hx.next hwalk.start_le, ?_⟩
  rw [hlast]
  cases hg : (times p.entries).getLast? with
  | none => exact Int64.le_refl 0
  | some t =>
    have hmem := List.mem_of_getLast? hg
    rw [htimes] at hmem
    have henq := of_decide_eq_true (List.mem_filter.mp hmem).2
    exact le_trans hn.1 henq.1

/-- What the code around the worker promises. -/
def Event.Valid (w : World) : Event → Prop
  | .call now op => ValidCall w.core now op
  | .round now => w.worker = .idle ∧ Horizon now
  | .fetch _ _ => True

instance (w : World) (e : Event) : Decidable (e.Valid w) := by
  unfold Event.Valid
  split <;> infer_instance

/-- What holds while a round is going on. -/
def Going (P : ScheduleId → Prop) (s : Queues.State) : Worker → Prop
  | .idle => True
  | .polling now => Horizon now
  | .serving now e rest => Horizon now ∧ Page P s now (e :: rest)
  | .reporting now e p rest => Horizon now ∧ Page P s now (e :: rest) ∧ pass now e = .ok p

structure Sane (P : ScheduleId → Prop) (w : World) : Prop where
  core : Sound w.core
  going : Going P w.core w.worker

variable {P : ScheduleId → Prop} {w : World}

theorem Sane.start {s : Queues.State} (h : Sound s) : Sane P (World.start s) := ⟨h, trivial⟩

theorem Going.keep {s s' : Queues.State} {worker : Worker} (h : Going P s worker)
    (hrows : ∀ id, P id → s'.schedules.get id = s.schedules.get id) : Going P s' worker := by
  cases worker with
  | idle => trivial
  | polling now => exact h
  | serving now e rest => exact ⟨h.1, h.2.keep (fun e' _ hp => ⟨hp, hrows _ hp⟩)⟩
  | reporting now e p rest => exact ⟨h.1, h.2.1.keep (fun e' _ hp => ⟨hp, hrows _ hp⟩), h.2.2⟩

theorem Going.nextEntry {s : Queues.State} {now : Time} {es : List Entry} (hn : Horizon now)
    (h : Page P s now es) : Going P s (nextEntry now es) := by
  cases es with
  | nil => exact hn
  | cons e rest => exact ⟨hn, h⟩

theorem Sane.call (h : Sane P w) {now : Time} {op : Queues.Op} (hc : ValidCall w.core now op)
    (hrows : ∀ id, P id → (Queues.commit w.core now op).schedules.get id =
      w.core.schedules.get id) :
    Sane P (step w (.call now op)) :=
  ⟨h.core.commit hc, h.going.keep hrows⟩

theorem Sane.round (h : Sane P w) {now : Time} (hn : Horizon now) :
    Sane P (step w (.round now)) := by
  obtain ⟨core, worker, rounds, enqueued, errorsTotal⟩ := w
  cases worker with
  | idle => exact ⟨h.core, hn⟩
  | polling now | serving now e rest | reporting now e p rest => exact h

/-- What a round does on its next call, unless it meets an error. -/
inductive Fetched (w : World) : World → Prop where
  | rest (h : w.worker = .idle) : Fetched w w
  | finish {now : Time} (h : w.worker = .polling now)
    (hes : dequeSchedules w.core (dueBefore now) = .ok []) : Fetched w { w with worker := .idle }
  | poll {now : Time} {e : Entry} {rest : List Entry} (h : w.worker = .polling now)
    (hes : dequeSchedules w.core (dueBefore now) = .ok (e :: rest)) :
    Fetched w { w with worker := .serving now e rest }
  | enqueue {now : Time} {e : Entry} {rest : List Entry} {p : Pass}
    (h : w.worker = .serving now e rest) (hp : pass now e = .ok p) :
    Fetched w { w with
      worker := .reporting now e p rest
      enqueued := w.enqueued ++ [⟨e.schedule.id, e.queue.id, p.entries⟩] }
  | report {now clock : Time} {e : Entry} {p : Pass} {rest : List Entry} {core : Queues.State}
    (h : w.worker = .reporting now e p rest)
    (hok : reportSchedulesStatus w.core clock ⟨e.schedule.id, p.scheduledAt, p.lastEnqueuedFor⟩ =
      .ok (core, .ok ())) :
    Fetched w { w with core := core, worker := nextEntry now rest }

/-- A round that is given up. The core is as it was. -/
structure GivenUp (w w' : World) : Prop where
  core : w'.core = w.core
  worker : w'.worker = .idle
  errorsTotal : w'.errorsTotal = w.errorsTotal + 1

theorem fetch_cases (w : World) (clock : Time) (accepted : Bool) :
    Fetched w (w.fetch clock accepted) ∨ GivenUp w (w.fetch clock accepted) := by
  unfold World.fetch
  cases hw : w.worker with
  | idle => exact Or.inl (.rest hw)
  | polling now =>
    dsimp only
    cases hes : dequeSchedules w.core (dueBefore now) with
    | error err => exact Or.inr ⟨rfl, rfl, rfl⟩
    | ok es =>
      cases es with
      | nil => exact Or.inl (.finish hw hes)
      | cons e rest => exact Or.inl (.poll hw hes)
  | serving now e rest =>
    dsimp only
    cases hp : pass now e with
    | error err => exact Or.inr ⟨rfl, rfl, rfl⟩
    | ok p =>
      cases accepted with
      | false => exact Or.inr ⟨rfl, rfl, rfl⟩
      | true => exact Or.inl (.enqueue hw hp)
  | reporting now e p rest =>
    dsimp only
    split
    · next core hok => exact Or.inl (.report hw hok)
    · exact Or.inr ⟨rfl, rfl, rfl⟩

theorem Fetched.errorsTotal {w' : World} (h : Fetched w w') : w'.errorsTotal = w.errorsTotal := by
  cases h <;> rfl

theorem Fetched.sane {w' : World} (hf : Fetched w w') (h : Sane P w) : Sane P w' := by
  obtain ⟨hcore, hgoing⟩ := h
  cases hf with
  | rest hw => exact ⟨hcore, hgoing⟩
  | finish hw hes => exact ⟨hcore, trivial⟩
  | poll hw hes =>
    rw [hw] at hgoing
    have hpage := (dequeSchedules_page hcore hgoing hes).1
    exact ⟨hcore, hgoing, hpage.keep (fun _ _ _ => ⟨trivial, rfl⟩)⟩
  | enqueue hw hp =>
    rw [hw] at hgoing
    exact ⟨hcore, hgoing.1, hgoing.2, hp⟩
  | report hw hok =>
    rw [hw] at hgoing
    obtain ⟨hn, hpage, hp⟩ := hgoing
    obtain ⟨hnext, hlast⟩ := pass_nonneg hn (hpage.sound _ List.mem_cons_self).1 hp
    refine ⟨hcore.report hnext hlast hok, Going.nextEntry hn (hpage.tail.keep ?_)⟩
    intro e' he' hpe
    have hne := List.rel_of_pairwise_cons hpage.apart he'
    exact ⟨hpe, reportSchedulesStatus_get hcore.keyed hok (Ne.symm hne)⟩

theorem Sane.fetch (h : Sane P w) (clock : Time) (accepted : Bool) :
    Sane P (w.fetch clock accepted) := by
  rcases fetch_cases w clock accepted with hf | hg
  · exact hf.sane h
  · refine ⟨?_, ?_⟩
    · rw [hg.core]
      exact h.core
    · rw [hg.worker]
      trivial

/-- Valid events keep the core sound and the rounds sane. -/
theorem run_sane (events : List Event) (h : Along (total step) (fun w e => e.Valid w) w events)
    (hs : Sane (fun _ => False) w) : Sane (fun _ => False) (run w events) := by
  refine Along.foldl h (fun w e hs hv => ?_) hs
  cases e with
  | call now op => exact hs.call hv (fun _ hp => False.elim hp)
  | round now => exact hs.round hv.2
  | fetch clock accepted => exact hs.fetch clock accepted

/-- The core after a run from nothing. -/
def coreAfter (events : List Event) : Queues.State := (run (World.start .empty) events).core

theorem coreAfter_sound {events : List Event}
    (h : Along (total step) (fun w e => e.Valid w) (World.start .empty) events) :
    Sound (coreAfter events) := (run_sane events h (.start .empty)).core

/-- Errors are never taken back. -/
theorem errorsTotal_le (w : World) (e : Event) : w.errorsTotal ≤ (step w e).errorsTotal := by
  cases e with
  | call now op => exact le_refl _
  | round now =>
    unfold step
    dsimp only
    split <;> exact le_refl _
  | fetch clock accepted =>
    rcases fetch_cases w clock accepted with hf | hg
    · exact le_of_eq hf.errorsTotal.symm
    · have hone := hg.errorsTotal
      change w.errorsTotal ≤ (w.fetch clock accepted).errorsTotal
      omega

/-- What the events of a run keep as long as no round meets an error. -/
theorem run_successful {C : World → Event → Prop} {I : World → Prop} {events : List Event}
    (h : Along (total step) (fun w e => e.Valid w ∧ C w e) w events)
    (hrows : ∀ w now op, C w (.call now op) → ∀ id, P id →
      (Queues.commit w.core now op).schedules.get id = w.core.schedules.get id)
    (hcall : ∀ w now op, Sane P w → ValidCall w.core now op → C w (.call now op) → I w →
      I (step w (.call now op)))
    (hround : ∀ w now, Event.Valid w (.round now) → C w (.round now) → I w →
      I (step w (.round now)))
    (hfetch : ∀ w w', Sane P w → Fetched w w' → I w → I w') (hs : Sane P w) (hi : I w) :
    Sane P (run w events) ∧ ((run w events).errorsTotal = 0 → I (run w events)) := by
  refine Along.foldl h (I := fun w => Sane P w ∧ (w.errorsTotal = 0 → I w)) ?_ ⟨hs, fun _ => hi⟩
  rintro w e ⟨hs, hi⟩ ⟨hv, hc⟩
  have hle := errorsTotal_le w e
  cases e with
  | call now op =>
    exact ⟨hs.call hv (hrows w now op hc), fun hok => hcall w now op hs hv hc (hi hok)⟩
  | round now => exact ⟨hs.round hv.2, fun hok => hround w now hv hc (hi (by omega))⟩
  | fetch clock accepted =>
    refine ⟨hs.fetch clock accepted, fun hok => ?_⟩
    rcases fetch_cases w clock accepted with hf | hg
    · exact hfetch w _ hs hf (hi (by omega))
    · have hone := hg.errorsTotal
      change (w.fetch clock accepted).errorsTotal = 0 at hok
      omega

end Worlds

end Moab.Workers
