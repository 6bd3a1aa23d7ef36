import Moab.Queues.Runs

namespace Moab.Queues

open OrderedStore

section Store

variable [OrderedStore] {s t : State} {old new : QueueId} {x y : Schedule} {n : Nat}

section Use

variable {U V : QueueId → Prop}

/-- Whatever is stored about schedules is under queue ids of U. -/
structure Stored (U : QueueId → Prop) (r : Shelves) : Prop where
  keyed : ∀ id x, r.schedules.get id = some x → x.id = id
  schedule : ∀ id x, r.schedules.get id = some x → U id.queue
  name : ∀ k n, r.scheduleNames.get k = some n → U k.queue
  item : ∀ i ∈ r.scheduledIndex.items (), U i.id.queue

theorem Stored.mono {r : Shelves} (h : Stored U r) (hU : ∀ q, U q → V q) : Stored V r :=
  ⟨h.keyed, fun id x hx => hU _ (h.schedule id x hx), fun k n hk => hU _ (h.name k n hk),
    fun i hi => hU _ (h.item i hi)⟩

theorem Stored.create (h : Stored U s.shelves) (hx : U x.id.queue) :
    Stored U (s.createSchedule x).shelves := by
  refine ⟨?_, ?_, ?_, ?_⟩
  · intro id y hy
    change (s.schedules.set x.id x).get id = some y at hy
    rw [Table.get_set] at hy
    split_ifs at hy with hid
    · rw [hid, ← Option.some.inj hy]
    · exact h.keyed id y hy
  · intro id y hy
    change (s.schedules.set x.id x).get id = some y at hy
    rw [Table.get_set] at hy
    split_ifs at hy with hid
    · rw [hid]
      exact hx
    · exact h.schedule id y hy
  · intro k n hk
    change (s.scheduleNames.set ⟨x.id.queue, x.name⟩ x.id.scheduleId).get k = some n at hk
    rw [Table.get_set] at hk
    split_ifs at hk with he
    · rw [he]
      exact hx
    · exact h.name k n hk
  · intro i hi
    rcases Index.mem_add.mp hi with he | hi
    · rw [he.2]
      exact hx
    · exact h.item i hi

theorem Stored.delete (h : Stored U s.shelves) : Stored U (s.deleteSchedule x).shelves := by
  have hrow : ∀ {id y}, (s.schedules.delete x.id).get id = some y →
      s.schedules.get id = some y := by
    intro id y hy
    rw [Table.get_delete] at hy
    split_ifs at hy
    exact hy
  refine ⟨fun id y hy => h.keyed id y (hrow hy), fun id y hy => h.schedule id y (hrow hy), ?_, ?_⟩
  · intro k n hk
    change (s.scheduleNames.delete ⟨x.id.queue, x.name⟩).get k = some n at hk
    rw [Table.get_delete] at hk
    split_ifs at hk
    exact h.name k n hk
  · intro i hi
    exact h.item i (Index.mem_remove.mp hi).1

theorem Stored.update (h : Stored U s.shelves) (written : s.updateSchedule y = .ok t)
    (row : s.schedules.get x.id = some x) (same : y.id = x.id) : Stored U t.shelves := by
  have hU : U y.id.queue := by
    rw [same]
    exact h.schedule _ x row
  have hcreated := h.create hU
  have hstep := (updateSchedule_written written row same).1
  have hframe := updateSchedule_frame written
  have hitem : ∀ i ∈ t.scheduledIndex.items (), U i.id.queue := by
    unfold State.updateSchedule State.getSchedule at written
    rw [same, row] at written
    obtain rfl := Except.ok.inj written
    intro i hi
    dsimp only at hi
    split_ifs at hi
    · rcases Index.mem_add.mp hi with he | hi
      · rw [he.2]
        exact hU
      · exact h.item i (Index.mem_remove.mp hi).1
    · exact h.item i hi
  rw [hframe]
  exact ⟨hcreated.keyed, hcreated.schedule, h.name, hitem⟩

/-- The queues and their names agree, and whatever is stored is under queue ids of U.
Nothing is said of what a reused id may have done to the indexes of the schedules. -/
structure InUse (U : QueueId → Prop) (s : State) : Prop where
  registered : Registered { s.registry with gcRecords := Table.empty }
  queue : ∀ q x, s.queues.get q = some x → U q
  stored : Stored U s.shelves

theorem InUse.mono (h : InUse U s) (hU : ∀ q, U q → V q) : InUse V s :=
  ⟨h.registered, fun q x hx => hU q (h.queue q x hx), h.stored.mono hU⟩

theorem InUse.queueByName (h : InUse U s) {accountId : Nat} {name : Bytes} {x : Queue}
    (hx : s.queueByName accountId name = some x) :
    s.queues.get x.id = some x ∧ x.id.accountId = accountId ∧ x.name = name :=
  Registered.queueByName (s := { s with gcRecords := Table.empty }) h.registered hx

/-- A queue is rewritten under its name and id. -/
theorem InUse.updateQueue (h : InUse U s) {x y : Queue} (row : s.queues.get y.id = some x)
    (hname : y.name = x.name) : InUse U (s.updateQueue y) := by
  refine ⟨Registered.update (s := { s with gcRecords := Table.empty }) h.registered row hname, ?_,
    h.stored⟩
  intro q z hz
  change (s.queues.set y.id y).get q = some z at hz
  rw [Table.get_set] at hz
  split_ifs at hz with hq
  · rw [hq]
    exact h.queue _ x row
  · exact h.queue q z hz

theorem InUse.swapId (h : InUse U s) {x y : Queue} (row : s.queues.get x.id = some x)
    (hname : y.name = x.name) (haccount : y.id.accountId = x.id.accountId)
    (absent : s.queues.get y.id = none) (pages : Nat) :
    InUse (fun q => U q ∨ y.id = q) ((moveSchedules x.id y.id pages none s).swapId x.id y) := by
  have hne : x.id ≠ y.id := by
    intro he
    rw [he, absent] at row
    simp at row
  have hmoved : Stored (fun q => U q ∨ y.id = q) (moveSchedules x.id y.id pages none s).shelves ∧
      (moveSchedules x.id y.id pages none s).queues = s.queues ∧
      (moveSchedules x.id y.id pages none s).queueNames = s.queueNames ∧
      (moveSchedules x.id y.id pages none s).counters = s.counters := by
    refine moveSchedules_keeps (I := fun t => Stored (fun q => U q ∨ y.id = q) t.shelves ∧
      t.queues = s.queues ∧ t.queueNames = s.queueNames ∧ t.counters = s.counters) hne
      (fun _ hI => hI.1.keyed) ?_ pages none s
      ⟨h.stored.mono (fun _ hq => Or.inl hq), rfl, rfl, rfl⟩
    intro t v hI _ _
    exact ⟨(hI.1.delete (x := v)).create (Or.inr rfl), hI.2⟩
  generalize moveSchedules x.id y.id pages none s = t at hmoved
  obtain ⟨hstored, hqueues, hnames, hcounters⟩ := hmoved
  have hregistered := Registered.swap (s := { s with gcRecords := Table.empty })
    h.registered row hname haccount absent (by simp)
  refine ⟨?_, ?_, hstored⟩
  · change Registered ⟨(t.queues.set y.id y).delete x.id,
      t.queueNames.set ⟨y.id.accountId, y.name⟩ y.id.queueId, t.counters, Table.empty⟩
    rw [hqueues, hnames, hcounters]
    exact hregistered
  · intro q z hz
    change ((t.queues.set y.id y).delete x.id).get q = some z at hz
    rw [hqueues, Table.get_delete] at hz
    split_ifs at hz
    rw [Table.get_set] at hz
    split_ifs at hz with hq
    · exact Or.inr hq.symm
    · exact Or.inl (h.queue q z hz)

variable [Gronx] {now : Time} {op : Op}

/-- Step: only the id that a call brings along can come into use. -/
theorem InUse.commit (h : InUse U s) (now : Time) (op : Op) :
    InUse (fun q => U q ∨ op.newQueueId = some q) (commit s now op) := by
  have hmore : ∀ q, U q → U q ∨ op.newQueueId = some q := fun _ hq => Or.inl hq
  have heffect := commit_effect s now op
  generalize Queues.commit s now op = t at heffect ⊢
  cases heffect with
  | nothing => exact h.mono hmore
  | @createQueue req unnamed _ absent =>
    have hnew := Registered.create (s := { s with gcRecords := Table.empty })
      (x := newQueue req now)
      h.registered absent (Registered.unnamed (s := { s with gcRecords := Table.empty })
        h.registered unnamed) (by simp)
    refine ⟨hnew, ?_, h.stored.mono hmore⟩
    intro q z hz
    change (s.queues.set req.queueId (newQueue req now)).get q = some z at hz
    rw [Table.get_set] at hz
    split_ifs at hz with hq
    · exact Or.inr (congrArg some hq.symm)
    · exact Or.inl (h.queue q z hz)
  | updateQueue named => exact (h.updateQueue (y := withQueueSettings _ _ now)
      (h.queueByName named).1 rfl).mono hmore
  | @deleteQueue req queue named =>
    have hdeleted := Registered.delete (s := { s with gcRecords := Table.empty }) h.registered
      (h.queueByName named).1
    refine ⟨⟨hdeleted.keyed, hdeleted.names, hdeleted.counted, by simp⟩, ?_, h.stored.mono hmore⟩
    intro q z hz
    change (s.queues.delete queue.id).get q = some z at hz
    rw [Table.get_delete] at hz
    split_ifs at hz
    exact Or.inl (h.queue q z hz)
  | @swapQueueId req queue named absent =>
    obtain ⟨row, haccount, _⟩ := h.queueByName named
    have hswap := h.swapId (y := withQueueId queue ⟨req.accountId, req.newQueueId⟩ now) row rfl
      haccount.symm absent (s.schedules.entries.length + 1)
    exact hswap.mono (fun q hq => hq.imp_right (congrArg some))
  | @createSchedule req queue nextTime named _ _ _ _ =>
    obtain ⟨row, haccount, _⟩ := h.queueByName named
    have hcreated : InUse U (s.createSchedule (newSchedule req
        ⟨req.accountId, queue.id.queueId, req.scheduleId⟩ now nextTime)) := by
      refine ⟨h.registered, h.queue, h.stored.create ?_⟩
      change U ⟨req.accountId, queue.id.queueId⟩
      rw [← haccount]
      exact h.queue _ queue row
    exact (hcreated.updateQueue (y := { queue with schedulesCount := queue.schedulesCount + 1 })
      row rfl).mono hmore
  | @updateSchedule req v nextTime t named _ _ written =>
    obtain ⟨queue, _, hv⟩ := Option.bind_eq_some_iff.mp named
    obtain ⟨n, _, row⟩ := Option.bind_eq_some_iff.mp hv
    have hid := h.stored.keyed _ v row
    have hstored := h.stored.update (x := v) written (by rw [hid]; exact row) rfl
    rw [updateSchedule_frame written] at hstored ⊢
    exact ⟨h.registered, fun q z hz => Or.inl (h.queue q z hz), hstored.mono hmore⟩
  | @deleteSchedule req queue v named _ =>
    have hdeleted : InUse U (s.deleteSchedule v) := ⟨h.registered, h.queue, h.stored.delete⟩
    exact (hdeleted.updateQueue (y := { queue with schedulesCount := queue.schedulesCount - 1 })
      (h.queueByName named).1 rfl).mono hmore
  | @reportSchedulesStatus req v t row written =>
    have hid := h.stored.keyed _ v row
    have hstored := h.stored.update (x := v) written (by rw [hid]; exact row) rfl
    rw [updateSchedule_frame written] at hstored ⊢
    exact ⟨h.registered, fun q z hz => Or.inl (h.queue q z hz), hstored.mono hmore⟩
  | runQueuesGarbageCollection =>
    refine InUse.mono (U := U) ?_ hmore
    refine runQueuesGarbageCollection_keeps h.stored.keyed _ ?_ ?_ h
    · intro t v hI _ _
      exact ⟨hI.registered, hI.queue, hI.stored.delete⟩
    · intro t q hI _
      exact ⟨hI.registered, hI.queue, hI.stored⟩

omit [Gronx] in
theorem InUse.empty : InUse (fun _ => False) State.empty where
  registered := Registered.empty
  queue q x hx := by simp [State.empty] at hx
  stored := ⟨fun id x hx => by simp [State.empty, State.shelves] at hx,
    fun id x hx => by simp [State.empty, State.shelves] at hx,
    fun k n hk => by simp [State.empty, State.shelves] at hk,
    fun i hi => by simp [State.empty, State.shelves] at hi⟩

/-- Run: what is stored is under ids that some call brought along. -/
theorem run_inUse (calls : List Call) (s : State) (h : InUse U s) :
    InUse (fun q => U q ∨ q ∈ newQueueIds calls) (run s calls) := by
  induction calls generalizing s U with
  | nil => exact h.mono (fun _ hq => Or.inl hq)
  | cons c calls ih =>
    refine (ih _ (h.commit c.now c.op)).mono (fun q hq => ?_)
    unfold newQueueIds
    rw [List.filterMap_cons]
    rcases hq with (hq | hq) | hq
    · exact Or.inl hq
    · rw [hq]
      exact Or.inr List.mem_cons_self
    · refine Or.inr ?_
      cases c.op.newQueueId with
      | none => exact hq
      | some p => exact List.mem_cons_of_mem _ hq

end Use

section Move

/-- The schedule x of number n has been moved from the one queue id to the other. -/
structure Carried (s : State) (old new : QueueId) (t : State) (n : Nat) (x : Schedule) : Prop where
  before : s.schedules.get (old.schedule n) = some x
  after : t.schedules.get (new.schedule n) = some (moved x new)

/-- The state while schedules are being moved to an id that nothing is stored under. -/
structure Relocating (s : State) (old new : QueueId) (t : State) : Prop extends
    Moving s old new t where
  others : ∀ id, id.queue ≠ old → id.queue ≠ new → t.schedules.get id = s.schedules.get id
  each : ∀ n, t.schedules.get (old.schedule n) = s.schedules.get (old.schedule n) ∧
      t.schedules.get (new.schedule n) = none ∨
    t.schedules.get (old.schedule n) = none ∧ ∃ x, Carried s old new t n x
  index : ∀ i, i ∈ t.scheduledIndex.items () ↔
    (∃ n x, Carried s old new t n x ∧ (moved x new).scheduledItem = i) ∨
    i ∈ s.scheduledIndex.items () ∧ ∀ n x, Carried s old new t n x → x.scheduledItem ≠ i
  otherNames : ∀ k, k.queue ≠ old → k.queue ≠ new → t.scheduleNames.get k = s.scheduleNames.get k
  oldNames : ∀ name n, t.scheduleNames.get ⟨old, name⟩ = some n ↔
    s.scheduleNames.get ⟨old, name⟩ = some n ∧ ∀ m x, Carried s old new t m x → x.name ≠ name
  newNames : ∀ name n, t.scheduleNames.get ⟨new, name⟩ = some n →
    ∃ x, Carried s old new t n x ∧ x.name = name
  named : ∀ n x, Carried s old new t n x → t.scheduleNames.get ⟨new, x.name⟩ ≠ none

theorem Relocating.refl (h : Stored (· ≠ new) s.shelves) : Relocating s old new s := by
  have hnone : ∀ n, s.schedules.get (new.schedule n) = none := by
    intro n
    refine Option.eq_none_iff_forall_ne_some.mpr (fun x hx => ?_)
    exact h.schedule _ x hx rfl
  have hfresh : ∀ n x, ¬Carried s old new s n x := by
    intro n x hc
    have hafter := hc.after
    rw [hnone n] at hafter
    simp at hafter
  have hname : ∀ name, s.scheduleNames.get ⟨new, name⟩ = none := by
    intro name
    refine Option.eq_none_iff_forall_ne_some.mpr (fun n hn => ?_)
    exact h.name _ n hn rfl
  refine ⟨.refl h.keyed (fun n _ _ => hnone n), fun _ _ _ => rfl, fun n =>
    Or.inl ⟨rfl, hnone n⟩, ?_, fun _ _ _ => rfl, ?_, ?_, fun n x hc => absurd hc (hfresh n x)⟩
  · simp [hfresh]
  · simp [hfresh]
  · intro name n hn
    simp [hname name] at hn

section Step

variable (h : Relocating s old new t) (hne : old ≠ new) (row : t.schedules.get y.id = some y)
  (hq : y.id.queue = old)

include h row hq in
/-- A schedule still to be moved is as it was. -/
theorem Relocating.waiting : s.schedules.get (old.schedule y.id.scheduleId) = some y ∧
    t.schedules.get (new.schedule y.id.scheduleId) = none := by
  have hold : t.schedules.get (old.schedule y.id.scheduleId) = some y := by
    rw [← hq, ScheduleId.queue_schedule]
    exact row
  rcases h.each y.id.scheduleId with ⟨hsame, hnone⟩ | ⟨hgone, _⟩
  · exact ⟨hsame ▸ hold, hnone⟩
  · rw [hgone] at hold
    simp at hold

include hne hq in
omit h row in
/-- The row of a moved schedule, number by number. -/
theorem moveSchedule_new (m : Nat) : (moveSchedule new t y).schedules.get (new.schedule m) =
    if m = y.id.scheduleId then some (moved y new) else t.schedules.get (new.schedule m) := by
  rw [moveSchedule_row]
  by_cases hm : m = y.id.scheduleId
  · rw [if_pos hm, if_pos]
    rw [hm]
    rfl
  · rw [if_neg hm, if_neg, if_neg]
    · intro he
      have hqueue : new = y.id.queue := congrArg ScheduleId.queue he
      exact hne (hq.symm.trans hqueue.symm)
    · intro he
      exact hm (congrArg ScheduleId.scheduleId he)

include h hne row hq in
/-- The schedules carried over after one more. -/
theorem Relocating.carried_move {m : Nat} {x : Schedule} :
    Carried s old new (moveSchedule new t y) m x ↔
      Carried s old new t m x ∨ m = y.id.scheduleId ∧ x = y := by
  obtain ⟨hbefore, hnone⟩ := h.waiting row hq
  have hget := moveSchedule_new (t := t) hne hq m
  by_cases hm : m = y.id.scheduleId
  · rw [if_pos hm] at hget
    subst hm
    constructor
    · intro hc
      exact Or.inr ⟨rfl, Option.some.inj (hc.before.symm.trans hbefore)⟩
    · intro hc
      rcases hc with hc | ⟨_, rfl⟩
      · have hafter := hc.after
        rw [hnone] at hafter
        simp at hafter
      · exact ⟨hbefore, hget⟩
  · rw [if_neg hm] at hget
    constructor
    · intro hc
      exact Or.inl ⟨hc.before, hget.symm.trans hc.after⟩
    · intro hc
      rcases hc with hc | ⟨he, _⟩
      · exact ⟨hc.before, hget.trans hc.after⟩
      · exact absurd he hm

include h hne row hq in
/-- Step: moving one schedule. -/
theorem Relocating.move : Relocating s old new (moveSchedule new t y) := by
  obtain ⟨hbefore, hnone⟩ := h.waiting row hq
  have hcarried := fun {m : Nat} {x : Schedule} => h.carried_move hne row hq (m := m) (x := x)
  have hnew : Carried s old new (moveSchedule new t y) y.id.scheduleId y :=
    hcarried.mpr (Or.inr ⟨rfl, rfl⟩)
  have hnames : ∀ k, (moveSchedule new t y).scheduleNames.get k =
      if k = ⟨new, y.name⟩ then some y.id.scheduleId else
        if k = ⟨old, y.name⟩ then none else t.scheduleNames.get k := by
    intro k
    change ((t.scheduleNames.delete ⟨y.id.queue, y.name⟩).set ⟨new, y.name⟩
      y.id.scheduleId).get k = _
    rw [Table.get_set, Table.get_delete, hq]
    congr
  refine ⟨h.toMoving.move hne row hq, ?_, ?_, ?_, ?_, ?_, ?_, ?_⟩
  · intro id hold hnew
    rw [moveSchedule_row, if_neg (fun he => hnew (congrArg ScheduleId.queue he)), if_neg]
    · exact h.others id hold hnew
    · intro he
      rw [he] at hold
      exact hold hq
  · intro n
    by_cases hn : n = y.id.scheduleId
    · subst hn
      refine Or.inr ⟨?_, y, hnew⟩
      rw [moveSchedule_get hne (old.schedule_queue _), if_pos]
      rw [← hq, ScheduleId.queue_schedule]
    · have hold : old.schedule n ≠ y.id := fun he => hn (congrArg ScheduleId.scheduleId he)
      rw [moveSchedule_get hne (old.schedule_queue n), if_neg hold,
        moveSchedule_new hne hq, if_neg hn]
      refine (h.each n).imp_right (fun hmoved => ?_)
      obtain ⟨hgone, x, hx⟩ := hmoved
      exact ⟨hgone, x, hcarried.mpr (Or.inl hx)⟩
  · intro i
    change i ∈ ((t.scheduledIndex.remove () y.scheduledItem).add ()
      (moved y new).scheduledItem).items () ↔ _
    rw [Index.mem_add, Index.mem_remove, h.index i]
    have hapart : ∀ x : Schedule, (moved x new).scheduledItem ≠ y.scheduledItem := by
      intro x he
      have hqueue : new = y.id.queue := congrArg (fun i => i.id.queue) he
      exact hne (hq.symm.trans hqueue.symm)
    constructor
    · intro hi
      rcases hi with ⟨_, he⟩ | ⟨⟨n, x, hc, he⟩ | ⟨hi, hall⟩, hnot⟩
      · exact Or.inl ⟨_, y, hnew, he.symm⟩
      · exact Or.inl ⟨n, x, hcarried.mpr (Or.inl hc), he⟩
      · refine Or.inr ⟨hi, fun n x hc => ?_⟩
        rcases hcarried.mp hc with hc | ⟨_, rfl⟩
        · exact hall n x hc
        · exact fun he => hnot ⟨rfl, he.symm⟩
    · intro hi
      rcases hi with ⟨n, x, hc, he⟩ | ⟨hi, hall⟩
      · rcases hcarried.mp hc with hc | ⟨_, rfl⟩
        · exact Or.inr ⟨Or.inl ⟨n, x, hc, he⟩, fun hy => hapart x (he.trans hy.2)⟩
        · exact Or.inl ⟨rfl, he.symm⟩
      · refine Or.inr ⟨Or.inr ⟨hi, fun n x hc => hall n x (hcarried.mpr (Or.inl hc))⟩, ?_⟩
        exact fun hy => hall _ y hnew hy.2.symm
  · intro k hold hnew
    rw [hnames, if_neg (fun he => hnew (congrArg ScheduleName.queue he)),
      if_neg (fun he => hold (congrArg ScheduleName.queue he))]
    exact h.otherNames k hold hnew
  · intro name n
    rw [hnames, if_neg (fun he => hne (congrArg ScheduleName.queue he))]
    by_cases hname : name = y.name
    · rw [if_pos (by rw [hname])]
      constructor
      · intro hn
        simp at hn
      · exact fun hn => absurd hname.symm (hn.2 _ y hnew)
    · rw [if_neg (fun he => hname (congrArg ScheduleName.name he)), h.oldNames]
      refine and_congr_right (fun _ => ?_)
      constructor
      · intro hall m x hc
        rcases hcarried.mp hc with hc | ⟨_, rfl⟩
        · exact hall m x hc
        · exact fun he => hname he.symm
      · exact fun hall m x hc => hall m x (hcarried.mpr (Or.inl hc))
  · intro name n hn
    rw [hnames] at hn
    by_cases hname : name = y.name
    · rw [if_pos (by rw [hname])] at hn
      exact ⟨y, Option.some.inj hn ▸ hnew, hname.symm⟩
    · rw [if_neg (fun he => hname (congrArg ScheduleName.name he)),
        if_neg (fun he => hne (congrArg ScheduleName.queue he).symm)] at hn
      obtain ⟨x, hc, hx⟩ := h.newNames name n hn
      exact ⟨x, hcarried.mpr (Or.inl hc), hx⟩
  · intro n x hc
    rw [hnames]
    by_cases hname : x.name = y.name
    · rw [if_pos (by rw [hname])]
      simp
    · rw [if_neg (fun he => hname (congrArg ScheduleName.name he)),
        if_neg (fun he => hne (congrArg ScheduleName.queue he).symm)]
      rcases hcarried.mp hc with hc | ⟨_, rfl⟩
      · exact h.named n x hc
      · exact absurd rfl hname

end Step

/-- Every schedule of a queue id is carried over to one that nothing is stored under. -/
theorem moveSchedules_carries (h : Stored (· ≠ new) s.shelves) (hne : old ≠ new) :
    ∃ t, moveSchedules old new (s.schedules.entries.length + 1) none s = t ∧
      Relocating s old new t ∧ (∀ n, t.schedules.get (old.schedule n) = none) ∧
      ∀ n x, Carried s old new t n x ↔ s.schedules.get (old.schedule n) = some x := by
  have hstart : Relocating s old new s := Relocating.refl h
  have hmoved := moveSchedules_keeps (I := Relocating s old new) hne (fun _ hI => hI.keyed)
    (fun _ _ hI => hI.move hne) (s.schedules.entries.length + 1) none s hstart
  have hempty := moveSchedules_empties hne (s.schedules.entries.length + 1) none s h.keyed
    hstart.apart (Nat.lt_succ_of_le List.countP_le_length) (fun _ _ _ _ => rfl)
  refine ⟨_, rfl, hmoved, ?_, ?_⟩
  · intro n
    refine Option.eq_none_iff_forall_ne_some.mpr (fun x hx => ?_)
    exact countSchedules_eq_zero.mp hempty _ x hx rfl
  · intro n x
    refine ⟨fun hc => hc.before, fun hx => ?_⟩
    rcases hmoved.each n with ⟨hsame, _⟩ | ⟨_, y, hy⟩
    · -- nothing is left under the old id
      rw [hx] at hsame
      exact absurd rfl (countSchedules_eq_zero.mp hempty _ x hsame)
    · obtain rfl := Option.some.inj (hx.symm.trans hy.before)
      exact hy

end Move

section Swap

/-- All tables after a queue has been moved to another id, together with its schedules. -/
structure Swapped (s : State) (queue : Queue) (new : QueueId) (now : Time) (s' : State) : Prop where
  queues : ∀ q, s'.queues.get q =
    if q = new then some { queue with id := new, updatedAt := now, version := queue.version + 1 }
    else if q = queue.id then none else s.queues.get q
  queueNames : ∀ k, s'.queueNames.get k =
    if k = ⟨queue.id.accountId, queue.name⟩ then some new.queueId else s.queueNames.get k
  unnamed : ∀ k, (s'.queueNames.get k).all (fun n => ⟨k.accountId, n⟩ ≠ queue.id)
  schedules : ∀ id, s'.schedules.get id =
    if id.queue = new then (s.schedules.get (queue.id.schedule id.scheduleId)).map (moved · new)
    else if id.queue = queue.id then none else s.schedules.get id
  scheduledIndex : ∀ i, i ∈ s'.scheduledIndex.items () ↔
    (∃ n x, s.schedules.get (queue.id.schedule n) = some x ∧ (moved x new).scheduledItem = i) ∨
    i ∈ s.scheduledIndex.items () ∧
      ∀ n x, s.schedules.get (queue.id.schedule n) = some x → x.scheduledItem ≠ i
  otherNames : ∀ k, k.queue ≠ queue.id → k.queue ≠ new →
    s'.scheduleNames.get k = s.scheduleNames.get k
  oldNames : ∀ name n, s'.scheduleNames.get ⟨queue.id, name⟩ = some n ↔
    s.scheduleNames.get ⟨queue.id, name⟩ = some n ∧
      ∀ m x, s.schedules.get (queue.id.schedule m) = some x → x.name ≠ name
  newNames : ∀ name n, s'.scheduleNames.get ⟨new, name⟩ = some n →
    ∃ x, s.schedules.get (queue.id.schedule n) = some x ∧ x.name = name
  named : ∀ n x, s.schedules.get (queue.id.schedule n) = some x →
    s'.scheduleNames.get ⟨new, x.name⟩ ≠ none
  counters : s'.counters = s.counters
  gcRecords : s'.gcRecords = s.gcRecords

variable {U : QueueId → Prop} {now : Time} {queue : Queue}

theorem InUse.stored_ne (h : InUse U s) (hnew : ¬U new) : Stored (· ≠ new) s.shelves :=
  h.stored.mono (fun _ hq he => hnew (he ▸ hq))

theorem Relocating.swapped (hr : Relocating s queue.id new t) (h : InUse U s) (hnew : ¬U new)
    (row : s.queues.get queue.id = some queue) (haccount : new.accountId = queue.id.accountId)
    (hempty : ∀ n, t.schedules.get (queue.id.schedule n) = none)
    (hall : ∀ n x, Carried s queue.id new t n x ↔ s.schedules.get (queue.id.schedule n) = some x) :
    Swapped s queue new now (t.swapId queue.id (withQueueId queue new now)) := by
  have hne : queue.id ≠ new := fun he => hnew (he ▸ h.queue _ queue row)
  have hkey : (⟨new.accountId, queue.name⟩ : QueueName) = ⟨queue.id.accountId, queue.name⟩ := by
    rw [haccount]
  have hnames : ∀ k, (t.swapId queue.id (withQueueId queue new now)).queueNames.get k =
      if k = ⟨queue.id.accountId, queue.name⟩ then some new.queueId else s.queueNames.get k := by
    intro k
    change (t.queueNames.set ⟨new.accountId, queue.name⟩ new.queueId).get k = _
    rw [Table.get_set, hkey, hr.queueNames]
    congr
  refine ⟨?_, hnames, ?_, ?_, ?_, hr.otherNames, ?_, ?_, ?_, hr.counters, hr.gcRecords⟩
  · intro q
    change ((t.queues.set new (withQueueId queue new now)).delete queue.id).get q = _
    rw [Table.get_delete, Table.get_set, hr.queues]
    by_cases hq : q = new
    · rw [if_pos hq, if_pos hq, if_neg (fun he => hne (he.symm.trans hq))]
      rfl
    · rw [if_neg hq, if_neg hq]
      congr
  · intro k
    rw [hnames]
    by_cases hk : k = ⟨queue.id.accountId, queue.name⟩
    · rw [if_pos hk, hk]
      simp only [Option.all_some, decide_eq_true_eq]
      rw [← haccount]
      exact hne.symm
    · rw [if_neg hk]
      cases hn : s.queueNames.get k with
      | none => rfl
      | some n =>
        simp only [Option.all_some, decide_eq_true_eq]
        intro he
        -- the name that the old id answers to is its own
        obtain ⟨x, hx, hname⟩ :=
          (Registered.mem_names (s := { s with gcRecords := Table.empty }) h.registered).mp hn
        rw [he] at hx
        obtain rfl := Option.some.inj (row.symm.trans hx)
        apply hk
        rw [hname, ← he]
  · intro id
    change t.schedules.get id = _
    by_cases hid : id.queue = new
    · rw [if_pos hid, ← ScheduleId.queue_schedule id, hid, QueueId.schedule_scheduleId]
      rcases hr.each id.scheduleId with ⟨hsame, hnone⟩ | ⟨_, x, hx⟩
      · rw [hnone, ← hsame, hempty]
        rfl
      · rw [hx.after, hx.before]
        rfl
    · rw [if_neg hid]
      by_cases hold : id.queue = queue.id
      · rw [if_pos hold, ← ScheduleId.queue_schedule id, hold]
        exact hempty _
      · rw [if_neg hold]
        exact hr.others id hold hid
  · intro i
    refine (hr.index i).trans ?_
    simp only [hall]
  · intro name n
    refine (hr.oldNames name n).trans ?_
    simp only [hall]
  · intro name n hn
    obtain ⟨x, hx, hname⟩ := hr.newNames name n hn
    exact ⟨x, hx.before, hname⟩
  · intro n x hx
    exact hr.named n x ((hall n x).mpr hx)

/-- Where the names agree with the schedules, the names move along. -/
theorem Swapped.scheduleNames {s' : State} (h : Swapped s queue new now s') (hs : Shelved s.shelves)
    (name : Bytes) : s'.scheduleNames.get ⟨new, name⟩ = s.scheduleNames.get ⟨queue.id, name⟩ ∧
      s'.scheduleNames.get ⟨queue.id, name⟩ = none := by
  refine ⟨Option.ext (fun n => ?_), Option.eq_none_iff_forall_ne_some.mpr (fun n hn => ?_)⟩
  · rw [hs.mem_names]
    constructor
    · exact fun hn => h.newNames name n hn
    · intro hx
      obtain ⟨x, hx, hname⟩ := hx
      obtain ⟨m, hm⟩ := Option.ne_none_iff_exists'.mp (h.named n x hx)
      rw [hname] at hm
      have hold := hs.mem_names.mpr ⟨x, hx, hname⟩
      have hmold := hs.mem_names.mpr (h.newNames name m hm)
      rw [hm, ← hmold, hold]
  · obtain ⟨hn, hnone⟩ := (h.oldNames name n).mp hn
    obtain ⟨x, hx, hname⟩ := hs.mem_names.mp hn
    exact hnone n x hx hname

theorem swapQueueId_swaps {req : SwapQueueIdRequest} (h : InUse U s)
    (hnew : ¬U ⟨req.accountId, req.newQueueId⟩)
    (named : s.queueByName req.accountId req.queueName = some queue) :
    ∃ s', swapQueueId s now req =
        (s', .ok (withQueueId queue ⟨req.accountId, req.newQueueId⟩ now, queue.id)) ∧
      Swapped s queue ⟨req.accountId, req.newQueueId⟩ now s' := by
  obtain ⟨row, haccount, _⟩ := h.queueByName named
  have hne : queue.id ≠ ⟨req.accountId, req.newQueueId⟩ := fun he => hnew (he ▸ h.queue _ queue row)
  have habsent : ¬(s.queues.get ⟨req.accountId, req.newQueueId⟩).isSome := by
    intro hsome
    obtain ⟨x, hx⟩ := Option.isSome_iff_exists.mp hsome
    exact hnew (h.queue _ x hx)
  obtain ⟨t, ht, hr, hempty, hall⟩ := moveSchedules_carries (h.stored_ne hnew) hne
  refine ⟨t.swapId queue.id (withQueueId queue ⟨req.accountId, req.newQueueId⟩ now), ?_,
    hr.swapped h hnew row haccount.symm hempty hall⟩
  unfold swapQueueId
  rw [named]
  dsimp only
  rw [if_neg habsent, ht]

/-- A swap that is refused changes nothing. -/
theorem swapQueueId_refused (s : State) (now : Time) (req : SwapQueueIdRequest)
    {e : ApplicationError} (he : (swapQueueId s now req).2 = .error e) :
    (swapQueueId s now req).1 = s := by
  unfold swapQueueId at he ⊢
  cases hq : s.queueByName req.accountId req.queueName with
  | none => rfl
  | some queue =>
    rw [hq] at he
    dsimp only at he ⊢
    split_ifs at he ⊢
    rfl

variable [Gronx]

/-- In every reachable state a queue moves to a new id with all its schedules, and a
refused call changes nothing. Ids may have been reused before; the names of the schedules
move one to one if they were not. -/
theorem swap_moves_queue (calls : List Call) (now : Time) (req : SwapQueueIdRequest) :
    (∀ queue, (run State.empty calls).queueByName req.accountId req.queueName = some queue →
      (⟨req.accountId, req.newQueueId⟩ : QueueId) ∉ newQueueIds calls →
      ∃ s', swapQueueId (run State.empty calls) now req =
          (s', .ok (withQueueId queue ⟨req.accountId, req.newQueueId⟩ now, queue.id)) ∧
        Swapped (run State.empty calls) queue ⟨req.accountId, req.newQueueId⟩ now s' ∧
        ((newQueueIds calls).Nodup → ∀ name,
          s'.scheduleNames.get ⟨⟨req.accountId, req.newQueueId⟩, name⟩ =
            (run State.empty calls).scheduleNames.get ⟨queue.id, name⟩ ∧
          s'.scheduleNames.get ⟨queue.id, name⟩ = none)) ∧
    ∀ e, (swapQueueId (run State.empty calls) now req).2 = .error e →
      (swapQueueId (run State.empty calls) now req).1 = run State.empty calls := by
  refine ⟨fun queue named hnew => ?_, fun e he => swapQueueId_refused _ now req he⟩
  have huse := run_inUse calls State.empty InUse.empty
  obtain ⟨s', (hrun : swapQueueId _ now req = _), hswapped⟩ :=
    swapQueueId_swaps huse (by simpa using hnew) named
  refine ⟨s', hrun, hswapped, fun hids => ?_⟩
  have hstructured := Structured.empty.run (along_unused_empty hids)
  exact hswapped.scheduleNames hstructured.shelved

end Swap

end Store

section Setup

/-- The queue of the setup and its schedule move to the id 2. -/
theorem swap_moves_setup : ∃ queue s', (run State.empty setup).queueByName 1 [1] = some queue ∧
    swapQueueId (run State.empty setup) (2 * second) ⟨1, [1], 2⟩ =
      (s', .ok (withQueueId queue ⟨1, 2⟩ (2 * second), queue.id)) ∧
    Swapped (run State.empty setup) queue ⟨1, 2⟩ (2 * second) s' := by
  have hsome : ((run State.empty setup).queueByName 1 [1]).isSome := by decide +kernel
  obtain ⟨queue, named⟩ := Option.isSome_iff_exists.mp hsome
  obtain ⟨s', hrun, hswapped, _⟩ :=
    (swap_moves_queue setup (2 * second) ⟨1, [1], 2⟩).1 queue named (by decide)
  exact ⟨queue, s', named, hrun, hswapped⟩

end Setup

end Moab.Queues
