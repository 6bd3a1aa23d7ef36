import Moab.Queues.Runs

namespace Moab.Queues

open OrderedStore

section Due

variable [OrderedStore] {s : State}

/-- An item of the index resolves to a schedule and on to its queue. -/
def State.Resolves (s : State) (i : ScheduledItem) : Prop :=
  ∃ x queue, s.schedules.get i.id = some x ∧ s.queues.get x.id.queue = some queue

theorem Structured.row_of_item (h : Structured s) {i : ScheduledItem}
    (hi : i ∈ s.scheduledIndex.items ()) : ∃ x, s.schedules.get i.id = some x ∧ x.id = i.id := by
  obtain ⟨x, hx, _⟩ := (Rows.Filed.mem_iff (r := s.rows) h.shelved.filed).mp hi
  exact ⟨x, hx, h.shelved.keyed _ x hx⟩

/-- The queue of a schedule is stored unless it is waiting to be collected. -/
theorem Structured.resolves_iff (h : Structured s) {i : ScheduledItem}
    (hi : i ∈ s.scheduledIndex.items ()) : s.Resolves i ↔ s.gcRecords.get i.id.queue = none := by
  obtain ⟨x, hx, hid⟩ := h.row_of_item hi
  constructor
  · rintro ⟨y, queue, hy, hqueue⟩
    obtain rfl := Option.some.inj (hx.symm.trans hy)
    rw [hid] at hqueue
    cases hrecord : s.gcRecords.get i.id.queue with
    | none => rfl
    | some u =>
      have hnone := h.registered.retired i.id.queue (by
        change (s.gcRecords.get i.id.queue).isSome
        rw [hrecord]
        rfl)
      exact absurd (hqueue.symm.trans hnone) (by simp)
  · intro hrecord
    have hhome := h.homed i.id x hx
    rw [hrecord] at hhome
    obtain ⟨queue, hqueue⟩ := Option.isSome_iff_exists.mp (hhome.resolve_right (by simp))
    exact ⟨x, queue, hx, by rw [hid]; exact hqueue⟩

theorem mem_items_of_due {dueBefore : Time} {i : ScheduledItem} (hi : i ∈ s.dueItems dueBefore) :
    i ∈ s.scheduledIndex.items () :=
  List.mem_of_mem_filter (List.mem_of_mem_take hi)

/-- Every due item can be read, so the call depends on the queues alone. -/
theorem Structured.dequeSchedules_ok_iff (h : Structured s) (dueBefore : Time) :
    (∃ r, dequeSchedules s dueBefore = .ok r) ↔ ∀ i ∈ s.dueItems dueBefore, s.Resolves i := by
  have hget : ∀ i ∈ s.dueItems dueBefore, ∃ x, s.getSchedule i.id = .ok x := by
    intro i hi
    obtain ⟨x, hx, _⟩ := h.row_of_item (mem_items_of_due hi)
    exact ⟨x, by rw [State.getSchedule, hx]⟩
  obtain ⟨xs, hxs⟩ := exists_mapM_ok_iff.mpr hget
  have hread := forall₂_of_mapM_ok hxs
  have hlist : s.listDue dueBefore maxDequeueSchedules = .ok xs := hxs
  have hrow : ∀ {i x}, s.getSchedule i = .ok x → s.schedules.get i = some x := by
    intro i x hx
    unfold State.getSchedule at hx
    cases hrow : s.schedules.get i with
    | none =>
      rw [hrow] at hx
      exact absurd hx (by simp)
    | some y =>
      rw [hrow] at hx
      rw [Except.ok.inj hx]
  have hqueue : ∀ x : Schedule, (∃ e, (do
      let queue ← s.getQueue x.id.queue
      .ok (⟨x, queue⟩ : DequeSchedulesResponseEntry) : Except CoreError _) = .ok e) ↔
      ∃ queue, s.queues.get x.id.queue = some queue := by
    intro x
    unfold State.getQueue
    cases s.queues.get x.id.queue <;> simp [bind, Except.bind]
  unfold dequeSchedules
  rw [hlist]
  refine exists_mapM_ok_iff.trans ?_
  constructor
  · intro hall i hi
    obtain ⟨x, hx, hix⟩ := exists_of_mem_left hread hi
    obtain ⟨queue, hq⟩ := (hqueue x).mp (hall x hx)
    exact ⟨x, queue, hrow hix, hq⟩
  · intro hall x hx
    obtain ⟨i, hi, hix⟩ := exists_of_mem_right hread hx
    obtain ⟨y, queue, hy, hq⟩ := hall i hi
    obtain rfl := Option.some.inj ((hrow hix).symm.trans hy)
    exact (hqueue x).mpr ⟨queue, hq⟩

end Due

section Bare

variable [OrderedStore] {s : State} {now : Time} {op : Op} {c : Call}

/-- A call that deletes a queue finds it without schedules. -/
def Call.deletesBare (s : State) (c : Call) : Prop :=
  match c.op with
  | .deleteQueue req =>
    ∀ queue ∈ s.queueByName req.accountId req.queueName, queue.schedulesCount = 0
  | _ => True

instance : Decidable (c.deletesBare s) := by
  unfold Call.deletesBare
  split
  · exact Option.decidableForallMem _
  · infer_instance

/-- No deleted queue has schedules left. -/
def Bare (s : State) : Prop := ∀ q, (s.gcRecords.get q).isSome → s.countSchedules q = 0

/-- Schedules of a stored queue are of no record. -/
theorem Bare.of_counts (h : Bare s) {t : State} (hrecords : t.gcRecords = s.gcRecords)
    (hcounts : ∀ q, (s.gcRecords.get q).isSome → t.countSchedules q ≤ s.countSchedules q) :
    Bare t := by
  intro q hq
  rw [hrecords] at hq
  have hle := hcounts q hq
  rw [h q hq] at hle
  exact Nat.le_zero.mp hle

variable [Gronx]

/-- Only deleting a queue adds to what the records have to collect. -/
theorem Structured.commit_counts (hs : Structured s) (hu : op.Unused s)
    (hdelete : ∀ req, op ≠ .deleteQueue req)
    (hcollect : ∀ req, op ≠ .runQueuesGarbageCollection req) :
    (Queues.commit s now op).gcRecords = s.gcRecords ∧ ∀ q, (s.gcRecords.get q).isSome →
      (Queues.commit s now op).countSchedules q ≤ s.countSchedules q := by
  have hstored : ∀ {x : Queue} {q : QueueId}, s.queues.get x.id = some x →
      (s.gcRecords.get q).isSome → x.id ≠ q := by
    rintro x q hx hq rfl
    exact absurd (hx.symm.trans (hs.registered.retired _ hq)) (by simp)
  have heffect := commit_effect s now op
  generalize Queues.commit s now op = t at heffect ⊢
  cases heffect with
  | nothing | createQueue | updateQueue => exact ⟨rfl, fun _ _ => le_refl _⟩
  | deleteQueue => exact absurd rfl (hdelete _)
  | @swapQueueId req queue named absent =>
    have hrow := (hs.registered.queueByName named).1
    have hrecord := (hu _ rfl).2
    obtain ⟨hne, _⟩ := apart_of_fresh hs.keyed named absent (hs.fresh hu)
    have hmoved := (moveSchedules_shelving hs.shelved hne (hs.unused absent hrecord)).1
    refine ⟨hmoved.gcRecords, fun q hq => ?_⟩
    refine le_of_eq (hmoved.others q (Ne.symm (hstored hrow hq)) ?_)
    rintro rfl
    rw [hrecord] at hq
    exact absurd hq (by simp)
  | @createSchedule req queue nextTime named absent _ _ _ =>
    obtain ⟨hrow, haccount, _⟩ := hs.registered.queueByName named
    refine ⟨rfl, fun q hq => ?_⟩
    have hcount := countSchedules_create (q := q)
      (x := newSchedule req ⟨req.accountId, queue.id.queueId, req.scheduleId⟩ now nextTime) absent
    rw [if_neg] at hcount
    · exact le_of_eq hcount
    · intro he
      apply hstored hrow hq
      rw [← he, ← haccount]
      rfl
  | updateSchedule named _ _ written =>
    obtain ⟨queue, _, hx⟩ := Option.bind_eq_some_iff.mp named
    have hrow := (hs.keyed.scheduleByName hx).1
    rw [updateSchedule_frame written]
    exact ⟨rfl, fun q _ => le_of_eq (Table.count_set_of_some _ hrow rfl)⟩
  | deleteSchedule named schedule =>
    refine ⟨rfl, fun q _ => ?_⟩
    exact Nat.le.intro (countSchedules_delete (q := q) (hs.keyed.scheduleByName schedule).1)
  | @reportSchedulesStatus req x t row written =>
    have hrow : s.schedules.get x.id = some x := by
      rw [hs.shelved.keyed _ x row]
      exact row
    rw [updateSchedule_frame written]
    exact ⟨rfl, fun q _ => le_of_eq (Table.count_set_of_some _ hrow rfl)⟩
  | runQueuesGarbageCollection => exact absurd rfl (hcollect _)

theorem Bare.commit (h : Bare s) (hs : Structured s) (hu : c.op.Unused s)
    (hbare : c.deletesBare s) : Bare (commit s c.now c.op) := by
  obtain ⟨now, op⟩ := c
  by_cases hdelete : ∀ req, op ≠ .deleteQueue req
  · by_cases hcollect : ∀ req, op ≠ .runQueuesGarbageCollection req
    · obtain ⟨hrecords, hcounts⟩ := hs.commit_counts hu hdelete hcollect
      exact h.of_counts hrecords hcounts
    · obtain ⟨req, rfl⟩ := not_forall_not.mp hcollect
      refine runQueuesGarbageCollection_keeps hs.shelved.keyed req ?_ ?_ h
      · intro t x ht row _
        refine ht.of_counts rfl ?_
        intro q _
        exact Nat.le.intro (countSchedules_delete (q := q) row)
      · intro t q ht _ p hp
        change ((t.gcRecords.delete q).get p).isSome at hp
        rw [Table.get_delete] at hp
        split at hp
        · exact absurd hp (by simp)
        · exact ht p hp
  · obtain ⟨req, rfl⟩ := not_forall_not.mp hdelete
    have heffect := commit_effect s now (.deleteQueue req)
    dsimp only
    generalize Queues.commit s now (.deleteQueue req) = t at heffect ⊢
    cases heffect with
    | nothing => exact h
    | @deleteQueue _ queue named =>
      intro q hq
      change ((s.gcRecords.set queue.id ()).get q).isSome at hq
      change s.countSchedules q = 0
      rw [Table.get_set] at hq
      split at hq
      · next hid =>
        have hzero : queue.schedulesCount = 0 := hbare queue named
        have hcount := hs.schedulesCount queue.id queue (hs.registered.queueByName named).1
        rw [hid]
        omega
      · exact h q hq

/-- A call of DequeSchedules returns exactly if no due schedule is one of a deleted
queue that is not collected yet. In every run that deletes queues only when they
have no schedules left, every item of the index resolves and every call returns. -/
theorem run_deques (calls : List Call) (hids : (newQueueIds calls).Nodup) :
    (∀ dueBefore, (∃ r, dequeSchedules (run State.empty calls) dueBefore = .ok r) ↔
      ∀ i ∈ (run State.empty calls).dueItems dueBefore,
        (run State.empty calls).gcRecords.get i.id.queue = none) ∧
    (Along (total runStep) (fun s c => c.deletesBare s) State.empty calls →
      (∀ i ∈ (run State.empty calls).scheduledIndex.items (), (run State.empty calls).Resolves i) ∧
      ∀ dueBefore, ∃ r, dequeSchedules (run State.empty calls) dueBefore = .ok r) := by
  have hunused := along_unused_empty hids
  have hs := Structured.empty.run hunused
  refine ⟨?_, ?_⟩
  · intro dueBefore
    refine (hs.dequeSchedules_ok_iff dueBefore).trans (forall₂_congr ?_)
    intro i hi
    exact hs.resolves_iff (mem_items_of_due hi)
  · intro hbare
    obtain ⟨_, hnone⟩ : Structured (run State.empty calls) ∧ Bare (run State.empty calls) :=
      (hunused.and hbare).foldl (I := fun s => Structured s ∧ Bare s)
        (fun _ c hI hc => ⟨hI.1.commit hc.1 c.now, hI.2.commit hI.1 hc.1 hc.2⟩)
        ⟨.empty, fun q hq => by simp [State.empty] at hq⟩
    have hall : ∀ i ∈ (run State.empty calls).scheduledIndex.items (),
        (run State.empty calls).Resolves i := by
      intro i hi
      obtain ⟨x, hx, _⟩ := hs.row_of_item hi
      rw [hs.resolves_iff hi, ← Option.not_isSome_iff_eq_none]
      intro hrecord
      exact countSchedules_eq_zero.mp (hnone _ hrecord) _ x hx rfl
    refine ⟨hall, fun dueBefore => (hs.dequeSchedules_ok_iff dueBefore).mpr ?_⟩
    intro i hi
    exact hall i (mem_items_of_due hi)

end Bare

section Setup

/-- The schedule is deleted before its queue. -/
theorem run_deques_bare : ∃ r, dequeSchedules (run State.empty (setup ++
    [⟨2 * second, .deleteSchedule ⟨1, [1], [1]⟩⟩, ⟨3 * second, .deleteQueue ⟨1, [1]⟩⟩]))
      (2 * minute) = .ok r :=
  ((run_deques _ (by decide)).2 (by decide +kernel)).2 (2 * minute)

/-- A queue with a schedule in each of two accounts. -/
def twoAccounts : List Call :=
  setup ++ [⟨second, .createQueue { firstQueue with queueId := ⟨2, 2⟩ }⟩,
    ⟨second, .createSchedule { firstSchedule with accountId := 2, scheduleId := 2 }⟩]

/-- Once the first account deletes its queue, the schedule of the second account
is not handed out either. -/
theorem run_deleted_blocks_all :
    (newQueueIds (twoAccounts ++ [⟨2 * second, .deleteQueue ⟨1, [1]⟩⟩])).Nodup ∧
    (dequeSchedules (run State.empty twoAccounts) (2 * minute)).map (List.map (·.schedule.id)) =
      .ok [⟨1, 1, 1⟩, ⟨2, 2, 2⟩] ∧
    dequeSchedules (run State.empty (twoAccounts ++ [⟨2 * second, .deleteQueue ⟨1, [1]⟩⟩]))
      (2 * minute) = .error .notFound := by
  decide +kernel

end Setup

end Moab.Queues
