import Mathlib.Algebra.Order.BigOperators.Group.List
import Moab.Queues.Deletions

namespace Moab.Queues

open OrderedStore

/-- A call that collects the schedules of deleted queues. -/
def Op.collects : Op → Bool
  | .runQueuesGarbageCollection _ => true
  | _ => false

def Op.deletesQueue : Op → Bool
  | .deleteQueue _ => true
  | _ => false

def collections (calls : List Call) : Nat := calls.countP (fun c => c.op.collects)

section Store

variable [OrderedStore] {s t : State} {q : QueueId} {x : Schedule}

/-- The schedules and the records that collection still has to remove. -/
def State.waste (s : State) : Nat :=
  (s.gcRecords.entries.map (fun e => s.countSchedules e.1)).sum + s.gcRecords.entries.length

/-- What one call does within its budget. -/
structure CollectStep (budget : Nat) (s t : State) : Prop where
  deleted : ∃ ids : List ScheduleId, ids.length ≤ budget ∧
    (∀ id ∈ ids, (s.gcRecords.get id.queue).isSome ∧ s.queues.get id.queue = none) ∧
    ∀ id, t.schedules.get id = if id ∈ ids then none else s.schedules.get id
  dropped : ∀ q, t.gcRecords.get q = s.gcRecords.get q ∨
    t.gcRecords.get q = none ∧ t.countSchedules q = 0
  queues : t.queues = s.queues
  queueNames : t.queueNames = s.queueNames
  counters : t.counters = s.counters
  schedules : ∀ id, (s.queues.get id.queue).isSome → t.schedules.get id = s.schedules.get id
  scheduleNames : ∀ k, (s.queues.get k.queue).isSome → t.scheduleNames.get k = s.scheduleNames.get k
  scheduledIndex : ∀ i, (s.queues.get i.id.queue).isSome →
    (i ∈ t.scheduledIndex.items () ↔ i ∈ s.scheduledIndex.items ())

/-- Nothing is left of any deleted queue. -/
structure Drained (s : State) : Prop where
  gcRecords : ∀ q, s.gcRecords.get q = none
  schedules : ∀ id x, s.schedules.get id = some x → (s.queues.get id.queue).isSome
  scheduleNames : ∀ k n, s.scheduleNames.get k = some n → (s.queues.get k.queue).isSome
  scheduledIndex : ∀ i ∈ s.scheduledIndex.items (), (s.queues.get i.id.queue).isSome

section Waste

theorem waste_le (hrecords : t.gcRecords = s.gcRecords)
    (hcounts : ∀ q, (s.gcRecords.get q).isSome → t.countSchedules q ≤ s.countSchedules q) :
    t.waste ≤ s.waste := by
  unfold State.waste
  rw [hrecords]
  refine Nat.add_le_add_right (List.sum_le_sum ?_) _
  intro e he
  exact hcounts e.1 (Option.isSome_of_mem (Table.mem_entries.mp he))

/-- A deleted schedule of a record is one less to remove. -/
theorem waste_deleteSchedule (row : s.schedules.get x.id = some x)
    (hrecord : s.gcRecords.get x.id.queue = some ()) : (s.deleteSchedule x).waste < s.waste := by
  unfold State.waste
  refine Nat.add_lt_add_right (List.sum_lt_sum _ _ ?_ ?_) _
  · intro e _
    exact Nat.le.intro (countSchedules_delete (q := e.1) row)
  · refine ⟨(x.id.queue, ()), Table.mem_entries.mpr hrecord, ?_⟩
    have hcount := countSchedules_delete (q := x.id.queue) row
    rw [if_pos rfl] at hcount
    dsimp only
    omega

theorem entries_deleteGCRecord (s : State) (q : QueueId) :
    (s.deleteGCRecord q).gcRecords.entries = s.gcRecords.entries.filter (fun e => e.1 ≠ q) := by
  have hother : ∀ p : QueueId, decide (p ≠ q) = true →
      (s.deleteGCRecord q).gcRecords.get p = s.gcRecords.get p :=
    fun p hp => Table.get_delete_ne s.gcRecords (of_decide_eq_true hp)
  have hfilter := Table.entries_filter_ext hother
  rw [← hfilter, List.filter_eq_self.mpr]
  intro e he
  have hget : (s.gcRecords.delete q).get e.1 = some e.2 := Table.mem_entries.mp he
  refine decide_eq_true (fun heq => ?_)
  rw [heq, Table.get_delete_self] at hget
  exact absurd hget (by simp)

/-- A dropped record is one less to remove. -/
theorem waste_deleteGCRecord (hrecord : s.gcRecords.get q = some ()) :
    (s.deleteGCRecord q).waste < s.waste := by
  unfold State.waste
  rw [entries_deleteGCRecord]
  refine Nat.add_lt_add_of_le_of_lt ?_ ?_
  · exact ((List.filter_sublist).map _).sum_le_sum (fun _ _ => Nat.zero_le _)
  · refine List.length_filter_lt_length_iff_exists.mpr ⟨(q, ()), Table.mem_entries.mpr hrecord, ?_⟩
    simp

end Waste

/-- What holds of a call after n schedules and d records. -/
structure Collecting (s : State) (n d : Nat) (t : State) : Prop where
  structured : Structured t
  deleted : ∃ ids : List ScheduleId, ids.length = n ∧
    (∀ id ∈ ids, (s.gcRecords.get id.queue).isSome) ∧
    ∀ id, t.schedules.get id = if id ∈ ids then none else s.schedules.get id
  dropped : ∀ q, t.gcRecords.get q = s.gcRecords.get q ∨
    t.gcRecords.get q = none ∧ t.countSchedules q = 0
  queues : t.queues = s.queues
  queueNames : t.queueNames = s.queueNames
  counters : t.counters = s.counters
  waste : t.waste + (n + d) ≤ s.waste

namespace Collecting

variable {n d : Nat}

theorem start (h : Structured s) : Collecting s 0 0 s :=
  ⟨h, ⟨[], rfl, by simp, by simp⟩, fun _ => .inl rfl, rfl, rfl, rfl, le_rfl⟩

theorem delete (h : Collecting s n d t) (row : t.schedules.get x.id = some x)
    (hrecord : (s.gcRecords.get x.id.queue).isSome) (hgone : s.queues.get x.id.queue = none) :
    Collecting s (n + 1) d (t.deleteSchedule x) := by
  obtain ⟨ids, hlength, hids, hrows⟩ := h.deleted
  have hgone' : t.queues.get x.id.queue = none := by rw [h.queues, hgone]
  -- the schedule is still of some queue, and that is not stored
  have hmarked : t.gcRecords.get x.id.queue = some () := by
    obtain hstored | hmarked := h.structured.homed _ x row
    · rw [hgone'] at hstored
      exact absurd hstored (by simp)
    · exact Option.eq_some_of_isSome hmarked
  refine { h with
    structured := h.structured.collect row hgone'
    deleted := ⟨x.id :: ids, by rw [List.length_cons, hlength],
      List.forall_mem_cons.mpr ⟨hrecord, hids⟩, fun id => ?_⟩
    dropped := fun q => ?_
    waste := ?_ }
  · rw [deleteSchedule_get, hrows]
    by_cases hid : id = x.id
    · simp [hid]
    · simp [hid]
  · refine (h.dropped q).imp_right (fun hq => ⟨hq.1, Nat.le_zero.mp ?_⟩)
    rw [← hq.2]
    exact Nat.le.intro (countSchedules_delete (q := q) row)
  · have hless := waste_deleteSchedule row hmarked
    have hle := h.waste
    omega

theorem drop (h : Collecting s n d t) (hmarked : t.gcRecords.get q = some ())
    (hzero : t.countSchedules q = 0) : Collecting s n (d + 1) (t.deleteGCRecord q) := by
  refine { h with
    structured := h.structured.deleteGCRecord hzero
    dropped := fun p => ?_
    waste := ?_ }
  · by_cases hp : p = q
    · subst hp
      exact .inr ⟨Table.get_delete_self t.gcRecords p, hzero⟩
    · have hget : (t.deleteGCRecord q).gcRecords.get p = t.gcRecords.get p :=
        Table.get_delete_ne t.gcRecords hp
      rw [hget]
      exact h.dropped p
  · have hless := waste_deleteGCRecord hmarked
    have hle := h.waste
    omega

/-- What a call leaves unchanged of the schedules of a stored queue, it leaves
unchanged of their names and times: both tables agree with the rows. -/
theorem collectStep (h : Collecting s n d t) (hs : Structured s) {budget : Nat} (hn : n ≤ budget) :
    CollectStep budget s t := by
  obtain ⟨ids, hlength, hids, hrows⟩ := h.deleted
  have hkept : ∀ id, (s.queues.get id.queue).isSome → t.schedules.get id = s.schedules.get id := by
    intro id hstored
    rw [hrows, if_neg]
    intro hid
    have hgone : s.queues.get id.queue = none := hs.registered.retired _ (hids id hid)
    rw [hgone] at hstored
    exact absurd hstored (by simp)
  refine ⟨⟨ids, by omega, fun id hid =>
    ⟨hids id hid, hs.registered.retired _ (hids id hid)⟩, hrows⟩,
    h.dropped, h.queues, h.queueNames, h.counters, hkept, fun k hk => ?_, fun i hi => ?_⟩
  · refine Option.ext (fun m => ?_)
    have hnames : ∀ {u : State}, Structured u → (u.scheduleNames.get k = some m ↔
        ∃ v, u.schedules.get (k.queue.schedule m) = some v ∧ ScheduleName.mk k.queue v.name = k) :=
      fun hu => (hu.shelved.names k m).trans (by simp [scheduleNameClaim, State.shelves])
    rw [hnames h.structured, hnames hs, hkept (k.queue.schedule m) hk]
  · have hitems : ∀ {u : State}, Structured u → (i ∈ u.scheduledIndex.items () ↔
        ∃ v, u.schedules.get i.id = some v ∧ ScheduledItem.mk v.nextScheduledAt i.id = i) :=
      fun hu => (hu.shelved.filed () i).trans (by simp [scheduled, State.shelves])
    rw [hitems h.structured, hitems hs, hkept _ hi]

end Collecting

/-- A call stays within its budget, and removes something as long as there is a record. -/
theorem Structured.collects (h : Structured s) (req : RunQueuesGarbageCollectionRequest) :
    CollectStep (orDefault req.maxVisitedSchedules defaultGCMaxVisitedSchedules) s
      (Queues.runQueuesGarbageCollection s req) ∧
    (Queues.runQueuesGarbageCollection s req).waste ≤ s.waste - 1 := by
  have hc : Collects (s.gcRecords.entries.map Prod.fst) (Collecting s) := by
    refine ⟨fun hI => hI.structured.shelved.keyed, fun hI row hq => ?_,
      fun hI _ hmarked hzero => hI.drop hmarked hzero⟩
    obtain ⟨e, he, hid⟩ := List.mem_map.mp hq
    have hrecord := Option.isSome_of_mem (Table.mem_entries.mp he)
    rw [hid] at hrecord
    exact hI.delete row hrecord (h.registered.retired _ hrecord)
  obtain ⟨n, d, hn, hinv, hprogress⟩ := hc.run req (.start h)
  refine ⟨hinv.collectStep h hn, ?_⟩
  have hle := hinv.waste
  by_cases hempty : s.gcRecords.entries = []
  · have hzero : s.waste = 0 := by simp [State.waste, hempty]
    omega
  · have hpos := hprogress hempty
    omega

theorem Structured.drained (h : Structured s) (hwaste : s.waste = 0) : Drained s := by
  have hempty : s.gcRecords.entries = [] :=
    List.length_eq_zero_iff.mp (Nat.eq_zero_of_add_eq_zero hwaste).2
  have hnone : ∀ q, s.gcRecords.get q = none := by
    intro q
    refine Option.eq_none_iff_forall_ne_some.mpr (fun u hu => ?_)
    have hmem := Table.mem_entries.mpr hu
    rw [hempty] at hmem
    exact absurd hmem (by simp)
  have hstored : ∀ id x, s.schedules.get id = some x → (s.queues.get id.queue).isSome := by
    intro id x hx
    refine (h.homed id x hx).resolve_right ?_
    simp [hnone]
  refine ⟨hnone, hstored, fun k m hm => ?_, fun i hi => ?_⟩
  · obtain ⟨v, hv, _⟩ := (h.shelved.names k m).mp hm
    exact hstored _ v hv
  · obtain ⟨v, hv, _⟩ := h.row_of_item hi
    exact hstored _ v hv

variable [Gronx]

/-- Step: a call that deletes no queue adds nothing to collect. -/
theorem Structured.commit_waste (h : Structured s) {c : Call} (hu : c.op.Unused s)
    (hdelete : c.op.deletesQueue = false) :
    (runStep s c).waste ≤ s.waste - c.op.collects.toNat := by
  obtain ⟨now, op⟩ := c
  by_cases hcollect : ∀ req, op ≠ .runQueuesGarbageCollection req
  · have hnot : ∀ req, op ≠ .deleteQueue req := by
      rintro req rfl
      exact absurd hdelete (by simp [Op.deletesQueue])
    have hzero : op.collects = false := by
      cases op with
      | runQueuesGarbageCollection req => exact absurd rfl (hcollect req)
      | _ => rfl
    obtain ⟨hrecords, hcounts⟩ := h.commit_counts hu hnot hcollect
    rw [hzero]
    exact waste_le hrecords hcounts
  · obtain ⟨req, rfl⟩ := not_forall_not.mp hcollect
    exact (h.collects req).2

/-- Run: every collection takes from the waste until nothing is left. -/
theorem Structured.run_waste (h : Structured s) {calls : List Call}
    (hu : Along (total runStep) (fun s c => c.op.Unused s) s calls)
    (hdelete : ∀ c ∈ calls, c.op.deletesQueue = false) :
    (Queues.run s calls).waste ≤ s.waste - collections calls := by
  induction calls generalizing s with
  | nil => exact le_rfl
  | cons c calls ih =>
    obtain ⟨hfirst, hrest⟩ := List.forall_mem_cons.mp hdelete
    have hstep := h.commit_waste hu.1 hfirst
    have hlater := ih (h.commit hu.1 c.now) (hu.tail rfl) hrest
    have hcount : collections (c :: calls) = collections calls + c.op.collects.toNat := by
      unfold collections
      rw [List.countP_cons]
      cases c.op.collects <;> rfl
    change (Queues.run (runStep s c) calls).waste ≤ _
    rw [hcount]
    have hmono : (runStep s c).waste - collections calls ≤
        s.waste - c.op.collects.toNat - collections calls := Nat.sub_le_sub_right hstep _
    change (Queues.run (runStep s c) calls).waste ≤
      (runStep s c).waste - collections calls at hlater
    omega

/-- With queue ids that are never used twice, a call of RunQueuesGarbageCollection
deletes schedules of deleted queues only, at most as many as its budget, and drops a
record only when nothing is left of its queue. Stored queues keep everything. After
as many calls as there are records and schedules of theirs, however these calls are
mixed with others that delete no queue, nothing is left of any deleted queue. -/
theorem run_collects (calls more : List Call) (hids : (newQueueIds (calls ++ more)).Nodup) :
    (∀ req, CollectStep (orDefault req.maxVisitedSchedules defaultGCMaxVisitedSchedules)
      (run State.empty calls) (runQueuesGarbageCollection (run State.empty calls) req)) ∧
    ((∀ c ∈ more, c.op.deletesQueue = false) →
      (run State.empty calls).waste ≤ collections more →
        Drained (run State.empty (calls ++ more))) := by
  have hcalls : (newQueueIds calls).Nodup :=
    hids.sublist ((List.sublist_append_left calls more).filterMap _)
  have hs := Structured.empty.run (along_unused_empty hcalls)
  refine ⟨fun req => (hs.collects req).1, fun hdelete hwaste => ?_⟩
  have hunused := along_unused_empty hids
  have hend := Structured.empty.run hunused
  refine hend.drained ?_
  have hmore := hs.run_waste hunused.of_append hdelete
  have happend : run State.empty (calls ++ more) = run (run State.empty calls) more :=
    List.foldl_append
  rw [happend]
  omega

end Store

/-- The queue is deleted while it has a schedule. -/
def deletedFull : List Call := setup ++ [⟨2 * second, .deleteQueue ⟨1, [1]⟩⟩]

/-- One schedule and one record, so two calls: the budget of the first is used up by
the schedule. A queue created in between changes nothing. -/
theorem run_collects_setup :
    (run State.empty deletedFull).waste = 2 ∧
    Drained (run State.empty (deletedFull ++
      [⟨3 * second, .runQueuesGarbageCollection ⟨1, 1, 1⟩⟩,
        ⟨4 * second, .createQueue { firstQueue with queueId := ⟨1, 2⟩ }⟩,
        ⟨5 * second, .runQueuesGarbageCollection ⟨1, 1, 1⟩⟩])) :=
  ⟨by decide +kernel, (run_collects deletedFull _ (by decide)).2 (by decide) (by decide +kernel)⟩

end Moab.Queues
