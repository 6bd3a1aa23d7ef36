import Moab.Framework.SortedList
import Moab.Queues.Minutes
import Moab.Queues.Structured

namespace Moab.Queues

open OrderedStore

/-- The queue id that a call brings along for a queue. -/
def Op.newQueueId : Op → Option QueueId
  | .createQueue req => some req.queueId
  | .swapQueueId req => some ⟨req.accountId, req.newQueueId⟩
  | _ => none

/-- A call on the core at a time. -/
structure Call where
  now : Time
  op : Op
  deriving DecidableEq

/-- The ids that the calls of a run bring along, in order. -/
def newQueueIds (calls : List Call) : List QueueId := calls.filterMap (fun c => c.op.newQueueId)

section Commit

variable [OrderedStore] {s : State} {now : Time} {op : Op}

/-- The id that a call brings along belongs to no queue, stored or deleted. -/
def Op.Unused (s : State) (op : Op) : Prop :=
  ∀ q, op.newQueueId = some q → s.queues.get q = none ∧ s.gcRecords.get q = none

theorem ne_of_stored {q : QueueId} {x : Queue} (hqueue : s.queues.get q = none)
    (hx : s.queues.get x.id = some x) : q ≠ x.id := by
  intro he
  rw [he, hx] at hqueue
  cases hqueue

theorem Structured.fresh (h : Structured s) (hu : op.Unused s) : op.fresh s := by
  cases op with
  | swapQueueId req =>
    obtain ⟨hqueue, hrecord⟩ := hu _ rfl
    intro e he
    exact countSchedules_eq_zero.mp (h.unused hqueue hrecord) e.1 e.2 (Table.mem_entries.mp he)
  | _ => trivial

/-- A call that swaps an id moves the schedules to it one by one. -/
theorem Structured.moving (h : Structured s) {req : SwapQueueIdRequest}
    (hu : Op.Unused s (.swapQueueId req)) {queue : Queue}
    (named : s.queueByName req.accountId req.queueName = some queue)
    (absent : s.queues.get ⟨req.accountId, req.newQueueId⟩ = none) :
    Moving s queue.id ⟨req.accountId, req.newQueueId⟩ (moveSchedules queue.id
      ⟨req.accountId, req.newQueueId⟩ (s.schedules.entries.length + 1) none s) := by
  obtain ⟨hne, hapart⟩ := apart_of_fresh h.keyed named absent (h.fresh hu)
  exact moveSchedules_moving hne _ none h.shelved.keyed hapart

theorem Structured.runQueuesGarbageCollection (h : Structured s)
    (req : RunQueuesGarbageCollectionRequest) : Structured (runQueuesGarbageCollection s req) := by
  refine (runQueuesGarbageCollection_keeps (I := fun t => Structured t ∧ t.queues = s.queues)
    h.shelved.keyed req ?_ ?_ ⟨h, rfl⟩).1
  · rintro t x ⟨ht, hqueues⟩ row hrecord
    -- the queue of a record is not stored
    refine ⟨ht.collect row ?_, hqueues⟩
    rw [hqueues]
    exact h.registered.retired _ hrecord
  · rintro t q ⟨ht, hqueues⟩ hnone
    exact ⟨ht.deleteGCRecord hnone, hqueues⟩

variable [Gronx]

/-- Step: every call keeps the structure of the tables. -/
theorem Structured.commit (h : Structured s) (hu : op.Unused s) (now : Time) :
    Structured (commit s now op) := by
  have heffect := commit_effect s now op
  generalize Queues.commit s now op = t at heffect ⊢
  cases heffect with
  | nothing => exact h
  | createQueue unnamed _ absent =>
    exact h.createQueue (x := newQueue _ now) absent (h.registered.unnamed unnamed) (hu _ rfl).2 rfl
  | updateQueue named =>
    exact h.updateQueue (y := withQueueSettings _ _ now) (h.registered.queueByName named).1 rfl rfl
  | deleteQueue named => exact h.deleteQueue (h.registered.queueByName named).1
  | @swapQueueId req queue named absent =>
    obtain ⟨hrow, haccount, _⟩ := h.registered.queueByName named
    exact h.swapId (y := withQueueId queue ⟨req.accountId, req.newQueueId⟩ now) hrow rfl
      haccount.symm rfl absent (hu _ rfl).2
  | @createSchedule req queue nextTime named absent _ unnamed _ =>
    obtain ⟨hrow, haccount, _⟩ := h.registered.queueByName named
    refine h.createSchedule (v := newSchedule req ⟨req.accountId, queue.id.queueId, req.scheduleId⟩
      now nextTime) hrow ?_ absent unnamed
    change QueueId.mk req.accountId queue.id.queueId = queue.id
    rw [← haccount]
  | updateSchedule named _ _ written =>
    obtain ⟨queue, _, hx⟩ := Option.bind_eq_some_iff.mp named
    exact h.updateSchedule written (h.keyed.scheduleByName hx).1 rfl rfl
  | deleteSchedule named schedule =>
    obtain ⟨hrow, hid⟩ := h.keyed.scheduleByName schedule
    exact h.deleteSchedule (h.registered.queueByName named).1 hid hrow
  | @reportSchedulesStatus req x t row written =>
    have hid := h.shelved.keyed _ x row
    exact h.updateSchedule (x := x) written (by rw [hid]; exact row) rfl rfl
  | runQueuesGarbageCollection => exact h.runQueuesGarbageCollection _

/-- Only for the id that a call brings along a queue is stored. -/
theorem Structured.commit_absent (h : Structured s) (hu : op.Unused s) {q : QueueId}
    (hq : op.newQueueId ≠ some q) (hqueue : s.queues.get q = none) :
    (Queues.commit s now op).queues.get q = none := by
  have hset : ∀ {x : Queue}, s.queues.get x.id = some x → ∀ y : Queue, y.id = x.id →
      (s.queues.set y.id y).get q = none := by
    intro x hx y hy
    rw [hy, Table.get_set_ne _ _ (ne_of_stored hqueue hx)]
    exact hqueue
  have heffect := commit_effect s now op
  generalize Queues.commit s now op = t at heffect ⊢
  cases heffect with
  | nothing => exact hqueue
  | createQueue =>
    exact (Table.get_set_ne _ _ (fun he => hq (congrArg some he.symm))).trans hqueue
  | updateQueue named | createSchedule named | deleteSchedule named =>
    exact hset (h.registered.queueByName named).1 _ rfl
  | deleteQueue named =>
    have hne := ne_of_stored hqueue (h.registered.queueByName named).1
    exact (Table.get_delete_ne _ hne).trans hqueue
  | @swapQueueId req queue named absent =>
    obtain ⟨hrow, _, _⟩ := h.registered.queueByName named
    have hmoving := h.moving hu named absent
    change ((Table.set _ _ _).delete queue.id).get q = none
    rw [Table.get_delete_ne _ (ne_of_stored hqueue hrow), hmoving.queues]
    exact (Table.get_set_ne _ _ (fun he => hq (congrArg some he.symm))).trans hqueue
  | updateSchedule _ _ _ written | reportSchedulesStatus row written =>
    rw [updateSchedule_frame written]
    exact hqueue
  | runQueuesGarbageCollection =>
    exact runQueuesGarbageCollection_keeps (I := fun t => t.queues.get q = none) h.shelved.keyed _
      (fun _ _ ht _ _ => ht) (fun _ _ ht _ => ht) hqueue

/-- Only for the queue that a call deletes a record is kept. -/
theorem Structured.commit_unrecorded (h : Structured s) (hu : op.Unused s) {q : QueueId}
    (hqueue : s.queues.get q = none) (hrecord : s.gcRecords.get q = none) :
    (Queues.commit s now op).gcRecords.get q = none := by
  have heffect := commit_effect s now op
  generalize Queues.commit s now op = t at heffect ⊢
  cases heffect with
  | deleteQueue named =>
    have hne := ne_of_stored hqueue (h.registered.queueByName named).1
    exact (Table.get_set_ne _ _ hne).trans hrecord
  | @swapQueueId req queue named absent =>
    have hmoving := h.moving hu named absent
    change (moveSchedules _ _ _ _ s).gcRecords.get q = none
    rw [hmoving.gcRecords]
    exact hrecord
  | updateSchedule _ _ _ written | reportSchedulesStatus row written =>
    rw [updateSchedule_frame written]
    exact hrecord
  | runQueuesGarbageCollection =>
    refine runQueuesGarbageCollection_keeps (I := fun t => t.gcRecords.get q = none)
      h.shelved.keyed _ (fun _ _ ht _ _ => ht) ?_ hrecord
    intro t p ht _
    change (t.gcRecords.delete p).get q = none
    rw [Table.get_delete]
    split
    · rfl
    · exact ht
  | _ => exact hrecord

/-- Only the id that a call brings along can come into use. -/
theorem Structured.commit_unused (h : Structured s) (hu : op.Unused s) {q : QueueId}
    (hq : op.newQueueId ≠ some q) (hqueue : s.queues.get q = none)
    (hrecord : s.gcRecords.get q = none) :
    (Queues.commit s now op).queues.get q = none ∧
    (Queues.commit s now op).gcRecords.get q = none :=
  ⟨h.commit_absent hu hq hqueue, h.commit_unrecorded hu hqueue hrecord⟩

omit [Gronx] in
/-- The id that DeleteQueue returns was one of a queue. -/
theorem Structured.deleteQueue_takes (h : Structured s) {req : DeleteQueueRequest} {s' : State}
    {q : QueueId} (hd : Queues.deleteQueue s req = (s', .ok q)) :
    s.queues.get q ≠ none ∧ s'.queues.get q = none := by
  unfold Queues.deleteQueue at hd
  split at hd
  · cases hd
  · next queue named =>
    obtain ⟨rfl, rfl⟩ : _ = s' ∧ queue.id = q := by simpa using hd
    refine ⟨?_, Table.get_delete_self _ _⟩
    rw [(h.registered.queueByName named).1]
    simp

omit [Gronx] in
/-- The old id that SwapQueueId returns was one of a queue. -/
theorem Structured.swapQueueId_takes (h : Structured s) {req : SwapQueueIdRequest} {s' : State}
    {queue : Queue} {q : QueueId} (hs : swapQueueId s now req = (s', .ok (queue, q))) :
    s.queues.get q ≠ none ∧ s'.queues.get q = none := by
  unfold swapQueueId at hs
  split at hs
  · cases hs
  · next old named =>
    dsimp only at hs
    split_ifs at hs
    · cases hs
    obtain ⟨rfl, _, rfl⟩ : _ = s' ∧ _ = queue ∧ old.id = q := by simpa using hs
    refine ⟨?_, Table.get_delete_self _ _⟩
    rw [(h.registered.queueByName named).1]
    simp

end Commit

section Run

variable [OrderedStore] [Gronx]

def runStep (s : State) (c : Call) : State := commit s c.now c.op

def run (s : State) (calls : List Call) : State := calls.foldl runStep s

/-- Ids that are never brought along twice are unused when they are brought. -/
theorem along_unused (calls : List Call) (s : State) (h : Structured s)
    (hnew : ∀ q ∈ newQueueIds calls, s.queues.get q = none ∧ s.gcRecords.get q = none)
    (hnodup : (newQueueIds calls).Nodup) :
    Along (total runStep) (fun s c => c.op.Unused s) s calls := by
  induction calls generalizing s with
  | nil => trivial
  | cons c calls ih =>
    have hu : c.op.Unused s := by
      intro q hq
      exact hnew q (List.mem_filterMap.mpr ⟨c, List.mem_cons_self, hq⟩)
    refine ⟨hu, ih (runStep s c) (h.commit hu c.now) ?_ ?_⟩
    · intro q hq
      have hmem : q ∈ newQueueIds (c :: calls) := by
        obtain ⟨d, hd, hdq⟩ := List.mem_filterMap.mp hq
        exact List.mem_filterMap.mpr ⟨d, List.mem_cons_of_mem _ hd, hdq⟩
      obtain ⟨hqueue, hrecord⟩ := hnew q hmem
      refine h.commit_unused hu ?_ hqueue hrecord
      -- a later call would bring the id of this one along again
      intro hc
      have hcons : newQueueIds (c :: calls) = q :: newQueueIds calls := List.filterMap_cons_some hc
      rw [hcons] at hnodup
      exact (List.nodup_cons.mp hnodup).1 hq
    · exact hnodup.sublist ((List.sublist_cons_self c calls).filterMap _)

theorem along_unused_empty {calls : List Call} (hnodup : (newQueueIds calls).Nodup) :
    Along (total runStep) (fun s c => c.op.Unused s) State.empty calls :=
  along_unused calls State.empty Structured.empty
    (fun q _ => by simp [State.empty]) hnodup

/-- Run: what the calls do one by one, they do in a row. -/
theorem Structured.run {s : State} {calls : List Call} (h : Structured s)
    (hu : Along (total runStep) (fun s c => c.op.Unused s) s calls) : Structured (run s calls) :=
  hu.foldl (fun _ c hs hc => hs.commit hc c.now) h

end Run

section Limits

variable [OrderedStore] {s : State} {maxQueues maxSchedules : Int}

/-- The limits that a call passes are the given ones. -/
def Op.Within (maxQueues maxSchedules : Int) : Op → Prop
  | .createQueue req => req.maxNumberOfQueues = maxQueues
  | .createSchedule req => req.maxNumberOfSchedulesPerQueue = maxSchedules
  | _ => True

instance (op : Op) : Decidable (op.Within maxQueues maxSchedules) := by
  unfold Op.Within
  split <;> infer_instance

/-- No account and no queue is over its limit. A limit below zero admits nothing. -/
structure Bounded (maxQueues maxSchedules : Int) (s : State) : Prop where
  queues : ∀ a, s.registry.numberOfQueues a ≤ max maxQueues 0
  schedules : ∀ q x, s.queues.get q = some x → x.schedulesCount ≤ max maxSchedules 0

theorem Bounded.empty : Bounded maxQueues maxSchedules State.empty where
  queues a := by simp [State.empty, State.registry, Registry.numberOfQueues]
  schedules q x hx := by simp [State.empty] at hx

/-- Writing a queue that is within the limit. -/
theorem Bounded.set (h : Bounded maxQueues maxSchedules s) {t : State} {y : Queue}
    (hcounters : t.counters = s.counters) (hqueues : t.queues = s.queues.set y.id y)
    (hy : y.schedulesCount ≤ max maxSchedules 0) : Bounded maxQueues maxSchedules t where
  queues a := by
    unfold Registry.numberOfQueues State.registry
    rw [hcounters]
    exact h.queues a
  schedules q x hx := by
    rw [hqueues, Table.get_set] at hx
    split at hx
    · obtain rfl := Option.some.inj hx
      exact hy
    · exact h.schedules q x hx

theorem Bounded.of_eq (h : Bounded maxQueues maxSchedules s) {t : State}
    (hcounters : t.counters = s.counters) (hqueues : t.queues = s.queues) :
    Bounded maxQueues maxSchedules t where
  queues a := by
    unfold Registry.numberOfQueues State.registry
    rw [hcounters]
    exact h.queues a
  schedules q x hx := by
    rw [hqueues] at hx
    exact h.schedules q x hx

theorem Bounded.delete (h : Bounded maxQueues maxSchedules s) (q : QueueId) :
    Bounded maxQueues maxSchedules { s with queues := s.queues.delete q } where
  queues := h.queues
  schedules p x hx := by
    change (s.queues.delete q).get p = some x at hx
    rw [Table.get_delete] at hx
    split at hx
    · exact absurd hx (by simp)
    · exact h.schedules p x hx

/-- Counting queues up or down. -/
theorem Bounded.addQueues (h : Bounded maxQueues maxSchedules s) {accountId : Nat} {n : Int}
    (hn : s.registry.numberOfQueues accountId + n ≤ max maxQueues 0) :
    Bounded maxQueues maxSchedules (s.addQueues accountId n) where
  queues a := by
    rw [numberOfQueues_addQueues]
    split
    · next ha => exact ha ▸ hn
    · rw [add_zero]
      exact h.queues a
  schedules := h.schedules

variable [Gronx] {now : Time} {op : Op}

theorem Bounded.commit (h : Bounded maxQueues maxSchedules s) (hs : Structured s)
    (hu : op.Unused s) (hw : op.Within maxQueues maxSchedules) (now : Time) :
    Bounded maxQueues maxSchedules (commit s now op) := by
  have hrow : ∀ {accountId name queue} {y : Queue}, s.queueByName accountId name = some queue →
      y.schedulesCount ≤ queue.schedulesCount → y.schedulesCount ≤ max maxSchedules 0 :=
    fun hq hy => le_trans hy (h.schedules _ _ (hs.registered.queueByName hq).1)
  have heffect := commit_effect s now op
  generalize Queues.commit s now op = t at heffect ⊢
  cases heffect with
  | nothing => exact h
  | @createQueue req _ room _ =>
    have hset : Bounded maxQueues maxSchedules (s.createQueue (newQueue req now)) :=
      h.set rfl rfl (le_max_right _ _)
    apply hset.addQueues
    change req.maxNumberOfQueues = maxQueues at hw
    rw [hw] at room
    exact le_trans (Int.add_one_le_iff.mpr room) (le_max_left _ _)
  | updateQueue named => exact h.set rfl rfl (hrow named (le_refl _))
  | @deleteQueue req queue named =>
    have hgone : Bounded maxQueues maxSchedules (s.deleteQueue queue) :=
      (h.delete queue.id).of_eq rfl rfl
    have hdown : s.registry.numberOfQueues queue.id.accountId + -1 ≤ max maxQueues 0 :=
      le_trans (by omega) (h.queues queue.id.accountId)
    exact (hgone.addQueues hdown).of_eq rfl rfl
  | @swapQueueId req queue named absent =>
    have hmoving := hs.moving hu named absent
    have hset : Bounded maxQueues maxSchedules (s.updateQueue (withQueueId queue
        ⟨req.accountId, req.newQueueId⟩ now)) := h.set rfl rfl (hrow named (le_refl _))
    refine (hset.delete queue.id).of_eq hmoving.counters ?_
    change ((moveSchedules _ _ _ _ s).queues.set _ _).delete _ = _
    rw [hmoving.queues]
    rfl
  | @createSchedule req queue nextTime named _ room _ _ =>
    change req.maxNumberOfSchedulesPerQueue = maxSchedules at hw
    rw [hw] at room
    refine h.set rfl rfl ?_
    exact le_trans (Int.add_one_le_iff.mpr room) (le_max_left _ _)
  | updateSchedule _ _ _ written | reportSchedulesStatus row written =>
    rw [updateSchedule_frame written]
    exact h.of_eq rfl rfl
  | deleteSchedule named schedule =>
    exact h.set rfl rfl (hrow named (Int.sub_le_self _ (by decide)))
  | runQueuesGarbageCollection =>
    exact runQueuesGarbageCollection_keeps hs.shelved.keyed _ (fun _ _ ht _ _ => ht.of_eq rfl rfl)
      (fun _ _ ht _ => ht.of_eq rfl rfl) h

/-- In every run that never reuses a queue id and always passes the same limits,
the two names indexes are bijections with the rows, the counters count them and
are within the limits, and the index by time holds one item for each schedule. -/
theorem run_structured (calls : List Call) (maxQueues maxSchedules : Int)
    (hids : (newQueueIds calls).Nodup)
    (hlimits : ∀ c ∈ calls, c.op.Within maxQueues maxSchedules) :
    (∀ a name n, (run State.empty calls).queueNames.get ⟨a, name⟩ = some n ↔
      ∃ x, (run State.empty calls).queues.get ⟨a, n⟩ = some x ∧ x.name = name) ∧
    (∀ a, ((run State.empty calls).getCounter a).numberOfQueues =
        (run State.empty calls).registry.countQueues a ∧
      ((run State.empty calls).getCounter a).numberOfQueues ≤ max maxQueues 0) ∧
    (∀ q x, (run State.empty calls).queues.get q = some x →
      x.schedulesCount = (run State.empty calls).countSchedules q ∧
      x.schedulesCount ≤ max maxSchedules 0) ∧
    (∀ q name n, (run State.empty calls).scheduleNames.get ⟨q, name⟩ = some n ↔
      ∃ x, (run State.empty calls).schedules.get (q.schedule n) = some x ∧ x.name = name) ∧
    ∀ i, i ∈ (run State.empty calls).scheduledIndex.items () ↔
      ∃ x, (run State.empty calls).schedules.get i.id = some x ∧ x.nextScheduledAt = i.time := by
  have hunused := (along_unused_empty hids).and_forall hlimits
  obtain ⟨hs, hb⟩ : Structured (run State.empty calls) ∧
      Bounded maxQueues maxSchedules (run State.empty calls) :=
    hunused.foldl (I := fun s => Structured s ∧ Bounded maxQueues maxSchedules s)
      (fun _ c hI hc => ⟨hI.1.commit hc.1 c.now, hI.2.commit hI.1 hc.1 hc.2 c.now⟩)
      ⟨.empty, .empty⟩
  refine ⟨?_, ?_, ?_, ?_, ?_⟩
  · intro a name n
    exact hs.registered.mem_names
  · intro a
    exact ⟨hs.registered.counted a, hb.queues a⟩
  · intro q x hx
    exact ⟨hs.schedulesCount q x hx, hb.schedules q x hx⟩
  · intro q name n
    exact hs.shelved.mem_names
  · intro i
    exact Rows.Filed.mem_iff (r := (run State.empty calls).rows) hs.shelved.filed

end Limits

section Setup

/-- A queue with one schedule. -/
def setup : List Call :=
  [⟨second, .createQueue firstQueue⟩, ⟨second, .createSchedule firstSchedule⟩]

/-- The queue of the setup gets another id. -/
def swapped : List Call := setup ++ [⟨2 * second, .swapQueueId ⟨1, [1], 2⟩⟩]

theorem run_structured_swapped : ∃ x, (run State.empty swapped).queues.get ⟨1, 2⟩ = some x ∧
    x.schedulesCount = (run State.empty swapped).countSchedules ⟨1, 2⟩ ∧
    x.schedulesCount ≤ max 10 0 := by
  obtain ⟨_, _, hcount, _, _⟩ := run_structured swapped 10 10 (by decide) (by decide)
  exact ⟨_, rfl, hcount ⟨1, 2⟩ _ rfl⟩

end Setup

end Moab.Queues
