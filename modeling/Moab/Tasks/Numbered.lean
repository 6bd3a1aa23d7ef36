import Moab.Tasks.Exec
import Moab.Tasks.Stable

namespace Moab

open OrderedStore

variable [OrderedStore] {s x : State} {q r : QueueId} {m n : Nat} {id : TaskId} {now : Time}

/-- The number of the last task that the queue got. -/
def State.sequence (s : State) (q : QueueId) : Nat := (s.getQueueState q).taskIdSequence

theorem sequence_setQueueState_self (st : QueueState) :
    (s.setQueueState q st).sequence q = st.taskIdSequence := by
  change (((s.queueState.set q st).get q).getD .zero).taskIdSequence = _
  rw [Table.get_set_self]
  rfl

theorem sequence_setQueueState_ne (st : QueueState) (h : q ≠ r) :
    (s.setQueueState r st).sequence q = s.sequence q := by
  change (((s.queueState.set r st).get q).getD .zero).taskIdSequence = _
  rw [Table.get_set_ne _ _ h]
  rfl

/-- Every row is filed under its own id, and the queue has given out the numbers of its
rows. -/
def Numbered (q : QueueId) (s : State) : Prop :=
  ∀ id t, s.tasks.get id = some t → t.id = id ∧ (id.queue = q → id.taskId ≤ s.sequence q)

theorem Numbered.empty : Numbered q State.empty := by
  intro id t ht
  simp [State.empty] at ht

/-- What a call may do to the numbers of a queue: they only grow, and a row that is gone
does not come back. -/
structure Continues (q : QueueId) (s s' : State) : Prop where
  numbered : Numbered q s'
  grows : s.sequence q ≤ s'.sequence q
  gone : ∀ id, id.queue = q → id.taskId ≤ s.sequence q → s.tasks.get id = none →
    s'.tasks.get id = none

theorem Continues.refl (h : Numbered q s) :
    Continues q s s := ⟨h, Nat.le_refl _, fun _ _ _ hid => hid⟩

theorem Continues.trans {s' s'' : State} (h : Continues q s s') (k : Continues q s' s'') :
    Continues q s s'' where
  numbered := k.numbered
  grows := Nat.le_trans h.grows k.grows
  gone id hq hle hnone := k.gone id hq (Nat.le_trans hle h.grows) (h.gone id hq hle hnone)

section Calls

/-- A row that a call may write when it began in s and has given out the numbers up to n:
none of those that were gone before. -/
def Admits (s : State) (q : QueueId) (n : Nat) (id : TaskId) : Prop :=
  id.queue = q → id.taskId ≤ n ∧ (id.taskId ≤ s.sequence q → s.tasks.get id ≠ none)

theorem Admits.mono (h : Admits s q m id) (hmn : m ≤ n) : Admits s q n id :=
  fun hq => ⟨Nat.le_trans (h hq).1 hmn, (h hq).2⟩

/-- The state of a call that began in s. The sequence is written at its end. -/
structure Underway (s : State) (q : QueueId) (n : Nat) (x : State) : Prop where
  row : ∀ id t, x.tasks.get id = some t → t.id = id ∧ Admits s q n id
  sequence : x.sequence q = s.sequence q

namespace Underway

theorem refl (h : Numbered q s) : Underway s q (s.sequence q) s where
  row id t ht := ⟨(h id t ht).1, fun hq => ⟨(h id t ht).2 hq, fun _ => by simp [ht]⟩⟩
  sequence := rfl

theorem mono (h : Underway s q m x) (hmn : m ≤ n) : Underway s q n x where
  row id t ht := ⟨(h.row id t ht).1, (h.row id t ht).2.mono hmn⟩
  sequence := h.sequence

theorem upheld : Upheld (fun t => Admits s q n t.id) (fun t => Admits s q n t.id)
    (Underway s q n) := by
  refine (Upheld.of_records (P := fun id t => t.id = id ∧ Admits s q n id)
    (J := fun states => ((states.get q).getD .zero).taskIdSequence = s.sequence q)
    (fun id t ht => ht.1 ▸ ht.2) (fun _ ht _ => ht) (fun _ ht => ⟨rfl, ht⟩)).congr (fun x => ?_)
  exact ⟨fun h => ⟨h.row, h.sequence⟩, fun h => ⟨h.1, h.2⟩⟩

/-- Nothing but the number of a row matters, which no overwrite changes. -/
theorem amending (e : EnqueueRequestEntry) : Amending (fun t => Admits s q n t.id) now e :=
  ⟨fun _ ht => ht, fun _ ht => ht, fun _ ht => ht⟩

/-- A call that is no Enqueue to the queue gives out none of its numbers. -/
theorem writes {op : Op} (hop : ∀ req, op = .enqueue req → req.queueId ≠ q) :
    op.Writes (fun t => Admits s q n t.id) (fun t => Admits s q n t.id) now := by
  cases op with
  | enqueue req => exact fun e _ => ⟨amending e, fun _ hq => absurd hq (hop req rfl)⟩
  | dequeue req => exact ⟨⟨fun _ _ ht _ => ht, fun _ _ ht _ => ht⟩, fun _ ht => ht⟩
  | reportStatus req => exact ⟨⟨fun _ _ ht _ => ht, fun _ _ ht _ => ht⟩, fun _ _ _ _ ht _ => ht⟩
  | restartTasks req => exact fun _ _ _ ht => ht
  | _ => trivial

theorem exec {op : Op} (h : Numbered q s) (hmark : s.purgeGCRecords.get q = none)
    (hop : ∀ req, op = .enqueue req → req.queueId ≠ q) :
    Ensures True (exec s now op) (fun a => Underway s q (s.sequence q) a.1 ∧
      ∀ t ∈ a.2.tasks, Admits s q (s.sequence q) t.id) := by
  refine (upheld.exec (refl h) (writes hop) ?_ ?_ ?_ ?_ ?_).mono
    (fun a ha => ⟨ha.1, fun t ht => ?_⟩)
  · intro req x k hreq hx
    refine ⟨hx.row, ?_⟩
    rw [sequence_setQueueState_ne _ (Ne.symm (hop req hreq))]
    exact hx.sequence
  · intro req x st _ hx hst
    refine ⟨hx.row, ?_⟩
    by_cases hr : q = req.queueId
    · subst hr
      rw [sequence_setQueueState_self, hst.sequence]
      exact hx.sequence
    · rw [sequence_setQueueState_ne _ hr]
      exact hx.sequence
  · exact fun _ _ _ _ hx => { hx with }
  · exact fun _ _ _ hx => { hx with }
  · intro _ r x _ hr hx
    refine ⟨hx.row, ?_⟩
    have hne : q ≠ r := by
      intro he
      rw [he, hr] at hmark
      cases hmark
    change (((x.queueState.delete r).get q).getD .zero).taskIdSequence = _
    rw [Table.get_delete_ne _ hne]
    exact hx.sequence
  · exact (ha.2 t ht).elim id id

theorem enqueueEntry (h : Underway s q n x) (hn : s.sequence q ≤ n) (e : EnqueueRequestEntry) :
    Ensures True (enqueueEntry q now x n e) (fun a => Underway s q a.2.1 a.1 ∧ n ≤ a.2.1 ∧
      ∀ t ∈ a.2.2, Admits s q a.2.1 t.id) := by
  unfold Moab.enqueueEntry
  cases duplicateOf x q e with
  | some duplicateId =>
    apply (upheld.overwriteDuplicate (amending e) h duplicateId).bind
    exact fun a ha => Ensures.ok ⟨ha.1, Nat.le_refl n, fun t ht => (ha.2 t ht).elim id id⟩
  | none =>
    have hnew : Admits s q (n + 1) (newTask q (n + 1) e now).id := by
      intro _
      refine ⟨Nat.le_refl _, fun hold => ?_⟩
      change n + 1 ≤ s.sequence q at hold
      omega
    apply (upheld.createTask (h.mono (Nat.le_succ n)) hnew).bind
    exact fun x' hx' => Ensures.ok ⟨hx', Nat.le_succ n, by simpa using hnew⟩

theorem enqueueEntries (es : List EnqueueRequestEntry) (h : Underway s q n x)
    (hn : s.sequence q ≤ n) :
    Ensures True (enqueueEntries q now x n es) (fun a => Underway s q a.2.1 a.1 ∧ n ≤ a.2.1 ∧
      ∀ t ∈ a.2.2, Admits s q a.2.1 t.id) := by
  induction es generalizing x n with
  | nil => exact Ensures.ok ⟨h, Nat.le_refl n, by simp⟩
  | cons e es ih =>
    apply (h.enqueueEntry hn e).bind
    intro a ha
    obtain ⟨hx, hle, hreturned⟩ := ha
    apply (ih hx (Nat.le_trans hn hle)).bind
    intro b hb
    obtain ⟨hy, hle', hreturned'⟩ := hb
    refine Ensures.ok ⟨hy, Nat.le_trans hle hle', List.forall_mem_append.mpr ⟨?_, hreturned'⟩⟩
    exact fun t ht => (hreturned t (Option.mem_toList.mp ht)).mono hle'

/-- The sequence is written once all entries are done. -/
theorem continues (h : Underway s q n x) {s' : State} (htasks : s'.tasks = x.tasks)
    (hn : n ≤ s'.sequence q) (hle : s.sequence q ≤ s'.sequence q) : Continues q s s' := by
  refine ⟨?_, hle, ?_⟩
  · intro id t ht
    rw [htasks] at ht
    obtain ⟨hid, hadmits⟩ := h.row id t ht
    exact ⟨hid, fun hq => Nat.le_trans (hadmits hq).1 hn⟩
  · intro id hq hold hnone
    rw [htasks]
    cases hrow : x.tasks.get id with
    | none => rfl
    | some t => exact absurd hnone (((h.row id t hrow).2 hq).2 hold)

end Underway

/-- As long as a queue is not marked as purged, every call goes on with its numbers, and
the tasks of its response have been numbered. -/
theorem exec_continues (h : Numbered q s) (hmark : s.purgeGCRecords.get q = none) (op : Op) :
    Ensures True (exec s now op) (fun a => Continues q s a.1 ∧
      ∀ t ∈ a.2.tasks, t.id.queue = q → t.id.taskId ≤ a.1.sequence q) := by
  have hother : (∀ req, op = .enqueue req → req.queueId ≠ q) →
      Ensures True (exec s now op) (fun a => Continues q s a.1 ∧
        ∀ t ∈ a.2.tasks, t.id.queue = q → t.id.taskId ≤ a.1.sequence q) := by
    intro hop
    apply (Underway.exec h hmark hop).mono
    intro a ha
    have hseq := ha.1.sequence
    refine ⟨ha.1.continues rfl (Nat.le_of_eq hseq.symm) (Nat.le_of_eq hseq.symm), ?_⟩
    intro t ht hq
    rw [hseq]
    exact (ha.2 t ht hq).1
  cases op with
  | enqueue req =>
    by_cases hreq : req.queueId = q
    · apply Ensures.map
      unfold Moab.enqueue
      cases checkQueueNotPurged s req.queueId with
      | some err => exact Ensures.ok ⟨Continues.refl h, by simp [Response.tasks]⟩
      | none =>
        rw [hreq]
        apply (Underway.enqueueEntries req.entries (Underway.refl h) (Nat.le_refl _)).bind
        intro a ha
        obtain ⟨hx, hle, hreturned⟩ := ha
        have hseq : (a.1.setQueueState q
            { s.getQueueState q with taskIdSequence := a.2.1 }).sequence q = a.2.1 :=
          sequence_setQueueState_self _
        refine Ensures.ok ⟨hx.continues rfl (Nat.le_of_eq hseq.symm) (by rw [hseq]; exact hle), ?_⟩
        intro t ht hq
        rw [hseq]
        exact (hreturned t ht hq).1
    · apply hother
      intro req' he
      obtain rfl := Op.enqueue.inj he
      exact hreq
  | _ => exact hother (by simp)

theorem commit_continues (h : Numbered q s) (hmark : s.purgeGCRecords.get q = none) (now : Time)
    (op : Op) : Continues q s (commit s now op) :=
  commit_keeps (I := Continues q s) (Continues.refl h)
    ((exec_continues h hmark op).mono (fun _ ha => ha.1))

end Calls

end Moab
