import Moab.Tasks.Exec
import Moab.Tasks.Stable

namespace Moab

open OrderedStore

variable [OrderedStore]

/-- Every row and every thread record is filed under its own key, and a thread with
members has a record. -/
structure Filed (x : Spine) : Prop where
  row : ∀ id t, x.tasks.get id = some t → t.id = id ∧ t.state ≠ .invalid
  thread : ∀ k thread, x.threads.get k = some thread →
    thread.threadId = k.threadId ∧ thread.headTaskId.queue = k.queue
  member : ∀ k, ∀ i ∈ x.threadedTasksIndex.items k, x.threads.get k ≠ none

namespace Filed

variable {s : State} {q : QueueId} {thread : Thread}

theorem setThread (h : Filed s.spine) (hq : thread.headTaskId.queue = q) :
    Filed (s.setThread q thread).spine where
  row := h.row
  thread k record hk := by
    change (s.threads.set ⟨q, thread.threadId⟩ thread).get k = some record at hk
    by_cases he : k = ⟨q, thread.threadId⟩
    · rw [he, Table.get_set_self] at hk
      rw [he, ← Option.some.inj hk]
      exact ⟨rfl, hq⟩
    · rw [Table.get_set_ne _ _ he] at hk
      exact h.thread k record hk
  member k i hi := by
    change (s.threads.set ⟨q, thread.threadId⟩ thread).get k ≠ none
    by_cases he : k = ⟨q, thread.threadId⟩
    · rw [he, Table.get_set_self]
      simp
    · rw [Table.get_set_ne _ _ he]
      exact h.member k i hi

/-- A thread without members can do without its record. -/
theorem deleteThread (h : Filed s.spine) {k : ThreadKey} (hk : s.threadedTasksIndex.items k = []) :
    Filed ({ s with threads := s.threads.delete k } : State).spine where
  row := h.row
  thread j record hj := by
    change (s.threads.delete k).get j = some record at hj
    rw [Table.get_delete] at hj
    split_ifs at hj
    exact h.thread j record hj
  member j i hi := by
    change (s.threads.delete k).get j ≠ none
    by_cases he : j = k
    · have hnone : i ∈ s.threadedTasksIndex.items k := he ▸ hi
      rw [hk] at hnone
      simp at hnone
    · rw [Table.get_delete_ne _ he]
      exact h.member j i hi

theorem addMember (h : Filed s.spine) {k : ThreadKey} (i : IndexItem)
    (hk : s.threads.get k ≠ none) :
    Filed ({ s with threadedTasksIndex := s.threadedTasksIndex.add k i } : State).spine where
  row := h.row
  thread := h.thread
  member j i' hi := by
    rcases Index.mem_add.mp hi with he | hi
    · rw [he.1]
      exact hk
    · exact h.member j i' hi

theorem removeMember (h : Filed s.spine) (k : ThreadKey) (i : IndexItem) :
    Filed ({ s with threadedTasksIndex := s.threadedTasksIndex.remove k i } : State).spine where
  row := h.row
  thread := h.thread
  member j i' hi := h.member j i' (Index.mem_remove.mp hi).1

/-- The first member of a thread belongs to its queue, and only an empty thread has
none. -/
theorem firstMember (h : Filed s.spine) (err : Bytes → Nat → CoreError) :
    Ensures True (firstMember s q thread err) (fun o => match o with
      | none => s.threadedTasksIndex.items ⟨q, thread.threadId⟩ = []
      | some t => t.id.queue = q) := by
  unfold Moab.firstMember
  cases hi : s.threadedTasksIndex.items ⟨q, thread.threadId⟩ with
  | nil => exact Ensures.ok rfl
  | cons i is =>
    dsimp only
    cases ht : s.tasks.get (q.task i.taskId) with
    | none => exact Ensures.error trivial
    | some t =>
      have hid := (h.row _ t ht).1
      exact Ensures.ok (by dsimp only; rw [hid]; rfl)

theorem reconcileThreadHead (h : Filed s.spine) (hq : thread.headTaskId.queue = q) :
    Ensures True (reconcileThreadHead s q thread) (fun s' => Filed s'.spine) := by
  apply (h.firstMember .getEarliest).bind
  intro earliest hfirst
  apply Ensures.bind_any
  intro currentHead
  cases earliest with
  | none => exact Ensures.error trivial
  | some earliest =>
    have hsame : Filed (s.setThread q { thread with scheduledAt := earliest.scheduledAt }).spine :=
      h.setThread hq
    have hother : Filed (s.setThread q { thread with
        headTaskId := earliest.id, scheduledAt := earliest.scheduledAt }).spine :=
          h.setThread hfirst
    apply Ensures.ite
    · intro _
      apply Ensures.ite
      · exact fun _ => Ensures.ok h
      · intro _
        apply Ensures.ok
        unfold rescheduleHead
        split_ifs
        · exact hsame
        · exact hsame
    · intro _
      apply Ensures.ite
      · exact fun _ => Ensures.ok h
      · exact fun _ => Ensures.ok hother

theorem promoteNextThreadHead (h : Filed s.spine) :
    Ensures True (promoteNextThreadHead s q thread) (fun s' => Filed s'.spine) := by
  apply (h.firstMember .getNextHead).bind
  intro nextHead hfirst
  cases nextHead with
  | none => exact Ensures.ok (h.deleteThread hfirst)
  | some nextHead =>
    have hset : Filed (s.setThread q { thread with
        visibleAt := 0, headTaskId := nextHead.id, scheduledAt := nextHead.scheduledAt }).spine :=
      h.setThread hfirst
    exact Ensures.ok hset

theorem setRow {x : Spine} (h : Filed x) {t : Task} (state : t.state ≠ .invalid) :
    Filed { x with tasks := x.tasks.set t.id t } where
  row id u hu := by
    change (x.tasks.set t.id t).get id = some u at hu
    rw [Table.get_set] at hu
    split_ifs at hu with he
    · rw [← Option.some.inj hu]
      exact ⟨he.symm, state⟩
    · exact h.row id u hu
  thread := h.thread
  member := h.member

theorem deleteRow {x : Spine} (h : Filed x) (id : TaskId) :
    Filed { x with tasks := x.tasks.delete id } where
  row j u hu := by
    change (x.tasks.delete id).get j = some u at hu
    rw [Table.get_delete] at hu
    split_ifs at hu
    exact h.row j u hu
  thread := h.thread
  member := h.member

theorem empty : Filed State.empty.spine := by
  constructor <;> simp [State.spine, State.empty]

/-- Filing is kept by every change, in whatever state it is made. -/
theorem stable : Stable Filed where
  row _ _ h state := h.setRow state
  erase _ id h := h.deleteRow id
  attach s t h := by
    unfold attachTaskToThread
    dsimp only
    cases hk : s.threads.get t.threadKey with
    | none =>
      -- the record is written after the member, but they are different tables
      have hset : Filed (s.setThread t.id.queue ⟨t.threadId, t.id, t.scheduledAt, 0⟩).spine :=
        h.setThread rfl
      have hsome : (s.setThread t.id.queue ⟨t.threadId, t.id, t.scheduledAt, 0⟩).threads.get
          t.threadKey ≠ none := by
        change (s.threads.set t.threadKey _).get t.threadKey ≠ none
        rw [Table.get_set_self]
        simp
      exact Ensures.ok (hset.addMember t.queueIndexItem hsome)
    | some thread =>
      have hadd := h.addMember t.queueIndexItem (k := t.threadKey) (by simp [hk])
      exact hadd.reconcileThreadHead (h.thread _ thread hk).2
  detach s t h := by
    apply Ensures.bind_any
    intro thread
    apply Ensures.ite
    · exact fun _ => Ensures.ok (h.removeMember _ _)
    · exact fun _ => (h.removeMember _ _).promoteNextThreadHead
  reschedule s t oldScheduledAt h := by
    unfold rescheduleTaskInThread
    dsimp only
    unfold State.getThread
    dsimp only
    cases hk : s.threads.get t.threadKey with
    | none => exact Ensures.error trivial
    | some thread =>
      have hmoved := (h.removeMember t.threadKey ⟨oldScheduledAt, t.id.taskId⟩).addMember
        t.queueIndexItem (k := t.threadKey) (by simp [hk])
      exact hmoved.reconcileThreadHead (h.thread _ thread hk).2
  renew s k thread visibleAt h hk := by
    have hq := (h.thread k thread hk).2
    exact h.setThread hq

end Filed

theorem commit_filed {s : State} (h : Filed s.spine) (now : Time) (op : Op) :
    Filed (commit s now op).spine := by
  have hside : ∀ x limiters records, Filed x →
      Filed { x with rateLimiters := limiters, purgeGCRecords := records } :=
    fun x limiters records hx => ⟨hx.row, hx.thread, hx.member⟩
  apply commit_keeps (I := fun s => Filed s.spine) h
  exact Filed.stable.exec h op (fun _ x _ _ hx => hside x _ _ hx) (fun _ x _ hx => hside x _ _ hx)
    (fun _ _ x _ _ hx => hside x _ _ hx)

/-- In every run, whatever its calls, rows and records are filed. -/
theorem run_filed (calls : List Call) : Filed (run State.empty calls).spine :=
  run_keeps (I := fun s => Filed s.spine) (P := fun _ _ => True)
    (fun _ c h _ => commit_filed h c.now c.op) calls State.empty
    (Along.of_mem (fun _ _ => trivial)) Filed.empty

end Moab
