import Moab.Framework.Ensures
import Moab.Framework.Related
import Moab.Tasks.Core
import Moab.Tasks.Keys

namespace Moab

open OrderedStore

variable [OrderedStore]

/-- A part of the store: the tasks whose rows and index items are in it, its dedupe
keys, threads and counters, and the queues whose remaining rows are. The counters that
are only tallied may be written, but are not looked at. -/
structure Area where
  task : TaskId → Prop
  dedupeKey : DedupeKey → Prop
  thread : ThreadKey → Prop
  counter : QueueId → Prop
  tally : QueueId → Prop
  queue : QueueId → Prop

namespace Area

omit [OrderedStore]

def Owns (A : Area) : Address → Prop
  | .task id => A.task id
  | .dedupeKey k => A.dedupeKey k
  | .queued q i | .inProgress q i | .dead q i => A.task (q.task i.taskId)
  | .expiration i => A.task i.taskId
  | .thread k | .member k _ => A.thread k
  | .counter q => A.counter q
  | .queueState q | .rateLimiter q | .purgeGCRecord q => A.queue q

def Tallies (A : Area) : Address → Prop
  | .counter q => A.tally q
  | _ => False

/-- A thread record of queue q and the task it names as the head are in the area. -/
structure Leads (A : Area) (q : QueueId) (x : Thread) : Prop where
  thread : A.thread ⟨q, x.threadId⟩
  queue : x.headTaskId.queue = q
  head : A.task x.headTaskId

/-- What a row must say for a call that follows it to stay in the area. -/
def Proper (A : Area) : (a : Address) → a.Value → Prop
  | .task id, (t : Task) => t.id = id
  | .thread k, (x : Thread) => A.Leads k.queue x
  | .member k i, _ => A.task (k.queue.task i.taskId)
  | _, _ => True

/-- The area has all that the life of one task may touch. -/
structure Covers (A : Area) (t : Task) : Prop where
  task : A.task t.id
  dedupeKey : t.dedupeKey ≠ [] → A.dedupeKey t.dedupe
  thread : t.threadId ≠ [] → A.thread t.threadKey
  counter : A.counter t.id.queue ∨ A.tally t.id.queue

/-- The area has all that a call on one queue may touch, its cursors apart. -/
structure Spans (A : Area) (q : QueueId) : Prop where
  task : ∀ id, id.queue = q → A.task id
  dedupeKey : ∀ k, k.queue = q → A.dedupeKey k
  thread : ∀ k, k.queue = q → A.thread k
  counter : A.counter q

theorem Spans.covers {A : Area} {q : QueueId} {t : Task} (h : A.Spans q) (ht : t.id.queue = q) :
    A.Covers t where
  task := h.task _ ht
  dedupeKey _ := h.dedupeKey _ ht
  thread _ := h.thread _ ht
  counter := Or.inl (ht.symm ▸ h.counter)

end Area

/-- A computation that started in s₀ is in s, and the same one on another store is in
u: the two agree on the area, and the rest of s is as it was. -/
structure Alike (A : Area) (s₀ s u : State) : Prop where
  same : ∀ a, A.Owns a → s.value a = u.value a
  frame : ∀ a, ¬A.Owns a → ¬A.Tallies a → s.value a = s₀.value a
  proper : ∀ a v, A.Owns a → s.value a = some v → A.Proper a v

namespace Alike

variable {A : Area} {s₀ s u : State} {t : Task}

section Writes

theorem write {s' u' : State} {a : Address} {v : Option a.Value} (h : Alike A s₀ s u)
    (hs : Wrote a v s s') (hu : Wrote a v u u') (ha : A.Owns a)
    (hv : ∀ x, v = some x → A.Proper a x) : Alike A s₀ s' u' where
  same b hb := by
    by_cases hba : b = a
    · subst hba
      rw [hs.here, hu.here]
    · rw [hs.there b hba, hu.there b hba]
      exact h.same b hb
  frame b hb ht := by
    have hba : b ≠ a := by
      intro he
      subst he
      exact hb ha
    rw [hs.there b hba]
    exact h.frame b hb ht
  proper b x hb hx := by
    by_cases hba : b = a
    · subst hba
      rw [hs.here] at hx
      exact hv x hx
    · rw [hs.there b hba] at hx
      exact h.proper b x hb hx

theorem put {s' u' : State} {a : Address} {x : a.Value} (h : Alike A s₀ s u)
    (hs : Wrote a (some x) s s') (hu : Wrote a (some x) u u') (ha : A.Owns a)
    (hx : A.Proper a x) : Alike A s₀ s' u' :=
  h.write hs hu ha (fun _ hy => Option.some.inj hy ▸ hx)

theorem drop {s' u' : State} {a : Address} (h : Alike A s₀ s u) (hs : Wrote a none s s')
    (hu : Wrote a none u u') (ha : A.Owns a) : Alike A s₀ s' u' :=
  h.write hs hu ha (fun _ hy => nomatch hy)

theorem setTask (h : Alike A s₀ s u) (ht : A.task t.id) :
    Alike A s₀ (s.setTask t) (u.setTask t) :=
  h.put (.setTask t) (.setTask t) ht rfl

theorem deleteRow {id : TaskId} (h : Alike A s₀ s u) (hid : A.task id) :
    Alike A s₀ (s.deleteRow id) (u.deleteRow id) :=
  h.drop (.deleteTask id) (.deleteTask id) hid

theorem addQueued {q : QueueId} {i : IndexItem} (h : Alike A s₀ s u)
    (hi : A.task (q.task i.taskId)) :
    Alike A s₀ { s with queueIndex := s.queueIndex.add q i }
      { u with queueIndex := u.queueIndex.add q i } :=
  h.put (.addQueued q i) (.addQueued q i) hi trivial

theorem removeQueued {q : QueueId} {i : IndexItem} (h : Alike A s₀ s u)
    (hi : A.task (q.task i.taskId)) :
    Alike A s₀ { s with queueIndex := s.queueIndex.remove q i }
      { u with queueIndex := u.queueIndex.remove q i } :=
  h.drop (.removeQueued q i) (.removeQueued q i) hi

theorem addInProgress (h : Alike A s₀ s u) (ht : A.task t.id) :
    Alike A s₀ (s.addInProgress t) (u.addInProgress t) :=
  h.put (.addInProgress t.id.queue t.inProgressIndexItem)
    (.addInProgress t.id.queue t.inProgressIndexItem) ht trivial

theorem removeInProgress (h : Alike A s₀ s u) (ht : A.task t.id) :
    Alike A s₀ (s.removeInProgress t) (u.removeInProgress t) :=
  h.drop (.removeInProgress t.id.queue t.inProgressIndexItem)
    (.removeInProgress t.id.queue t.inProgressIndexItem) ht

theorem addDead (h : Alike A s₀ s u) (ht : A.task t.id) :
    Alike A s₀ (s.addDead t) (u.addDead t) :=
  h.put (.addDead t.id.queue t.deadTasksIndexItem) (.addDead t.id.queue t.deadTasksIndexItem) ht
    trivial

theorem removeDead (h : Alike A s₀ s u) (ht : A.task t.id) :
    Alike A s₀ (s.removeDead t) (u.removeDead t) :=
  h.drop (.removeDead t.id.queue t.deadTasksIndexItem)
    (.removeDead t.id.queue t.deadTasksIndexItem) ht

theorem addExpiration (h : Alike A s₀ s u) (ht : A.task t.id) :
    Alike A s₀ (s.addExpiration t) (u.addExpiration t) :=
  h.put (.addExpiration t.expirationItem) (.addExpiration t.expirationItem) ht trivial

theorem removeExpiration (h : Alike A s₀ s u) (ht : A.task t.id) :
    Alike A s₀ (s.removeExpiration t) (u.removeExpiration t) :=
  h.drop (.removeExpiration t.expirationItem) (.removeExpiration t.expirationItem) ht

theorem setThread {q : QueueId} {thread : Thread} (h : Alike A s₀ s u) (hx : A.Leads q thread) :
    Alike A s₀ (s.setThread q thread) (u.setThread q thread) :=
  h.put (.setThread q thread) (.setThread q thread) hx.thread hx

theorem deleteThread {k : ThreadKey} (h : Alike A s₀ s u) (hk : A.thread k) :
    Alike A s₀ { s with threads := s.threads.delete k } { u with threads := u.threads.delete k } :=
  h.drop (.deleteThread k) (.deleteThread k) hk

theorem addMember {k : ThreadKey} {i : IndexItem} (h : Alike A s₀ s u) (hk : A.thread k)
    (hi : A.task (k.queue.task i.taskId)) :
    Alike A s₀ { s with threadedTasksIndex := s.threadedTasksIndex.add k i }
      { u with threadedTasksIndex := u.threadedTasksIndex.add k i } :=
  h.put (.addMember k i) (.addMember k i) hk hi

theorem removeMember {k : ThreadKey} (h : Alike A s₀ s u) (hk : A.thread k) (i : IndexItem) :
    Alike A s₀ { s with threadedTasksIndex := s.threadedTasksIndex.remove k i }
      { u with threadedTasksIndex := u.threadedTasksIndex.remove k i } :=
  h.drop (.removeMember k i) (.removeMember k i) hk

/-- A counter that is only tallied may be given two values. -/
theorem setCounter {q : QueueId} {c d : TasksCounter} (h : Alike A s₀ s u)
    (hq : A.counter q ∨ A.tally q) (hcd : A.counter q → c = d) :
    Alike A s₀ (s.setCounter q c) (u.setCounter q d) := by
  by_cases hc : A.counter q
  · obtain rfl := hcd hc
    exact h.put (.setCounter q c) (.setCounter q c) hc trivial
  · have hs : Wrote (.counter q) (some c) s (s.setCounter q c) := .setCounter q c
    have hu : Wrote (.counter q) (some d) u (u.setCounter q d) := .setCounter q d
    have hother : ∀ a, A.Owns a → a ≠ .counter q := by
      intro a ha he
      subst he
      exact hc ha
    constructor
    · intro a ha
      have hne := hother a ha
      rw [hs.there a hne, hu.there a hne]
      exact h.same a ha
    · intro a ha ht
      rw [hs.there a ?_]
      swap
      · intro he
        subst he
        exact ht (hq.resolve_left hc)
      exact h.frame a ha ht
    · intro a v ha hv
      rw [hs.there a (hother a ha)] at hv
      exact h.proper a v ha hv

theorem claimDedupeKey (h : Alike A s₀ s u) (ht : A.Covers t) :
    Alike A s₀ (s.claimDedupeKey t) (u.claimDedupeKey t) := by
  unfold State.claimDedupeKey
  split_ifs with hkey
  · exact h
  · exact h.put (.setDedupeKey t.dedupe t.id.taskId) (.setDedupeKey t.dedupe t.id.taskId)
      (ht.dedupeKey hkey) trivial

theorem releaseDedupeKey (h : Alike A s₀ s u) (ht : A.Covers t) :
    Alike A s₀ (s.releaseDedupeKey t) (u.releaseDedupeKey t) := by
  unfold State.releaseDedupeKey
  split_ifs with hkey
  · exact h
  · exact h.drop (.deleteDedupeKey t.dedupe) (.deleteDedupeKey t.dedupe) (ht.dedupeKey hkey)

end Writes

section Reads

theorem task (h : Alike A s₀ s u) {id : TaskId} (hid : A.task id) :
    s.tasks.get id = u.tasks.get id := h.same (.task id) hid

theorem thread (h : Alike A s₀ s u) {k : ThreadKey} (hk : A.thread k) :
    s.threads.get k = u.threads.get k := h.same (.thread k) hk

theorem getTask (h : Alike A s₀ s u) {id : TaskId} (hid : A.task id) :
    s.getTask id = u.getTask id := by
  unfold State.getTask
  rw [h.task hid]

theorem getThread (h : Alike A s₀ s u) {k : ThreadKey} (hk : A.thread k) :
    s.getThread k = u.getThread k := by
  unfold State.getThread
  rw [h.thread hk]

theorem getCounter (h : Alike A s₀ s u) {q : QueueId} (hq : A.counter q) :
    s.getCounter q = u.getCounter q :=
  congrArg (fun c : Option TasksCounter => c.getD .zero) (h.same (.counter q) hq)

theorem deadItems (h : Alike A s₀ s u) {q : QueueId} (hq : A.Spans q) :
    s.deadTasksIndex.items q = u.deadTasksIndex.items q :=
  Index.items_ext (fun i => presence_inj (h.same (.dead q i) (hq.task _ rfl)))

theorem members (h : Alike A s₀ s u) {k : ThreadKey} (hk : A.thread k) :
    s.threadedTasksIndex.items k = u.threadedTasksIndex.items k :=
  Index.items_ext (fun i => presence_inj (h.same (.member k i) hk))

/-- A row of the area is stored under its own id. -/
theorem id_of_get (h : Alike A s₀ s u) {id : TaskId} (hid : A.task id)
    (row : u.tasks.get id = some t) : t.id = id :=
  h.proper (.task id) t hid ((h.task hid).trans row)

theorem id_of_getTask (h : Alike A s₀ s u) {id : TaskId} (hid : A.task id)
    (ht : u.getTask id = .ok t) : t.id = id :=
  h.id_of_get hid (State.getTask_eq_ok.mp ht)

theorem leads_of_getThread (h : Alike A s₀ s u) {k : ThreadKey} (hk : A.thread k) {thread : Thread}
    (ht : u.getThread k = .ok thread) : A.Leads k.queue thread :=
  h.proper (.thread k) thread hk ((h.thread hk).trans (State.getThread_eq_ok.mp ht))

theorem member_task (h : Alike A s₀ s u) {k : ThreadKey} (hk : A.thread k) {i : IndexItem}
    (hi : i ∈ u.threadedTasksIndex.items k) : A.task (k.queue.task i.taskId) := by
  rw [← h.members hk] at hi
  exact h.proper (.member k i) () hk (presence_pos hi)

end Reads

section Threads

variable {q : QueueId} {thread : Thread}

theorem firstMember (h : Alike A s₀ s u) (hk : A.thread ⟨q, thread.threadId⟩)
    (err : Bytes → Nat → CoreError) :
    firstMember s q thread err = firstMember u q thread err := by
  unfold Moab.firstMember
  rw [h.members hk]
  cases hitems : u.threadedTasksIndex.items ⟨q, thread.threadId⟩ with
  | nil => rfl
  | cons i rest =>
    dsimp only
    rw [h.task (h.member_task hk (hitems ▸ List.mem_cons_self))]

theorem task_of_firstMember (h : Alike A s₀ s u) (hk : A.thread ⟨q, thread.threadId⟩)
    {err : Bytes → Nat → CoreError} (ht : Moab.firstMember u q thread err = .ok (some t)) :
    A.task t.id ∧ t.id.queue = q := by
  unfold Moab.firstMember at ht
  split at ht
  · exact absurd ht (by simp)
  · next i rest hitems =>
    have hi := h.member_task hk (hitems ▸ List.mem_cons_self)
    split at ht
    · next row =>
      obtain rfl := Option.some.inj (Except.ok.inj ht)
      have hid := h.id_of_get hi row
      rw [hid]
      exact ⟨hi, rfl⟩
    · exact absurd ht (by simp)

theorem getCurrentHead (h : Alike A s₀ s u) (hhead : A.task thread.headTaskId) :
    getCurrentHead s thread = getCurrentHead u thread := by
  unfold Moab.getCurrentHead
  rw [h.task hhead]

theorem id_of_getCurrentHead (h : Alike A s₀ s u) (hhead : A.task thread.headTaskId)
    (ht : Moab.getCurrentHead u thread = .ok t) : t.id = thread.headTaskId := by
  unfold Moab.getCurrentHead at ht
  split at ht
  · next row =>
    obtain rfl := Except.ok.inj ht
    exact h.id_of_get hhead row
  · exact absurd ht (by simp)

theorem rescheduleHead (h : Alike A s₀ s u) (hx : A.Leads q thread) {currentHead : Task}
    (hcurrent : A.task (q.task currentHead.id.taskId)) (earliest : Task) :
    Alike A s₀ (rescheduleHead s q thread currentHead earliest)
      (rescheduleHead u q thread currentHead earliest) := by
  have hleads : A.Leads q { thread with scheduledAt := earliest.scheduledAt } :=
    ⟨hx.thread, hx.queue, hx.head⟩
  unfold Moab.rescheduleHead
  dsimp only
  split_ifs
  · exact ((h.removeQueued hcurrent).addQueued hcurrent).setThread hleads
  · exact h.setThread hleads

theorem replaceHead (h : Alike A s₀ s u) (hx : A.Leads q thread) {currentHead earliest : Task}
    (hcurrent : A.task (q.task currentHead.id.taskId)) (hearliest : A.task earliest.id)
    (hqueue : earliest.id.queue = q) :
    Alike A s₀ (replaceHead s q thread currentHead earliest)
      (replaceHead u q thread currentHead earliest) := by
  subst hqueue
  have hleads : A.Leads earliest.id.queue
      { thread with headTaskId := earliest.id, scheduledAt := earliest.scheduledAt } :=
    ⟨hx.thread, rfl, hearliest⟩
  exact ((h.removeQueued hcurrent).setThread hleads).addQueued hearliest

theorem reconcileThreadHead (h : Alike A s₀ s u) (hx : A.Leads q thread) :
    Related (Alike A s₀) (reconcileThreadHead s q thread) (reconcileThreadHead u q thread) := by
  refine .bind_same (h.firstMember hx.thread _) ?_
  intro earliest hearliest
  refine .bind_same (h.getCurrentHead hx.head) ?_
  intro currentHead hhead
  have hcurrent : A.task (q.task currentHead.id.taskId) := by
    rw [h.id_of_getCurrentHead hx.head hhead, ← hx.queue]
    exact hx.head
  cases earliest with
  | none => exact .error _
  | some earliest =>
    obtain ⟨htask, hqueue⟩ := h.task_of_firstMember hx.thread hearliest
    apply Related.ite
    · intro _
      exact .ite (fun _ => .ok h) (fun _ => .ok (h.rescheduleHead hx hcurrent earliest))
    · intro _
      exact .ite (fun _ => .ok h) (fun _ => .ok (h.replaceHead hx hcurrent htask hqueue))

theorem promoteNextThreadHead (h : Alike A s₀ s u) (hk : A.thread ⟨q, thread.threadId⟩) :
    Related (Alike A s₀) (promoteNextThreadHead s q thread) (promoteNextThreadHead u q thread) := by
  refine .bind_same (h.firstMember hk _) ?_
  intro nextHead hnext
  cases nextHead with
  | none => exact .ok (h.deleteThread hk)
  | some nextHead =>
    obtain ⟨htask, hqueue⟩ := h.task_of_firstMember hk hnext
    subst hqueue
    have hleads : A.Leads nextHead.id.queue { thread with
        visibleAt := 0, headTaskId := nextHead.id, scheduledAt := nextHead.scheduledAt } :=
      ⟨hk, rfl, htask⟩
    exact .ok ((h.setThread hleads).addQueued htask)

theorem attachTaskToThread (h : Alike A s₀ s u) (ht : A.task t.id) (hk : A.thread t.threadKey) :
    Related (Alike A s₀) (attachTaskToThread s t) (attachTaskToThread u t) := by
  have hadd := h.addMember (k := t.threadKey) (i := t.queueIndexItem) hk ht
  have hrow := hadd.thread hk
  unfold Moab.attachTaskToThread
  dsimp only at hrow ⊢
  rw [hrow]
  cases hget : u.threads.get t.threadKey with
  | none =>
    have hleads : A.Leads t.id.queue ⟨t.threadId, t.id, t.scheduledAt, 0⟩ := ⟨hk, rfl, ht⟩
    exact .ok ((hadd.setThread hleads).addQueued ht)
  | some thread =>
    exact hadd.reconcileThreadHead (hadd.proper (.thread t.threadKey) _ hk (hrow.trans hget))

theorem detachTaskFromThread (h : Alike A s₀ s u) (hk : A.thread t.threadKey) :
    Related (Alike A s₀) (detachTaskFromThread s t) (detachTaskFromThread u t) := by
  have hremove := h.removeMember hk t.queueIndexItem
  refine .bind_same (hremove.getThread hk) ?_
  intro thread hthread
  have hleads := hremove.leads_of_getThread hk hthread
  exact .ite (fun _ => .ok hremove) (fun _ => hremove.promoteNextThreadHead hleads.thread)

theorem rescheduleTaskInThread (h : Alike A s₀ s u) (ht : A.task t.id) (hk : A.thread t.threadKey)
    (oldScheduledAt : Time) :
    Related (Alike A s₀) (rescheduleTaskInThread s t oldScheduledAt)
      (rescheduleTaskInThread u t oldScheduledAt) := by
  have hmove := (h.removeMember hk ⟨oldScheduledAt, t.id.taskId⟩).addMember
    (k := t.threadKey) (i := t.queueIndexItem) hk ht
  refine .bind_same (hmove.getThread hk) ?_
  intro thread hthread
  exact hmove.reconcileThreadHead (hmove.leads_of_getThread hk hthread)

end Threads

section Lifecycle

variable {now : Time}

theorem joinQueue (h : Alike A s₀ s u) (ht : A.Covers t) :
    Related (Alike A s₀) (joinQueue s t) (joinQueue u t) :=
  .ite (fun _ => .ok (h.addQueued ht.task))
    (fun threaded => h.attachTaskToThread ht.task (ht.thread threaded))

theorem updateCounter (h : Alike A s₀ s u) {q : QueueId} (hq : A.counter q ∨ A.tally q)
    (f : TasksCounter → TasksCounter) :
    Alike A s₀ (s.updateCounter q f) (u.updateCounter q f) :=
  h.setCounter hq (fun hc => congrArg f (h.getCounter hc))

theorem createTask (h : Alike A s₀ s u) (ht : A.Covers t) :
    Related (Alike A s₀) (createTask s t) (createTask u t) := by
  refine (((h.setTask ht.task).claimDedupeKey ht).joinQueue ht).bind ?_
  intro s' u' h'
  exact .ok ((h'.addExpiration ht.task).updateCounter ht.counter _)

theorem leaveThread (h : Alike A s₀ s u) (ht : A.Covers t) :
    Related (Alike A s₀) (leaveThread s t) (leaveThread u t) :=
  .ite (fun _ => .ok h) (fun threaded => h.detachTaskFromThread (ht.thread threaded))

theorem removeFromState (h : Alike A s₀ s u) (ht : A.Covers t) (c d : TasksCounter) :
    Related (fun a b => Alike A s₀ a.1 b.1 ∧ (c = d → a.2 = b.2)) (removeFromState s t c)
      (removeFromState u t d) := by
  unfold Moab.removeFromState
  cases t.state with
  | invalid => exact .ok ⟨h, id⟩
  | dead => exact .ok ⟨h.removeDead ht.task, congrArg (TasksCounter.addDead · (-1))⟩
  | enqueued =>
    have hremove : Alike A s₀ (s.removeQueued t) (u.removeQueued t) := h.removeQueued ht.task
    refine ((hremove.releaseDedupeKey ht).leaveThread ht).bind ?_
    exact fun _ _ h' => .ok ⟨h', congrArg (TasksCounter.addEnqueued · (-1))⟩
  | inProgress =>
    refine (((h.removeInProgress ht.task).releaseDedupeKey ht).leaveThread ht).bind ?_
    exact fun _ _ h' => .ok ⟨h', congrArg (TasksCounter.addInProgress · (-1))⟩

theorem deleteTask (h : Alike A s₀ s u) (ht : A.Covers t) (reason : TaskDeletionReason) :
    Related (Alike A s₀) (deleteTask s t reason) (deleteTask u t reason) := by
  refine (h.removeFromState ht _ _).bind ?_
  intro a b hab
  obtain ⟨h', hcounter⟩ := hab
  refine .ok (((h'.removeExpiration ht.task).deleteRow ht.task).setCounter ht.counter ?_)
  intro hc
  exact hcounter (by rw [h.getCounter hc])

theorem renewThread (h : Alike A s₀ s u) (ht : A.Covers t) :
    Related (Alike A s₀) (renewThread s t) (renewThread u t) := by
  apply Related.ite
  · exact fun _ => .ok h
  · intro threaded
    have hk := ht.thread threaded
    refine .bind_same (h.getThread hk) ?_
    intro thread hthread
    have hx := h.leads_of_getThread hk hthread
    have hleads : A.Leads t.id.queue { thread with visibleAt := t.visibleAt } :=
      ⟨hx.thread, hx.queue, hx.head⟩
    exact .ite (fun _ => .error _) (fun _ => .ok (h.setThread hleads))

theorem heartbeatTask (h : Alike A s₀ s u) (ht : A.Covers t) (keepalive : Time) :
    Related (Alike A s₀) (heartbeatTask s t now keepalive) (heartbeatTask u t now keepalive) := by
  have ht' : A.Covers { t with visibleAt := plusSeconds now keepalive } :=
    ⟨ht.task, ht.dedupeKey, ht.thread, ht.counter⟩
  refine (((h.removeInProgress ht.task).setTask ht'.task).renewThread ht').bind ?_
  intro s' u' h'
  exact .ok (h'.addInProgress ht'.task)

theorem moveToDead (h : Alike A s₀ s u) (ht : A.Covers t) (dlq : DeadLetterQueueConfig) :
    Related (Alike A s₀) (moveToDead s t now dlq) (moveToDead u t now dlq) := by
  have ht' : A.Covers (t.die now dlq) := ⟨ht.task, ht.dedupeKey, ht.thread, ht.counter⟩
  have hrow := (((h.removeInProgress ht.task).setTask ht'.task).addExpiration
    ht'.task).releaseDedupeKey ht'
  refine (hrow.leaveThread ht').bind ?_
  intro s' u' h'
  exact .ok ((h'.addDead ht'.task).updateCounter ht'.counter _)

theorem evictExcessDeadTasks (h : Alike A s₀ s u) {q : QueueId} (hq : A.Spans q)
    (maxSize deadTasksCount : Int) :
    Related (Alike A s₀) (evictExcessDeadTasks s q maxSize deadTasksCount)
      (evictExcessDeadTasks u q maxSize deadTasksCount) := by
  apply Related.ite
  · exact fun _ => .ok h
  · intro _
    rw [h.deadItems hq]
    refine .bind_same (mapM_congr (fun _ _ => h.getTask (hq.task _ rfl))) ?_
    intro oldest holdest
    refine .foldlM ?_ h
    intro t ht s' u' h'
    obtain ⟨i, _, hi⟩ := exists_of_mem_right (forall₂_of_mapM_ok holdest) ht
    have hid := h.id_of_getTask (hq.task _ rfl) hi
    exact h'.deleteTask (hq.covers (congrArg TaskId.queue hid)) .none

theorem failTaskToDead (h : Alike A s₀ s u) (hq : A.Spans t.id.queue)
    (dlqConfig : Option DeadLetterQueueConfig) :
    Related (Alike A s₀) (failTaskToDead s t now dlqConfig) (failTaskToDead u t now dlqConfig) := by
  have ht := hq.covers (t := t) rfl
  cases dlqConfig with
  | none => exact h.deleteTask ht .none
  | some dlq =>
    apply Related.ite
    · exact fun _ => h.deleteTask ht .none
    · intro _
      refine (h.moveToDead ht dlq).bind ?_
      intro s' u' h'
      rw [h'.getCounter hq.counter]
      exact h'.evictExcessDeadTasks hq _ _

theorem rejoinThread (h : Alike A s₀ s u) (ht : A.task t.id) (hk : A.thread t.threadKey)
    (oldScheduledAt : Time) :
    Related (Alike A s₀) (rejoinThread s t oldScheduledAt) (rejoinThread u t oldScheduledAt) := by
  refine (h.rescheduleTaskInThread ht hk oldScheduledAt).bind ?_
  intro s' u' h'
  refine .bind_same (h'.getThread hk) ?_
  intro thread hthread
  have hx := h'.leads_of_getThread hk hthread
  have hleads : A.Leads t.id.queue { thread with visibleAt := 0 } :=
    ⟨hx.thread, hx.queue, hx.head⟩
  exact .ok (h'.setThread hleads)

theorem rejoinQueue (h : Alike A s₀ s u) (ht : A.Covers t) (oldScheduledAt : Time) :
    Related (Alike A s₀) (rejoinQueue s t oldScheduledAt) (rejoinQueue u t oldScheduledAt) :=
  .ite (fun _ => .ok (h.addQueued ht.task))
    (fun threaded => h.rejoinThread ht.task (ht.thread threaded) oldScheduledAt)

theorem failTaskToRetry (h : Alike A s₀ s u) (ht : A.Covers t) :
    Related (Alike A s₀) (failTaskToRetry s t now) (failTaskToRetry u t now) := by
  refine .bind_same rfl ?_
  intro interval _
  have ht' : A.Covers (t.retry now interval) := ⟨ht.task, ht.dedupeKey, ht.thread, ht.counter⟩
  have hrow := ((h.removeInProgress ht.task).setTask ht'.task).addExpiration ht'.task
  refine (hrow.rejoinQueue ht' t.scheduledAt).bind ?_
  intro s' u' h'
  exact .ok (h'.updateCounter ht'.counter _)

theorem handleTaskFailure (h : Alike A s₀ s u) (hq : A.Spans t.id.queue)
    (dlqConfig : Option DeadLetterQueueConfig) :
    Related (Alike A s₀) (handleTaskFailure s t now dlqConfig)
      (handleTaskFailure u t now dlqConfig) := by
  have ht := hq.covers (t := t) rfl
  apply Related.ite
  · exact fun _ => h.deleteTask ht .expired
  · exact fun _ => .ite (fun _ => h.failTaskToDead hq dlqConfig) (fun _ => h.failTaskToRetry ht)

theorem restartTask (h : Alike A s₀ s u) (ht : A.Covers t) (scheduledAt expiresAt : Time) :
    Related (fun a b => Alike A s₀ a.1 b.1 ∧ a.2 = b.2) (restartTask s t now scheduledAt expiresAt)
      (restartTask u t now scheduledAt expiresAt) := by
  have ht' : A.Covers (t.restart now scheduledAt expiresAt) :=
    ⟨ht.task, ht.dedupeKey, ht.thread, ht.counter⟩
  have hleft := ((h.removeDead ht.task).removeExpiration ht.task).updateCounter ht.counter
    (·.addDead (-1))
  refine (hleft.createTask ht').bind ?_
  intro s' u' h'
  exact .ok ⟨h', rfl⟩

end Lifecycle

end Alike

end Moab
