import Moab.Tasks.Exec
import Moab.Tasks.StrandSteps

namespace Moab

open OrderedStore

variable [OrderedStore]

/-- Every thread record is filed under its thread id. -/
def RecordsKeyed (s : State) : Prop :=
  ∀ k thread, s.threads.get k = some thread → thread.threadId = k.threadId

/-- The threads are whole, in whatever order their members are: more than one of
them may wait in the queue index. -/
structure Intact (s : State) : Prop where
  records : RecordsKeyed s
  whole : ∀ k, k.threadId ≠ [] → (s.strand k).Whole
  timed : ∀ k, k.threadId ≠ [] → (s.strand k).Timed

variable {s s' : State} {t u : Task} {k : ThreadKey} {thread : Thread} {q : QueueId} {now : Time}

section Records

theorem RecordsKeyed.setThread (h : RecordsKeyed s) (q : QueueId) (thread : Thread) :
    RecordsKeyed (s.setThread q thread) := by
  intro k x hk
  change (s.threads.set ⟨q, thread.threadId⟩ thread).get k = some x at hk
  rw [Table.get_set] at hk
  split_ifs at hk with he
  · rw [← Option.some.inj hk, he]
  · exact h k x hk

theorem reconcileThreadHead_keyed (h : RecordsKeyed s) :
    Ensures True (reconcileThreadHead s q thread) RecordsKeyed := by
  apply Ensures.bind_any
  intro earliest
  apply Ensures.bind_any
  intro currentHead
  cases earliest with
  | none => exact Ensures.error trivial
  | some earliest =>
    have hsame : RecordsKeyed (s.setThread q { thread with scheduledAt := earliest.scheduledAt }) :=
      h.setThread q _
    have hother : RecordsKeyed (s.setThread q { thread with
        headTaskId := earliest.id, scheduledAt := earliest.scheduledAt }) := h.setThread q _
    apply Ensures.ite
    · intro _
      apply Ensures.ite
      · exact fun _ => Ensures.ok h
      · intro _
        apply Ensures.ok
        unfold rescheduleHead
        split_ifs
        · exact hsame
        · exact hsame
    · intro _
      apply Ensures.ite
      · exact fun _ => Ensures.ok h
      · exact fun _ => Ensures.ok hother

theorem attachTaskToThread_keyed (h : RecordsKeyed s) :
    Ensures True (attachTaskToThread s t) RecordsKeyed := by
  unfold attachTaskToThread
  dsimp only
  cases hk : s.threads.get t.threadKey with
  | none => exact Ensures.ok (h.setThread t.id.queue ⟨t.threadId, t.id, t.scheduledAt, 0⟩)
  | some thread => exact reconcileThreadHead_keyed h

theorem rescheduleTaskInThread_keyed (h : RecordsKeyed s) (oldScheduledAt : Time) :
    Ensures True (rescheduleTaskInThread s t oldScheduledAt) RecordsKeyed := by
  apply Ensures.bind_any
  intro thread
  exact reconcileThreadHead_keyed h

theorem createTask_keyed (h : RecordsKeyed s) : Ensures True (createTask s t) RecordsKeyed := by
  have hsame : RecordsKeyed ((s.setTask t).claimDedupeKey t) := by
    intro k thread hk
    rw [(claimDedupeKey_same (s.setTask t) t).threads] at hk
    exact h k thread hk
  have hjoin : Ensures True (joinQueue ((s.setTask t).claimDedupeKey t) t) RecordsKeyed := by
    apply Ensures.ite
    · exact fun _ => Ensures.ok hsame
    · exact fun _ => attachTaskToThread_keyed hsame
  exact hjoin.bind (fun s' hs' => Ensures.ok hs')

end Records

section Enqueue

theorem Intact.same (h : Intact s) (e : SameHeads s s') : Intact s' := by
  refine ⟨?_, fun k hk => ?_, fun k hk => ?_⟩
  · intro k thread hk
    rw [e.threads] at hk
    exact h.records k thread hk
  · rw [e.strand]
    exact h.whole k hk
  · rw [e.strand]
    exact h.timed k hk

/-- What is left to show once a change touches one thread. -/
theorem Intact.local (h : Intact s) (hl : Local k s s') (hr : RecordsKeyed s')
    (hk : k.threadId ≠ [] → (s'.strand k).Whole ∧ (s'.strand k).Timed) : Intact s' := by
  refine ⟨hr, fun j hj => ?_, fun j hj => ?_⟩
  · by_cases he : j = k
    · subst he
      exact (hk hj).1
    · rw [hl j he]
      exact h.whole j hj
  · by_cases he : j = k
    · subst he
      exact (hk hj).2
    · rw [hl j he]
      exact h.timed j hj

theorem createTask_intact (key : ∀ id u, s.tasks.get id = some u → u.id = id) (h : Intact s)
    (hold : ∀ u, s.tasks.get t.id = some u → ¬u.live) (live : t.live) :
    Ensures False (createTask s t) Intact := by
  have hstrands := createTask_strands key (h.records t.threadKey) (h.timed t.threadKey) hold live
    (h.whole t.threadKey)
  refine (hstrands.both (createTask_keyed h.records)).mono ?_
  intro s' hs'
  obtain ⟨⟨hlocal, hstrand⟩, hrecords⟩ := hs'
  exact h.local hlocal hrecords (fun hne => ⟨(hstrand hne).1, (hstrand hne).2.2⟩)

/-- What the index and the record of a thread repeat of a row. -/
def Task.face (t : Task) : TaskId × Time := (t.id, t.scheduledAt)

section Alike

variable {x y : Strand}

omit [OrderedStore] in
theorem Strand.alike_row (hrow : ∀ n, (y.row n).map Task.face = (x.row n).map Task.face) {n : Nat}
    (hu : y.row n = some u) :
    ∃ v, x.row n = some v ∧ v.id = u.id ∧ v.scheduledAt = u.scheduledAt := by
  have hn := (hrow n).symm
  rw [hu, Option.map_some, Option.map_eq_some_iff] at hn
  obtain ⟨v, hv, hface⟩ := hn
  exact ⟨v, hv, congrArg Prod.fst hface, congrArg Prod.snd hface⟩

omit [OrderedStore] in
/-- The rest of a row does not matter to its thread, as long as a head that waits is
in the queue index. -/
theorem Strand.Whole.alike (h : x.Whole) (hrecord : y.record = x.record)
    (hmembers : y.members = x.members)
    (hrow : ∀ n, (y.row n).map Task.face = (x.row n).map Task.face)
    (hqueued : ∀ thread u, y.record = some thread → y.row thread.headTaskId.taskId = some u →
      u.state = .enqueued → y.queued u.queueIndexItem) : y.Whole := by
  have hback : ∀ n v, x.row n = some v → ∃ u, y.row n = some u ∧ u.id = v.id ∧
      u.scheduledAt = v.scheduledAt := fun n v hv => alike_row (fun m => (hrow m).symm) hv
  refine ⟨?_, ?_, ?_, hqueued⟩
  · intro i
    rw [hmembers, h.member]
    constructor
    · intro hi
      obtain ⟨v, hv, hvt⟩ := hi
      obtain ⟨u, hu, _, htime⟩ := hback _ v hv
      exact ⟨u, hu, htime.trans hvt⟩
    · intro hi
      obtain ⟨u, hu, hut⟩ := hi
      obtain ⟨v, hv, _, htime⟩ := alike_row hrow hu
      exact ⟨v, hv, htime.trans hut⟩
  · rw [hrecord, h.recorded]
    constructor
    · intro hn
      obtain ⟨n, v, hv⟩ := hn
      obtain ⟨u, hu, _⟩ := hback _ v hv
      exact ⟨n, u, hu⟩
    · intro hn
      obtain ⟨n, u, hu⟩ := hn
      obtain ⟨v, hv, _⟩ := alike_row hrow hu
      exact ⟨n, v, hv⟩
  · intro thread hr
    rw [hrecord] at hr
    obtain ⟨v, hv, hvid⟩ := h.head thread hr
    obtain ⟨u, hu, hid, _⟩ := hback _ v hv
    exact ⟨u, hu, hid.trans hvid⟩

omit [OrderedStore] in
theorem Strand.Timed.alike (h : x.Timed) (hrecord : y.record = x.record)
    (hrow : ∀ n, (y.row n).map Task.face = (x.row n).map Task.face) : y.Timed := by
  intro thread u hr hu
  rw [hrecord] at hr
  obtain ⟨v, hv, _, htime⟩ := alike_row hrow hu
  exact (h thread v hr hv).trans htime

end Alike

/-- The stored row u of a task t that is being overwritten. A new time of a threaded
task is stored at once, the rest later. -/
structure InHand (s : State) (t u : Task) : Prop where
  row : s.tasks.get t.id = some u
  id : u.id = t.id
  stored : u.state = .enqueued
  state : t.state = .enqueued
  thread : u.threadId = t.threadId
  time : t.threadId ≠ [] → u.scheduledAt = t.scheduledAt

theorem InHand.key (h : InHand s t u) : u.threadKey = t.threadKey := by
  rw [Task.threadKey, h.id, h.thread, Task.threadKey]

theorem InHand.locally (h : InHand s t u) : Local t.threadKey s (s.setTask t) := by
  refine Local.setTask ?_ ?_
  · intro v hv _
    rw [← Option.some.inj (h.row.symm.trans hv)]
    exact h.key
  · intro v hv
    rw [← Option.some.inj (h.row.symm.trans hv)]
    exact h.id

theorem liveRow_setTask_ne {n : Nat} (hn : n ≠ t.id.taskId) :
    (s.setTask t).liveRow t.threadKey n = s.liveRow t.threadKey n := by
  have hget : (s.setTask t).tasks.get (t.threadKey.queue.task n) =
      s.tasks.get (t.threadKey.queue.task n) :=
    Table.get_set_ne _ _ (fun he => hn (congrArg TaskId.taskId he))
  rw [State.liveRow, State.liveRow, hget]

/-- A member is written that looks the same to its thread. -/
theorem liveRow_setTask_face (row : s.tasks.get t.id = some u) (liveu : u.live) (live : t.live)
    (hth : u.threadId = t.threadId) (hface : t.face = u.face) (n : Nat) :
    ((s.setTask t).liveRow t.threadKey n).map Task.face =
    (s.liveRow t.threadKey n).map Task.face := by
  by_cases hn : n = t.id.taskId
  · have hold : s.liveRow t.threadKey t.id.taskId = some u := liveRow_eq_some.mpr ⟨row, liveu, hth⟩
    have hnew : (s.setTask t).liveRow t.threadKey t.id.taskId = some t :=
      liveRow_eq_some.mpr ⟨Table.get_set_self .., live, rfl⟩
    rw [hn, hold, hnew, Option.map_some, Option.map_some, hface]
  · rw [liveRow_setTask_ne hn]

theorem setTask_intact (h : Intact s) (hu : InHand s t u) : Intact (s.setTask t) := by
  refine h.local hu.locally h.records (fun hne => ?_)
  have hself : s.liveRow t.threadKey t.id.taskId = some u :=
    liveRow_eq_some.mpr ⟨hu.row, by simp [Task.live, hu.stored], hu.thread⟩
  have hface : t.face = u.face := by
    rw [Task.face, Task.face, hu.id, hu.time hne]
  have hrow := liveRow_setTask_face hu.row (by simp [Task.live, hu.stored])
    (by simp [Task.live, hu.state]) hu.thread hface
  refine ⟨(h.whole _ hne).alike rfl rfl hrow ?_, (h.timed _ hne).alike rfl hrow⟩
  intro thread v hr hv hst
  obtain ⟨w, hw, hwid, hwtime⟩ := Strand.alike_row (x := s.strand t.threadKey) hrow hv
  have hwait : w.state = .enqueued := by
    by_cases hn : thread.headTaskId.taskId = t.id.taskId
    · have hw' : s.liveRow t.threadKey thread.headTaskId.taskId = some w := hw
      rw [hn, hself] at hw'
      rw [← Option.some.inj hw']
      exact hu.stored
    · have hw' : (s.setTask t).liveRow t.threadKey thread.headTaskId.taskId = some w := by
        rw [liveRow_setTask_ne hn]
        exact hw
      rw [← Option.some.inj (hv.symm.trans hw')]
      exact hst
  have hqueued := (h.whole _ hne).queued thread w hr hw hwait
  have hitem : v.queueIndexItem = w.queueIndexItem := by
    rw [Task.queueIndexItem, ← hwid, ← hwtime, Task.queueIndexItem]
  rw [hitem]
  refine ⟨hqueued.1, fun hnone => hqueued.2 ?_⟩
  have hmap := hrow w.queueIndexItem.taskId
  rw [hnone] at hmap
  exact Option.map_eq_none_iff.mp hmap.symm

/-- A member of a thread gets another time. -/
theorem rescheduleTaskInThread_intact {scheduledAt : Time}
    (key : ∀ id u, s.tasks.get id = some u → u.id = id) (h : Intact s) (hu : InHand s t u)
    (threaded : t.threadId ≠ []) :
    Ensures False (rescheduleTaskInThread (s.setTask { t with scheduledAt := scheduledAt })
      { t with scheduledAt := scheduledAt } t.scheduledAt) (fun s' =>
        Intact s' ∧ s'.tasks = (s.setTask { t with scheduledAt := scheduledAt }).tasks) := by
  have hid : ({ t with scheduledAt := scheduledAt } : Task).id = t.id := rfl
  have hth : ({ t with scheduledAt := scheduledAt } : Task).threadId = t.threadId := rfl
  have hst : ({ t with scheduledAt := scheduledAt } : Task).state = .enqueued := hu.state
  generalize ({ t with scheduledAt := scheduledAt } : Task) = t' at hid hth hst ⊢
  have hkey' : t'.threadKey = t.threadKey := by rw [Task.threadKey, hid, hth, Task.threadKey]
  have live' : t'.live := by simp [Task.live, hst]
  have row' : (s.setTask t').tasks.get t'.id = some t' := Table.get_set_self ..
  have rowu : s.tasks.get u.id = some u := by
    rw [hu.id]
    exact hu.row
  have hselfu : s.liveRow t.threadKey t.id.taskId = some u :=
    liveRow_eq_some.mpr ⟨hu.row, by simp [Task.live, hu.stored], hu.thread⟩
  have hwhole := h.whole t.threadKey threaded
  have htimed := h.timed t.threadKey threaded
  have hlocal : Local t'.threadKey s (s.setTask t') := by
    refine Local.setTask ?_ ?_
    · intro v hv _
      rw [hid] at hv
      rw [← Option.some.inj (hu.row.symm.trans hv), hu.key, hkey']
    · intro v hv
      exact key _ v hv
  have key1 : ∀ id v, (s.setTask t').tasks.get id = some v → v.id = id := by
    intro id v hv
    rcases get_setTask hv with ⟨rfl, rfl⟩ | ⟨_, hv⟩
    · rfl
    · exact key id v hv
  obtain ⟨thread, hapart⟩ : ∃ thread, Apart s u u.queueIndexItem thread := by
    refine Strand.Whole.apart (hu.key ▸ hwhole) rowu (by simp [Task.live, hu.stored]) ?_
    exact h.records u.threadKey
  have hrecord : s.threads.get t.threadKey = some thread := hu.key ▸ hapart.record
  have hapart1 : Apart (s.setTask t') t' ⟨t.scheduledAt, t'.id.taskId⟩ thread := by
    have hitem : u.queueIndexItem = ⟨t.scheduledAt, t'.id.taskId⟩ := by
      rw [Task.queueIndexItem, hu.time threaded, hu.id, hid]
    rw [← hitem]
    refine hapart.congr (hid.trans hu.id.symm) (hth.trans hu.thread.symm) rfl rfl ?_
      (fun _ _ hi => hi)
    rw [hu.id, ← hid]
    exact congrArg State.tasks (setTask_deleteRow s t')
  have hrecords : RecordsKeyed (s.setTask t') := h.records
  refine ((rescheduleTaskInThread_whole key1 row' live' hapart1 ?_ ?_).both
    (rescheduleTaskInThread_keyed hrecords t.scheduledAt)).mono ?_
  · -- the head that keeps its time is in the queue index already
    intro hhead _ htime _
    have hnum : thread.headTaskId.taskId = t.id.taskId := by rw [hhead, hid]
    have hsame : thread.scheduledAt = u.scheduledAt := htimed thread u hrecord
      (by rw [hnum]; exact hselfu)
    have hitem : t'.queueIndexItem = u.queueIndexItem := by
      rw [Task.queueIndexItem, ← htime, hsame, hid, ← hu.id, Task.queueIndexItem]
    rw [hitem, hid]
    exact (hwhole.queued thread u hrecord (by rw [hnum]; exact hselfu) hu.stored).1
  · intro v hv hrow
    obtain ⟨hget, hlive, hvth⟩ := liveRow_eq_some.mp hrow
    rcases get_setTask hget with ⟨_, rfl⟩ | ⟨_, hget⟩
    · exact absurd hst hv
    · refine htimed thread v hrecord (liveRow_eq_some.mpr ⟨?_, hlive, hvth.trans ?_⟩)
      · rw [← hkey']
        exact hget
      · exact hth
  · intro s' hs'
    obtain ⟨⟨htasks, hlocal', hwhole', _, htimed'⟩, hrecords⟩ := hs'
    exact ⟨h.local (hlocal.trans hlocal') hrecords (fun _ => ⟨hwhole', htimed'⟩), htasks⟩

/-- An overwrite in progress. -/
structure Editing (a : State × Task) : Prop where
  key : ∀ id u, a.1.tasks.get id = some u → u.id = id
  intact : Intact a.1
  hand : ∃ u, InHand a.1 a.2 u

theorem overwriteField_editing {a : State × Task} (h : Editing a) (scheduledAt : Time)
    (payload : Bytes) (expiresAt : Time) (o : OverwriteOnDuplicate) :
    Ensures False (overwriteField scheduledAt payload expiresAt a o) Editing := by
  obtain ⟨u, hu⟩ := h.hand
  cases o with
  | invalid => exact Ensures.ok h
  | payload =>
    exact Ensures.ok ⟨h.key, h.intact, u, ⟨hu.row, hu.id, hu.stored, hu.state, hu.thread, hu.time⟩⟩
  | expiresAt =>
    exact Ensures.ok ⟨h.key, h.intact.same ⟨rfl, rfl, rfl, rfl⟩, u,
      ⟨hu.row, hu.id, hu.stored, hu.state, hu.thread, hu.time⟩⟩
  | scheduledAt =>
    apply Ensures.ite
    · intro hnil
      have rowu : a.1.tasks.get u.id = some u := by
        rw [hu.id]
        exact hu.row
      have hremove := (Local.refl u.threadKey a.1).removeQueued rowu rfl a.2.scheduledAt
      have hlocal := hremove.addQueued rowu rfl scheduledAt
      have hqueue : u.threadKey.queue = a.2.id.queue := congrArg TaskId.queue hu.id
      rw [hqueue, hu.id] at hlocal
      have hnil' : ¬u.threadKey.threadId ≠ [] := fun hne => hne (hu.thread.trans hnil)
      exact Ensures.ok ⟨h.key, h.intact.local hlocal h.intact.records (fun hne => absurd hne hnil'),
        u, ⟨hu.row, hu.id, hu.stored, hu.state, hu.thread, fun hne => absurd hnil hne⟩⟩
    · intro hne
      refine (rescheduleTaskInThread_intact h.key h.intact hu hne).bind ?_
      intro s' hs'
      obtain ⟨hintact, htasks⟩ := hs'
      refine Ensures.ok ⟨?_, hintact, { a.2 with scheduledAt := scheduledAt }, ?_⟩
      · intro id v hv
        rw [htasks] at hv
        rcases get_setTask hv with ⟨rfl, rfl⟩ | ⟨_, hv⟩
        · rfl
        · exact h.key id v hv
      · refine ⟨?_, rfl, hu.state, hu.state, rfl, fun _ => rfl⟩
        rw [htasks]
        exact Table.get_set_self ..

theorem overwriteDuplicate_intact {id : TaskId} (key : ∀ id u, s.tasks.get id = some u → u.id = id)
    (h : Intact s) (row : s.tasks.get id = some t) (overwrites : List OverwriteOnDuplicate)
    (scheduledAt : Time) (payload : Bytes) (expiresAt : Time) :
    Ensures False (overwriteDuplicate s id overwrites scheduledAt payload expiresAt)
      (fun a => Intact a.1) := by
  unfold overwriteDuplicate
  apply Ensures.ite
  · exact fun _ => Ensures.ok h
  · intro _
    have hg : s.getTask id = .ok t := State.getTask_eq_ok.mpr row
    rw [hg]
    apply Ensures.ite
    · intro state
      have hid := key id t row
      have hstart : Editing (s, t) := by
        refine ⟨key, h, t, ⟨?_, rfl, state, state, rfl, fun _ => rfl⟩⟩
        rw [hid]
        exact row
      refine (Ensures.foldlM (fun _ => Editing) (fun o _ a ha =>
        overwriteField_editing ha scheduledAt payload expiresAt o) overwrites (s, t) hstart).bind ?_
      intro a ha
      obtain ⟨u, hu⟩ := ha.hand
      exact Ensures.ok (setTask_intact ha.intact hu)
    · exact fun _ => Ensures.ok h

/-- While the threads are whole an Enqueue returns, whatever its entries. -/
theorem enqueueEntries_intact (es : List EnqueueRequestEntry) (s : State) (n : Nat) (h : Intact s)
    (hi : Indexed True s.rows) (hb : Below q n s.rows) :
    Ensures False (enqueueEntries q now s n es) (fun a => Intact a.1) := by
  induction es generalizing s n with
  | nil => exact Ensures.ok h
  | cons e es ih =>
    have hentry : Ensures False (enqueueEntry q now s n e) (fun a => Intact a.1) := by
      unfold enqueueEntry
      cases hd : duplicateOf s q e with
      | some id =>
        obtain ⟨t, row, _, _⟩ := duplicateOf_row hi hd
        exact (overwriteDuplicate_intact hi.key h row _ _ _ _).bind (fun a ha => Ensures.ok ha)
      | none =>
        refine (createTask_intact (t := newTask q (n + 1) e now) hi.key h ?_ rfl).bind
          (fun s' hs' => Ensures.ok hs')
        intro u hu
        have hle : n + 1 ≤ n := hb _ u hu rfl
        omega
    have hmade : Ensures True (enqueueEntry q now s n e) _ :=
      enqueueEntry_makes hi hb (fun _ => trivial)
    rw [enqueueEntries]
    refine (hentry.both hmade).bind ?_
    intro a ha
    obtain ⟨hintact, _, hbelow, hm⟩ := ha
    exact (ih a.1 a.2.1 hintact (hm.indexed hi) hbelow).bind (fun b hb' => Ensures.ok hb')

theorem enqueue_returns (h : Intact s) (hi : Indexed True s.rows) (hseq : Sequenced s.rows)
    (now : Time) (req : EnqueueRequest) : ∃ a, enqueue s now req = .ok a := by
  have henqueue : Ensures False (enqueue s now req) (fun _ => True) := by
    unfold enqueue
    cases checkQueueNotPurged s req.queueId with
    | some err => exact Ensures.ok trivial
    | none =>
      refine (enqueueEntries_intact req.entries s _ h hi (hseq.below req.queueId)).bind ?_
      exact fun a _ => Ensures.ok trivial
  obtain ⟨a, ha, _⟩ := henqueue.returns
  exact ⟨a, ha⟩

end Enqueue

end Moab
