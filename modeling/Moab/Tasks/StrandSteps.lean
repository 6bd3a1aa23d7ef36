import Moab.Tasks.Strands

namespace Moab

open OrderedStore

variable [OrderedStore]

/-- A thread that was whole still is, and so is its order. -/
structure Strand.Keeps (x y : Strand) : Prop where
  whole : x.Whole → y.Whole
  led : x.Whole → x.Led → y.Led

/-- Only one thread is touched, and it is kept. -/
structure Tends (k : ThreadKey) (s s' : State) : Prop where
  away : Local k s s'
  keeps : k.threadId ≠ [] → (s.strand k).Keeps (s'.strand k)

/-- Every thread is kept. -/
def Tended (s s' : State) : Prop := ∀ k, k.threadId ≠ [] → (s.strand k).Keeps (s'.strand k)

variable {c : Scope} {s s' s'' s1 : State} {k j : ThreadKey} {t t' : Task}
    {thread : Thread} {th : Prop}

section Keeping

omit [OrderedStore] in
theorem Strand.Keeps.refl (x : Strand) : x.Keeps x := ⟨id, fun _ => id⟩

omit [OrderedStore] in
theorem Strand.Keeps.trans {x y z : Strand} (h : x.Keeps y) (h' : y.Keeps z) : x.Keeps z :=
  ⟨fun hw => h'.whole (h.whole hw), fun hw hl => h'.led (h.whole hw) (h.led hw hl)⟩

theorem Tended.refl (s : State) : Tended s s := fun _ _ => .refl _

theorem Tended.trans (h : Tended s s') (h' : Tended s' s'') : Tended s s'' :=
  fun k hk => (h k hk).trans (h' k hk)

theorem Tended.same (h : ∀ k, s'.strand k = s.strand k) : Tended s s' := by
  intro k _
  rw [h k]
  exact .refl _

theorem Tends.all (h : Tends k s s') : Tended s s' := by
  intro j hj
  by_cases he : j = k
  · subst he
    exact h.keeps hj
  · rw [h.away j he]
    exact .refl _

theorem Tends.then_same (h : Tends k s s') (e : ∀ j, s''.strand j = s'.strand j) :
    Tends k s s'' := by
  refine ⟨fun j hj => (e j).trans (h.away j hj), fun hk => ?_⟩
  rw [e k]
  exact h.keeps hk

theorem Tends.same (h : ∀ j, s'.strand j = s.strand j) : Tends k s s' := by
  refine ⟨fun j _ => h j, fun _ => ?_⟩
  rw [h k]
  exact .refl _

/-- A row that is not live belongs to no thread. -/
theorem strand_deleteRow {id : TaskId} (h : ∀ u, s.tasks.get id = some u → ¬u.live)
    (j : ThreadKey) : (s.deleteRow id).strand j = s.strand j := by
  refine strand_congr rfl rfl ?_ (fun _ _ => Iff.rfl)
  intro n
  by_cases hn : j.queue.task n = id
  · subst hn
    have hnew : (s.deleteRow (j.queue.task n)).liveRow j n = none := by
      simp [State.liveRow, State.deleteRow]
    rw [hnew]
    cases hl : s.liveRow j n with
    | none => rfl
    | some u =>
      obtain ⟨hrow, hlive, _⟩ := liveRow_eq_some.mp hl
      exact absurd hlive (h u hrow)
  · simp [State.liveRow, State.deleteRow, hn]

theorem Strand.Led.deleteRow (h : (s.strand k).Led) (id : TaskId) :
    ((s.deleteRow id).strand k).Led :=
  fun thread u hr hu => h thread u hr (liveRow_of_deleteRow hu).2

omit [OrderedStore] in
/-- The order of a thread does not depend on the queue index. -/
theorem Strand.Led.congr {x y : Strand} (h : x.Led) (hrecord : y.record = x.record)
    (hmembers : y.members = x.members) (hrow : ∀ n, y.row n = x.row n) : y.Led := by
  intro thread u hr hu hs
  rw [hrecord] at hr
  rw [hrow] at hu
  rw [hmembers]
  exact h thread u hr hu hs

theorem Strand.Timed.deleteRow (h : (s.strand k).Timed) (id : TaskId) :
    ((s.deleteRow id).strand k).Timed :=
  fun thread u hr hu => h thread u hr (liveRow_of_deleteRow hu).2

theorem Heads.timed (h : Heads c s) (k : ThreadKey) : (s.strand k).Timed := by
  intro thread u hr hu
  have hq := (h.thread_key k thread hr).2.1
  have hget := (liveRow_eq_some.mp hu).1
  rw [← hq, TaskId.queue_task] at hget
  exact (h.settled k).time thread u hr hget

theorem Heads.keyed (h : Heads c s) : ∀ id u, s.tasks.get id = some u → u.id = id :=
  fun id u hu => (h.row id u hu).1

theorem Heads.threadId (h : Heads c s) :
    ∀ thread, s.threads.get t.threadKey = some thread → thread.threadId = t.threadId :=
  fun thread hk => (h.thread_key _ thread hk).1

end Keeping

section Departures

/-- A live task leaves its thread. Its row may have changed by then, but not the
item it has in the index. -/
theorem leaveThread_tends (h : Heads c s) (row : s.tasks.get t.id = some t) (live : t.live)
    (hw : t.threadId ≠ [] → (s.strand t.threadKey).Whole) (hid : t'.id = t.id)
    (hthread : t'.threadId = t.threadId) (htime : t'.scheduledAt = t.scheduledAt)
    (row1 : s1.tasks.get t.id = some t')
    (hrows : (s1.deleteRow t.id).tasks = (s.deleteRow t.id).tasks)
    (hthreads : s1.threads = s.threads) (hmembers : s1.threadedTasksIndex = s.threadedTasksIndex)
    (hqueue : ∀ i, i.taskId ≠ t.id.taskId → i ∈ s.queueIndex.items t.id.queue →
      i ∈ s1.queueIndex.items t.id.queue)
    (hlocal : Local t.threadKey s s1) :
    Ensures False (leaveThread s1 t') (fun s2 => s2.tasks = s1.tasks ∧
      Tends t.threadKey s (s2.deleteRow t.id)) := by
  have hkey : t'.threadKey = t.threadKey := by rw [Task.threadKey, hid, hthread, Task.threadKey]
  have hitem : t'.queueIndexItem = t.queueIndexItem := by
    rw [Task.queueIndexItem, hid, htime, Task.queueIndexItem]
  have herase : ∀ s2 : State, s2.tasks = s1.tasks → Local t.threadKey s2 (s2.deleteRow t.id) := by
    intro s2 htasks
    rw [← hkey, ← hid]
    apply Local.deleteRow
    rw [htasks, hid]
    exact row1
  unfold leaveThread
  apply Ensures.ite
  · intro hnil
    rw [hthread] at hnil
    exact Ensures.ok ⟨rfl, hlocal.trans (herase s1 rfl), fun hne => absurd hnil hne⟩
  · intro hne
    rw [hthread] at hne
    obtain ⟨thread, hapart⟩ := (hw hne).apart row live h.threadId
    have hapart1 : Apart s1 t' t'.queueIndexItem thread := by
      rw [hitem]
      exact hapart.congr hid hthread hthreads hmembers hrows hqueue
    have hkey1 : ∀ id u, s1.tasks.get id = some u → u.id = id := by
      intro id u hu
      by_cases he : id = t.id
      · subst he
        rw [row1] at hu
        rw [← Option.some.inj hu, hid]
      · have hget : (s.deleteRow t.id).tasks.get id = some u := by
          rw [← hrows]
          exact (Table.get_delete_ne _ he).trans hu
        exact h.keyed id u (get_deleteRow hget).2
    refine (detachTaskFromThread_whole hkey1 hapart1).mono ?_
    rintro s2 ⟨htasks, hlocal2, hwhole, hled⟩
    rw [hkey] at hlocal2
    rw [hkey, hid] at hwhole hled
    refine ⟨htasks, (hlocal.trans hlocal2).trans (herase s2 htasks), fun _ => ⟨fun _ => hwhole, ?_⟩⟩
    intro _ hledS
    apply hled
    apply (hledS.deleteRow t.id).congr
    · exact congrArg (fun x => x.get t.threadKey) hthreads
    · exact congrArg (fun x => x.items t.threadKey) hmembers
    · intro n
      change (s1.deleteRow t.id).liveRow t.threadKey n = (s.deleteRow t.id).liveRow t.threadKey n
      rw [State.liveRow, State.liveRow, hrows]

/-- Deleting a task that is not live touches no thread. -/
theorem deleteTask_dead (row : s.tasks.get t.id = some t) (dead : ¬t.live)
    (reason : TaskDeletionReason) :
    Ensures False (deleteTask s t reason) (fun s' => ∀ j, s'.strand j = s.strand j) := by
  have hgone : ∀ s1 s2, SameHeads s s1 → SameHeads (s1.deleteRow t.id) s2 →
      ∀ j, s2.strand j = s.strand j := by
    intro s1 s2 h1 h2 j
    rw [h2.strand j, (h1.deleteRow t.id).strand j]
    refine strand_deleteRow ?_ j
    intro u hu
    rw [row] at hu
    rw [← Option.some.inj hu]
    exact dead
  unfold deleteTask removeFromState
  cases hs : t.state with
  | invalid => exact Ensures.ok (hgone s _ ⟨rfl, rfl, rfl, rfl⟩ ⟨rfl, rfl, rfl, rfl⟩)
  | dead => exact Ensures.ok (hgone (s.removeDead t) _ ⟨rfl, rfl, rfl, rfl⟩ ⟨rfl, rfl, rfl, rfl⟩)
  | enqueued | inProgress => simp [Task.live, hs] at dead

/-- A deletion succeeds if the thread of the task is whole, and keeps it. -/
theorem deleteTask_tends (h : Heads c s) (row : s.tasks.get t.id = some t)
    (reason : TaskDeletionReason) (hw : t.live → t.threadId ≠ [] → (s.strand t.threadKey).Whole) :
    Ensures False (deleteTask s t reason) (Tends t.threadKey s) := by
  by_cases live : t.live
  · have hleave : ∀ s1, s1.tasks = s.tasks → s1.threads = s.threads →
        s1.threadedTasksIndex = s.threadedTasksIndex →
        (∀ i, i.taskId ≠ t.id.taskId → i ∈ s.queueIndex.items t.id.queue →
          i ∈ s1.queueIndex.items t.id.queue) → Local t.threadKey s s1 →
        Ensures False (leaveThread s1 t) (fun s2 => Tends t.threadKey s (s2.deleteRow t.id)) := by
      intro s1 htasks hthreads hmembers hqueue hlocal
      have hrow1 : s1.tasks.get t.id = some t := by rw [htasks]; exact row
      have hrows : (s1.deleteRow t.id).tasks = (s.deleteRow t.id).tasks := by
        rw [State.deleteRow, htasks]
        rfl
      exact (leaveThread_tends h row live (hw live) rfl rfl rfl hrow1 hrows hthreads hmembers hqueue
        hlocal).mono (fun _ hs2 => hs2.2)
    have hdone : ∀ s2 s3 : State, Tends t.threadKey s (s2.deleteRow t.id) →
        SameHeads (s2.deleteRow t.id) s3 → Tends t.threadKey s s3 :=
      fun s2 s3 h2 e => h2.then_same e.strand
    unfold deleteTask removeFromState
    cases hs : t.state with
    | invalid | dead => simp [Task.live, hs] at live
    | enqueued =>
      have hlocal : Local t.threadKey s ((s.removeQueued t).releaseDedupeKey t) :=
        ((Local.refl _ s).removeQueued row rfl t.scheduledAt).trans
          (Local.same (releaseDedupeKey_same _ _))
      have hsame := releaseDedupeKey_same (s.removeQueued t) t
      have hl := hleave _ hsame.tasks hsame.threads hsame.members (fun i hi hmem => by
        rw [hsame.queueIndex]
        refine Index.mem_remove.mpr ⟨hmem, ?_⟩
        rintro ⟨_, rfl⟩
        exact hi rfl) hlocal
      exact Ensures.bind (hl.bind (fun s2 hs2 => Ensures.ok
          (P := fun a : State × TasksCounter => Tends t.threadKey s (a.1.deleteRow t.id)) hs2))
        (fun a ha => Ensures.ok (hdone a.1 _ ha ⟨rfl, rfl, rfl, rfl⟩))
    | inProgress =>
      have hsame0 : SameHeads s (s.removeInProgress t) := ⟨rfl, rfl, rfl, rfl⟩
      have hsame := hsame0.trans (releaseDedupeKey_same (s.removeInProgress t) t)
      have hl := hleave _ hsame.tasks hsame.threads hsame.members (fun i _ hmem => by
        rw [hsame.queueIndex]
        exact hmem) (Local.same hsame)
      exact Ensures.bind (hl.bind (fun s2 hs2 => Ensures.ok
          (P := fun a : State × TasksCounter => Tends t.threadKey s (a.1.deleteRow t.id)) hs2))
        (fun a ha => Ensures.ok (hdone a.1 _ ha ⟨rfl, rfl, rfl, rfl⟩))
  · exact (deleteTask_dead row live reason).mono (fun _ hs => Tends.same hs)

theorem deleteDead_strands (reason : TaskDeletionReason) (l : List Task) (s : State)
    (hb : Batch s.rows l) (hl : ∀ t ∈ l, t.state = .dead) :
    Ensures False (l.foldlM (fun s t => deleteTask s t reason) s)
      (fun s' => ∀ j, s'.strand j = s.strand j) := by
  induction l generalizing s with
  | nil => exact Ensures.pure (fun _ => rfl)
  | cons t l ih =>
    rw [List.foldlM_cons]
    have hdead : ¬t.live := by simp [Task.live, hl t List.mem_cons_self]
    refine ((deleteTask_dead hb.head hdead reason).both (deleteTask_batch hb)).bind ?_
    rintro s1 ⟨hs1, hb1⟩
    refine (ih s1 hb1 (fun u hu => hl u (List.mem_cons_of_mem _ hu))).mono ?_
    intro s2 hs2 j
    exact (hs2 j).trans (hs1 j)

/-- An eviction touches no thread. -/
theorem evictExcessDeadTasks_strands (q : QueueId) (maxSize deadTasksCount : Int)
    (hi : Indexed th s.rows) :
    Ensures False (evictExcessDeadTasks s q maxSize deadTasksCount)
      (fun s' => ∀ j, s'.strand j = s.strand j) := by
  unfold evictExcessDeadTasks
  apply Ensures.ite
  · exact fun _ => Ensures.ok (fun _ => rfl)
  · intro _
    obtain ⟨l, hl, hb, hdead⟩ := oldestDead s q (deadTasksCount - maxSize).toNat hi
    dsimp only
    rw [hl]
    exact deleteDead_strands .none l s hb hdead

theorem moveToDead_tends (now : Time) (dlq : DeadLetterQueueConfig) (h : Heads c s)
    (row : s.tasks.get t.id = some t) (live : t.live)
    (hw : t.threadId ≠ [] → (s.strand t.threadKey).Whole) :
    Ensures False (moveToDead s t now dlq) (Tends t.threadKey s) := by
  unfold moveToDead
  dsimp only
  generalize hs1 : (((s.removeInProgress t).setTask (t.die now dlq)).addExpiration
    (t.die now dlq)).releaseDedupeKey (t.die now dlq) = s1
  have hsame : SameHeads (s.setTask (t.die now dlq)) s1 := by
    have hrow : SameHeads (s.setTask (t.die now dlq))
        (((s.removeInProgress t).setTask (t.die now dlq)).addExpiration (t.die now dlq)) :=
      ⟨rfl, rfl, rfl, rfl⟩
    rw [← hs1]
    exact hrow.trans (releaseDedupeKey_same _ _)
  have hrow1 : s1.tasks.get t.id = some (t.die now dlq) := by
    rw [hsame.tasks]
    exact Table.get_set_self ..
  have hrows : (s1.deleteRow t.id).tasks = (s.deleteRow t.id).tasks := by
    rw [(hsame.deleteRow t.id).tasks]
    exact congrArg State.tasks (setTask_deleteRow s (t.die now dlq))
  have hset : Local t.threadKey s (s.setTask (t.die now dlq)) := by
    refine Local.setTask (t := t.die now dlq) (fun u hu _ => ?_) (fun u hu => h.keyed _ u hu)
    rw [← Option.some.inj (row.symm.trans hu)]
    rfl
  have hid : (t.die now dlq).id = t.id := rfl
  have hleave := leaveThread_tends h row live hw hid rfl rfl hrow1 hrows
    hsame.threads hsame.members (fun i _ hmem => by rw [hsame.queueIndex]; exact hmem)
    (hset.trans (Local.same hsame))
  refine hleave.bind ?_
  rintro s2 ⟨htasks, htends⟩
  have hgone : ∀ j, s2.strand j = (s2.deleteRow t.id).strand j := by
    intro j
    refine (strand_deleteRow ?_ j).symm
    intro u hu
    rw [htasks, hrow1] at hu
    rw [← Option.some.inj hu]
    simp [Task.live, Task.die]
  have hlast : SameHeads s2 ((s2.addDead (t.die now dlq)).updateCounter (t.die now dlq).id.queue
      (fun c => (c.addInProgress (-1)).addDead 1)) := ⟨rfl, rfl, rfl, rfl⟩
  exact Ensures.ok (htends.then_same (fun j => (hlast.strand j).trans (hgone j)))

theorem failTaskToDead_tends (now : Time) (dlqConfig : Option DeadLetterQueueConfig) (h : Heads c s)
    (hi : Indexed th s.rows) (row : s.tasks.get t.id = some t) (state : t.state = .inProgress)
    (hw : t.threadId ≠ [] → (s.strand t.threadKey).Whole) :
    Ensures False (failTaskToDead s t now dlqConfig) (Tends t.threadKey s) := by
  have hdel := deleteTask_tends h row .none (fun _ => hw)
  have live : t.live := by simp [Task.live, state]
  unfold failTaskToDead
  cases dlqConfig with
  | none => exact hdel
  | some dlq =>
    apply Ensures.ite
    · exact fun _ => hdel
    · intro _
      have hrows := (moveToDead_rows s t now dlq).weaken (F := True) (fun _ => trivial)
      refine ((moveToDead_tends now dlq h row live hw).both hrows).bind ?_
      rintro s1 ⟨htends, hrows⟩
      have hmade : Makes th (· = [.died t (t.die now dlq)]) s s1 :=
        Makes.one hrows (.die row state) rfl
      exact (evictExcessDeadTasks_strands _ _ _ (hmade.indexed hi)).mono
        (fun _ hs => htends.then_same hs)

end Departures

section Arrivals

/-- A task that is new, or was dead, enters its queue and its thread. -/
theorem createTask_strands (key : ∀ id u, s.tasks.get id = some u → u.id = id)
    (hid : ∀ thread, s.threads.get t.threadKey = some thread → thread.threadId = t.threadId)
    (timed : t.threadId ≠ [] → (s.strand t.threadKey).Timed)
    (hold : ∀ u, s.tasks.get t.id = some u → ¬u.live) (live : t.live)
    (hw : t.threadId ≠ [] → (s.strand t.threadKey).Whole) :
    Ensures False (createTask s t) (fun s' => Local t.threadKey s s' ∧ (t.threadId ≠ [] →
      (s'.strand t.threadKey).Whole ∧ (s'.strand t.threadKey).Led ∧
      (s'.strand t.threadKey).Timed)) := by
  have hsame := claimDedupeKey_same (s.setTask t) t
  unfold createTask
  dsimp only
  generalize (s.setTask t).claimDedupeKey t = s1 at hsame
  have hrow1 : s1.tasks.get t.id = some t := by
    rw [hsame.tasks]
    exact Table.get_set_self ..
  have hlocal : Local t.threadKey s s1 :=
    (Local.setTask (fun u hu hl => absurd hl (hold u hu)) (fun u hu => key _ u hu)).trans
      (Local.same hsame)
  refine Ensures.bind (P := fun s' => Local t.threadKey s s' ∧ (t.threadId ≠ [] →
    (s'.strand t.threadKey).Whole ∧ (s'.strand t.threadKey).Led ∧
      (s'.strand t.threadKey).Timed)) ?_ ?_
  · unfold joinQueue
    apply Ensures.ite
    · intro hnil
      exact Ensures.ok ⟨hlocal.addQueued hrow1 rfl t.scheduledAt, fun hne => absurd hnil hne⟩
    · intro hne
      have hkey1 : ∀ id u, s1.tasks.get id = some u → u.id = id := by
        intro id u hu
        rw [hsame.tasks] at hu
        rcases get_setTask hu with ⟨rfl, rfl⟩ | ⟨_, hu⟩
        · rfl
        · exact key id u hu
      have hwhole : ((s1.deleteRow t.id).strand t.threadKey).Whole := by
        rw [(hsame.deleteRow t.id).strand, setTask_deleteRow, strand_deleteRow hold]
        exact hw hne
      have hid1 : ∀ thread, s1.threads.get t.threadKey = some thread →
          thread.threadId = t.threadId := by
        rw [hsame.threads]
        exact hid
      have htimed : ((s1.deleteRow t.id).strand t.threadKey).Timed := by
        rw [(hsame.deleteRow t.id).strand, setTask_deleteRow]
        exact (timed hne).deleteRow t.id
      refine (attachTaskToThread_whole hkey1 hrow1 live hid1 hwhole htimed).mono ?_
      intro s2 hs2
      obtain ⟨_, hlocal2, hstrand⟩ := hs2
      exact ⟨hlocal.trans hlocal2, fun _ => hstrand⟩
  · intro s2 hs2
    have hlast : SameHeads s2 ((s2.addExpiration t).updateCounter t.id.queue (·.addEnqueued 1)) :=
      ⟨rfl, rfl, rfl, rfl⟩
    refine Ensures.ok ⟨hs2.1.trans (Local.same hlast), ?_⟩
    rw [hlast.strand]
    exact hs2.2

theorem createTask_tends (h : Heads c s) (hold : ∀ u, s.tasks.get t.id = some u → ¬u.live)
    (live : t.live) (hw : t.threadId ≠ [] → (s.strand t.threadKey).Whole) :
    Ensures False (createTask s t) (Tends t.threadKey s) := by
  refine (createTask_strands h.keyed h.threadId (fun _ => h.timed _) hold live hw).mono ?_
  intro s' hs'
  exact ⟨hs'.1, fun hne => ⟨fun _ => (hs'.2 hne).1, fun _ _ => (hs'.2 hne).2.1⟩⟩

end Arrivals

section Retries

/-- The head is to wait again at the time it had before, and no member is earlier. -/
structure Stalls (s : State) (t : Task) (time : Time) : Prop where
  same : time = t.scheduledAt
  first : ∀ i ∈ s.threadedTasksIndex.items t.threadKey, t.queueIndexItem ≤ i

/-- Reconciling a thread changes nothing if the head is first and its time is the
one of the record, also when the head is not in the queue index. -/
theorem reconcileThreadHead_same (hid : thread.threadId = t.threadId)
    (row : s.tasks.get t.id = some t) (hhead : thread.headTaskId = t.id)
    (htime : thread.scheduledAt = t.scheduledAt)
    (mem : t.queueIndexItem ∈ s.threadedTasksIndex.items t.threadKey)
    (first : ∀ i ∈ s.threadedTasksIndex.items t.threadKey, t.queueIndexItem ≤ i) :
    reconcileThreadHead s t.id.queue thread = .ok s := by
  obtain ⟨l, hl⟩ := Index.items_eq_cons mem first
  have hkey : (⟨t.id.queue, thread.threadId⟩ : ThreadKey) = t.threadKey := by rw [hid]; rfl
  have hearliest : firstMember s t.id.queue thread .getEarliest = .ok (some t) := by
    unfold firstMember
    rw [hkey, hl]
    dsimp only
    rw [show t.id.queue.task t.queueIndexItem.taskId = t.id from rfl, row]
  have hcurrent : getCurrentHead s thread = .ok t := by
    unfold getCurrentHead
    rw [hhead, row]
  unfold reconcileThreadHead
  rw [hearliest, hcurrent]
  change (if t.id.taskId = t.id.taskId then if thread.scheduledAt = t.scheduledAt then _
    else _ else _) = _
  rw [if_pos rfl, if_pos htime]

/-- The mirrored lease of a thread does not matter. -/
theorem strand_setVisible (hid : thread.threadId = k.threadId) (visibleAt : Time) :
    (s.setThread k.queue { thread with visibleAt := visibleAt }).strand k =
      { s.strand k with record := some { thread with visibleAt := visibleAt } } := by
  have hnew : ({ thread with visibleAt := visibleAt } : Thread).threadId = k.threadId := hid
  have hget : (s.setThread k.queue { thread with visibleAt := visibleAt }).threads.get k =
      some { thread with visibleAt := visibleAt } := by
    rw [setThread_eq hnew]
    exact Table.get_set_self ..
  change Strand.mk _ _ _ _ = Strand.mk _ _ _ _
  rw [hget]
  rfl

omit [OrderedStore] in
theorem Strand.Whole.setVisible {x : Strand} (h : x.Whole) (hr : x.record = some thread)
    (visibleAt : Time) :
    ({ x with record := some { thread with visibleAt := visibleAt } } : Strand).Whole := by
  obtain ⟨hd, hhd, hid⟩ := h.head thread hr
  exact Strand.whole_of_head h.member rfl hhd hid (h.queued thread hd hr hhd)

omit [OrderedStore] in
theorem Strand.Led.setVisible {x : Strand} (h : x.Led) (hr : x.record = some thread)
    (visibleAt : Time) :
    ({ x with record := some { thread with visibleAt := visibleAt } } : Strand).Led := by
  intro thread' t hr' ht
  obtain rfl := Option.some.inj hr'
  exact h thread t hr ht

/-- A leased head competes for its place again. It is lost if it stalls, and
otherwise the thread is whole and in order. -/
theorem rejoinThread_strands (h : Heads c s) (row : s.tasks.get t.id = some t)
    (state : t.state = .inProgress) (hne : t.threadId ≠ []) (hw : (s.strand t.threadKey).Whole)
    (hid : t'.id = t.id) (hthread : t'.threadId = t.threadId) (state' : t'.state = .enqueued)
    (hc : ¬c.tracked) :
    Ensures False (rejoinThread (s.setTask t') t' t.scheduledAt) (fun s2 =>
      s2.tasks = (s.setTask t').tasks ∧ Local t.threadKey (s.setTask t') s2 ∧
      (¬Stalls s t t'.scheduledAt → (s2.strand t.threadKey).Whole ∧ (s2.strand t.threadKey).Led) ∧
      (Stalls s t t'.scheduledAt → ¬(s2.strand t.threadKey).Whole)) := by
  have live : t.live := by simp [Task.live, state]
  have live' : t'.live := by simp [Task.live, state']
  have hkey : t'.threadKey = t.threadKey := by rw [Task.threadKey, hid, hthread, Task.threadKey]
  have row1 : (s.setTask t').tasks.get t'.id = some t' := Table.get_set_self ..
  have hrows : ((s.setTask t').deleteRow t.id).tasks = (s.deleteRow t.id).tasks := by
    rw [← hid]
    exact congrArg State.tasks (setTask_deleteRow s t')
  have hkey1 : ∀ id u, (s.setTask t').tasks.get id = some u → u.id = id := by
    intro id u hu
    rcases get_setTask hu with ⟨rfl, rfl⟩ | ⟨_, hu⟩
    · rfl
    · exact h.keyed id u hu
  obtain ⟨thread, hapart⟩ := hw.apart row live h.threadId
  obtain ⟨thr, hthr, hhead⟩ := h.leased_head t.id t row state hne
  obtain rfl := Option.some.inj (hapart.record.symm.trans hthr)
  have htime : thread.scheduledAt = t.scheduledAt :=
    (h.settled _).time thread t hapart.record (hhead ▸ row)
  have hapart1 : Apart (s.setTask t') t' ⟨t.scheduledAt, t'.id.taskId⟩ thread := by
    rw [hid]
    exact hapart.congr hid hthread rfl rfl hrows (fun _ _ hi => hi)
  have hmem : t.queueIndexItem ∈ s.threadedTasksIndex.items t.threadKey :=
    (hapart.member _).mpr (Or.inl rfl)
  unfold rejoinThread
  by_cases hstall : Stalls s t t'.scheduledAt
  · have hitem : t'.queueIndexItem = t.queueIndexItem := by
      rw [Task.queueIndexItem, hid, hstall.same, Task.queueIndexItem]
    have hindex : ((s.setTask t').threadedTasksIndex.remove t'.threadKey
        ⟨t.scheduledAt, t'.id.taskId⟩).add t'.threadKey t'.queueIndexItem =
          (s.setTask t').threadedTasksIndex := by
      rw [hitem, hkey, hid]
      exact Index.remove_add hmem
    have hthread1 : (s.setTask t').threads.get t'.threadKey = some thread := hapart1.record
    have hreconcile : reconcileThreadHead (s.setTask t') t'.id.queue thread =
        .ok (s.setTask t') := by
      apply reconcileThreadHead_same hapart1.id row1 (hhead.trans hid.symm)
        (htime.trans hstall.same.symm)
      · rw [hitem, hkey]
        exact hmem
      · rw [hitem, hkey]
        exact hstall.first
    have hreschedule : rescheduleTaskInThread (s.setTask t') t' t.scheduledAt =
        .ok (s.setTask t') := by
      unfold rescheduleTaskInThread
      dsimp only
      rw [hindex]
      unfold State.getThread
      dsimp only
      rw [hthread1]
      exact hreconcile
    rw [hreschedule]
    change Ensures False (((s.setTask t').getThread t'.threadKey).bind _) _
    unfold State.getThread
    rw [hthread1]
    rw [hkey] at hthread1
    have hset : Local t.threadKey (s.setTask t')
        ((s.setTask t').setThread t.threadKey.queue { thread with visibleAt := 0 }) :=
      (Local.refl _ _).setThread hapart.id
    have hqueue : t'.id.queue = t.threadKey.queue := by rw [hid]; rfl
    refine Ensures.ok ⟨rfl, by rw [hqueue]; exact hset, fun hn => absurd hstall hn,
      fun _ hwhole => ?_⟩
    rw [hqueue, strand_setVisible hapart.id] at hwhole
    have hself : (s.setTask t').liveRow t.threadKey t'.id.taskId = some t' := by
      rw [← hkey]
      exact liveRow_eq_some.mpr ⟨row1, live', rfl⟩
    have hqueued := hwhole.queued _ t' rfl (by rw [hhead, ← hid]; exact hself) state'
    have hi : t.queueIndexItem ∈ s.queueIndex.items t.id.queue := by
      rw [← hitem]
      exact hqueued.1
    exact h.leased_unqueued row state _ _ hi rfl
  · have hself1 : (s.setTask t').liveRow t'.threadKey t'.id.taskId = some t' :=
      liveRow_eq_some.mpr ⟨row1, live', rfl⟩
    have hspec := rescheduleTaskInThread_whole hkey1 row1 live' hapart1 ?_ ?_
    · have hheads := rescheduleTaskInThread_heads h row hid hthread hne state'
        (fun ht => absurd ht hc)
        (fun ht => absurd ht hc) (Or.inr (Or.inl (h.leased_unqueued row state)))
      refine (hspec.both hheads).bind ?_
      rintro s2 ⟨⟨htasks, hlocal, hwhole, hled, _⟩, hheads2⟩
      have hself : s2.liveRow t'.threadKey t'.id.taskId = some t' :=
        liveRow_eq_some.mpr ⟨by rw [htasks]; exact row1, live', rfl⟩
      obtain ⟨thread2, hrecord2⟩ := hwhole.recorded.mpr ⟨_, t', hself⟩
      have hk2 : s2.threads.get t'.threadKey = some thread2 := hrecord2
      unfold State.getThread
      rw [hk2]
      have hid2 : thread2.threadId = t'.threadKey.threadId := (hheads2.thread_key _ thread2 hk2).1
      have hvisible := strand_setVisible (s := s2) hid2 0
      refine Ensures.ok ⟨htasks, ?_, fun _ => ?_, fun hs => absurd hs hstall⟩
      · rw [← hkey]
        have hset : Local t'.threadKey (s.setTask t')
            (s2.setThread t'.threadKey.queue { thread2 with visibleAt := 0 }) :=
          hlocal.setThread hid2
        exact hset
      · rw [← hkey]
        change ((s2.setThread t'.threadKey.queue { thread2 with visibleAt := 0 }).strand
          t'.threadKey).Whole ∧ ((s2.setThread t'.threadKey.queue
            { thread2 with visibleAt := 0 }).strand t'.threadKey).Led
        rw [hvisible]
        exact ⟨hwhole.setVisible hrecord2 0, hled.setVisible hrecord2 0⟩
    · intro _ _ hsame' hfirst
      have htime' : t'.scheduledAt = t.scheduledAt := hsame'.symm.trans htime
      refine absurd ⟨htime', fun i hi => ?_⟩ hstall
      rcases (hapart.member i).mp hi with rfl | ⟨u, hu, hui⟩
      · exact le_refl _
      · obtain ⟨huid, _, _⟩ := liveRow_id h.keyed (liveRow_of_deleteRow hu).2
        have hitem : t'.queueIndexItem = t.queueIndexItem := by
          rw [Task.queueIndexItem, hid, htime', Task.queueIndexItem]
        have hile : t'.queueIndexItem ≤ u.queueIndexItem := by
          refine hfirst u i.taskId ?_
          rw [hkey, State.liveRow, hid, hrows]
          exact hu
        have hi' : u.queueIndexItem = i := by
          rw [Task.queueIndexItem, hui, huid]
          rfl
        rw [← hitem, ← hi']
        exact hile
    · intro u hu hl
      rw [hhead, ← hid, hself1] at hl
      rw [← Option.some.inj hl] at hu
      exact absurd state' hu

/-- A leased task is retried. -/
theorem failTaskToRetry_strands (now : Time) {interval : Time} (h : Heads c s)
    (row : s.tasks.get t.id = some t) (state : t.state = .inProgress)
    (hw : t.threadId ≠ [] → (s.strand t.threadKey).Whole) (hint : retryInterval t = .ok interval)
    (hc : ¬c.tracked) :
    Ensures False (failTaskToRetry s t now) (fun s' =>
      s'.tasks = s.tasks.set t.id (t.retry now interval) ∧ Local t.threadKey s s' ∧
      (t.threadId ≠ [] → ¬Stalls s t (plusSeconds now interval) →
        (s'.strand t.threadKey).Whole ∧ (s'.strand t.threadKey).Led) ∧
      (t.threadId ≠ [] → Stalls s t (plusSeconds now interval) →
        ¬(s'.strand t.threadKey).Whole)) := by
  have hsame : SameHeads s ((s.removeInProgress t).addExpiration (t.retry now interval)) :=
    ⟨rfl, rfl, rfl, rfl⟩
  unfold failTaskToRetry
  rw [hint]
  change Ensures False ((rejoinQueue (((s.removeInProgress t).addExpiration
    (t.retry now interval)).setTask (t.retry now interval))
    (t.retry now interval) t.scheduledAt).bind
      (fun s2 => .ok (s2.updateCounter (t.retry now interval).id.queue
        (fun c => (c.addInProgress (-1)).addEnqueued 1)))) _
  generalize ht' : t.retry now interval = t' at hsame ⊢
  generalize (s.removeInProgress t).addExpiration t' = s0 at hsame ⊢
  have hid : t'.id = t.id := by rw [← ht']; rfl
  have hthread : t'.threadId = t.threadId := by rw [← ht']; rfl
  have hkey : t'.threadKey = t.threadKey := by rw [Task.threadKey, hid, hthread, Task.threadKey]
  have htime : t'.scheduledAt = plusSeconds now interval := by rw [← ht']; rfl
  have hset : Local t.threadKey s (s0.setTask t') := by
    refine (Local.same hsame).trans ?_
    rw [← hkey]
    refine Local.setTask (fun u hu _ => ?_) (fun u hu => ?_)
    · rw [hid, hsame.tasks, row] at hu
      rw [← Option.some.inj hu, hkey]
    · rw [hsame.tasks] at hu
      exact h.keyed _ u hu
  have htasks : (s0.setTask t').tasks = s.tasks.set t.id t' := by
    rw [State.setTask, hsame.tasks, hid]
  unfold rejoinQueue
  by_cases hnil : t'.threadId = []
  · rw [if_pos hnil]
    rw [hthread] at hnil
    have hqueued : Local t.threadKey s ((s0.setTask t').addQueued t') := by
      have hadd := hset.addQueued (t := t') (Table.get_set_self ..) hkey t'.scheduledAt
      rw [show t.threadKey.queue = t'.id.queue by rw [hid]; rfl] at hadd
      exact hadd
    refine Ensures.ok ⟨htasks, hqueued.trans (Local.same ⟨rfl, rfl, rfl, rfl⟩),
      fun hne => absurd hnil hne, fun hne => absurd hnil hne⟩
  · rw [if_neg hnil]
    rw [hthread] at hnil
    have hmembers : Stalls s0 t t'.scheduledAt ↔ Stalls s t (plusSeconds now interval) := by
      rw [htime]
      constructor
      · intro hs
        exact ⟨hs.same, hsame.members ▸ hs.first⟩
      · intro hs
        exact ⟨hs.same, hsame.members.symm ▸ hs.first⟩
    have hwhole0 : (s0.strand t.threadKey).Whole := by
      rw [hsame.strand]
      exact hw hnil
    have hjoin := rejoinThread_strands (h.same hsame)
      (hsame.tasks.symm ▸ row) state hnil hwhole0 hid hthread (by rw [← ht']; rfl) hc
    refine Ensures.bind hjoin ?_
    rintro s2 ⟨htasks2, hlocal2, hgood, hbad⟩
    have hlast : SameHeads s2 (s2.updateCounter t'.id.queue
        (fun c => (c.addInProgress (-1)).addEnqueued 1)) := ⟨rfl, rfl, rfl, rfl⟩
    refine Ensures.ok ⟨htasks2.trans htasks, (hset.trans hlocal2).trans (Local.same hlast), ?_, ?_⟩
    · intro _ hs
      rw [hlast.strand]
      exact hgood (fun hs0 => hs (hmembers.mp hs0))
    · intro _ hs
      rw [hlast.strand]
      exact hbad (hmembers.mpr hs)

/-- A failure of the leased head that leaves it waiting where no scan finds it. -/
structure Loses (s : State) (now : Time) (t : Task) : Prop where
  threaded : t.threadId ≠ []
  unexpired : ¬t.expiresAt < now
  retries : t.exhausted = false
  stalls : ∃ interval, retryInterval t = .ok interval ∧ Stalls s t (plusSeconds now interval)

/-- What a failed delivery does to the threads. -/
structure Fails (now : Time) (t : Task) (s s' : State) : Prop where
  away : Local t.threadKey s s'
  whole : t.threadId ≠ [] → ((s'.strand t.threadKey).Whole ↔ ¬Loses s now t)
  led : t.threadId ≠ [] → ¬Loses s now t → (s.strand t.threadKey).Led → (s'.strand t.threadKey).Led

/-- A failure is handled, unless the delivery that failed was never counted. -/
theorem handleTaskFailure_strands (now : Time) (dlqConfig : Option DeadLetterQueueConfig)
    (h : Heads c s) (hi : Indexed th s.rows) (row : s.tasks.get t.id = some t)
    (state : t.state = .inProgress) (hw : t.threadId ≠ [] → (s.strand t.threadKey).Whole)
    (hc : ¬c.tracked) :
    Ensures (¬t.expiresAt < now ∧ t.exhausted = false ∧ t.attempts < 1)
      (handleTaskFailure s t now dlqConfig) (Fails now t s) := by
  have htends : ¬Loses s now t → ∀ s', Tends t.threadKey s s' → Fails now t s s' := by
    intro hl s' hs
    refine ⟨hs.away, fun hne => ⟨fun _ => hl, fun _ => (hs.keeps hne).whole (hw hne)⟩, ?_⟩
    exact fun hne _ hled => (hs.keeps hne).led (hw hne) hled
  unfold handleTaskFailure
  apply Ensures.ite
  · intro hexp
    have hl : ¬Loses s now t := fun hl => hl.unexpired hexp
    exact ((deleteTask_tends h row .expired (fun _ => hw)).weaken False.elim).mono (htends hl)
  · intro hexp
    apply Ensures.ite
    · intro hex
      have hl : ¬Loses s now t := fun hl => by simp [hl.retries] at hex
      exact ((failTaskToDead_tends now dlqConfig h hi row state hw).weaken False.elim).mono
        (htends hl)
    · intro hex
      have hex' : t.exhausted = false := by simpa using hex
      by_cases ha : t.attempts < 1
      · refine Ensures.of_eq (fun s' hok => ?_) (fun _ _ => ⟨hexp, hex', ha⟩)
        obtain ⟨interval, hint, _⟩ := (failTaskToRetry_rows s t now hex').elim hok
        exact absurd (retryInterval_counted hint) (Int.not_le.mpr ha)
      · obtain ⟨interval, hint⟩ := retryInterval_returns hex' (Int.not_lt.mp ha)
        refine ((failTaskToRetry_strands now h row state hw hint hc).weaken False.elim).mono ?_
        rintro s' ⟨_, hlocal, hgood, hbad⟩
        have hiff : t.threadId ≠ [] →
            (Loses s now t ↔ Stalls s t (plusSeconds now interval)) := by
          intro hne
          constructor
          · intro hl
            obtain ⟨interval', hint', hs⟩ := hl.stalls
            obtain rfl := Except.ok.inj (hint.symm.trans hint')
            exact hs
          · exact fun hs => ⟨hne, hexp, hex', interval, hint, hs⟩
        refine ⟨hlocal, fun hne => ⟨fun hwhole hl => ?_, fun hl => ?_⟩, fun hne hl _ => ?_⟩
        · exact hbad hne ((hiff hne).mp hl) hwhole
        · exact (hgood hne (fun hs => hl ((hiff hne).mpr hs))).1
        · exact (hgood hne (fun hs => hl ((hiff hne).mpr hs))).2

end Retries

end Moab
