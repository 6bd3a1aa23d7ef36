import Moab.Framework.Newest
import Moab.Tasks.Counters
import Moab.Tasks.Manned

namespace Moab

open OrderedStore

section Store

variable [OrderedStore]

variable {s s' : State} {t u : Task} {q : QueueId} {now : Time}

section Rows

/-- The dead tasks of a queue. -/
def deadTasks (s : State) (q : QueueId) : List Task :=
  (s.tasks.entries.filter (fun e => e.1.queue = q ∧ e.2.state = .dead)).map Prod.snd

theorem mem_deadTasks (hi : Indexed True s.rows) :
    t ∈ deadTasks s q ↔ s.tasks.get t.id = some t ∧ t.id.queue = q ∧ t.state = .dead := by
  simp only [deadTasks, List.mem_map, List.mem_filter, decide_eq_true_eq]
  constructor
  · intro h
    obtain ⟨⟨id, u⟩, ⟨hmem, hq, hst⟩, he⟩ := h
    have hrow := Table.mem_entries.mp hmem
    have hid := hi.key id u hrow
    subst he hid
    exact ⟨hrow, hq, hst⟩
  · intro h
    exact ⟨(t.id, t), ⟨Table.mem_entries.mpr h.1, h.2⟩, rfl⟩

theorem length_deadTasks (s : State) (q : QueueId) :
    (deadTasks s q).length = rowCount s.tasks q .dead := by
  rw [deadTasks, List.length_map, rowCount, Table.count, List.countP_eq_length_filter]

theorem mem_deadTasks_of_item (hi : Indexed True s.rows) {i : IndexItem}
    (hmem : i ∈ s.deadTasksIndex.items q) (hrow : s.tasks.get (q.task i.taskId) = some t) :
    t ∈ deadTasks s q ∧ t.deadTasksIndexItem = i := by
  obtain ⟨u, hu, hst, htime⟩ := (hi.deadExact q i).mp hmem
  obtain rfl := Option.some.inj (hu.symm.trans hrow)
  have hid := hi.key _ u hrow
  refine ⟨(mem_deadTasks hi).mpr ⟨hid ▸ hrow, by rw [hid]; rfl, hst⟩, ?_⟩
  rw [Task.deadTasksIndexItem, htime, hid]
  rfl

/-- The dead tasks index lists the dead tasks of a queue, the oldest failure first. -/
theorem deadTasks_perm (hi : Indexed True s.rows) (q : QueueId) :
    ((deadTasks s q).map Task.deadTasksIndexItem).Perm (s.deadTasksIndex.items q) := by
  have hnodup : ((deadTasks s q).map Task.id).Nodup := by
    rw [deadTasks, List.map_map]
    have hkeys : (s.tasks.entries.filter (fun e => e.1.queue = q ∧ e.2.state = .dead)).map
        (Task.id ∘ Prod.snd) =
          (s.tasks.entries.filter (fun e => e.1.queue = q ∧ e.2.state = .dead)).map Prod.fst := by
      refine List.map_congr_left (fun e he => ?_)
      exact hi.key e.1 e.2 (Table.mem_entries.mp (List.mem_of_mem_filter he))
    rw [hkeys]
    exact s.tasks.entries_keys_nodup.sublist (List.filter_sublist.map _)
  refine (List.perm_ext_iff_of_nodup ?_ (s.deadTasksIndex.items_nodup q)).mpr ?_
  · refine List.Nodup.of_map (fun i => q.task i.taskId) ?_
    rw [List.map_map]
    have hids : (deadTasks s q).map ((fun i => q.task i.taskId) ∘ Task.deadTasksIndexItem) =
        (deadTasks s q).map Task.id := by
      refine List.map_congr_left (fun t ht => ?_)
      obtain ⟨_, hq, _⟩ := (mem_deadTasks hi).mp ht
      rw [← hq]
      exact TaskId.queue_task t.id
    rw [hids]
    exact hnodup
  · intro i
    rw [hi.deadExact q i, List.mem_map]
    constructor
    · intro h
      obtain ⟨t, ht, he⟩ := h
      obtain ⟨hrow, hq, hst⟩ := (mem_deadTasks hi).mp ht
      subst he hq
      exact ⟨t, hrow, hst, rfl⟩
    · intro h
      obtain ⟨t, hrow, hdead⟩ := h
      exact ⟨t, mem_deadTasks_of_item hi ((hi.deadExact q i).mpr ⟨t, hrow, hdead⟩) hrow⟩

/-- The newest dead tasks are at the end of the index. -/
theorem newest_iff_drop (hi : Indexed True s.rows) (n : Nat) (ht : t ∈ deadTasks s q) :
    Newest Task.deadTasksIndexItem n (deadTasks s q) t ↔
      t.deadTasksIndexItem ∈ (s.deadTasksIndex.items q).drop ((deadTasks s q).length - n) := by
  have hperm := deadTasks_perm hi q
  have hlen : (deadTasks s q).length = (s.deadTasksIndex.items q).length := by
    rw [← hperm.length_eq, List.length_map]
  have hsorted : (s.deadTasksIndex.items q).Pairwise (fun a b => id a < id b) :=
    s.deadTasksIndex.items_sorted q
  rw [hlen, Newest.mem_drop_iff hsorted, ← Newest.perm_iff hperm, Newest.map_iff ht]
  rfl

end Rows

section Eviction

/-- Nothing names the task any more. -/
structure Forgotten (id : TaskId) (s : State) : Prop extends Unnamed id s where
  row : s.tasks.get id = none
  inProgress : ∀ q, ∀ i ∈ s.inProgressIndex.items q, q.task i.taskId ≠ id
  dead : ∀ q, ∀ i ∈ s.deadTasksIndex.items q, q.task i.taskId ≠ id
  expiration : ∀ ref ∈ s.expiration.items (), ref.taskId ≠ id
  dedupe : ∀ k n, s.dedupeKeysIndex.get k = some n → k.queue.task n ≠ id

/-- The other indexes go by the rows. -/
theorem Unnamed.forgotten {id : TaskId} (h : Unnamed id s) (hi : Indexed True s.rows)
    (row : s.tasks.get id = none) : Forgotten id s where
  toUnnamed := h
  row := row
  inProgress q i hmem he := by
    obtain ⟨u, hu, _⟩ := (hi.inProgressExact q i).mp hmem
    rw [he, row] at hu
    simp at hu
  dead q i hmem he := by
    obtain ⟨u, hu, _⟩ := (hi.deadExact q i).mp hmem
    rw [he, row] at hu
    simp at hu
  expiration ref hmem he := by
    obtain ⟨u, hu, _⟩ := (hi.expirationExact ref).mp hmem
    rw [he, row] at hu
    simp at hu
  dedupe k n hget he := by
    obtain ⟨u, hu, _⟩ := (hi.dedupeExact k n).mp hget
    rw [he, row] at hu
    simp at hu

/-- Only rows went, and they leave the queue and the threads as they were. -/
structure Shed (l : List Task) (s s' : State) : Prop where
  gone : ∀ t ∈ l, s'.tasks.get t.id = none
  stays : ∀ id, (∀ t ∈ l, t.id ≠ id) → s'.tasks.get id = s.tasks.get id
  queueIndex : s'.queueIndex = s.queueIndex
  threads : s'.threads = s.threads
  members : s'.threadedTasksIndex = s.threadedTasksIndex

theorem deleteTask_sheds (dead : t.state = .dead) (reason : TaskDeletionReason) :
    Ensures False (deleteTask s t reason) (Shed [t] s) := by
  unfold deleteTask removeFromState
  rw [dead]
  refine Ensures.ok ⟨?_, ?_, rfl, rfl, rfl⟩
  · intro u hu
    rw [List.mem_singleton.mp hu]
    exact Table.get_delete_self ..
  · intro id hid
    exact Table.get_delete_ne _ (hid t List.mem_cons_self).symm

theorem deleteDead_sheds (reason : TaskDeletionReason) (l : List Task) (s : State)
    (hl : ∀ t ∈ l, t.state = .dead) :
    Ensures False (l.foldlM (fun s t => deleteTask s t reason) s) (Shed l s) := by
  induction l generalizing s with
  | nil => exact Ensures.pure ⟨by simp, fun _ _ => rfl, rfl, rfl, rfl⟩
  | cons t l ih =>
    rw [List.foldlM_cons]
    refine (deleteTask_sheds (hl t List.mem_cons_self) reason).bind ?_
    intro s1 h1
    refine (ih s1 (fun u hu => hl u (List.mem_cons_of_mem _ hu))).mono ?_
    intro s2 h2
    refine ⟨?_, ?_, h2.queueIndex.trans h1.queueIndex, h2.threads.trans h1.threads,
      h2.members.trans h1.members⟩
    · intro u hu
      by_cases hagain : ∃ v ∈ l, v.id = u.id
      · obtain ⟨v, hv, hid⟩ := hagain
        rw [← hid]
        exact h2.gone v hv
      · rw [h2.stays u.id (fun v hv hid => hagain ⟨v, hv, hid⟩)]
        rcases List.mem_cons.mp hu with he | hu
        · rw [he]
          exact h1.gone t List.mem_cons_self
        · exact absurd ⟨u, hu, rfl⟩ hagain
    · intro id hid
      rw [h2.stays id (fun u hu => hid u (List.mem_cons_of_mem _ hu))]
      refine h1.stays id (fun u hu => ?_)
      rw [List.mem_singleton.mp hu]
      exact hid t List.mem_cons_self

/-- The dead tasks that a bound on their number leaves. A bound that is not positive
leaves all of them. -/
def Retained (maxSize : Int) (l : List Task) (t : Task) : Prop :=
  if 0 < maxSize then Newest Task.deadTasksIndexItem maxSize.toNat l t else t ∈ l

/-- An eviction keeps the newest failures. -/
theorem evictExcessDeadTasks_retains (maxSize : Int) (hi : Indexed True s.rows)
    (hcount : (s.getCounter q).deadTasksCount = rowCount s.tasks q .dead) :
    Ensures False (evictExcessDeadTasks s q maxSize (s.getCounter q).deadTasksCount) (fun s' =>
      ∃ l, (∀ t, t ∈ l ↔ t ∈ deadTasks s q ∧ ¬Retained maxSize (deadTasks s q) t) ∧
        Shed l s s') := by
  have hnone : Shed [] s s := ⟨by simp, fun _ _ => rfl, rfl, rfl, rfl⟩
  rw [hcount, ← length_deadTasks]
  unfold evictExcessDeadTasks Retained
  apply Ensures.ite
  · intro hle
    refine Ensures.ok ⟨[], fun t => ?_, hnone⟩
    simp only [List.not_mem_nil, false_iff, not_and, not_not]
    intro ht
    split_ifs with hpos
    · rw [newest_iff_drop hi _ ht]
      have hzero : (deadTasks s q).length - maxSize.toNat = 0 := by omega
      rw [hzero, List.drop_zero, ← (deadTasks_perm hi q).mem_iff]
      exact List.mem_map_of_mem ht
    · exact ht
  · intro hover
    obtain ⟨l, hl, hb, hdead⟩ := oldestDead s q ((deadTasks s q).length - maxSize).toNat hi
    dsimp only
    rw [hl]
    refine (deleteDead_sheds .none l s hdead).mono (fun s' hs' => ⟨l, fun t => ?_, hs'⟩)
    have hn : (((deadTasks s q).length : Int) - maxSize).toNat =
        (deadTasks s q).length - maxSize.toNat := by omega
    have hdisjoint : ∀ n, List.Disjoint ((s.deadTasksIndex.items q).take n)
        ((s.deadTasksIndex.items q).drop n) :=
      fun n => List.disjoint_take_drop (s.deadTasksIndex.items_nodup q) le_rfl
    rw [hn] at hl
    rw [if_pos (by omega), mem_mapM_getTask hl]
    constructor
    · intro h
      obtain ⟨i, hi', hrow⟩ := h
      obtain ⟨ht, he⟩ := mem_deadTasks_of_item hi (List.mem_of_mem_take hi') hrow
      refine ⟨ht, ?_⟩
      rw [newest_iff_drop hi _ ht, he]
      exact fun hdrop => hdisjoint _ hi' hdrop
    · intro h
      obtain ⟨ht, hold⟩ := h
      rw [newest_iff_drop hi _ ht] at hold
      have hmem : t.deadTasksIndexItem ∈ s.deadTasksIndex.items q :=
        (deadTasks_perm hi q).mem_iff.mp (List.mem_map_of_mem ht)
      rw [← List.take_append_drop ((deadTasks s q).length - maxSize.toNat)
        (s.deadTasksIndex.items q), List.mem_append] at hmem
      refine ⟨_, hmem.resolve_right hold, ?_⟩
      obtain ⟨hrow, hq, _⟩ := (mem_deadTasks hi).mp ht
      subst hq
      exact hrow

omit [OrderedStore] in
theorem Retained.perm_iff {maxSize : Int} {l l' : List Task} (h : l.Perm l') :
    Retained maxSize l t ↔ Retained maxSize l' t := by
  unfold Retained
  rw [Newest.perm_iff h, h.mem_iff]

omit [OrderedStore] in
theorem Retained.mem {maxSize : Int} {l : List Task} (h : Retained maxSize l t) : t ∈ l := by
  unfold Retained at h
  split_ifs at h
  · exact h.1
  · exact h

/-- No more are left than the bound. -/
theorem length_deadTasks_le {maxSize : Int} (hi : Indexed True s.rows) (hi' : Indexed True s'.rows)
    (h : ∀ t ∈ deadTasks s' q, Retained maxSize (deadTasks s q) t) (hpos : 0 < maxSize) :
    ((deadTasks s' q).length : Int) ≤ maxSize := by
  have hnodup : ((deadTasks s' q).map Task.deadTasksIndexItem).Nodup :=
    (deadTasks_perm hi' q).nodup_iff.mpr (s'.deadTasksIndex.items_nodup q)
  have hsub : (deadTasks s' q).map Task.deadTasksIndexItem ⊆
      (s.deadTasksIndex.items q).drop ((deadTasks s q).length - maxSize.toNat) := by
    intro i hmem
    obtain ⟨t, ht, he⟩ := List.mem_map.mp hmem
    have hnew := h t ht
    have hold := hnew.mem
    rw [Retained, if_pos hpos, newest_iff_drop hi _ hold] at hnew
    rw [← he]
    exact hnew
  have hle := (List.subperm_of_subset hnodup hsub).length_le
  have hlen := (deadTasks_perm hi q).length_eq
  rw [List.length_map] at hle hlen
  rw [List.length_drop, ← hlen] at hle
  omega

/-- The dead tasks of a queue beyond the bound went, and nothing else. -/
structure Evicts (maxSize : Int) (q : QueueId) (s s' : State) : Prop where
  heads : Heads WellFormed.anyScope s'
  indexed : Indexed True s'.rows
  balanced : Balanced s'.rows
  dead : ∀ u, u ∈ deadTasks s' q ↔ Retained maxSize (deadTasks s q) u
  evicted : ∀ u ∈ deadTasks s q, u ∉ deadTasks s' q → Forgotten u.id s'
  rows : ∀ id u, (u.state = .dead → id.queue ≠ q) →
    (s'.tasks.get id = some u ↔ s.tasks.get id = some u)
  threads : ∀ j, s'.strand j = s.strand j

theorem Heads.dead_unnamed {c : Scope} (h : Heads c s) (row : s.tasks.get t.id = some t)
    (dead : t.state = .dead) : Unnamed t.id s := by
  refine h.unnamed row (Or.inl (by simp [Task.live, dead])) ?_
  intro q i hmem he
  exact absurd (h.queueItem_eq row hmem he).1 (by simp [dead])

/-- A row in a list of dead rows that are shed. -/
theorem deadTasks_mem_of_id {l : List Task} (hi : Indexed True s.rows)
    (hl : ∀ v ∈ l, v ∈ deadTasks s q) (row : s.tasks.get u.id = some u) {v : Task} (hv : v ∈ l)
    (hid : v.id = u.id) : u ∈ l := by
  have hrow := ((mem_deadTasks hi).mp (hl v hv)).1
  rw [hid] at hrow
  rw [← Option.some.inj (hrow.symm.trans row)]
  exact hv

theorem evictExcessDeadTasks_evicts (q : QueueId) (maxSize : Int) (h : Heads WellFormed.anyScope s)
    (hi : Indexed True s.rows) (hb : Balanced s.rows) :
    Ensures False (evictExcessDeadTasks s q maxSize (s.getCounter q).deadTasksCount)
      (Evicts maxSize q s) := by
  generalize hn : (s.getCounter q).deadTasksCount = n
  have hevict := evictExcessDeadTasks_retains maxSize hi (counted_iff_balanced.mpr hb q).2.2
  rw [hn] at hevict
  have hstrands := evictExcessDeadTasks_strands q maxSize n hi
  have hmakes : Ensures True (evictExcessDeadTasks s q maxSize n) _ :=
    evictExcessDeadTasks_makes s q maxSize n hi
  have hheads := evictExcessDeadTasks_heads q maxSize n h hi
  refine (((hevict.and hstrands).both hmakes).both hheads).mono ?_
  intro s' hs'
  obtain ⟨⟨⟨⟨l, hl, hshed⟩, hsame⟩, es, hes, gone, hevents, _⟩, hh'⟩ := hs'
  have hi' : Indexed True s'.rows := hi.steps hes
  have hb' : Balanced s'.rows := by
    refine Trace.invariant_of hes (fun e he _ _ hi hstep => hstep.balanced ?_ hi) hb
    rw [hevents] at he
    obtain ⟨v, _, hv⟩ := List.mem_map.mp he
    simp [← hv, Event.kind]
  have hdeadl : ∀ v ∈ l, v ∈ deadTasks s q := fun v hv => ((hl v).mp hv).1
  have hdead : ∀ u, u ∈ deadTasks s' q ↔ Retained maxSize (deadTasks s q) u := by
    intro u
    constructor
    · intro hu
      obtain ⟨hrow, hq, hst⟩ := (mem_deadTasks hi').mp hu
      have hleft : ∀ v ∈ l, v.id ≠ u.id := by
        intro v hv hid
        have hnone := hshed.gone v hv
        rw [hid, hrow] at hnone
        simp at hnone
      rw [hshed.stays u.id hleft] at hrow
      by_contra hold
      exact hleft u ((hl u).mpr ⟨(mem_deadTasks hi).mpr ⟨hrow, hq, hst⟩, hold⟩) rfl
    · intro hkept
      obtain ⟨hrow, hq, hst⟩ := (mem_deadTasks hi).mp hkept.mem
      refine (mem_deadTasks hi').mpr ⟨?_, hq, hst⟩
      rw [hshed.stays u.id ?_]
      · exact hrow
      · intro v hv hid
        exact ((hl u).mp (deadTasks_mem_of_id hi hdeadl hrow hv hid)).2 hkept
  refine ⟨hh', hi', hb', hdead, ?_, ?_, hsame⟩
  · intro u hu hout
    rw [hdead] at hout
    obtain ⟨hrow, _, hst⟩ := (mem_deadTasks hi).mp hu
    have hnamed := h.dead_unnamed hrow hst
    refine Unnamed.forgotten ⟨?_, ?_, ?_⟩ hi' (hshed.gone u ((hl u).mpr ⟨hu, hout⟩))
    · rw [hshed.queueIndex]
      exact hnamed.queue
    · rw [hshed.threads]
      exact hnamed.head
    · rw [hshed.members]
      exact hnamed.member
  · intro id u hu
    by_cases hev : ∃ v ∈ l, v.id = id
    · obtain ⟨v, hv, hvid⟩ := hev
      obtain ⟨hrow, hq, hst⟩ := (mem_deadTasks hi).mp (hdeadl v hv)
      have hnone := hshed.gone v hv
      rw [hvid] at hrow hnone hq
      rw [hnone, hrow]
      simp only [reduceCtorEq, false_iff, Option.some.injEq]
      intro he
      exact hu (he ▸ hst) hq
    · rw [hshed.stays id (fun v hv he => hev ⟨v, hv, he⟩)]

end Eviction

section Kills

/-- A failure that the task does not survive. -/
def Task.doomed (t : Task) (now : Time) : Prop := ¬t.expiresAt < now ∧ t.exhausted = true

/-- A task went to the dead letter queue of its queue: the newest failures are kept,
what is evicted leaves no trace, and everything else is as it was, the thread of the
task apart. -/
structure Buried (now : Time) (dlq : DeadLetterQueueConfig) (t : Task) (s s' : State) : Prop where
  dead : ∀ u, u ∈ deadTasks s' t.id.queue ↔
    Retained dlq.maxSize (t.die now dlq :: deadTasks s t.id.queue) u
  bounded : 0 < dlq.maxSize → (s'.getCounter t.id.queue).deadTasksCount ≤ dlq.maxSize
  evicted : ∀ u ∈ t.die now dlq :: deadTasks s t.id.queue, u ∉ deadTasks s' t.id.queue →
    Forgotten u.id s'
  rows : ∀ id u, id ≠ t.id → (u.state = .dead → id.queue ≠ t.id.queue) →
    (s'.tasks.get id = some u ↔ s.tasks.get id = some u)
  threads : Local t.threadKey s s'
  queue : ∀ q i, (∀ u, s.tasks.get (q.task i.taskId) = some u → u.threadId ≠ [] →
    u.threadKey ≠ t.threadKey) → (i ∈ s'.queueIndex.items q ↔ i ∈ s.queueIndex.items q)

/-- What the failure handler relies on: a thread whose head is leased is whole. -/
structure Serviceable (s : State) : Prop where
  heads : Heads WellFormed.anyScope s
  indexed : Indexed True s.rows
  balanced : Balanced s.rows
  whole : ∀ id t, s.tasks.get id = some t → t.state = .inProgress → t.threadId ≠ [] →
    (s.strand t.threadKey).Whole

theorem WellFormed.serviceable (h : WellFormed s) (hc : Counted s) : Serviceable s where
  heads := h.heads
  indexed := h.indexed
  balanced := counted_iff_balanced.mp hc
  whole := h.manned.whole

/-- The dead tasks of the queue once t has joined them. -/
theorem deadTasks_die {dlq : DeadLetterQueueConfig} (hi : Indexed True s.rows)
    (hi' : Indexed True s'.rows) (row : s.tasks.get t.id = some t) (state : t.state = .inProgress)
    (htasks : s'.tasks = s.tasks.set t.id (t.die now dlq)) :
    (t.die now dlq :: deadTasks s t.id.queue).Perm (deadTasks s' t.id.queue) := by
  have hnodup : ∀ {x : State}, Indexed True x.rows → (deadTasks x t.id.queue).Nodup := by
    intro x hx
    exact ((deadTasks_perm hx _).nodup_iff.mpr (x.deadTasksIndex.items_nodup _)).of_map
  have hnot : t.die now dlq ∉ deadTasks s t.id.queue := by
    intro hmem
    have hrow : s.tasks.get t.id = some (t.die now dlq) := ((mem_deadTasks hi).mp hmem).1
    have hst := congrArg Task.state (Option.some.inj (row.symm.trans hrow))
    rw [state] at hst
    exact absurd hst (by simp [Task.die])
  refine (List.perm_ext_iff_of_nodup (List.nodup_cons.mpr ⟨hnot, hnodup hi⟩) (hnodup hi')).mpr ?_
  intro u
  rw [List.mem_cons, mem_deadTasks hi, mem_deadTasks hi', htasks, Table.get_set]
  split_ifs with he
  · constructor
    · intro h
      rcases h with h | h
      · subst h
        exact ⟨rfl, rfl, rfl⟩
      · rw [he, row] at h
        exact absurd h.2.2 (by rw [← Option.some.inj h.1, state]; simp)
    · exact fun h => Or.inl (Option.some.inj h.1).symm
  · constructor
    · exact fun h => h.resolve_left (fun hd => he (by rw [hd]; rfl))
    · exact Or.inr

/-- A thread that was left alone keeps its entry in the queue index. -/
theorem Heads.queueItem_of_local {c : Scope} {k : ThreadKey} {i : IndexItem} (h : Heads c s)
    (h' : Heads c s') (hl : Local k s s')
    (hrow : ∀ id u, u.state = .enqueued → s'.tasks.get id = some u → s.tasks.get id = some u)
    (hne : ∀ u, s'.tasks.get (q.task i.taskId) = some u → u.state = .enqueued → u.threadId ≠ [] →
      u.threadKey ≠ k)
    (hi : i ∈ s'.queueIndex.items q) : i ∈ s.queueIndex.items q := by
  obtain ⟨u, hu, hst, htime⟩ := h'.queue_row q i hi
  have hu0 := hrow _ u hst hu
  by_cases hnil : u.threadId = []
  · have hmem := h.queue_free _ u hu0 hst hnil
    rw [htime hnil] at hmem
    exact hmem
  · have hkey : u.threadKey.queue = q := by
      rw [Task.threadKey, h'.keyed _ u hu]
      rfl
    have hlive : s'.liveRow u.threadKey i.taskId = some u := by
      rw [liveRow_eq_some, hkey]
      exact ⟨hu, by simp [Task.live, hst], rfl⟩
    have hqueued : (s'.strand u.threadKey).queued i := by
      refine ⟨by rw [hkey]; exact hi, by rw [hlive]; simp⟩
    rw [hl _ (hne u hu hst hnil)] at hqueued
    have hmem := hqueued.1
    rw [hkey] at hmem
    exact hmem

theorem failTaskToDead_buries {dlq : DeadLetterQueueConfig} (h : Serviceable s)
    (row : s.tasks.get t.id = some t) (state : t.state = .inProgress)
    (enabled : dlq.enable = true) :
    Ensures False (failTaskToDead s t now (some dlq)) (Buried now dlq t s) := by
  have live : t.live := by simp [Task.live, state]
  have hheads := moveToDead_heads now dlq h.heads row state (fun hc => hc.elim)
  have hrows : Ensures True (moveToDead s t now dlq)
      (fun s1 => s1.rows = s.rows.die t (t.die now dlq)) :=
    (moveToDead_rows s t now dlq).weaken (fun _ => trivial)
  unfold failTaskToDead
  dsimp only
  rw [if_neg (by simp [enabled])]
  refine (((moveToDead_tends now dlq h.heads row live (h.whole _ t row state)).both hheads).both
    hrows).bind ?_
  intro s1 hs1
  obtain ⟨⟨htends, hh1⟩, hr1⟩ := hs1
  have hstep : Step True s.rows (.died t (t.die now dlq)) s1.rows := by
    rw [hr1]
    exact .die row state
  have htasks : s1.tasks = s.tasks.set t.id (t.die now dlq) := congrArg Rows.tasks hr1
  have hi1 : Indexed True s1.rows := h.indexed.step hstep
  have hperm := deadTasks_die h.indexed hi1 row state htasks
  refine (evictExcessDeadTasks_evicts t.id.queue dlq.maxSize hh1 hi1
    (hstep.balanced (by simp [Event.kind]) h.balanced)).mono ?_
  intro s' hs'
  have hother : ∀ id u, id ≠ t.id → (u.state = .dead → id.queue ≠ t.id.queue) →
      (s'.tasks.get id = some u ↔ s.tasks.get id = some u) := by
    intro id u hid hu
    rw [hs'.rows id u hu, htasks, Table.get_set_ne _ _ hid]
  have hwaiting : ∀ id u, u.state = .enqueued →
      (s'.tasks.get id = some u ↔ s.tasks.get id = some u) := by
    intro id u hst
    by_cases hid : id = t.id
    · rw [hs'.rows id u (fun hd => by simp [hst] at hd), hid, htasks, Table.get_set_self, row]
      constructor
      · intro he
        rw [← Option.some.inj he] at hst
        simp [Task.die] at hst
      · intro he
        rw [← Option.some.inj he, state] at hst
        simp at hst
    · exact hother id u hid (fun hd => by simp [hst] at hd)
  have hlocal : Local t.threadKey s s' := fun j hj => (hs'.threads j).trans (htends.away j hj)
  refine ⟨?_, ?_, ?_, hother, hlocal, ?_⟩
  · intro u
    rw [hs'.dead, Retained.perm_iff hperm]
  · intro hpos
    rw [(counted_iff_balanced.mpr hs'.balanced t.id.queue).2.2, ← length_deadTasks]
    exact length_deadTasks_le hi1 hs'.indexed (fun u hu => (hs'.dead u).mp hu) hpos
  · intro u hu hout
    exact hs'.evicted u (hperm.mem_iff.mp hu) hout
  · intro q i hne
    constructor
    · refine h.heads.queueItem_of_local hs'.heads hlocal (fun id u hst => (hwaiting id u hst).mp) ?_
      intro u hu hst
      exact hne u ((hwaiting _ u hst).mp hu)
    · exact hs'.heads.queueItem_of_local h.heads (fun j hj => (hlocal j hj).symm)
        (fun id u hst => (hwaiting id u hst).mpr) (fun u hu _ => hne u hu)

end Kills

section Batches

theorem Serviceable.manned (h : Serviceable s) : Manned s := ⟨h.heads, h.indexed, h.whole⟩

theorem Manned.serviceable (h : Manned s) (hb : Balanced s.rows) : Serviceable s :=
  ⟨h.heads, h.indexed, hb, h.whole⟩

/-- Reports and failures move a row from one state to the next, and its count with it. -/
theorem Steps.report_balanced {es : List Event} (hs : Steps True s.rows es s'.rows)
    (hk : ∀ e ∈ es, e.kind ∈ [EventKind.renewed, .deleted, .retried, .died])
    (hb : Balanced s.rows) : Balanced s'.rows := by
  have hkinds : ∀ k ∈ [EventKind.renewed, .deleted, .retried, .died],
      k ∉ [EventKind.charged, .expired, .leased] := by decide
  exact Trace.invariant_of hs (fun e he _ _ hi hstep => hstep.balanced (hkinds _ (hk e he)) hi) hb

theorem handleTaskFailure_serviceable (dlqConfig : Option DeadLetterQueueConfig) (h : Serviceable s)
    (row : s.tasks.get t.id = some t) (state : t.state = .inProgress) :
    Ensures True (handleTaskFailure s t now dlqConfig) Serviceable := by
  have hmakes : Ensures True (handleTaskFailure s t now dlqConfig) _ :=
    handleTaskFailure_makes now dlqConfig h.indexed row state
  refine ((handleTaskFailure_manned dlqConfig h.manned row state).both hmakes).mono ?_
  intro s' hs'
  obtain ⟨hm, es, hes, hfailed⟩ := hs'
  exact hm.serviceable
    (hes.report_balanced (fun e he => List.mem_cons_of_mem _ (hfailed.kinds e he)) h.balanced)

theorem reportStep_serviceable (dlqConfig : Option DeadLetterQueueConfig) (h : Serviceable s)
    (e : ReportStatusRequestEntry) : Ensures True (reportStep now dlqConfig s e) Serviceable := by
  have hmakes : Ensures True (reportStatus s e.taskId now e.status e.attempt
    e.keepaliveTimeoutInSeconds dlqConfig) _ := reportStatus_makes h.indexed
  refine Ensures.map (((reportStep_manned dlqConfig h.manned e).of_map.both hmakes).mono ?_)
  intro a ha
  obtain ⟨hm, hsame | ⟨_, t, _, _, _, es, hes, hreported⟩⟩ := ha
  · rw [hsame.2]
    exact h
  · exact hm.serviceable (hes.report_balanced hreported.kinds h.balanced)

variable {dlq : DeadLetterQueueConfig}

theorem handleTaskFailure_buries (h : Serviceable s) (row : s.tasks.get t.id = some t)
    (state : t.state = .inProgress) (doomed : t.doomed now) (enabled : dlq.enable = true) :
    Ensures False (handleTaskFailure s t now (some dlq)) (Buried now dlq t s) := by
  unfold handleTaskFailure
  rw [if_neg doomed.1, if_pos doomed.2]
  exact failTaskToDead_buries h row state enabled

/-- The kills among failures that are handled one after the other. -/
theorem handleFailures_bury (enabled : dlq.enable = true) (l : List Task) (s : State)
    (h : Serviceable s) (hb : Batch s.rows l) (hl : ∀ t ∈ l, t.state = .inProgress) :
    Along (fun s t => handleTaskFailure s t now (some dlq)) (fun s1 t => t.doomed now →
      Ensures False (handleTaskFailure s1 t now (some dlq)) (Buried now dlq t s1)) s l := by
  induction l generalizing s with
  | nil => trivial
  | cons t l ih =>
    obtain ⟨state, hrest⟩ := List.forall_mem_cons.mp hl
    refine .cons (fun doomed => handleTaskFailure_buries h hb.head state doomed enabled) ?_
    intro s1 hs
    have hmakes : Ensures True (handleTaskFailure s t now (some dlq)) _ :=
      handleTaskFailure_makes now (some dlq) h.indexed hb.head state
    obtain ⟨es, hes, hfailed⟩ := hmakes.elim hs
    exact ih s1 ((handleTaskFailure_serviceable (some dlq) h hb.head state).elim hs)
      (hfailed.batch hes hb hrest) hrest

/-- The kills among the reports of one call. -/
theorem reportEntries_bury (enabled : dlq.enable = true) (es : List ReportStatusRequestEntry)
    (s : State) (h : Serviceable s) :
    Along (reportStep now (some dlq)) (fun s1 e => ∀ t, s1.tasks.get e.taskId = some t →
      t.state = .inProgress → t.attempts = e.attempt → e.status = .failed → t.doomed now →
        Ensures False (reportStep now (some dlq) s1 e) (Buried now dlq t s1)) s es := by
  induction es generalizing s with
  | nil => trivial
  | cons e es ih =>
    refine .cons ?_ ?_
    · intro t row state attempt failed doomed
      have hid := h.heads.keyed _ t row
      refine Ensures.map ?_
      unfold reportStatus
      rw [row]
      dsimp only
      rw [if_neg (not_not.mpr state), if_neg (not_not.mpr attempt), failed]
      refine (handleTaskFailure_buries h (hid ▸ row) state doomed enabled).bind ?_
      exact fun s' hs' => Ensures.ok hs'
    · exact fun s1 hs => ih s1 ((reportStep_serviceable (some dlq) h e).elim hs)

theorem Serviceable.visitInProgress (h : Serviceable s) (q : QueueId) (cursor : Time) :
    Serviceable (s.visitInProgress q cursor) := by
  have hsame : SameHeads s (s.visitInProgress q cursor) := ⟨rfl, rfl, rfl, rfl⟩
  have hstep : Step True s.rows .tuned (s.visitInProgress q cursor).rows :=
    setQueueState_step s q _ rfl
  refine ⟨h.heads.same hsame, h.indexed.step hstep,
    hstep.balanced (by simp [Event.kind]) h.balanced, ?_⟩
  intro id t row state threaded
  rw [hsame.strand]
  exact h.whole id t row state threaded

/-- A task that a Dequeue or a ReportStatus kills joins the dead letter queue, which
keeps the newest failures up to its bound, whatever else the call did before. -/
theorem kills_keep_newest (h : WellFormed s) (hc : Counted s) (enabled : dlq.enable = true)
    (now : Time) : (∀ q, ∃ l s0, List.Forall₂ (fun i t => s.tasks.get (q.task i.taskId) = some t)
        (timedOutItems s q now) l ∧
      s0 = s.visitInProgress q (((timedOutItems s q now).getLast?.map IndexItem.time).getD now) ∧
      dequeueInProgressTasksBeforeTime s q now (some dlq) =
        l.foldlM (fun s t => handleTaskFailure s t now (some dlq)) s0 ∧
      Along (fun s t => handleTaskFailure s t now (some dlq)) (fun s1 t => t.doomed now →
        Ensures False (handleTaskFailure s1 t now (some dlq)) (Buried now dlq t s1)) s0 l) ∧
    (∀ es, Along (reportStep now (some dlq)) (fun s1 e => ∀ t, s1.tasks.get e.taskId = some t →
      t.state = .inProgress → t.attempts = e.attempt → e.status = .failed → t.doomed now →
        Ensures False (reportStep now (some dlq) s1 e) (Buried now dlq t s1)) s es) ∧
    ∀ t u : Task, 0 ≤ t.lastFailedAt → 0 ≤ u.lastFailedAt →
      (t.deadTasksIndexItem < u.deadTasksIndexItem ↔ t.lastFailedAt < u.lastFailedAt ∨
        t.lastFailedAt = u.lastFailedAt ∧ t.id.taskId < u.id.taskId) := by
  have hs := h.serviceable hc
  refine ⟨?_, fun es => reportEntries_bury enabled es s hs, fun t u =>
    IndexItem.lt_iff (i := t.deadTasksIndexItem) (j := u.deadTasksIndexItem)⟩
  intro q
  obtain ⟨l, hl, hb, _, hrow⟩ := timedOutTasks s q now h.indexed
  unfold dequeueInProgressTasksBeforeTime
  dsimp only
  rw [hl]
  have hread := (forall₂_of_mapM_ok hl).imp (fun _ _ ht => State.getTask_eq_ok.mp ht)
  exact ⟨l, _, hread, rfl, rfl, handleFailures_bury enabled l _ (hs.visitInProgress q _)
    ⟨hb.row, hb.nodup⟩ (fun t ht => (hrow t ht).1)⟩

end Batches

end Store

section Runs

/-- A task that is not retried. -/
def mortalEntry : EnqueueRequestEntry := ⟨[], 5, 100, [], none, [], []⟩

/-- Two tasks are worked, and the first has failed. -/
def mortalRun : List Call :=
  [⟨5, .enqueue ⟨plainQueue, [mortalEntry, mortalEntry]⟩⟩,
    ⟨8, .dequeue ⟨plainQueue, none, 5, keepDead, 60⟩⟩,
    ⟨9, .reportStatus ⟨[⟨plainQueue.task 1, 1, .failed, 60⟩], keepDead⟩⟩]

def mortalTask : Task := (newTask plainQueue 2 mortalEntry 5).lease 8 60

/-- The second failure takes the one place there is. -/
theorem kills_keep_newest_second :
    (deadTasks (run State.empty mortalRun) plainQueue).map Task.id = [plainQueue.task 1] ∧
    Ensures False (reportStep 10 (some ⟨true, 1, 3600⟩) (run State.empty mortalRun)
      ⟨plainQueue.task 2, 1, .failed, 60⟩) (fun s' =>
        (∀ u, u ∈ deadTasks s' plainQueue ↔ u = mortalTask.die 10 ⟨true, 1, 3600⟩) ∧
        Forgotten (plainQueue.task 1) s') := by
  have hplain : ∀ c ∈ mortalRun, ¬c.op.threaded := by simp [mortalRun, Op.threaded, mortalEntry]
  have enabled : (⟨true, 1, 3600⟩ : DeadLetterQueueConfig).enable = true := rfl
  have hkill := ((kills_keep_newest (run_unthreaded_sound _ hplain).wellFormed
    (run_unthreaded_counted _ hplain) enabled 10).2.1 [⟨plainQueue.task 2, 1, .failed, 60⟩]).1
      mortalTask (by decide +kernel) rfl rfl rfl ⟨by decide, rfl⟩
  refine ⟨by decide +kernel, hkill.mono (fun s' hs' => ?_)⟩
  have hnewest : ∀ u ∈ mortalTask.die 10 ⟨true, 1,
    3600⟩ :: deadTasks (run State.empty mortalRun) plainQueue,
      (Newest Task.deadTasksIndexItem 1 (mortalTask.die 10 ⟨true, 1, 3600⟩ ::
        deadTasks (run State.empty mortalRun) plainQueue) u ↔
          u = mortalTask.die 10 ⟨true, 1, 3600⟩) := by decide +kernel
  have hdead : ∀ u, u ∈ deadTasks s' plainQueue ↔ u = mortalTask.die 10 ⟨true, 1, 3600⟩ := by
    intro u
    refine (hs'.dead u).trans ?_
    rw [Retained, if_pos (by decide)]
    constructor
    · exact fun hu => (hnewest u hu.1).mp hu
    · intro he
      subst he
      exact (hnewest _ List.mem_cons_self).mpr rfl
  refine ⟨hdead, ?_⟩
  have hold : ∃ u ∈ deadTasks (run State.empty mortalRun) plainQueue, u.id = plainQueue.task 1 := by
    decide +kernel
  obtain ⟨u, hu, hid⟩ := hold
  rw [← hid]
  refine hs'.evicted u (List.mem_cons_of_mem _ hu) (fun hmem => ?_)
  have he := congrArg Task.id ((hdead u).mp hmem)
  rw [hid] at he
  exact absurd he (by decide)

end Runs

end Moab
