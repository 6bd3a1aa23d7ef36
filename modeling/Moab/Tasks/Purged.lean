import Moab.Framework.SortedList
import Moab.Tasks.Collect
import Moab.Tasks.Filed
import Moab.Tasks.Unthreaded

namespace Moab

open OrderedStore

section Drain

variable [OrderedStore] {s s' s'' : State} {q : QueueId} {m n : Nat}

/-- The number of task rows of a queue id. -/
def rowsOf (s : State) (q : QueueId) : Nat := s.tasks.count (fun id _ => id.queue = q)

/-- A page is full as long as another follows. -/
theorem listTasks_length (s : State) (q : QueueId) (hn : 0 < n) :
    (listTasks s q n).1.length = min n (rowsOf s q) ∧
    ((listTasks s q n).2 = true ↔ n < rowsOf s q) := by
  have hrows : (s.tasks.after (fun id => id.queue = q) none).length = rowsOf s q := by
    rw [rowsOf, Table.count, List.countP_eq_length_filter, Table.after]
    simp
  unfold listTasks
  rw [Table.page_eq, List.length_map, pageOf, List.length_take, hrows]
  refine ⟨rfl, ?_⟩
  split_ifs with hmore
  · have hne : (s.tasks.after (fun id => id.queue = q) none).take n ≠ [] := by
      rw [← List.length_pos_iff, List.length_take]
      omega
    simp [hmore, List.getLast?_eq_some_getLast hne]
  · simp [hmore]

/-- Some rows of one queue id are gone, and nothing else that a collection of purged
queue ids looks at. -/
structure Drained (q : QueueId) (n : Nat) (s s' : State) : Prop where
  markers : s'.purgeGCRecords = s.purgeGCRecords
  kept : ∀ id t, s'.tasks.get id = some t → s.tasks.get id = some t
  rows : rowsOf s' q + n = rowsOf s q
  others : ∀ r, r ≠ q → rowsOf s' r = rowsOf s r

theorem Drained.refl (q : QueueId) (s : State) : Drained q 0 s s :=
  ⟨rfl, fun _ _ ht => ht, rfl, fun _ _ => rfl⟩

theorem Drained.trans (h : Drained q m s s') (k : Drained q n s' s'') :
    Drained q (m + n) s s'' where
  markers := k.markers.trans h.markers
  kept id t ht := h.kept id t (k.kept id t ht)
  rows := by
    have hm := h.rows
    have hn := k.rows
    omega
  others r hr := (k.others r hr).trans (h.others r hr)

theorem deleteTask_drained {t : Task} (ht : s.tasks.get t.id = some t) (hq : t.id.queue = q) :
    Ensures True (deleteTask s t .none) (Drained q 1 s) := by
  apply ((deleteTask_rows s t .none).weaken (fun _ => trivial)).mono
  intro s' hrows
  have htasks : s'.tasks = s.tasks.delete t.id := congrArg Rows.tasks hrows
  have hcount : ∀ r, rowsOf s' r + (decide (t.id.queue = r)).toNat = rowsOf s r := by
    intro r
    have hdelete := s.tasks.count_delete (fun id _ => id.queue = r) t.id
    rw [ht, ← htasks] at hdelete
    exact hdelete
  refine ⟨congrArg Rows.purgeGCRecords hrows, ?_, ?_, ?_⟩
  · intro id u hu
    rw [htasks, Table.get_delete] at hu
    split_ifs at hu
    exact hu
  · have hone := hcount q
    simpa [hq] using hone
  · intro r hr
    have hnone := hcount r
    simpa [hq, Ne.symm hr] using hnone

/-- A page that does not use the budget up is deleted to its end. -/
theorem drainPage_drained (maxVisited : Nat) (ts : List Task) (s : State) (visited : Nat)
    (hb : Batch s.rows ts) (hq : ∀ t ∈ ts, t.id.queue = q) :
    Ensures True (drainPage maxVisited s visited ts) (fun a => ∃ n, Drained q n s a.1 ∧
      (a.2.2 = false → n = ts.length ∧ a.2.1 = visited + n ∧
        (visited < maxVisited → a.2.1 < maxVisited))) := by
  induction ts generalizing s visited with
  | nil => exact Ensures.ok ⟨0, Drained.refl q s, fun _ => ⟨rfl, rfl, id⟩⟩
  | cons t ts ih =>
    obtain ⟨hqueue, hrest⟩ := List.forall_mem_cons.mp hq
    have hfirst := deleteTask_drained hb.head hqueue
    have hrows := (deleteTask_rows s t .none).weaken (fun _ => trivial)
    apply (hfirst.and hrows).bind
    intro s' hs'
    obtain ⟨hone, hdelete⟩ := hs'
    apply Ensures.ite
    · exact fun _ => Ensures.ok ⟨1, hone, by simp⟩
    · intro hbudget
      have hb' : Batch s'.rows ts := by
        apply hb.tail
        intro u hu
        rw [hdelete]
        exact Table.get_delete_ne _ (hb.ne_head u hu)
      apply (ih s' (visited + 1) hb' hrest).mono
      intro a ha
      obtain ⟨n, hdrained, hdone⟩ := ha
      refine ⟨1 + n, hone.trans hdrained, fun hstop => ?_⟩
      obtain ⟨hn, hvisited, hlt⟩ := hdone hstop
      rw [List.length_cons]
      exact ⟨by omega, by omega, fun _ => hlt (by omega)⟩

/-- A queue id loses its marker only when the budget is larger than what is left of
its rows. -/
theorem drainRecord_drained {pageSize : Nat} (hp : 0 < pageSize)
    (maxVisited pages : Nat) (s : State) (visited : Nat)
    (hkey : ∀ id t, s.tasks.get id = some t → t.id = id) (hv : visited < maxVisited) :
    Ensures True (drainRecord pageSize maxVisited q pages s visited) (fun a =>
      (a.2.2 = true → a.1.purgeGCRecords = s.purgeGCRecords) ∧
      (a.2.2 = false → ∃ u, Drained q (rowsOf s q) s u ∧ a.1 = dropQueue u q ∧
        a.2.1 = visited + rowsOf s q ∧ a.2.1 < maxVisited)) := by
  induction pages generalizing s visited with
  | zero => exact Ensures.ok ⟨fun _ => rfl, by simp⟩
  | succ pages ih =>
    obtain ⟨hb, hq, _⟩ := listTasks_batch (q := q) hkey hp
    obtain ⟨hlength, hmore⟩ := listTasks_length s q hp
    apply (drainPage_drained maxVisited _ s visited hb hq).bind
    intro a ha
    obtain ⟨n, hdrained, hdone⟩ := ha
    apply Ensures.ite
    · intro hstop
      exact Ensures.ok ⟨fun _ => hdrained.markers, by simp [hstop]⟩
    · intro hstop
      obtain ⟨hn, hvisited, hlt⟩ := hdone (by simpa using hstop)
      have hleft := hdrained.rows
      apply Ensures.ite
      · intro _
        have hkey' : ∀ id t, a.1.tasks.get id = some t → t.id = id :=
          fun id t ht => hkey id t (hdrained.kept id t ht)
        apply (ih a.1 a.2.1 hkey' (hlt hv)).mono
        intro b hb
        refine ⟨fun hs => (hb.1 hs).trans hdrained.markers, fun hs => ?_⟩
        obtain ⟨u, hu, hdrop, hcount, hbudget⟩ := hb.2 hs
        have hall := hdrained.trans hu
        rw [Nat.add_comm, hleft] at hall
        exact ⟨u, hall, hdrop, by omega, hbudget⟩
      · intro hlast
        have hfits : rowsOf s q ≤ pageSize := not_lt.mp (fun h => hlast (hmore.mpr h))
        have hall : n = rowsOf s q := by omega
        rw [hall] at hdrained hvisited
        exact Ensures.ok ⟨by simp, fun _ => ⟨a.1, hdrained, rfl, hvisited, hlt hv⟩⟩

/-- A budget gets through the queue ids up to and including q. -/
def clears (rows : QueueId → Nat) (q : QueueId) : Nat → List QueueId → Bool
  | _, [] => false
  | budget, r :: rs => rows r < budget ∧ (r = q ∨ clears rows q (budget - rows r) rs)

omit [OrderedStore] in
theorem clears_congr {f g : QueueId → Nat} {budget : Nat} {rs : List QueueId}
    (h : ∀ r ∈ rs, f r = g r) : clears f q budget rs = clears g q budget rs := by
  induction rs generalizing budget with
  | nil => rfl
  | cons r rs ih =>
    rw [clears, clears, h r List.mem_cons_self, ih (fun r hr => h r (List.mem_cons_of_mem _ hr))]

/-- A marker outlives a collection whose budget does not get through its queue id. -/
theorem drainRecords_marker {pageSize : Nat} (hp : 0 < pageSize) (maxVisited : Nat)
    (rs : List QueueId) (s : State) (visited : Nat)
    (hkey : ∀ id t, s.tasks.get id = some t → t.id = id) (hv : visited < maxVisited) (hn : rs.Nodup)
    (hmark : s.purgeGCRecords.get q = some ())
    (h : clears (rowsOf s) q (maxVisited - visited) rs = false) :
    Ensures True (drainRecords pageSize maxVisited s visited rs)
      (fun s' => s'.purgeGCRecords.get q = some ()) := by
  induction rs generalizing s visited with
  | nil => exact Ensures.ok hmark
  | cons r rs ih =>
    obtain ⟨hfirst, hn⟩ := List.nodup_cons.mp hn
    apply (drainRecord_drained hp maxVisited maxVisited s visited hkey hv (q := r)).bind
    intro a ha
    apply Ensures.ite
    · intro hstop
      apply Ensures.ok
      rw [ha.1 hstop]
      exact hmark
    · intro hstop
      obtain ⟨u, hu, hdrop, hcount, hbudget⟩ := ha.2 (by simpa using hstop)
      rw [clears] at h
      have hroom : rowsOf s r < maxVisited - visited := by omega
      simp only [hroom, true_and, decide_eq_false_iff_not, not_or, Bool.not_eq_true] at h
      obtain ⟨hne, hlater⟩ := h
      have hrows : ∀ r' ∈ rs, rowsOf s r' = rowsOf a.1 r' := by
        intro r' hr'
        have hother := hu.others r' (fun he => hfirst (he ▸ hr'))
        rw [hdrop]
        exact hother.symm
      rw [clears_congr hrows, Nat.sub_sub, ← hcount] at hlater
      have hmark' : a.1.purgeGCRecords.get q = some () := by
        rw [hdrop]
        change (u.purgeGCRecords.delete r).get q = some ()
        rw [Table.get_delete_ne _ (Ne.symm hne), hu.markers]
        exact hmark
      apply ih a.1 a.2.1 _ hbudget hn hmark' hlater
      intro id t ht
      rw [hdrop] at ht
      exact hkey id t (hu.kept id t ht)

end Drain

section Marker

variable [OrderedStore] {s : State} {q : QueueId}

/-- The call does not collect the last row under q. -/
def Call.leavesMarker (q : QueueId) (s : State) (c : Call) : Prop :=
  match c.op with
  | .runPurgeQueueGarbageCollection req =>
    clears (rowsOf s) q (orDefault req.maxVisitedTasks 1000)
      ((s.purgeGCRecords.entries.map Prod.fst).take (orDefault req.gcRecordsPageSize 100)) = false
  | _ => True

instance (q : QueueId) (s : State) (c : Call) : Decidable (c.leavesMarker q s) :=
  match c with
  | ⟨_, .runPurgeQueueGarbageCollection _⟩ => inferInstanceAs (Decidable (_ = false))
  | ⟨_, .enqueue _⟩ | ⟨_, .dequeue _⟩ | ⟨_, .reportStatus _⟩ | ⟨_, .deleteTasks _⟩ |
    ⟨_, .restartTasks _⟩ | ⟨_, .purgeQueue _⟩ | ⟨_, .runTasksGarbageCollection _⟩ => .isTrue trivial

theorem commit_marker {c : Call} (hf : Filed s.spine) (hmark : s.purgeGCRecords.get q = some ())
    (h : c.leavesMarker q s) : (commit s c.now c.op).purgeGCRecords.get q = some () := by
  obtain ⟨now, op⟩ := c
  apply commit_keeps (I := fun s => s.purgeGCRecords.get q = some ()) hmark
  by_cases hcollect : op.collectsPurged = true
  · cases op with
    | runPurgeQueueGarbageCollection req =>
      apply Ensures.map
      have hn : (s.purgeGCRecords.entries.map Prod.fst).Nodup := s.purgeGCRecords.entries_keys_nodup
      exact drainRecords_marker (orDefault_pos _ (by decide)) _ _ s 0
        (fun id t ht => (hf.row id t ht).1)
        (orDefault_pos _ (by omega)) (hn.sublist (List.take_sublist _ _)) hmark h
    | _ => simp [Op.collectsPurged] at hcollect
  · apply (Stable.of_side (fun _ markers => markers.get q = some ())).exec hmark op
    · exact fun _ _ _ _ hx => hx
    · intro r x _ hx
      change (x.purgeGCRecords.set r ()).get q = some ()
      rw [Table.get_set]
      split_ifs
      · rfl
      · exact hx
    · intro req r x hop
      simp [hop, Op.collectsPurged] at hcollect

/-- Every call that resolves a queue through a cache is turned away. -/
structure Refuses (pager : Pager) (s : State) (q : QueueId) : Prop where
  enqueue : ∀ now req, req.queueId = q →
    Moab.enqueue s now req = .ok (s, .error (.queueIdPurged q))
  dequeue : ∀ now req, req.queueId = q →
    Moab.dequeue s now req = .ok (s, .error (.queueIdPurged q))
  listTasks : ∀ req, req.queueId = q → coreListTasks pager s req = .ok (.error (.queueIdPurged q))

theorem Refuses.of_marker (pager : Pager) (hmark : s.purgeGCRecords.get q = some ()) :
    Refuses pager s q := by
  have hcheck : checkQueueNotPurged s q = some (.queueIdPurged q) := by
    rw [checkQueueNotPurged, hmark]
    rfl
  refine ⟨?_, ?_, ?_⟩
  · intro now req hq
    rw [Moab.enqueue, hq, hcheck]
  · intro now req hq
    rw [Moab.dequeue, hq, hcheck]
  · intro req hq
    rw [coreListTasks, hq, hcheck]

/-- A purged queue id is refused in every later state, as long as no collection gets
through its rows. -/
theorem run_purged (pager : Pager) (q : QueueId) (now : Time) (before after : List Call)
    (h : Along runStep (Call.leavesMarker q) (run State.empty (before ++ [⟨now, .purgeQueue q⟩]))
      after) : Refuses pager (run State.empty (before ++ ⟨now, .purgeQueue q⟩ :: after)) q := by
  have hsplit : run State.empty (before ++ ⟨now, .purgeQueue q⟩ :: after) =
      run (run State.empty (before ++ [⟨now, .purgeQueue q⟩])) after := by
    simp [run]
  have hpurged : (run State.empty (before ++ [⟨now, .purgeQueue q⟩])).purgeGCRecords.get q =
      some () := by
    have hlast : run State.empty (before ++ [⟨now, .purgeQueue q⟩]) =
        purgeQueue (run State.empty before) q := by
      simp [run, commit, exec]
    rw [hlast]
    exact Table.get_set_self _ _ _
  have hend := run_keeps (I := fun s => Filed s.spine ∧ s.purgeGCRecords.get q = some ())
    (fun s c hs hc => ⟨commit_filed hs.1 c.now c.op, commit_marker hs.1 hs.2 hc⟩) after _ h
    ⟨run_filed _, hpurged⟩
  rw [hsplit]
  exact Refuses.of_marker pager hend.2

end Marker

section Runs

/-- The store pages by plain prefixes. -/
def firstPages : Pager where
  page l _ n := ⟨l.take n, none, none⟩

def fillPlain : Call := ⟨5, .enqueue ⟨plainQueue, [plainEntry 6 100 [], plainEntry 7 100 []]⟩⟩

/-- A collection with a budget of one task meets two. -/
theorem run_purged_partly : Refuses firstPages (run State.empty
    ([fillPlain] ++ ⟨6, .purgeQueue plainQueue⟩ ::
      [⟨7, .runPurgeQueueGarbageCollection ⟨0, 0, 1⟩⟩, ⟨8, .runTasksGarbageCollection ⟨0, 0⟩⟩]))
    plainQueue :=
  run_purged firstPages plainQueue 6 [fillPlain] _ (by decide +kernel)

/-- The purged queue id is drained, and a stale Enqueue creates a task under it. -/
theorem run_drained_accepts : ∃ s' t,
    enqueue (run State.empty [fillPlain, ⟨6, .purgeQueue plainQueue⟩,
      ⟨7, .runPurgeQueueGarbageCollection ⟨0, 0, 0⟩⟩]) 8 ⟨plainQueue, [plainEntry 9 100 []]⟩ =
        .ok (s', .ok [t]) ∧ s'.tasks.get (plainQueue.task 1) = some t := by
  have haccepts : Ensures False (enqueue (run State.empty [fillPlain,
      ⟨6, .purgeQueue plainQueue⟩, ⟨7, .runPurgeQueueGarbageCollection ⟨0, 0, 0⟩⟩]) 8
      ⟨plainQueue, [plainEntry 9 100 []]⟩) (fun a => a.2.toOption =
        some ((a.1.tasks.get (plainQueue.task 1)).toList) ∧
        (a.1.tasks.get (plainQueue.task 1)).isSome) := by decide +kernel
  obtain ⟨⟨s', response⟩, hs', hresponse, hrow⟩ := haccepts.returns
  obtain ⟨t, ht⟩ := Option.isSome_iff_exists.mp hrow
  refine ⟨s', t, ?_, ht⟩
  cases response with
  | error e => simp [Except.toOption] at hresponse
  | ok ts =>
    simp only [Except.toOption, ht, Option.toList_some, Option.some.injEq] at hresponse
    rw [hs', hresponse]

end Runs

end Moab
