import Moab.Framework.Overflow
import Moab.Tasks.Commute
import Moab.Tasks.Transitions

namespace Moab

open OrderedStore

variable [OrderedStore] {s w : State} {t u : Task} {p q : QueueId} {L : List Task} {th : Prop}

namespace State

/-- What the deletion of a dead task comes to. -/
def bury (s : State) (t : Task) : State :=
  (((s.removeDead t).removeExpiration t).deleteRow t.id).updateCounter t.id.queue (·.addDead (-1))

def buryAll (s : State) (L : List Task) : State := L.foldl bury s

/-- The dead tasks of a queue beyond a bound, oldest first. -/
def spill (s : State) (q : QueueId) (maxSize : Int) : List Task :=
  (overflow maxSize (s.getCounter q).deadTasksCount (s.deadTasksIndex.items q)).filterMap
    (fun i => s.tasks.get (q.task i.taskId))

theorem bury_eq (s : State) (t : Task) : s.bury t = { s with
    tasks := s.tasks.delete t.id
    deadTasksIndex := s.deadTasksIndex.remove t.id.queue t.deadTasksIndexItem
    expiration := s.expiration.remove () t.expirationItem
    counters := bump t.id.queue (·.addDead (-1)) s.counters } := rfl

theorem bury_comm (s : State) (t u : Task) : (s.bury t).bury u = (s.bury u).bury t := by
  simp only [bury_eq]
  congr 1
  · exact Table.delete_comm ..
  · exact Index.remove_comm ..
  · exact Index.remove_comm ..
  · exact bump_comm (fun _ => rfl) u.id.queue t.id.queue s.counters

theorem buryAll_perm {l : List Task} (h : L.Perm l) (s : State) : s.buryAll L = s.buryAll l :=
  h.foldl_eq' (fun t _ u _ s => bury_comm s t u) s

theorem buryAll_append (s : State) (L l : List Task) :
    s.buryAll (L ++ l) = (s.buryAll L).buryAll l := List.foldl_append

theorem buryAll_cons (s : State) (t : Task) (L : List Task) :
    s.buryAll (t :: L) = (s.bury t).buryAll L := rfl

theorem get_buryAll (s : State) (L : List Task) (id : TaskId) :
    (s.buryAll L).tasks.get id = if id ∈ L.map Task.id then none else s.tasks.get id := by
  induction L generalizing s with
  | nil => simp [buryAll]
  | cons t L ih =>
    rw [buryAll_cons, ih, bury_eq, List.map_cons, Table.get_delete]
    by_cases hL : id ∈ L.map Task.id
    · rw [if_pos hL, if_pos (List.mem_cons_of_mem _ hL)]
    · by_cases hid : id = t.id
      · simp [hid]
      · simp [hid, hL]

theorem mem_deadItems_buryAll {i : IndexItem} : i ∈ (s.buryAll L).deadTasksIndex.items q ↔
    i ∈ s.deadTasksIndex.items q ∧ ∀ t ∈ L, ¬(q = t.id.queue ∧ i = t.deadTasksIndexItem) := by
  induction L generalizing s with
  | nil => simp [buryAll]
  | cons t L ih =>
    rw [buryAll_cons, ih, bury_eq, Index.mem_remove, List.forall_mem_cons, and_assoc]

theorem deadItems_buryAll (hL : ∀ t ∈ L, t.id.queue = q) :
    (s.buryAll L).deadTasksIndex.items q =
      (s.deadTasksIndex.items q).filter (· ∉ L.map Task.deadTasksIndexItem) := by
  refine Index.items_eq ((s.deadTasksIndex.items_sorted q).filter _) ?_
  intro i
  rw [mem_deadItems_buryAll, List.mem_filter, decide_eq_true_eq, List.mem_map]
  refine and_congr_right (fun _ => ?_)
  constructor
  · intro h he
    obtain ⟨t, ht, hi⟩ := he
    exact h t ht ⟨(hL t ht).symm, hi.symm⟩
  · intro h t ht hi
    exact h ⟨t, ht, hi.2.symm⟩

theorem deadItems_buryAll_ne (hL : ∀ t ∈ L, t.id.queue ≠ q) :
    (s.buryAll L).deadTasksIndex.items q = s.deadTasksIndex.items q := by
  refine Index.items_ext (fun i => ?_)
  rw [mem_deadItems_buryAll, and_iff_left_iff_imp]
  intro _ t ht hi
  exact hL t ht hi.1.symm

theorem deadCount_bury (s : State) (t : Task) (q : QueueId) :
    ((s.bury t).getCounter q).deadTasksCount =
      (s.getCounter q).deadTasksCount - if t.id.queue = q then 1 else 0 := by
  change (((bump t.id.queue (·.addDead (-1)) s.counters).get q).getD .zero).deadTasksCount = _
  rw [bump, Table.get_set]
  by_cases hq : t.id.queue = q
  · subst hq
    rw [if_pos rfl, if_pos rfl]
    rfl
  · rw [if_neg (Ne.symm hq), if_neg hq]
    exact (Int.sub_zero _).symm

theorem deadCount_buryAll (s : State) (L : List Task) (q : QueueId) :
    ((s.buryAll L).getCounter q).deadTasksCount =
      (s.getCounter q).deadTasksCount - L.countP (fun t => t.id.queue = q) := by
  induction L generalizing s with
  | nil => simp [buryAll]
  | cons t L ih =>
    rw [buryAll_cons, ih, deadCount_bury, List.countP_cons]
    simp only [decide_eq_true_eq]
    split_ifs
    · omega
    · omega

end State

theorem deleteTask_eq_bury (s : State) (dead : t.state = .dead) :
    deleteTask s t .none = .ok (s.bury t) := by
  unfold deleteTask removeFromState
  rw [dead]
  rfl

section Spills

theorem Indexed.dead_row (h : Indexed th s.rows) {i : IndexItem}
    (hi : i ∈ s.deadTasksIndex.items q) :
    ∃ t, s.tasks.get (q.task i.taskId) = some t ∧ t.id = q.task i.taskId ∧ t.state = .dead ∧
      t.deadTasksIndexItem = i := by
  obtain ⟨t, row, hid, dead, htime⟩ := h.of_dead_item hi
  refine ⟨t, row, hid, dead, ?_⟩
  rw [Task.deadTasksIndexItem, htime, hid]
  rfl

/-- Dead items and their rows correspond. -/
theorem map_deadItem_filterMap (h : Indexed th s.rows) {l : List IndexItem}
    (hl : ∀ i ∈ l, i ∈ s.deadTasksIndex.items q) :
    (l.filterMap (fun i => s.tasks.get (q.task i.taskId))).map Task.deadTasksIndexItem = l := by
  induction l with
  | nil => rfl
  | cons i l ih =>
    obtain ⟨t, row, _, _, hi⟩ := h.dead_row (hl i List.mem_cons_self)
    rw [List.filterMap_cons, row, List.map_cons, hi,
      ih (fun j hj => hl j (List.mem_cons_of_mem _ hj))]

theorem map_deadItem_spill (h : Indexed th s.rows) (q : QueueId) (maxSize : Int) :
    (s.spill q maxSize).map Task.deadTasksIndexItem =
      overflow maxSize (s.getCounter q).deadTasksCount (s.deadTasksIndex.items q) :=
  map_deadItem_filterMap h (fun _ hi => overflow_sublist.subset hi)

/-- A dead task with its row and its item. -/
structure Buriable (s : State) (q : QueueId) (t : Task) : Prop where
  row : s.tasks.get t.id = some t
  queue : t.id.queue = q
  dead : t.state = .dead
  item : t.deadTasksIndexItem ∈ s.deadTasksIndex.items q

theorem Indexed.buriable (h : Indexed th s.rows) {maxSize : Int} (ht : t ∈ s.spill q maxSize) :
    Buriable s q t := by
  obtain ⟨i, hi, row⟩ := List.mem_filterMap.mp ht
  have hmem := overflow_sublist.subset hi
  obtain ⟨u, rowu, hid, dead, hitem⟩ := h.dead_row hmem
  obtain rfl := Option.some.inj (row.symm.trans rowu)
  exact ⟨hid ▸ row, congrArg TaskId.queue hid, dead, hitem ▸ hmem⟩

theorem filterMap_getTask {is : List IndexItem}
    (h : List.Forall₂ (fun i t => s.getTask (q.task i.taskId) = .ok t) is L) :
    is.filterMap (fun i => s.tasks.get (q.task i.taskId)) = L := by
  induction h with
  | nil => rfl
  | cons hi _ ih => rw [List.filterMap_cons, State.getTask_eq_ok.mp hi, ih]

theorem evictExcessDeadTasks_eq (h : Indexed th s.rows) (q : QueueId) (maxSize : Int) :
    evictExcessDeadTasks s q maxSize (s.getCounter q).deadTasksCount =
      .ok (s.buryAll (s.spill q maxSize)) := by
  unfold evictExcessDeadTasks State.spill overflow
  by_cases hbound : maxSize ≤ 0
  · rw [if_pos (Or.inl hbound), if_pos hbound]
    rfl
  · rw [if_neg hbound]
    by_cases hfew : (s.getCounter q).deadTasksCount - maxSize ≤ 0
    · rw [if_pos (Or.inr hfew), Int.toNat_of_nonpos hfew]
      rfl
    · rw [if_neg (not_or.mpr ⟨hbound, hfew⟩)]
      obtain ⟨l, hl, _, hdead⟩ := oldestDead s q ((s.getCounter q).deadTasksCount - maxSize).toNat h
      dsimp only
      rw [hl, filterMap_getTask (forall₂_of_mapM_ok hl)]
      exact foldlM_eq_ok (fun t ht s => deleteTask_eq_bury s (hdead t ht)) s

theorem spill_congr (hitems : w.deadTasksIndex.items q = s.deadTasksIndex.items q)
    (hcount : (w.getCounter q).deadTasksCount = (s.getCounter q).deadTasksCount)
    (hrows : ∀ i ∈ s.deadTasksIndex.items q,
      w.tasks.get (q.task i.taskId) = s.tasks.get (q.task i.taskId)) (maxSize : Int) :
    w.spill q maxSize = s.spill q maxSize := by
  unfold State.spill
  rw [hitems, hcount]
  exact List.filterMap_congr (fun i hi => hrows i (overflow_sublist.subset hi))

/-- What is buried in one queue does not count in another. -/
theorem spill_buryAll_ne (hL : ∀ t ∈ L, t.id.queue = p) (hpq : p ≠ q) (maxSize : Int) :
    (w.buryAll L).spill q maxSize = w.spill q maxSize := by
  have hne : ∀ t ∈ L, t.id.queue ≠ q := fun t ht => by
    rw [hL t ht]
    exact hpq
  refine spill_congr (State.deadItems_buryAll_ne hne) ?_ ?_ maxSize
  · rw [State.deadCount_buryAll, List.countP_eq_zero.mpr (by simpa using hne)]
    exact Int.sub_zero _
  · intro i _
    rw [State.get_buryAll, if_neg]
    intro hid
    obtain ⟨t, ht, hid⟩ := List.mem_map.mp hid
    exact hne t ht (congrArg TaskId.queue hid)

/-- The dead tasks of w are those of s and one more. -/
structure Joins (q : QueueId) (s w : State) : Prop where
  one : ∃ i ∈ w.deadTasksIndex.items q,
    s.deadTasksIndex.items q = (w.deadTasksIndex.items q).filter (· ≠ i)
  count : (w.getCounter q).deadTasksCount = (s.getCounter q).deadTasksCount + 1
  rows : ∀ i ∈ s.deadTasksIndex.items q,
    s.tasks.get (q.task i.taskId) = w.tasks.get (q.task i.taskId)

/-- Evicting after each of two deaths comes to the same as evicting once at the end. -/
theorem Joins.spill (h : Joins q s w) (hs : Indexed th s.rows) (hw : Indexed th w.rows)
    (maxSize : Int) : (s.spill q maxSize ++ (w.buryAll (s.spill q maxSize)).spill q maxSize).Perm
      (w.spill q maxSize) := by
  obtain ⟨i, hi, hitems⟩ := h.one
  obtain ⟨A, B, hsplit⟩ := List.append_of_mem hi
  have hn : (A ++ i :: B).Nodup := hsplit ▸ w.deadTasksIndex.items_nodup q
  have hrest : s.deadTasksIndex.items q = A ++ B := by
    have hnot := List.nodup_middle.mp hn
    rw [hitems, hsplit, List.filter_append, List.filter_cons]
    simp only [ne_eq, not_true_eq_false, decide_false, Bool.false_eq_true, if_false]
    rw [← List.filter_append, List.filter_eq_self]
    intro j hj
    have hne : j ≠ i := by
      intro he
      subst he
      exact (List.nodup_cons.mp hnot).1 hj
    simpa using hne
  have hfirst : ∀ t ∈ s.spill q maxSize, t.id.queue = q := fun t ht => (hs.buriable ht).queue
  have hmap := map_deadItem_spill hs q maxSize
  have hlength := congrArg List.length hmap
  rw [List.length_map] at hlength
  have hcount : ((w.buryAll (s.spill q maxSize)).getCounter q).deadTasksCount =
      (s.getCounter q).deadTasksCount + 1 -
        (overflow maxSize (s.getCounter q).deadTasksCount (A ++ B)).length := by
    rw [State.deadCount_buryAll, List.countP_eq_length.mpr (by simpa using hfirst),
      hlength, h.count, hrest]
  -- both parts read the rows of w
  have hone : s.spill q maxSize =
      (overflow maxSize (s.getCounter q).deadTasksCount (A ++ B)).filterMap
        (fun i => w.tasks.get (q.task i.taskId)) := by
    rw [State.spill, hrest]
    exact List.filterMap_congr (fun j hj => h.rows j (hrest ▸ overflow_sublist.subset hj))
  have htwo : (w.buryAll (s.spill q maxSize)).spill q maxSize =
      (overflow maxSize ((s.getCounter q).deadTasksCount + 1 -
        (overflow maxSize (s.getCounter q).deadTasksCount (A ++ B)).length)
          ((A ++ i :: B).filter
            (· ∉ overflow maxSize (s.getCounter q).deadTasksCount (A ++ B)))).filterMap
        (fun i => w.tasks.get (q.task i.taskId)) := by
    rw [State.spill, hcount, State.deadItems_buryAll hfirst, hmap, hsplit, hrest]
    refine List.filterMap_congr (fun j hj => ?_)
    obtain ⟨hj, hleft⟩ := List.mem_filter.mp (overflow_sublist.subset hj)
    rw [State.get_buryAll, if_neg]
    intro hid
    obtain ⟨t, ht, hid⟩ := List.mem_map.mp hid
    obtain ⟨u, rowu, _, _, hu⟩ := hw.dead_row (hsplit ▸ hj)
    have hb := hs.buriable ht
    have hrow : s.tasks.get t.id = w.tasks.get t.id := by
      have hrow := h.rows _ hb.item
      rw [← hb.queue] at hrow
      exact hrow
    rw [← hid, ← hrow, hb.row] at rowu
    obtain rfl := Option.some.inj rowu
    rw [← hu, ← hrest, ← hmap, decide_eq_true_eq] at hleft
    exact hleft (List.mem_map_of_mem ht)
  rw [htwo, hone, ← List.filterMap_append, State.spill, h.count, hsplit]
  exact (overflow_insert hn _ _).filterMap _

end Spills

section Errands

/-- The rows and the items of some tasks, and the tallies of their queues. -/
def burialArea (L : List Task) : Area where
  task id := id ∈ L.map Task.id
  dedupeKey _ := False
  thread _ := False
  counter _ := False
  tally q := ∃ t ∈ L, t.id.queue = q
  queue _ := False

def burialBooks (L : List Task) (x : Table QueueId TasksCounter) : Table QueueId TasksCounter :=
  L.foldl (fun x t => bump t.id.queue (·.addDead (-1)) x) x

theorem Alike.buryAll {A : Area} {s₀ : State} (L : List Task) {s u : State} (h : Alike A s₀ s u)
    (hL : ∀ t ∈ L, A.task t.id ∧ A.tally t.id.queue) : Alike A s₀ (s.buryAll L) (u.buryAll L) := by
  induction L generalizing s u with
  | nil => exact h
  | cons t L ih =>
    obtain ⟨⟨htask, htally⟩, hL⟩ := List.forall_mem_cons.mp hL
    exact ih ((((h.removeDead htask).removeExpiration htask).deleteRow htask).updateCounter
      (Or.inr htally) _) hL

theorem burial_errand (L : List Task) :
    Errand (burialArea L) (burialBooks L) (fun s => .ok (s.buryAll L)) where
  blind _ := id
  confined _ _ _ h := .ok (h.buryAll L (fun t ht => ⟨List.mem_map_of_mem ht, t, ht, rfl⟩))
  books s := by
    refine Ensures.ok ?_
    unfold State.buryAll burialBooks
    induction L generalizing s with
    | nil => rfl
    | cons t L ih => exact ih (s.bury t)

theorem burialArea_proper (h : ∀ id t, s.tasks.get id = some t → t.id = id) (L : List Task) :
    (burialArea L).ProperIn s := by
  intro a v ha hv
  cases a with
  | task id => exact h id v hv
  | thread k => exact ha.elim
  | member k i => exact ha.elim
  | _ => trivial

end Errands

end Moab
