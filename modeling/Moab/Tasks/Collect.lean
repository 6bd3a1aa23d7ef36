import Moab.Tasks.Calls

namespace Moab

open OrderedStore

variable [OrderedStore]

section Delete

variable {th : Prop}

/-- The events of DeleteTasks. -/
def Deletes (q : QueueId) (ids : List Nat) (evs : List Event) : Prop :=
  ∀ ev ∈ evs, ∃ t, ev = .deleted t .none ∧ ∃ n ∈ ids, t.id = q.task n

theorem deleteTasks_makes {s : State} {req : DeleteTasksRequest} (h : Indexed th s.rows) :
    Ensures th (deleteTasks s req) (Makes th (Deletes req.queueId req.taskIds) s) := by
  have loop : ∀ (l : List Nat) (a : State), (∀ n ∈ l, n ∈ req.taskIds) →
      Makes th (Deletes req.queueId req.taskIds) s a →
      Ensures th (l.foldlM (deleteTaskById req.queueId) a)
        (Makes th (Deletes req.queueId req.taskIds) s) := by
    intro l a hl ha
    induction l generalizing a with
    | nil => exact Ensures.pure ha
    | cons n l ih =>
      rw [List.foldlM_cons]
      have hrest := fun m hm => hl m (List.mem_cons_of_mem n hm)
      refine Ensures.bind (P := Makes th (Deletes req.queueId req.taskIds) s) ?_
        (fun b hb => ih b hrest hb)
      unfold deleteTaskById
      cases row : a.tasks.get (req.queueId.task n) with
      | none => exact Ensures.ok ha
      | some t =>
        have hid := (ha.indexed h).key _ _ row
        have row' : a.rows.tasks.get t.id = some t := by
          rw [hid]
          exact row
        refine (deleteTask_makes .none (ha.indexed h) row').mono (fun b hb => ha.trans hb ?_)
        intro es fs he hf ev hev
        rcases List.mem_append.mp hev with hev | hev
        · exact he ev hev
        · rw [hf] at hev
          exact ⟨t, List.mem_singleton.mp hev, n, hl n List.mem_cons_self, hid⟩
  exact loop req.taskIds s (fun _ hn => hn) (Makes.none (by simp [Deletes]) rfl)

end Delete

section Sweep

variable {th : Prop}

/-- The events of the expiry sweep: only tasks that wait or are dead go. -/
def Sweeps (now : Time) (evs : List Event) : Prop :=
  ∀ ev ∈ evs, ∃ t, ev = .deleted t .expired ∧ (t.state = .enqueued ∨ t.state = .dead) ∧
    Time.rank t.expiresAt ≤ Time.rank now

omit [OrderedStore] in
theorem Sweeps.append {now : Time} {es fs : List Event} (he : Sweeps now es) (hf : Sweeps now fs) :
    Sweeps now (es ++ fs) := by
  intro ev hev
  rcases List.mem_append.mp hev with hev | hev
  · exact he ev hev
  · exact hf ev hev

/-- Entries of the expiration index that still have their task. -/
structure Refs (now : Time) (r : Rows) (refs : List ExpirationItem) : Prop where
  row : ∀ ref ∈ refs, ∃ t, r.tasks.get ref.taskId = some t ∧
    (t.state = .enqueued ∨ t.state = .dead) ∧ Time.rank t.expiresAt ≤ Time.rank now
  nodup : (refs.map ExpirationItem.taskId).Nodup

/-- The first entry is swept by deleting its task. -/
theorem Refs.sweep {now : Time} {s : State} {ref : ExpirationItem} {refs : List ExpirationItem}
    (h : Indexed th s.rows) (hr : Refs now s.rows (ref :: refs)) :
    ∃ t, t.id = ref.taskId ∧ s.rows.tasks.get t.id = some t ∧
      (t.state = .enqueued ∨ t.state = .dead) ∧ Time.rank t.expiresAt ≤ Time.rank now ∧
      sweepRef s ref = deleteTask s t .expired ∧
      ∀ s', Makes th (· = [.deleted t .expired]) s s' → Refs now s'.rows refs := by
  obtain ⟨t, row, hstate, hdue⟩ := hr.row ref List.mem_cons_self
  have hid := h.key _ _ row
  refine ⟨t, hid, by rw [hid]; exact row, hstate, hdue, ?_, fun s' hs => ?_⟩
  · unfold sweepRef
    rw [show s.tasks.get ref.taskId = some t from row]
  · obtain ⟨hnot, hnodup⟩ := List.nodup_cons.mp hr.nodup
    obtain ⟨es, hes, rfl⟩ := hs
    refine ⟨fun ref' hm => ?_, hnodup⟩
    have hne : t.id ≠ ref'.taskId := by
      intro he
      exact hnot (hid.symm.trans he ▸ List.mem_map_of_mem hm)
    rw [hes.frame (by simpa [Event.task] using hne)]
    exact hr.row ref' (List.mem_cons_of_mem _ hm)

theorem sweepRefs_makes {now : Time} (refs : List ExpirationItem) (s : State)
    (h : Indexed th s.rows) (hr : Refs now s.rows refs) :
    Ensures th (refs.foldlM sweepRef s) (Makes th (Sweeps now) s) := by
  induction refs generalizing s with
  | nil => exact Ensures.pure (Makes.none (by simp [Sweeps]) rfl)
  | cons ref refs ih =>
    rw [List.foldlM_cons]
    obtain ⟨t, _, row, hstate, hdue, hsweep, hrest⟩ := hr.sweep h
    rw [hsweep]
    refine (deleteTask_makes .expired h row).bind (fun s' hs => ?_)
    refine (ih s' (hs.indexed h) (hrest s' hs)).mono (fun s'' hs' => hs.trans hs' ?_)
    intro es fs he hf
    refine Sweeps.append ?_ hf
    intro ev hev
    rw [he] at hev
    exact ⟨t, List.mem_singleton.mp hev, hstate, hdue⟩

theorem listDue_refs {s : State} {now : Time} {limit : Nat} (h : Indexed th s.rows) :
    Refs now s.rows (listDue s now limit) := by
  have hitem : ∀ ref ∈ listDue s now limit, ∃ t, s.rows.tasks.get ref.taskId = some t ∧
      (t.state = .enqueued ∨ t.state = .dead) ∧ t.expiresAt = ref.expiresAt ∧
        Time.rank ref.expiresAt ≤ Time.rank now := by
    intro ref hm
    have hf := List.mem_filter.mp (List.mem_of_mem_take hm)
    obtain ⟨t, row, hk⟩ := (h.expiration () ref).mp hf.1
    refine ⟨t, row, ?_⟩
    simp only [expirationItems] at hk
    split_ifs at hk with hs
    simp only [Option.some.injEq, Prod.mk.injEq, true_and] at hk
    exact ⟨hs, congrArg ExpirationItem.expiresAt hk, (decide_eq_true_eq.mp hf.2).2⟩
  refine ⟨fun ref hm => ?_, ?_⟩
  · obtain ⟨t, row, hs, he, hd⟩ := hitem ref hm
    exact ⟨t, row, hs, he ▸ hd⟩
  · refine List.Nodup.map_on ?_ (((s.expiration.items_nodup ()).filter _).sublist
      (List.take_sublist _ _))
    intro a ha b hb hab
    obtain ⟨t, ht, _, hta, _⟩ := hitem a ha
    obtain ⟨u, hu, _, hub, _⟩ := hitem b hb
    rw [hab, hu] at ht
    cases a; cases b
    simp only [ExpirationItem.mk.injEq]
    exact ⟨hta.symm.trans ((congrArg Task.expiresAt (Option.some.inj ht)).symm.trans hub), hab⟩

theorem sweepRounds_makes {now : Time} (pageSize rounds remaining : Nat) (s : State)
    (h : Indexed th s.rows) :
    Ensures th (sweepRounds now pageSize rounds remaining s) (Makes th (Sweeps now) s) := by
  have hnone : Makes th (Sweeps now) s s := Makes.none (by simp [Sweeps]) rfl
  induction rounds generalizing remaining s with
  | zero => exact Ensures.ok hnone
  | succ rounds ih =>
    rw [sweepRounds]
    refine Ensures.ite (fun _ => Ensures.ok hnone) (fun _ => ?_)
    refine (sweepRefs_makes _ s h (listDue_refs h)).bind (fun s' hs => ?_)
    refine Ensures.ite (fun _ => Ensures.ok hs) (fun _ => ?_)
    refine (ih _ s' (hs.indexed h) (Makes.none (by simp [Sweeps]) rfl)).mono
      (fun s'' hs' => hs.trans hs' (fun _ _ => Sweeps.append))

/-- Sweep rule: what every deletion of a due task keeps, the sweep keeps. It fails
only where a deletion may. -/
theorem sweepRounds_keeps {E : Prop} {I : State → Prop} {now : Time}
    (step : ∀ s t, Indexed th s.rows → I s → s.rows.tasks.get t.id = some t →
      t.state = .enqueued ∨ t.state = .dead → Time.rank t.expiresAt ≤ Time.rank now →
        Ensures E (deleteTask s t .expired) I)
    (pageSize rounds remaining : Nat) (s : State) (h : Indexed th s.rows) (hI : I s) :
    Ensures E (sweepRounds now pageSize rounds remaining s) I := by
  have refs : ∀ (refs : List ExpirationItem) (s : State), Indexed th s.rows → I s →
      Refs now s.rows refs →
        Ensures E (refs.foldlM sweepRef s) (fun s' => Indexed th s'.rows ∧ I s') := by
    intro refs
    induction refs with
    | nil => exact fun s h hI _ => Ensures.pure ⟨h, hI⟩
    | cons ref refs ih =>
      intro s h hI hr
      rw [List.foldlM_cons]
      obtain ⟨t, _, row, hstate, hdue, hsweep, hrest⟩ := hr.sweep h
      rw [hsweep]
      refine ((step s t h hI row hstate hdue).both
        ((deleteTask_makes .expired h row).weaken (fun _ => trivial))).bind (fun s' hs => ?_)
      exact ih s' (hs.2.indexed h) hs.1 (hrest s' hs.2)
  induction rounds generalizing remaining s with
  | zero => exact Ensures.ok hI
  | succ rounds ih =>
    rw [sweepRounds]
    refine Ensures.ite (fun _ => Ensures.ok hI) (fun _ => ?_)
    refine (refs _ s h hI (listDue_refs h)).bind (fun s' hs => ?_)
    exact Ensures.ite (fun _ => Ensures.ok hs.2) (fun _ => ih _ s' hs.1 hs.2)

theorem runTasksGarbageCollection_makes {s : State} {now : Time}
    {req : RunTasksGarbageCollectionRequest} (h : Indexed th s.rows) :
    Ensures th (runTasksGarbageCollection s now req) (Makes th (Sweeps now) s) :=
  sweepRounds_makes _ _ _ s h

end Sweep

section Purge

variable {th : Prop}

/-- The events of draining purged queues. -/
def Purges (qs : List QueueId) (evs : List Event) : Prop :=
  ∀ ev ∈ evs, (∃ t, ev = .deleted t .none ∧ t.id.queue ∈ qs) ∨ ∃ q ∈ qs, ev = .dropped q

omit [OrderedStore] in
theorem Purges.append {qs : List QueueId} {es fs : List Event} (he : Purges qs es)
    (hf : Purges qs fs) : Purges qs (es ++ fs) :=
  List.forall_mem_append.mpr ⟨he, hf⟩

theorem deleted_rows {s s' : State} {t : Task} {reason : TaskDeletionReason}
    (h : Makes th (· = [.deleted t reason]) s s') : s'.rows = s.rows.delete t reason := by
  obtain ⟨es, hes, rfl⟩ := h
  generalize s'.rows = r at hes
  cases hes with
  | cons hs hrest =>
    cases hrest with
    | nil =>
      cases hs with
      | delete => rfl

/-- After a task was deleted its row is gone and the others are as before. -/
theorem deleted_get {s s' : State} {t : Task} {reason : TaskDeletionReason}
    (h : Makes th (· = [.deleted t reason]) s s') (id : TaskId) :
    s'.tasks.get id = if id = t.id then none else s.tasks.get id := by
  have htasks : s'.tasks = s.tasks.delete t.id := congrArg Rows.tasks (deleted_rows h)
  rw [htasks]
  by_cases he : id = t.id
  · rw [if_pos he, he, Table.get_delete_self]
  · rw [if_neg he, Table.get_delete_ne _ he]

theorem listTasks_batch {s : State} {q : QueueId} {n : Nat}
    (hkey : ∀ id t, s.tasks.get id = some t → t.id = id) (hn : 0 < n) :
    Batch s.rows (listTasks s q n).1 ∧ (∀ t ∈ (listTasks s q n).1, t.id.queue = q) ∧
      ((listTasks s q n).2 = false → ∀ id t, s.rows.tasks.get id = some t → id.queue = q →
        t ∈ (listTasks s q n).1) := by
  have hpage : (s.tasks.page (fun id => id.queue = q) none n).1.Sublist _ := Table.page_sublist
  have hmem : ∀ e ∈ (s.tasks.page (fun id => id.queue = q) none n).1,
      s.tasks.get e.1 = some e.2 ∧ e.2.id = e.1 ∧ e.1.queue = q := by
    intro e he
    obtain ⟨hrow, hq, _⟩ := Table.mem_after.mp (hpage.subset he)
    exact ⟨hrow, hkey e.1 e.2 hrow, by simpa using hq⟩
  refine ⟨⟨List.forall_mem_map.mpr (fun e he => ?_), ?_⟩, List.forall_mem_map.mpr
    (fun e he => ?_), ?_⟩
  · obtain ⟨hrow, hid, _⟩ := hmem e he
    rw [hid]
    exact hrow
  · -- the ids are the keys of the page, in order
    have hids : (listTasks s q n).1.map Task.id =
        (s.tasks.page (fun id => id.queue = q) none n).1.map Prod.fst := by
      rw [listTasks, List.map_map]
      exact List.map_congr_left (fun e he => (hmem e he).2.1)
    rw [hids]
    exact s.tasks.entries_keys_nodup.sublist ((hpage.trans List.filter_sublist).map _)
  · obtain ⟨_, hid, hq⟩ := hmem e he
    rw [hid]
    exact hq
  · intro hlast id t hrow hq
    by_contra hout
    have hafter : (id, t) ∈ s.tasks.after (fun id => id.queue = q) none :=
      Table.mem_after.mpr ⟨hrow, by simpa using hq, rfl⟩
    obtain ⟨k, hk, _⟩ := Table.page_rest hn hafter
      (fun hin => hout (List.mem_map_of_mem (f := Prod.snd) hin))
    simp [listTasks, hk] at hlast

/-- A page that is followed by another is not empty. -/
theorem listTasks_length_pos {s : State} {q : QueueId} {n : Nat} (h : (listTasks s q n).2 = true) :
    0 < (listTasks s q n).1.length := by
  obtain ⟨k, hk⟩ := Option.isSome_iff_exists.mp h
  rw [listTasks, List.length_map]
  exact List.length_pos_of_ne_nil (Table.page_ne_nil hk)

/-- An invariant of collecting the purged queue ids qs, by the number of tasks deleted
and of ids dropped so far. E is what a deletion may fail for. -/
structure Collects (th E : Prop) (qs : List QueueId) (I : Nat → Nat → State → Prop) : Prop where
  delete : ∀ {n d : Nat} {s : State} {t : Task}, I n d s → Indexed th s.rows →
    s.tasks.get t.id = some t → t.id.queue ∈ qs → Ensures E (deleteTask s t .none) (I (n + 1) d)
  drop : ∀ {n d : Nat} {s : State} {q : QueueId}, I n d s → q ∈ qs →
    s.purgeGCRecords.get q = some () → (∀ id t, s.tasks.get id = some t → id.queue ≠ q) →
      I n (d + 1) (dropQueue s q)

namespace Collects

variable {E : Prop} {qs : List QueueId} {I : Nat → Nat → State → Prop} {q : QueueId}

/-- A page is deleted to its end, or the budget stops the whole call. -/
theorem page (hc : Collects th E qs I) (maxVisited : Nat) (ts : List Task) (s : State)
    (visited : Nat) {d : Nat} (h : Indexed th s.rows) (hI : I visited d s) (hb : Batch s.rows ts)
    (hq : ∀ t ∈ ts, t.id.queue ∈ qs) (hv : visited < maxVisited) :
    Ensures E (drainPage maxVisited s visited ts) (fun a => Indexed th a.1.rows ∧ I a.2.1 d a.1 ∧
      a.1.purgeGCRecords = s.purgeGCRecords ∧ a.2.1 ≤ maxVisited ∧
      (a.2.2 = true → visited < a.2.1) ∧ (a.2.2 = false → a.2.1 < maxVisited ∧
        a.2.1 = visited + ts.length ∧ ∀ id, a.1.tasks.get id =
          if id ∈ ts.map Task.id then none else s.tasks.get id)) := by
  induction ts generalizing s visited with
  | nil => exact Ensures.ok ⟨h, hI, rfl, hv.le, by simp, fun _ => ⟨hv, rfl, by simp⟩⟩
  | cons t ts ih =>
    rw [drainPage]
    have hmade : Ensures True (deleteTask s t .none) (Makes th (· = [.deleted t .none]) s) :=
      (deleteTask_makes .none h hb.head).weaken (fun _ => trivial)
    refine ((hc.delete hI h hb.head (hq t List.mem_cons_self)).both hmade).bind (fun s' hs => ?_)
    have h' := hs.2.indexed h
    have hget := deleted_get hs.2
    have hmarkers : s'.purgeGCRecords = s.purgeGCRecords :=
      congrArg Rows.purgeGCRecords (deleted_rows hs.2)
    refine Ensures.ite (fun _ => Ensures.ok ⟨h', hs.1, hmarkers, hv, by simp, by simp⟩) ?_
    intro hroom
    have hb' : Batch s'.rows ts := by
      refine hb.tail (fun u hu => ?_)
      exact (hget u.id).trans (if_neg (hb.ne_head u hu))
    refine (ih s' (visited + 1) h' hs.1 hb' (fun u hu => hq u (List.mem_cons_of_mem _ hu))
      (by omega)).mono (fun a ha => ?_)
    obtain ⟨hi, hinv, hsame, hle, hstop, hdone⟩ := ha
    refine ⟨hi, hinv, hsame.trans hmarkers, hle, fun hs => ?_, fun hs => ?_⟩
    · have hlt := hstop hs
      omega
    obtain ⟨hlt, hlength, hrows⟩ := hdone hs
    refine ⟨hlt, by rw [List.length_cons]; omega, fun id => ?_⟩
    rw [hrows id, hget id, List.map_cons]
    simp only [List.mem_cons]
    by_cases hm : id ∈ ts.map Task.id
    · simp [hm]
    · simp [hm]

/-- One purged queue id: it is dropped, or at least one of its rows is deleted. The
pages granted suffice, since each of them uses some of the budget. -/
theorem record (hc : Collects th E qs I) {pageSize maxVisited : Nat} (hp : 0 < pageSize)
    (hq : q ∈ qs) (pages : Nat) (s : State) (visited : Nat) {d : Nat} (h : Indexed th s.rows)
    (hI : I visited d s) (hmark : s.purgeGCRecords.get q = some ()) (hv : visited < maxVisited)
    (hpages : maxVisited - visited ≤ pages) :
    Ensures E (drainRecord pageSize maxVisited q pages s visited) (fun a => ∃ d',
      Indexed th a.1.rows ∧ I a.2.1 d' a.1 ∧
      (∀ r, r ≠ q → a.1.purgeGCRecords.get r = s.purgeGCRecords.get r) ∧ a.2.1 ≤ maxVisited ∧
      visited + d < a.2.1 + d' ∧ (a.2.2 = false → a.2.1 < maxVisited)) := by
  induction pages generalizing s visited with
  | zero => omega
  | succ pages ih =>
    rw [drainRecord]
    obtain ⟨hb, hqueue, hall⟩ := listTasks_batch (q := q) h.key hp
    refine (hc.page maxVisited _ s visited h hI hb (fun t ht => hqueue t ht ▸ hq) hv).bind ?_
    intro a ha
    obtain ⟨hi, hinv, hsame, hle, hstopped, hdone⟩ := ha
    refine Ensures.ite (fun hstop => Ensures.ok ?_) (fun hstop => ?_)
    · have hlt := hstopped hstop
      exact ⟨d, hi, hinv, fun r _ => by rw [hsame], hle, by omega, by simp [hstop]⟩
    obtain ⟨hlt, hlength, hrows⟩ := hdone (by simpa using hstop)
    refine Ensures.ite (fun hmore => ?_) (fun hmore => Ensures.ok ?_)
    · have hfull := listTasks_length_pos hmore
      refine (ih a.1 a.2.1 hi hinv (hsame ▸ hmark) hlt (by omega)).mono (fun b hb => ?_)
      obtain ⟨d', hi', hinv', hsame', hle', hprogress, hrest⟩ := hb
      exact ⟨d', hi', hinv', fun r hr => by rw [hsame' r hr, hsame], hle', by omega, hrest⟩
    · -- the last page was all there was, so nothing is left under the id
      have empty : ∀ id t, a.1.tasks.get id = some t → id.queue ≠ q := by
        intro id t hg hid
        rw [hrows id] at hg
        split_ifs at hg with hm
        have ht := hall (by simpa using hmore) id t hg hid
        exact hm (List.mem_map.mpr ⟨t, ht, h.key id t hg⟩)
      refine ⟨d + 1, hi.step (.drop empty), hc.drop hinv hq (hsame ▸ hmark) empty, ?_, hlt.le,
        by dsimp only; omega, fun _ => hlt⟩
      intro r hr
      change (a.1.purgeGCRecords.delete q).get r = s.purgeGCRecords.get r
      rw [Table.get_delete_ne _ hr, hsame]

theorem records (hc : Collects th E qs I) {pageSize maxVisited : Nat} (hp : 0 < pageSize)
    (rs : List QueueId) (hrs : ∀ q ∈ rs, q ∈ qs) (hn : rs.Nodup) (s : State)
    (visited : Nat) {d : Nat} (h : Indexed th s.rows) (hI : I visited d s)
    (hmark : ∀ q ∈ rs, s.purgeGCRecords.get q = some ()) (hv : visited < maxVisited) :
    Ensures E (drainRecords pageSize maxVisited s visited rs) (fun s' => ∃ n d', n ≤ maxVisited ∧
      I n d' s' ∧ visited + d ≤ n + d' ∧ (rs ≠ [] → visited + d < n + d')) := by
  induction rs generalizing s visited d with
  | nil => exact Ensures.ok ⟨visited, d, by omega, hI, by omega, by simp⟩
  | cons q rs ih =>
    rw [drainRecords]
    obtain ⟨hfirst, hn⟩ := List.nodup_cons.mp hn
    refine (hc.record hp (hrs q List.mem_cons_self) maxVisited s visited h hI
      (hmark q List.mem_cons_self) hv (by omega)).bind ?_
    intro a ha
    obtain ⟨d', hi, hinv, hsame, hle, hprogress, hrest⟩ := ha
    refine Ensures.ite (fun _ => Ensures.ok ?_) (fun hstop => ?_)
    · exact ⟨a.2.1, d', hle, hinv, by omega, fun _ => hprogress⟩
    · have hrs' : ∀ q ∈ rs, q ∈ qs := fun r hr => hrs r (List.mem_cons_of_mem _ hr)
      have hmark' : ∀ r ∈ rs, a.1.purgeGCRecords.get r = some () := by
        intro r hr
        rw [hsame r (fun he => hfirst (he ▸ hr))]
        exact hmark r (List.mem_cons_of_mem _ hr)
      refine (ih hrs' hn a.1 a.2.1 hi hinv hmark' (hrest (by simpa using hstop))).mono ?_
      intro s' hs
      obtain ⟨n, d'', hn, hinv', hmore, _⟩ := hs
      exact ⟨n, d'', hn, hinv', by omega, fun _ => by omega⟩

/-- A whole call. It does something as long as there is a marker. -/
theorem run {s : State} (req : RunPurgeQueueGarbageCollectionRequest)
    (hc : Collects th E (s.purgeGCRecords.entries.map Prod.fst) I) (h : Indexed th s.rows)
    (hI : I 0 0 s) : Ensures E (runPurgeQueueGarbageCollection s req) (fun s' => ∃ n d,
      n ≤ orDefault req.maxVisitedTasks 1000 ∧ I n d s' ∧
      (s.purgeGCRecords.entries ≠ [] → 0 < n + d)) := by
  have hrecords : 0 < orDefault req.gcRecordsPageSize 100 := orDefault_pos _ (by decide)
  have hn := s.purgeGCRecords.entries_keys_nodup
  refine (hc.records (orDefault_pos _ (by decide)) _ (fun q hq => List.mem_of_mem_take hq)
    (hn.sublist (List.take_sublist _ _)) s 0 h hI ?_ (orDefault_pos _ (by decide))).mono ?_
  · intro q hq
    obtain ⟨e, he, rfl⟩ := List.mem_map.mp (List.mem_of_mem_take hq)
    exact Table.mem_entries.mp he
  intro s' hs
  obtain ⟨n, d, hn, hinv, _, hprogress⟩ := hs
  refine ⟨n, d, hn, hinv, fun hmarked => ?_⟩
  refine Nat.lt_of_le_of_lt (Nat.zero_le _) (hprogress ?_)
  simpa [List.take_eq_nil_iff, Nat.ne_of_gt hrecords] using hmarked

end Collects

/-- Purge rule: what every deletion and the removal of an empty queue keep, the
purge keeps. It fails only where a deletion may. -/
theorem runPurgeQueueGarbageCollection_keeps {E : Prop} {I : State → Prop} {s : State}
    {req : RunPurgeQueueGarbageCollectionRequest}
    (delete : ∀ s t, I s → s.tasks.get t.id = some t → Ensures E (deleteTask s t .none) I)
    (drop : ∀ s q, I s → I (dropQueue s q)) (h : Indexed th s.rows) (hI : I s) :
    Ensures E (runPurgeQueueGarbageCollection s req) I := by
  have hc : Collects th E (s.purgeGCRecords.entries.map Prod.fst) (fun _ _ => I) :=
    ⟨fun hI _ row _ => delete _ _ hI row, fun hI _ _ _ => drop _ _ hI⟩
  refine (hc.run req h hI).mono (fun s' hs => ?_)
  obtain ⟨_, _, _, hs, _⟩ := hs
  exact hs

theorem runPurgeQueueGarbageCollection_makes {s : State}
    {req : RunPurgeQueueGarbageCollectionRequest} (h : Indexed th s.rows) :
    Ensures th (runPurgeQueueGarbageCollection s req)
      (Makes th (Purges (s.purgeGCRecords.entries.map Prod.fst)) s) := by
  generalize hqs : s.purgeGCRecords.entries.map Prod.fst = qs
  have hc : Collects th th qs (fun _ _ => Makes th (Purges qs) s) := by
    refine ⟨fun hs hi row hq => ?_, fun {_ _ s' q} hs hq _ empty => ?_⟩
    · refine (deleteTask_makes .none hi row).mono (fun s' hs' => hs.trans hs' ?_)
      intro es fs he hf
      subst hf
      exact he.append (fun ev hev => Or.inl ⟨_, List.mem_singleton.mp hev, hq⟩)
    · have hdrop : Makes th (· = [.dropped q]) s' (dropQueue s' q) :=
        Makes.one rfl (.drop empty) rfl
      refine hs.trans hdrop (fun es fs he hf => ?_)
      subst hf
      exact he.append (fun ev hev => Or.inr ⟨q, hq, List.mem_singleton.mp hev⟩)
  subst hqs
  refine (hc.run req h (Makes.none (by simp [Purges]) rfl)).mono (fun s' hs => ?_)
  obtain ⟨_, _, _, hs, _⟩ := hs
  exact hs

end Purge

end Moab
