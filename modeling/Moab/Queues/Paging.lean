import Moab.Queues.Rows

namespace Moab.Queues

open OrderedStore

variable [OrderedStore]

section Listing

variable {s : State} {q : QueueId} {token : Option ScheduleId} {limit : Nat}

/-- A page lists rows of the queue, each once. -/
theorem listSchedules_page (h : s.rows.Keyed) (token : Option ScheduleId) (limit : Nat) :
    (∀ x ∈ (s.listSchedules q token limit).1, s.schedules.get x.id = some x ∧ x.id.queue = q) ∧
      (s.listSchedules q token limit).1.Pairwise (fun x y => x.id ≠ y.id) := by
  have hpage : (s.schedules.page (fun id => id.queue = q) token limit).1.Sublist _ :=
    Table.page_sublist
  have hmem : ∀ e ∈ (s.schedules.page (fun id => id.queue = q) token limit).1,
      s.schedules.get e.1 = some e.2 ∧ e.2.id = e.1 ∧ e.1.queue = q := by
    intro e he
    obtain ⟨hrow, hq, _⟩ := Table.mem_after.mp (hpage.subset he)
    exact ⟨hrow, h e.1 e.2 hrow, by simpa using hq⟩
  refine ⟨List.forall_mem_map.mpr (fun e he => ?_), List.pairwise_map.mpr ?_⟩
  · obtain ⟨hrow, hid, hq⟩ := hmem e he
    rw [hid]
    exact ⟨hrow, hq⟩
  · refine (s.schedules.entries_sorted.sublist (hpage.trans List.filter_sublist)).imp_of_mem ?_
    intro a b ha hb hlt
    rw [(hmem a ha).2.1, (hmem b hb).2.1]
    exact ne_of_lt hlt

/-- A row that a page leaves out comes after the token of the next page. -/
theorem listSchedules_rest (hl : 0 < limit) {x : Schedule} (row : s.schedules.get x.id = some x)
    (hq : x.id.queue = q) (hafter : token.all (· < x.id))
    (hout : x ∉ (s.listSchedules q token limit).1) :
    ∃ k, (s.listSchedules q token limit).2 = some k ∧ k < x.id := by
  have hlisted : (x.id, x) ∈ s.schedules.after (fun id => id.queue = q) token :=
    Table.mem_after.mpr ⟨row, by simpa using hq, hafter⟩
  exact Table.page_rest hl hlisted (fun hin => hout (List.mem_map_of_mem (f := Prod.snd) hin))

/-- A page that is followed by another is not empty. -/
theorem listSchedules_ne_nil {k : ScheduleId} (h : (s.listSchedules q token limit).2 = some k) :
    (s.listSchedules q token limit).1 ≠ [] :=
  fun hnil => Table.page_ne_nil h (List.map_eq_nil_iff.mp hnil)

end Listing

section Counting

variable {s : State} {x : Schedule} {q old new : QueueId}

/-- The number of schedules stored under a queue id. -/
def State.countSchedules (s : State) (q : QueueId) : Nat :=
  s.schedules.count (fun id _ => decide (id.queue = q))

theorem countSchedules_eq_zero : s.countSchedules q = 0 ↔
    ∀ id x, s.schedules.get id = some x → id.queue ≠ q := by
  unfold State.countSchedules
  rw [Table.count_eq_zero]
  simp only [decide_eq_false_iff_not, ne_eq]

theorem countSchedules_create (absent : s.schedules.get x.id = none) :
    (s.createSchedule x).countSchedules q =
      s.countSchedules q + if x.id.queue = q then 1 else 0 := by
  have hcount := Table.count_set_of_none (fun id _ => decide (id.queue = q)) x absent
  rw [Table.toNat_decide] at hcount
  exact hcount

theorem countSchedules_delete (row : s.schedules.get x.id = some x) :
    (s.deleteSchedule x).countSchedules q + (if x.id.queue = q then 1 else 0) =
      s.countSchedules q := by
  have hcount := Table.count_delete_of_some (fun id _ => decide (id.queue = q)) row
  rw [Table.toNat_decide] at hcount
  exact hcount

end Counting

section Moving

variable {s : State} {old new : QueueId} {x : Schedule}

/-- No number is used under both queue ids. -/
def Apart (s : State) (old new : QueueId) : Prop :=
  ∀ n x, s.schedules.get (old.schedule n) = some x → s.schedules.get (new.schedule n) = none

theorem Apart.absent (ha : Apart s old new) (row : s.schedules.get x.id = some x)
    (hq : x.id.queue = old) : s.schedules.get (moved x new).id = none := by
  apply ha x.id.scheduleId x
  rw [← hq]
  exact row

theorem moveSchedule_row (id : ScheduleId) : (moveSchedule new s x).schedules.get id =
    if id = (moved x new).id then some (moved x new) else
      if id = x.id then none else s.schedules.get id := by
  change ((s.schedules.delete x.id).set (moved x new).id (moved x new)).get id = _
  rw [Table.get_set, Table.get_delete]
  congr

theorem moveSchedule_get {id : ScheduleId} (hne : old ≠ new) (hid : id.queue = old) :
    (moveSchedule new s x).schedules.get id = if id = x.id then none else s.schedules.get id := by
  rw [moveSchedule_row, if_neg]
  intro he
  rw [he] at hid
  exact hne hid.symm

theorem moveSchedule_step (hne : old ≠ new) (ha : Apart s old new)
    (row : s.schedules.get x.id = some x) (hq : x.id.queue = old) :
    Step s.rows (.moved x new) (moveSchedule new s x).rows ∧
      Apart (moveSchedule new s x) old new := by
  refine ⟨Step.move row (by rw [hq]; exact hne) (ha.absent row hq), ?_⟩
  intro n y hy
  rw [moveSchedule_get hne (old.schedule_queue n)] at hy
  split at hy
  · exact absurd hy (by simp)
  · next hx =>
    have hnum : new.schedule n ≠ (moved x new).id := by
      intro he
      have hn : n = x.id.scheduleId := congrArg ScheduleId.scheduleId he
      apply hx
      rw [hn, ← hq, ScheduleId.queue_schedule]
    change ((s.schedules.delete x.id).set (moved x new).id (moved x new)).get
      (new.schedule n) = none
    rw [Table.get_set_ne _ _ hnum, Table.get_delete]
    split
    · rfl
    · exact ha n y hy

theorem moveSchedule_count (hne : old ≠ new) (ha : Apart s old new)
    (row : s.schedules.get x.id = some x) (hq : x.id.queue = old) (q : QueueId) :
    (moveSchedule new s x).countSchedules q + (if old = q then 1 else 0) =
      s.countSchedules q + if new = q then 1 else 0 := by
  have hid : (moved x new).id ≠ x.id := moved_id_ne (by rw [hq]; exact hne)
  have hcreate := countSchedules_create (s := s.deleteSchedule x) (x := moved x new) (q := q)
    ((Table.get_delete_ne _ hid).trans (ha.absent row hq))
  have hdelete := countSchedules_delete (q := q) row
  rw [hq] at hdelete
  change (moveSchedule new s x).countSchedules q = _ + (if new = q then 1 else 0) at hcreate
  omega

/-- What moving one schedule keeps, moving a page keeps. -/
theorem movePage_keeps {I : State → Prop} (hne : old ≠ new)
    (step : ∀ s x, I s → s.schedules.get x.id = some x → x.id.queue = old →
      I (moveSchedule new s x))
    (xs : List Schedule) (s : State)
    (hrows : ∀ x ∈ xs, s.schedules.get x.id = some x ∧ x.id.queue = old)
    (hids : xs.Pairwise (fun x y => x.id ≠ y.id)) (hI : I s) :
      I (xs.foldl (moveSchedule new) s) := by
  induction xs generalizing s with
  | nil => exact hI
  | cons x xs ih =>
    obtain ⟨hfirst, hids⟩ := List.pairwise_cons.mp hids
    obtain ⟨row, hq⟩ := hrows x List.mem_cons_self
    refine ih (moveSchedule new s x) ?_ hids (step s x hI row hq)
    intro y hy
    obtain ⟨hrow, hold⟩ := hrows y (List.mem_cons_of_mem _ hy)
    rw [moveSchedule_get hne hold, if_neg (Ne.symm (hfirst y hy))]
    exact ⟨hrow, hold⟩

/-- Loop rule: what moving one schedule keeps, moving all of them keeps. -/
theorem moveSchedules_keeps {I : State → Prop} (hne : old ≠ new) (keyed : ∀ s, I s → s.rows.Keyed)
    (step : ∀ s x, I s → s.schedules.get x.id = some x → x.id.queue = old →
      I (moveSchedule new s x))
    (pages : Nat) (token : Option ScheduleId) (s : State) (hI : I s) :
    I (moveSchedules old new pages token s) := by
  induction pages generalizing token s with
  | zero => exact hI
  | succ pages ih =>
    obtain ⟨hrows, hids⟩ := listSchedules_page (q := old) (keyed s hI) token
      defaultGCRecordSchedulesPageSize
    have hpage := movePage_keeps hne step _ s hrows hids hI
    unfold moveSchedules
    dsimp only
    cases (s.listSchedules old token defaultGCRecordSchedulesPageSize).2 with
    | none => exact hpage
    | some token => exact ih (some token) _ hpage

/-- The state while the schedules of a queue are being moved. -/
structure Moving (s : State) (old new : QueueId) (t : State) : Prop where
  keyed : t.rows.Keyed
  apart : Apart t old new
  queues : t.queues = s.queues
  queueNames : t.queueNames = s.queueNames
  counters : t.counters = s.counters
  gcRecords : t.gcRecords = s.gcRecords
  steps : ∃ es, Steps s.rows es t.rows ∧ ∀ e ∈ es, ∃ x, e = .moved x new

theorem Moving.refl (h : s.rows.Keyed) (ha : Apart s old new) : Moving s old new s :=
  ⟨h, ha, rfl, rfl, rfl, rfl, [], .nil _, by simp⟩

theorem Moving.move {t : State} (h : Moving s old new t) (hne : old ≠ new)
    (row : t.schedules.get x.id = some x) (hq : x.id.queue = old) :
    Moving s old new (moveSchedule new t x) := by
  obtain ⟨hstep, hapart⟩ := moveSchedule_step hne h.apart row hq
  obtain ⟨es, hes, hmoves⟩ := h.steps
  refine ⟨hstep.keyed h.keyed, hapart, h.queues, h.queueNames, h.counters, h.gcRecords, ?_⟩
  exact ⟨es ++ [.moved x new], hes.append (.single hstep),
    List.forall_mem_append.mpr ⟨hmoves, by simp⟩⟩

/-- Moving the schedules of a queue is moving them one by one. -/
theorem moveSchedules_moving (hne : old ≠ new) (pages : Nat) (token : Option ScheduleId)
    (h : s.rows.Keyed) (ha : Apart s old new) :
    Moving s old new (moveSchedules old new pages token s) :=
  moveSchedules_keeps hne (fun _ h => h.keyed) (fun _ _ h => h.move hne) pages token s (.refl h ha)

/-- What is left of the old queue after a page was not on it. -/
theorem movePage_get (hne : old ≠ new) (xs : List Schedule) (s : State) {id : ScheduleId}
    {y : Schedule} (hid : id.queue = old)
    (hy : (xs.foldl (moveSchedule new) s).schedules.get id = some y) :
    s.schedules.get id = some y ∧ ∀ x ∈ xs, x.id ≠ id := by
  induction xs generalizing s with
  | nil => exact ⟨hy, by simp⟩
  | cons x xs ih =>
    obtain ⟨hrow, hrest⟩ := ih (moveSchedule new s x) hy
    rw [moveSchedule_get hne hid] at hrow
    split at hrow
    · exact absurd hrow (by simp)
    · next hx => exact ⟨hrow, List.forall_mem_cons.mpr ⟨Ne.symm hx, hrest⟩⟩

theorem movePage_count (hne : old ≠ new) (xs : List Schedule) (s : State) (ha : Apart s old new)
    (hrows : ∀ x ∈ xs, s.schedules.get x.id = some x ∧ x.id.queue = old)
    (hids : xs.Pairwise (fun x y => x.id ≠ y.id)) :
    (xs.foldl (moveSchedule new) s).countSchedules old + xs.length = s.countSchedules old := by
  induction xs generalizing s with
  | nil => rfl
  | cons x xs ih =>
    obtain ⟨hfirst, hids⟩ := List.pairwise_cons.mp hids
    obtain ⟨row, hq⟩ := hrows x List.mem_cons_self
    have hone := moveSchedule_count hne ha row hq old
    rw [if_pos rfl, if_neg hne.symm] at hone
    have hmore := ih (moveSchedule new s x) (moveSchedule_step hne ha row hq).2 ?_ hids
    · rw [List.foldl_cons, List.length_cons]
      omega
    · intro y hy
      obtain ⟨hrow, hold⟩ := hrows y (List.mem_cons_of_mem _ hy)
      rw [moveSchedule_get hne hold, if_neg (Ne.symm (hfirst y hy))]
      exact ⟨hrow, hold⟩

/-- With a page for every schedule, no schedule is left behind. -/
theorem moveSchedules_empties (hne : old ≠ new) (pages : Nat)
    (token : Option ScheduleId) (s : State) (h : s.rows.Keyed) (ha : Apart s old new)
    (hfuel : s.countSchedules old < pages)
    (hafter : ∀ id x, s.schedules.get id = some x → id.queue = old → token.all (· < id)) :
    (moveSchedules old new pages token s).countSchedules old = 0 := by
  induction pages generalizing token s with
  | zero => omega
  | succ pages ih =>
    obtain ⟨hrows, hids⟩ := listSchedules_page (q := old) h token defaultGCRecordSchedulesPageSize
    have hmoving : Moving s old new _ := movePage_keeps hne
      (fun _ _ (h : Moving s old new _) => h.move hne) _ s hrows hids (.refl h ha)
    have hcount := movePage_count hne _ s ha hrows hids
    -- a row that the page left out lies after the next token
    have hleft : ∀ id y, ((s.listSchedules old token defaultGCRecordSchedulesPageSize).1.foldl
        (moveSchedule new) s).schedules.get id = some y → id.queue = old →
        ∃ t, (s.listSchedules old token defaultGCRecordSchedulesPageSize).2 = some t ∧ t < id := by
      intro id y hy hq
      obtain ⟨hrow, hout⟩ := movePage_get hne _ s hq hy
      obtain rfl := h id y hrow
      exact listSchedules_rest (by decide) hrow hq (hafter _ _ hrow hq) (fun hin => hout y hin rfl)
    unfold moveSchedules
    dsimp only
    cases hnext : (s.listSchedules old token defaultGCRecordSchedulesPageSize).2 with
    | none =>
      rw [countSchedules_eq_zero]
      intro id y hy hq
      obtain ⟨t, ht, _⟩ := hleft id y hy hq
      rw [hnext] at ht
      exact absurd ht (by simp)
    | some t =>
      have hsome := List.length_pos_of_ne_nil (listSchedules_ne_nil hnext)
      refine ih (some t) _ hmoving.keyed hmoving.apart (by omega) ?_
      intro id y hy hq
      obtain ⟨u, hu, hlt⟩ := hleft id y hy hq
      obtain rfl := Option.some.inj (hnext.symm.trans hu)
      simpa using hlt

end Moving

section Draining

variable {s : State} {q : QueueId} {x : Schedule}

theorem deleteSchedule_get {id : ScheduleId} : (s.deleteSchedule x).schedules.get id =
    if id = x.id then none else s.schedules.get id := by
  change (s.schedules.delete x.id).get id = _
  rw [Table.get_delete]
  congr

/-- An invariant of collecting the deleted queues qs, by the number of schedules deleted
and of records dropped so far. -/
structure Collects (qs : List QueueId) (I : Nat → Nat → State → Prop) : Prop where
  keyed : ∀ {n d : Nat} {s : State}, I n d s → s.rows.Keyed
  delete : ∀ {n d : Nat} {s : State} {x : Schedule}, I n d s → s.schedules.get x.id = some x →
    x.id.queue ∈ qs → I (n + 1) d (s.deleteSchedule x)
  drop : ∀ {n d : Nat} {s : State} {q : QueueId}, I n d s → q ∈ qs →
    s.gcRecords.get q = some () → s.countSchedules q = 0 → I n (d + 1) (s.deleteGCRecord q)

namespace Collects

variable {qs : List QueueId} {I : Nat → Nat → State → Prop}

/-- A page is deleted to its end, or the budget stops the whole call. -/
theorem page (hc : Collects qs I) (budget : Nat) (xs : List Schedule) (s : State) (visited : Nat)
    {d : Nat} (hI : I visited d s)
    (hrows : ∀ x ∈ xs, s.schedules.get x.id = some x ∧ x.id.queue ∈ qs)
    (hids : xs.Pairwise (fun x y => x.id ≠ y.id)) (hv : visited < budget) :
    ∃ t n stopped, drainSchedules budget s visited xs = (t, n, stopped) ∧ I n d t ∧
      t.gcRecords = s.gcRecords ∧ n ≤ budget ∧ (stopped = true → visited < n) ∧
      (stopped = false → n < budget ∧ n = visited + xs.length ∧
        ∀ id y, t.schedules.get id = some y → s.schedules.get id = some y ∧
          ∀ x ∈ xs, x.id ≠ id) := by
  induction xs generalizing s visited with
  | nil => exact ⟨s, visited, false, rfl, hI, rfl, hv.le, by simp, fun _ => ⟨hv, rfl, by simp⟩⟩
  | cons x xs ih =>
    obtain ⟨hfirst, hids⟩ := List.pairwise_cons.mp hids
    obtain ⟨row, hq⟩ := hrows x List.mem_cons_self
    have hnext := hc.delete hI row hq
    rw [drainSchedules]
    by_cases hstop : visited + 1 ≥ budget
    · refine ⟨s.deleteSchedule x, visited + 1, true, ?_, hnext, rfl, hv, by simp, by simp⟩
      rw [if_pos hstop]
    · have hrest : ∀ y ∈ xs, (s.deleteSchedule x).schedules.get y.id = some y ∧
          y.id.queue ∈ qs := by
        intro y hy
        obtain ⟨hrow, hqueue⟩ := hrows y (List.mem_cons_of_mem _ hy)
        rw [deleteSchedule_get, if_neg (Ne.symm (hfirst y hy))]
        exact ⟨hrow, hqueue⟩
      obtain ⟨t, n, stopped, hrun, hinv, hrecords, hn, hprogress, hdone⟩ :=
        ih (s.deleteSchedule x) (visited + 1) hnext hrest hids (by omega)
      refine ⟨t, n, stopped, ?_, hinv, hrecords, hn, fun hs => ?_, fun hs => ?_⟩
      · rw [if_neg hstop]
        exact hrun
      · have hlt := hprogress hs
        omega
      · obtain ⟨hlt, hlength, hleft⟩ := hdone hs
        refine ⟨hlt, by rw [List.length_cons]; omega, fun id y hy => ?_⟩
        obtain ⟨hrow, hout⟩ := hleft id y hy
        rw [deleteSchedule_get] at hrow
        split at hrow
        · exact absurd hrow (by simp)
        · next hx => exact ⟨hrow, List.forall_mem_cons.mpr ⟨Ne.symm hx, hout⟩⟩

/-- A record is dropped when no page follows the first: then nothing is left of it. -/
theorem records (hc : Collects qs I) {pageSize : Nat} (hsize : 0 < pageSize) (budget : Nat)
    (rs : List QueueId) (hrs : ∀ q ∈ rs, q ∈ qs) (hn : rs.Nodup) (s : State)
    (visited : Nat) {d : Nat} (hI : I visited d s) (hmark : ∀ q ∈ rs, s.gcRecords.get q = some ())
    (hv : visited < budget) :
    ∃ n d', n ≤ budget ∧ I n d' (collectRecords pageSize budget s visited rs) ∧
      visited + d ≤ n + d' ∧ (rs ≠ [] → visited + d < n + d') := by
  induction rs generalizing s visited d with
  | nil => exact ⟨visited, d, hv.le, hI, le_rfl, by simp⟩
  | cons q rs ih =>
    obtain ⟨hfirst, hn⟩ := List.nodup_cons.mp hn
    have hkeyed := hc.keyed hI
    have hq := hrs q List.mem_cons_self
    obtain ⟨hpage, hids⟩ := listSchedules_page (q := q) hkeyed none pageSize
    have hrows : ∀ x ∈ (s.listSchedules q none pageSize).1,
        s.schedules.get x.id = some x ∧ x.id.queue ∈ qs := by
      intro x hx
      obtain ⟨row, hqueue⟩ := hpage x hx
      exact ⟨row, hqueue ▸ hq⟩
    obtain ⟨t, n, stopped, hrun, hinv, hrecords, hle, hprogress, hdone⟩ :=
      hc.page budget _ s visited hI hrows hids hv
    rw [collectRecords]
    dsimp only
    rw [hrun]
    dsimp only
    cases stopped with
    | true =>
      have hlt := hprogress rfl
      exact ⟨n, d, hle, hinv, by omega, fun _ => by omega⟩
    | false =>
      obtain ⟨hlt, hlength, hleft⟩ := hdone rfl
      have hrest : ∀ r ∈ rs, r ∈ qs := fun r hr => hrs r (List.mem_cons_of_mem _ hr)
      have hother : ∀ r ∈ rs, r ≠ q := fun r hr he => hfirst (he ▸ hr)
      have hmark' : ∀ r ∈ rs, t.gcRecords.get r = some () := by
        intro r hr
        rw [hrecords]
        exact hmark r (List.mem_cons_of_mem _ hr)
      rw [if_neg (by simp)]
      by_cases hnone : (s.listSchedules q none pageSize).2 = none
      · rw [if_pos hnone]
        have hzero : t.countSchedules q = 0 := by
          rw [countSchedules_eq_zero]
          intro id y hy hqueue
          obtain ⟨hrow, hout⟩ := hleft id y hy
          obtain rfl := hkeyed id y hrow
          obtain ⟨token, htoken, _⟩ :=
            listSchedules_rest hsize hrow hqueue rfl (fun hin => hout y hin rfl)
          rw [hnone] at htoken
          exact absurd htoken (by simp)
        have hdropped := hc.drop hinv hq (hrecords ▸ hmark q List.mem_cons_self) hzero
        have hmark'' : ∀ r ∈ rs, (t.deleteGCRecord q).gcRecords.get r = some () := by
          intro r hr
          change (t.gcRecords.delete q).get r = some ()
          rw [Table.get_delete_ne _ (hother r hr)]
          exact hmark' r hr
        obtain ⟨m, d', hm, hinv', hmore, _⟩ :=
          ih hrest hn (t.deleteGCRecord q) n hdropped hmark'' hlt
        exact ⟨m, d', hm, hinv', by omega, fun _ => by omega⟩
      · rw [if_neg hnone]
        obtain ⟨token, htoken⟩ := Option.ne_none_iff_exists'.mp hnone
        have hsome := List.length_pos_of_ne_nil (listSchedules_ne_nil htoken)
        obtain ⟨m, d', hm, hinv', hmore, _⟩ := ih hrest hn t n hinv hmark' hlt
        exact ⟨m, d', hm, hinv', by omega, fun _ => by omega⟩

/-- A whole call. It does something as long as there is a record. -/
theorem run {s : State} (req : RunQueuesGarbageCollectionRequest)
    (hc : Collects (s.gcRecords.entries.map Prod.fst) I) (hI : I 0 0 s) :
    ∃ n d, n ≤ orDefault req.maxVisitedSchedules defaultGCMaxVisitedSchedules ∧
      I n d (runQueuesGarbageCollection s req) ∧ (s.gcRecords.entries ≠ [] → 0 < n + d) := by
  have hpage : 0 < orDefault req.gcRecordsPageSize defaultGCRecordsPageSize :=
    orDefault_pos _ (by decide)
  have hn : ((s.gcRecords.entries.map Prod.fst).take
      (orDefault req.gcRecordsPageSize defaultGCRecordsPageSize)).Nodup :=
    s.gcRecords.entries_keys_nodup.sublist (List.take_sublist _ _)
  have hmark : ∀ q ∈ (s.gcRecords.entries.map Prod.fst).take
      (orDefault req.gcRecordsPageSize defaultGCRecordsPageSize), s.gcRecords.get q = some () := by
    intro q hq
    obtain ⟨e, he, rfl⟩ := List.mem_map.mp (List.mem_of_mem_take hq)
    exact Table.mem_entries.mp he
  obtain ⟨n, d, hle, hinv, _, hprogress⟩ := hc.records
    (orDefault_pos req.gcRecordSchedulesPageSize (by decide : 0 < defaultGCRecordSchedulesPageSize))
    (orDefault req.maxVisitedSchedules defaultGCMaxVisitedSchedules) _
    (fun q hq => List.mem_of_mem_take hq) hn s 0 hI hmark (orDefault_pos _ (by decide))
  refine ⟨n, d, hle, hinv, fun hsome => ?_⟩
  refine Nat.lt_of_le_of_lt (Nat.zero_le _) (hprogress ?_)
  simpa [List.take_eq_nil_iff, Nat.ne_of_gt hpage] using hsome

end Collects

/-- Collection rule: it only touches the schedules of queues that have a record. -/
theorem runQueuesGarbageCollection_keeps {I : State → Prop} {s : State} (hs : s.rows.Keyed)
    (req : RunQueuesGarbageCollectionRequest)
    (step : ∀ t x, I t → t.schedules.get x.id = some x → (s.gcRecords.get x.id.queue).isSome →
      I (t.deleteSchedule x))
    (drop : ∀ t q, I t → t.countSchedules q = 0 → I (t.deleteGCRecord q)) (hI : I s) :
    I (runQueuesGarbageCollection s req) := by
  have hc : Collects (s.gcRecords.entries.map Prod.fst) (fun _ _ t => t.rows.Keyed ∧ I t) := by
    refine ⟨fun hI => hI.1, fun {_ _ t x} hI row hq => ?_,
      fun hI _ _ hzero => ⟨hI.1, drop _ _ hI.2 hzero⟩⟩
    have hstep : Step t.rows (.deleted x) (t.deleteSchedule x).rows := Step.delete row
    obtain ⟨e, he, hid⟩ := List.mem_map.mp hq
    refine ⟨hstep.keyed hI.1, step _ _ hI.2 row ?_⟩
    rw [← hid, Table.mem_entries.mp he]
    rfl
  obtain ⟨_, _, _, hinv, _⟩ := hc.run req ⟨hs, hI⟩
  exact hinv.2

end Draining

end Moab.Queues
