import Moab.Tasks.Confined
import Moab.Tasks.ThreadOrder
import Moab.Tasks.Unthreaded

namespace Moab

open OrderedStore

section Store

variable [OrderedStore]

variable {s s' : State} {q : QueueId} {t : Task}

/-- The queue ids marked for collection. -/
def State.purged (s : State) : List QueueId := s.purgeGCRecords.entries.map Prod.fst

/-- Nothing is stored for the queue id, in any table or index. -/
def Blank (q : QueueId) (s : State) : Prop := ∀ a : Address, a.queue = q → s.value a = none

/-- The rows and the markers that collecting the queue ids has to remove. -/
def State.work (s : State) (qs : List QueueId) : Nat :=
  s.tasks.count (fun id _ => id.queue ∈ qs) + s.purgeGCRecords.count (fun _ _ => true)

/-- What one call does within its budget. -/
structure PurgeStep (budget : Nat) (s s' : State) : Prop where
  deleted : ∃ ids : List TaskId, ids.length ≤ budget ∧ (∀ id ∈ ids, id.queue ∈ s.purged) ∧
    ∀ id, s'.tasks.get id = if id ∈ ids then none else s.tasks.get id
  dropped : ∀ q ∈ s.purged, q ∉ s'.purged → ∀ id t, s'.tasks.get id = some t → id.queue ≠ q
  others : ∀ a : Address, a.queue ∉ s.purged → s'.value a = s.value a
  wellFormed : WellFormed s'
  recordsExact : RecordsExact s'

section Pages

/-- A page that does not use the budget up is visited to its end. -/
theorem drainPage_visited {maxVisited : Nat} (ts : List Task) (s : State) (visited : Nat)
    (hv : visited < maxVisited) : Ensures True (drainPage maxVisited s visited ts)
      (fun a => a.2.2 = false → a.2.1 = visited + ts.length ∧ a.2.1 < maxVisited) := by
  induction ts generalizing s visited with
  | nil => exact Ensures.ok (fun _ => ⟨rfl, hv⟩)
  | cons t ts ih =>
    apply Ensures.bind_any
    intro s'
    apply Ensures.ite
    · exact fun _ => Ensures.ok (by simp)
    · intro hroom
      apply (ih s' (visited + 1) (by omega)).mono
      intro a ha hgoes
      obtain ⟨hlength, hlt⟩ := ha hgoes
      rw [List.length_cons]
      exact ⟨by omega, hlt⟩

/-- Each page but the last uses some of the budget, so pages beyond it change nothing. -/
theorem drainRecord_succ (pageSize : Nat) {maxVisited : Nat} (q : QueueId) (pages : Nat) (s : State)
    (visited : Nat) (hv : visited < maxVisited) (hpages : maxVisited - visited ≤ pages) :
    drainRecord pageSize maxVisited q (pages + 1) s visited =
      drainRecord pageSize maxVisited q pages s visited := by
  induction pages generalizing s visited with
  | zero => omega
  | succ pages ih =>
    rw [drainRecord, drainRecord]
    have hpage := drainPage_visited (listTasks s q pageSize).1 s visited hv
    cases ha : drainPage maxVisited s visited (listTasks s q pageSize).1 with
    | error err => rfl
    | ok a =>
      refine ite_congr rfl (fun _ => rfl) (fun hgoes =>
        ite_congr rfl (fun hmore => ?_) (fun _ => rfl))
      obtain ⟨hlength, hlt⟩ := hpage.elim ha (by simpa using hgoes)
      have hsome := listTasks_length_pos hmore
      exact ih a.1 a.2.1 hlt (by omega)

theorem drainRecord_pages (pageSize : Nat) {maxVisited visited pages : Nat}
    (q : QueueId) (s : State) (hv : visited < maxVisited) (hpages : maxVisited ≤ pages) :
    drainRecord pageSize maxVisited q pages s visited =
      drainRecord pageSize maxVisited q maxVisited s visited := by
  induction pages, hpages using Nat.le_induction with
  | base => rfl
  | succ pages hle ih => rw [drainRecord_succ pageSize q pages s visited hv (by omega), ih]

end Pages

section Frames

theorem mem_purged : q ∈ s.purged ↔ s.purgeGCRecords.get q = some () := by
  constructor
  · intro hm
    obtain ⟨e, he, rfl⟩ := List.mem_map.mp hm
    exact Table.mem_entries.mp he
  · exact fun hm => List.mem_map.mpr ⟨(q, ()), Table.mem_entries.mpr hm, rfl⟩

theorem WellFormed.rowProper (h : WellFormed s) (a : Address) (v : a.Value)
    (hv : s.value a = some v) : a.Proper v := by
  cases a with
  | task id => exact h.key id v hv
  | thread k => exact (h.threads k v hv).2.1
  | _ => trivial

/-- A deletion stays in the queue of its task. -/
theorem deleteTask_frame (h : WellFormed s) (t : Task) (reason : TaskDeletionReason) :
    Ensures True (deleteTask s t reason)
      (fun s' => ∀ a : Address, a.queue ≠ t.id.queue → s'.value a = s.value a) := by
  have hstart : Paired t.id.queue s s s :=
    ⟨fun _ _ => rfl, fun _ _ => rfl, fun a v _ hv => h.rowProper a v hv⟩
  have hpair := hstart.deleteTask rfl reason
  refine Ensures.of_eq (fun s' hs' => ?_) (fun _ _ => trivial)
  rw [hs'] at hpair
  exact hpair.frame

theorem dropQueue_frame (s : State) (q : QueueId) (a : Address) (ha : a.queue ≠ q) :
    (dropQueue s q).value a = s.value a := by
  cases a with
  | counter p => exact Table.get_delete_ne s.counters ha
  | queueState p => exact Table.get_delete_ne s.queueState ha
  | rateLimiter p => exact Table.get_delete_ne s.rateLimiters ha
  | purgeGCRecord p => exact Table.get_delete_ne s.purgeGCRecords ha
  | _ => rfl

/-- In a well-formed state only the task rows of a queue need to be looked for: whatever
else there is of it belongs to one of them, or is dropped with its marker. -/
theorem WellFormed.blank (h : WellFormed s)
    (empty : ∀ id t, s.tasks.get id = some t → id.queue ≠ q) : Blank q (dropQueue s q) := by
  have hitem : ∀ {x : Index QueueId IndexItem} {i : IndexItem},
      (i ∈ x.items q → ∃ t, s.tasks.get (q.task i.taskId) = some t) →
      presence (i ∈ x.items q) = none := by
    intro x i hrow
    refine presence_neg (fun hi => ?_)
    obtain ⟨t, ht⟩ := hrow hi
    exact empty _ t ht rfl
  intro a ha
  cases a with
  | task id =>
    refine Option.eq_none_iff_forall_ne_some.mpr (fun t ht => ?_)
    exact empty id t ht ha
  | dedupeKey k =>
    refine Option.eq_none_iff_forall_ne_some.mpr (fun n hn => ?_)
    obtain ⟨t, ht, _⟩ := (h.dedupe k n).mp hn
    exact empty _ t ht ha
  | queued p i =>
    subst ha
    exact hitem (fun hi => ((h.queue p i).mp hi).imp (fun _ ht => ht.1))
  | inProgress p i =>
    subst ha
    exact hitem (fun hi => ((h.inProgress p i).mp hi).imp (fun _ ht => ht.1))
  | dead p i =>
    subst ha
    exact hitem (fun hi => ((h.dead p i).mp hi).imp (fun _ ht => ht.1))
  | expiration i =>
    refine presence_neg (fun hi => ?_)
    obtain ⟨t, ht, _⟩ := (h.expiration i).mp hi
    exact empty _ t ht ha
  | thread k =>
    refine Option.eq_none_iff_forall_ne_some.mpr (fun thread hk => ?_)
    obtain ⟨_, hq, t, ht, _⟩ := h.threads k thread hk
    exact empty _ t ht (hq.trans ha)
  | member k i =>
    refine presence_neg (fun hi => ?_)
    obtain ⟨t, ht, _⟩ := (h.members k i).mp hi
    exact empty _ t ht ha
  | counter p =>
    subst ha
    exact Table.get_delete_self s.counters p
  | queueState p =>
    subst ha
    exact Table.get_delete_self s.queueState p
  | rateLimiter p =>
    subst ha
    exact Table.get_delete_self s.rateLimiters p
  | purgeGCRecord p =>
    subst ha
    exact Table.get_delete_self s.purgeGCRecords p

end Frames

section Call

/-- A call on its way, after n deletions and d dropped ids. -/
structure Collected (s : State) (n d : Nat) (s' : State) : Prop where
  wellFormed : WellFormed s'
  recordsExact : RecordsExact s'
  deleted : ∃ ids : List TaskId, ids.length = n ∧ (∀ id ∈ ids, id.queue ∈ s.purged) ∧
    ∀ id, s'.tasks.get id = if id ∈ ids then none else s.tasks.get id
  others : ∀ a : Address, a.queue ∉ s.purged → s'.value a = s.value a
  marked : ∀ q ∈ s.purged, q ∈ s'.purged ∨ Blank q s'
  work : ∀ qs : List QueueId, (∀ q ∈ s.purged, q ∈ qs) → s'.work qs + n + d = s.work qs

variable {n d : Nat} {mid : State}

theorem Collected.start (h : WellFormed s) (hr : RecordsExact s) : Collected s 0 0 s where
  wellFormed := h
  recordsExact := hr
  deleted := ⟨[], rfl, by simp, by simp⟩
  others _ _ := rfl
  marked _ hq := Or.inl hq
  work _ _ := rfl

theorem Collected.delete (h : Collected s n d mid) (row : mid.tasks.get t.id = some t)
    (hq : t.id.queue ∈ s.purged) :
    Ensures False (deleteTask mid t .none) (Collected s (n + 1) d) := by
  have hwell := deleteTask_wellFormed h.wellFormed h.recordsExact row .none
  have hframe := deleteTask_frame h.wellFormed t .none
  have hmade : Ensures True (deleteTask mid t .none) (Makes True (· = [.deleted t .none]) mid) :=
    deleteTask_makes .none h.wellFormed.indexed row
  refine ((hwell.both hframe).both hmade).mono (fun s' hs => ?_)
  obtain ⟨⟨hwell, hframe⟩, hmade⟩ := hs
  have htasks : s'.tasks = mid.tasks.delete t.id := congrArg Rows.tasks (deleted_rows hmade)
  have hmarkers : s'.purgeGCRecords = mid.purgeGCRecords :=
    congrArg Rows.purgeGCRecords (deleted_rows hmade)
  refine ⟨hwell.1, hwell.2, ?_, fun a ha => ?_, fun q hm => ?_, fun qs hqs => ?_⟩
  · obtain ⟨ids, hlength, hids, hrows⟩ := h.deleted
    refine ⟨t.id :: ids, by simp [hlength], by simpa [hq] using hids, fun id => ?_⟩
    rw [deleted_get hmade id, hrows id]
    by_cases hm : id ∈ ids
    · simp [hm]
    · simp [hm]
  · rw [hframe a (fun he => ha (he ▸ hq)), h.others a ha]
  · refine (h.marked q hm).imp (fun hm => mem_purged.mpr (hmarkers ▸ mem_purged.mp hm)) ?_
    intro hblank a ha
    -- the task deleted shows that its own queue was not blank
    have hne : q ≠ t.id.queue := by
      intro he
      have hnone : mid.tasks.get t.id = none := hblank (.task t.id) he.symm
      simp [hnone] at row
    rw [hframe a (fun he => hne (ha.symm.trans he))]
    exact hblank a ha
  · have hcount := mid.tasks.count_delete_of_some (fun id _ => decide (id.queue ∈ qs)) row
    have hin : t.id.queue ∈ qs := hqs _ hq
    have hwork := h.work qs hqs
    unfold State.work at hwork ⊢
    rw [htasks, hmarkers]
    simp only [hin, decide_true, Bool.toNat_true] at hcount
    omega

theorem Collected.drop (h : Collected s n d mid) (hq : q ∈ s.purged)
    (hmark : mid.purgeGCRecords.get q = some ())
    (empty : ∀ id t, mid.tasks.get id = some t → id.queue ≠ q) :
    Collected s n (d + 1) (dropQueue mid q) := by
  have hcoherent := h.wellFormed.coherent h.recordsExact
  have hstep : Step True mid.rows (.dropped q) (dropQueue mid q).rows := .drop empty
  have hkept : Kept mid (dropQueue mid q) :=
    (Kept.refl hcoherent).same ⟨rfl, rfl, rfl, rfl⟩ (hcoherent.indexed.step hstep)
  have hseq : Sequenced (dropQueue mid q).rows :=
    hstep.sequenced (by simp [Event.kind]) (by simp [Event.kind]) h.wellFormed.sequence
  have hblank := h.wellFormed.blank empty
  refine ⟨hkept.coherent.wellFormed hseq, hkept.coherent.recordsExact, h.deleted, fun a ha => ?_,
    fun p hp => ?_, fun qs hqs => ?_⟩
  · rw [dropQueue_frame mid q a (fun he => ha (he ▸ hq)), h.others a ha]
  · by_cases he : p = q
    · exact Or.inr (he ▸ hblank)
    · have hframe := fun a (ha : Address.queue a = p) =>
        dropQueue_frame mid q a (fun heq => he (ha.symm.trans heq))
      refine (h.marked p hp).imp (fun hm => ?_) (fun hb a ha => (hframe a ha).trans (hb a ha))
      exact mem_purged.mpr ((hframe (.purgeGCRecord p) rfl).trans (mem_purged.mp hm))
  · have hcount := mid.purgeGCRecords.count_delete_of_some (fun _ _ => true) hmark
    have hwork := h.work qs hqs
    unfold State.work at hwork ⊢
    change mid.tasks.count _ + (mid.purgeGCRecords.delete q).count _ + n + (d + 1) = _
    simp only [Bool.toNat_true] at hcount
    omega

theorem runPurgeQueueGarbageCollection_collected (req : RunPurgeQueueGarbageCollectionRequest)
    (h : WellFormed s) (hr : RecordsExact s) :
    Ensures False (runPurgeQueueGarbageCollection s req) (fun s' => ∃ n d,
      n ≤ orDefault req.maxVisitedTasks 1000 ∧ Collected s n d s' ∧
      (s.purged ≠ [] → 0 < n + d)) := by
  have hc : Collects True False s.purged (Collected s) :=
    ⟨fun hs _ row hq => hs.delete row hq, fun hs hq hmark empty => hs.drop hq hmark empty⟩
  refine (Collects.run req hc h.indexed (Collected.start h hr)).mono (fun s' hs => ?_)
  obtain ⟨n, d, hn, hcollected, hprogress⟩ := hs
  refine ⟨n, d, hn, hcollected, fun hmarked => hprogress ?_⟩
  simpa [State.purged] using hmarked

theorem Collected.purgeStep {budget : Nat} (h : Collected s n d s') (hn : n ≤ budget) :
    PurgeStep budget s s' where
  deleted := by
    obtain ⟨ids, hlength, hids⟩ := h.deleted
    exact ⟨ids, hlength ▸ hn, hids⟩
  dropped q hq hnot id t ht hid := by
    have hnone : s'.tasks.get id = none := (h.marked q hq).resolve_left hnot (.task id) hid
    simp [hnone] at ht
  others := h.others
  wellFormed := h.wellFormed
  recordsExact := h.recordsExact

end Call

section Runs

/-- What others may do between two collections: the rows of the queue ids qs stay as they
are, and no other queue id is marked. -/
structure Elsewhere (qs : List QueueId) (s s' : State) : Prop where
  same : ∀ a : Address, a.queue ∈ qs → s'.value a = s.value a
  unmarked : ∀ q ∈ s'.purged, q ∈ qs
  wellFormed : WellFormed s'
  recordsExact : RecordsExact s'

/-- A run of collections, each with its own page sizes and budget. -/
inductive Drainage (qs : List QueueId) :
    List RunPurgeQueueGarbageCollectionRequest → State → State → Prop where
  | nil {s : State} : Drainage qs [] s s
  | cons {s mid s' s'' : State} {req : RunPurgeQueueGarbageCollectionRequest}
    {reqs : List RunPurgeQueueGarbageCollectionRequest} (others : Elsewhere qs s mid)
    (call : runPurgeQueueGarbageCollection mid req = .ok s') (rest : Drainage qs reqs s' s'') :
    Drainage qs (req :: reqs) s s''

/-- Between two collections every queue id is still marked, or nothing of it is left. -/
structure Draining (qs : List QueueId) (s : State) : Prop where
  wellFormed : WellFormed s
  recordsExact : RecordsExact s
  marked : ∀ q ∈ qs, q ∈ s.purged ∨ Blank q s
  unmarked : ∀ q ∈ s.purged, q ∈ qs

variable {qs : List QueueId} {reqs : List RunPurgeQueueGarbageCollectionRequest} {n d : Nat}

theorem Draining.elsewhere (h : Draining qs s) (he : Elsewhere qs s s') :
    Draining qs s' ∧ s'.work qs = s.work qs := by
  have hmarker : ∀ q ∈ qs, s'.purgeGCRecords.get q = s.purgeGCRecords.get q :=
    fun q hq => he.same (.purgeGCRecord q) hq
  have hmarkers : s'.purgeGCRecords = s.purgeGCRecords := by
    refine Table.ext (fun q => ?_)
    by_cases hq : q ∈ qs
    · exact hmarker q hq
    · have hnot : ∀ u : State, (∀ q ∈ u.purged, q ∈ qs) → u.purgeGCRecords.get q = none := by
        intro u hu
        refine Option.eq_none_iff_forall_ne_some.mpr (fun _ hm => ?_)
        exact hq (hu q (mem_purged.mpr hm))
      rw [hnot s' he.unmarked, hnot s h.unmarked]
  have hrows : s'.tasks.count (fun id _ => id.queue ∈ qs) =
      s.tasks.count (fun id _ => id.queue ∈ qs) := by
    unfold Table.count
    rw [List.countP_eq_length_filter, List.countP_eq_length_filter,
      Table.entries_filter_ext (p := fun id => decide (id.queue ∈ qs))
        (fun id hid => he.same (.task id) (of_decide_eq_true hid))]
  refine ⟨⟨he.wellFormed, he.recordsExact, fun q hq => ?_, he.unmarked⟩, ?_⟩
  · refine (h.marked q hq).imp (fun hm => ?_) (fun hb a ha => ?_)
    · exact mem_purged.mpr ((hmarker q hq).trans (mem_purged.mp hm))
    · exact (he.same a (ha ▸ hq)).trans (hb a ha)
  · unfold State.work
    rw [hmarkers, hrows]

/-- A collection takes some work off as long as there is any. -/
theorem Draining.collected (h : Draining qs s) (hc : Collected s n d s')
    (hprogress : s.purged ≠ [] → 0 < n + d) :
    Draining qs s' ∧ s'.work qs ≤ s.work qs - 1 := by
  have hunmarked : ∀ q ∈ s'.purged, q ∈ s.purged := by
    intro q hq
    by_contra hnot
    have hsame : s'.purgeGCRecords.get q = s.purgeGCRecords.get q :=
      hc.others (.purgeGCRecord q) hnot
    exact hnot (mem_purged.mpr (hsame.symm.trans (mem_purged.mp hq)))
  have hwork := hc.work qs h.unmarked
  refine ⟨⟨hc.wellFormed, hc.recordsExact, fun q hq => ?_, fun q hq => h.unmarked q
    (hunmarked q hq)⟩, ?_⟩
  · by_cases hm : q ∈ s.purged
    · exact hc.marked q hm
    · have hblank := (h.marked q hq).resolve_left hm
      exact Or.inr (fun a ha => (hc.others a (ha ▸ hm)).trans (hblank a ha))
  · by_cases hnone : s.purged = []
    · -- without a marker nothing of the queue ids is left to be counted
      have hrows : s.tasks.count (fun id _ => id.queue ∈ qs) = 0 := by
        refine Table.count_eq_zero.mpr (fun id t ht => ?_)
        refine decide_eq_false (fun hid => ?_)
        have hblank := (h.marked id.queue hid).resolve_left (by simp [hnone])
        have hget : s.tasks.get id = none := hblank (.task id) rfl
        simp [hget] at ht
      have hmarkers : s.purgeGCRecords.count (fun _ _ => true) = 0 := by
        refine Table.count_eq_zero.mpr (fun q _ hq => ?_)
        have hm := mem_purged.mpr hq
        simp [hnone] at hm
      unfold State.work at hwork ⊢
      omega
    · have hsome := hprogress hnone
      omega

theorem Draining.blank (h : Draining qs s) (hwork : s.work qs = 0) (hq : q ∈ qs) : Blank q s := by
  refine (h.marked q hq).resolve_left (fun hm => ?_)
  have hnone : s.purgeGCRecords.count (fun _ _ => true) = 0 := by
    unfold State.work at hwork
    omega
  have hfalse := Table.count_eq_zero.mp hnone q () (mem_purged.mp hm)
  simp at hfalse

theorem Drainage.blank (hd : Drainage qs reqs s s') (h : Draining qs s)
    (hwork : s.work qs ≤ reqs.length) (hq : q ∈ qs) : Blank q s' := by
  induction hd with
  | nil => exact h.blank (by simpa using hwork) hq
  | cons others call _ ih =>
    obtain ⟨hmid, hsame⟩ := h.elsewhere others
    obtain ⟨n, d, _, hc, hprogress⟩ := Ensures.elim
      (runPurgeQueueGarbageCollection_collected _ hmid.wellFormed hmid.recordsExact) call
    obtain ⟨hnext, hless⟩ := hmid.collected hc hprogress
    rw [List.length_cons] at hwork
    exact ih hnext (by omega)

/-- A run of collections can always go on. -/
theorem Draining.drainage (h : Draining qs s) (reqs : List RunPurgeQueueGarbageCollectionRequest) :
    ∃ s', Drainage qs reqs s s' := by
  induction reqs generalizing s with
  | nil => exact ⟨s, .nil⟩
  | cons req reqs ih =>
    obtain ⟨s1, hrun, n, d, _, hc, hprogress⟩ :=
      (runPurgeQueueGarbageCollection_collected req h.wellFormed h.recordsExact).returns
    obtain ⟨s', hrest⟩ := ih (h.collected hc hprogress).1
    exact ⟨s', .cons ⟨fun _ _ => rfl, h.unmarked, h.wellFormed, h.recordsExact⟩ hrun hrest⟩

/-- Each call deletes within its budget and only what is marked, and as many calls as
there are rows and markers remove everything under the ids that were marked, whatever
happens elsewhere in between. More pages than a budget has tasks change nothing. -/
theorem purge_drains (h : WellFormed s) (hr : RecordsExact s) :
    (∀ req, ∃ s', runPurgeQueueGarbageCollection s req = .ok s' ∧
      PurgeStep (orDefault req.maxVisitedTasks 1000) s s') ∧
    (∀ x q pageSize maxVisited visited pages, visited < maxVisited → maxVisited ≤ pages →
      drainRecord pageSize maxVisited q pages x visited =
        drainRecord pageSize maxVisited q maxVisited x visited) ∧
    (∀ reqs, ∃ s', Drainage s.purged reqs s s') ∧
    ∀ reqs s', Drainage s.purged reqs s s' → s.work s.purged ≤ reqs.length →
      ∀ q ∈ s.purged, Blank q s' := by
  have hdraining : Draining s.purged s := ⟨h, hr, fun _ hq => Or.inl hq, fun _ hq => hq⟩
  refine ⟨fun req => ?_, fun x q pageSize _ _ _ => drainRecord_pages pageSize q x,
    hdraining.drainage, fun reqs s' hd hwork q hq => hd.blank hdraining hwork hq⟩
  obtain ⟨s', hrun, n, d, hn, hc, _⟩ := (runPurgeQueueGarbageCollection_collected req h hr).returns
  exact ⟨s', hrun, hc.purgeStep hn⟩

end Runs

end Store

section Examples

/-- A thread of two and a task on its own in a queue that is purged, and another queue. -/
def purgedRun : List Call :=
  [⟨5, .enqueue ⟨threadQueue, [threadEntry 10 [1] [], threadEntry 20 [] [], plainEntry 6 100 []]⟩⟩,
    ⟨5, .enqueue ⟨plainQueue, [plainEntry 6 100 []]⟩⟩, ⟨6, .purgeQueue threadQueue⟩]

theorem purgedRun_wellFormed : WellFormed (run State.empty purgedRun) :=
  run_wellFormed (by decide +kernel) (by decide +kernel) (by decide +kernel)

/-- Four calls that may delete one task each drain the queue id. -/
theorem purge_drains_thread : ∃ s', Drainage (run State.empty purgedRun).purged
    [⟨0, 1, 1⟩, ⟨0, 1, 1⟩, ⟨0, 1, 1⟩, ⟨0, 1, 1⟩] (run State.empty purgedRun) s' ∧
      Blank threadQueue s' := by
  obtain ⟨_, _, hruns, hblank⟩ := purge_drains purgedRun_wellFormed (by decide +kernel)
  obtain ⟨s', hd⟩ := hruns [⟨0, 1, 1⟩, ⟨0, 1, 1⟩, ⟨0, 1, 1⟩, ⟨0, 1, 1⟩]
  exact ⟨s', hd, hblank _ s' hd (by decide +kernel) threadQueue (by decide +kernel)⟩

end Examples

end Moab
