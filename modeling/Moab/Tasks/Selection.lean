import Moab.Tasks.Counters
import Moab.Tasks.Drift
import Moab.Tasks.FailedHeads
import Moab.Tasks.Stable

namespace Moab

open OrderedStore

section Store

variable [OrderedStore]

variable {s mid : State} {q : QueueId} {now limit keepalive : Time}
  {settings : Option DequeuingSettings}

section Rows

theorem foldl_dropExpired_other (l : List Task) (s : State) {id : TaskId} (h : ∀ t ∈ l, t.id ≠ id) :
    (l.foldl (dropExpired q) s).tasks.get id = s.tasks.get id := by
  induction l generalizing s with
  | nil => rfl
  | cons t l ih =>
    rw [List.foldl_cons, ih _ (fun u hu => h u (List.mem_cons_of_mem _ hu))]
    exact Table.get_delete_ne _ (h t List.mem_cons_self).symm

theorem foldl_dropExpired_gone (l : List Task) (s : State) {id : TaskId} (h : id ∈ l.map Task.id) :
    (l.foldl (dropExpired q) s).tasks.get id = none := by
  induction l generalizing s with
  | nil => simp at h
  | cons t l ih =>
    rw [List.foldl_cons]
    by_cases hl : id ∈ l.map Task.id
    · exact ih _ hl
    · have he : id = t.id := (List.mem_cons.mp h).resolve_right hl
      have hother : ∀ u ∈ l, u.id ≠ id := by
        intro u hu hid
        exact hl (hid ▸ List.mem_map_of_mem hu)
      rw [foldl_dropExpired_other l _ hother, he]
      exact Table.get_delete_self _ _

theorem foldl_leaseTask_other (l : List Task) (s : State) {id : TaskId} (h : ∀ t ∈ l, t.id ≠ id) :
    (l.foldl (leaseTask q now keepalive) s).tasks.get id = s.tasks.get id := by
  induction l generalizing s with
  | nil => rfl
  | cons t l ih =>
    rw [List.foldl_cons, ih _ (fun u hu => h u (List.mem_cons_of_mem _ hu))]
    exact Table.get_set_ne _ _ (h t List.mem_cons_self).symm

theorem foldl_leaseTask_leased (l : List Task) (s : State) (hn : (l.map Task.id).Nodup) {t : Task}
    (h : t ∈ l) :
    (l.foldl (leaseTask q now keepalive) s).tasks.get t.id = some (t.lease now keepalive) := by
  induction l generalizing s with
  | nil => simp at h
  | cons u l ih =>
    obtain ⟨hu, hn⟩ := List.nodup_cons.mp hn
    rw [List.foldl_cons]
    rcases List.mem_cons.mp h with he | h
    · subst he
      have hother : ∀ v ∈ l, v.id ≠ t.id := by
        intro v hv he
        exact hu (he ▸ List.mem_map_of_mem hv)
      rw [foldl_leaseTask_other l _ hother]
      exact Table.get_set_self ..
    · exact ih _ hn h

/-- What a scan that met the tasks ts makes of the rows. -/
structure Rewrites (now keepalive : Time) (ts : List Task) (s s' : State) : Prop where
  leased : ∀ t ∈ ts, ¬t.expiresAt < now → s'.tasks.get t.id = some (t.lease now keepalive)
  expired : ∀ t ∈ ts, t.expiresAt < now → s'.tasks.get t.id = none
  others : ∀ id, (∀ t ∈ ts, t.id ≠ id) → s'.tasks.get id = s.tasks.get id

theorem applyScan_rewrites {cursor last : Time} {ts : List Task} {b : Scan}
    (hn : (ts.map Task.id).Nodup) (hv : Visited now ts ⟨[], [], last, s.getCounter q, 0⟩ b) :
    Rewrites now keepalive ts s (applyScan s q now keepalive cursor b) := by
  obtain ⟨hd, hx, _⟩ := hv
  rw [List.nil_append] at hd hx
  unfold applyScan
  dsimp only
  rw [hd, hx]
  generalize hs1 : (s.setQueueState q _).setCounter q _ = s1
  have htasks : s1.tasks = s.tasks := by rw [← hs1]; rfl
  have hids : ∀ t ∈ ts, ∀ u ∈ ts, t.id = u.id → t = u :=
    fun t ht u hu he => List.inj_on_of_nodup_map hn ht hu he
  have hleased : ((ts.filter (fun t => !t.overdue now)).map Task.id).Nodup :=
    hn.sublist (List.Sublist.map _ List.filter_sublist)
  refine ⟨?_, ?_, ?_⟩
  · intro t ht hlate
    have hlive : !t.overdue now := by simpa [Task.overdue] using hlate
    exact foldl_leaseTask_leased _ _ hleased (List.mem_filter.mpr ⟨ht, hlive⟩)
  · intro t ht hlate
    have hover : t.overdue now := by simpa [Task.overdue] using hlate
    rw [foldl_leaseTask_other]
    · exact foldl_dropExpired_gone _ _ (List.mem_map_of_mem (List.mem_filter.mpr ⟨ht, hover⟩))
    · intro u hu he
      obtain ⟨hu, hlive⟩ := List.mem_filter.mp hu
      rw [hids u hu t ht he, hover] at hlive
      simp at hlive
  · intro id hid
    have hother : ∀ p, ∀ t ∈ ts.filter p, t.id ≠ id :=
      fun p t ht => hid t (List.mem_of_mem_filter ht)
    rw [foldl_leaseTask_other _ _ (hother _), foldl_dropExpired_other _ _ (hother _), htasks]

end Rows

section Prefix

/-- The items whose time has come, in the order of the index. -/
def dueItems (s : State) (q : QueueId) (now : Time) : List IndexItem :=
  (s.queueIndex.items q).filter (fun i => i.time.rank ≤ now.rank)

/-- Having met the tasks ts, a scan of the queue looks at another item: fewer than
limit of them were taken, fewer than a hundred were met and, under a cap, fewer
tasks than that are in progress. -/
def LooksOn (s : State) (q : QueueId) (now limit : Time) (settings : Option DequeuingSettings)
    (ts : List Task) : Prop :=
  Scan.goesOn ⟨[], [], (s.getQueueState q).lastVisitedEnqueued, s.getCounter q, 0⟩
    now limit settings ts

end Prefix

section Dequeue

end Dequeue

section Vetted

/-- What the core makes of rows whose retry strategies passed validation: a task that is worked
was handed out. -/
structure Task.Vetted (t : Task) : Prop where
  strategy : ∀ strategy, t.retryStrategy = some strategy → strategy.valid
  attempts : 0 ≤ t.attempts
  delivered : t.state = .inProgress → 1 ≤ t.attempts

/-- The rows are vetted and no cursor is before the epoch. -/
structure Vetted (s : State) : Prop where
  row : ∀ id t, s.tasks.get id = some t → t.Vetted
  cursor : ∀ q, 0 ≤ (s.getQueueState q).lastVisitedEnqueued

namespace Vetted

omit [OrderedStore] in
theorem failing (dlqConfig : Option DeadLetterQueueConfig) :
    Failing Task.Vetted Task.Vetted now dlqConfig where
  die _ _ ht _ := ⟨ht.strategy, ht.attempts, by simp [Task.die]⟩
  retry _ _ ht _ := ⟨ht.strategy, ht.attempts, by simp [Task.retry]⟩

omit [OrderedStore] in
theorem writes {op : Op} (hv : op.valid) : op.Writes Task.Vetted Task.Vetted now := by
  cases op with
  | enqueue req =>
    intro e he
    exact ⟨⟨fun _ ht => { ht with }, fun _ ht => { ht with }, fun _ ht => { ht with }⟩,
      fun _ => ⟨hv e he, le_refl _, by simp [newTask]⟩⟩
  | dequeue req =>
    refine ⟨failing _, fun t ht => ⟨ht.strategy, ?_, fun _ => ?_⟩⟩
    · exact Int.add_nonneg ht.attempts (by decide)
    · exact Int.le_add_of_nonneg_left ht.attempts
  | reportStatus req => exact ⟨failing _, fun _ _ _ _ ht _ => { ht with }⟩
  | restartTasks req => exact fun _ _ _ ht => ⟨ht.strategy, le_refl _, by simp [Task.restart]⟩
  | _ => trivial

theorem commit {op : Op} (h : Vetted s) (hv : op.valid) (hnow : 0 ≤ now) :
    Vetted (commit s now op) := by
  apply commit_keeps h
  refine ((exec_rows h.row (writes hv)).both (exec_queueStates
    (P := fun _ st => 0 ≤ st.lastVisitedEnqueued) h.cursor (fun req _ _ => h.cursor req.queueId) ?_
    (fun _ _ _ => Int64.le_refl 0))).mono (fun _ ha => ⟨ha.1, ha.2⟩)
  intro req st st' _ hst hvisit
  rcases hvisit.cursor with hsame | hreached
  · rw [hsame]
    exact hst
  · exact Time.nonneg_of_rank hnow hreached

/-- Validated calls from the epoch on lead to vetted states only. -/
theorem run {calls : List Call} (hcalls : ∀ c ∈ calls, c.op.valid ∧ 0 ≤ c.now) :
    Vetted (run State.empty calls) := by
  refine run_keeps (I := Vetted) (P := fun _ c => c.op.valid ∧ 0 ≤ c.now)
    (fun _ _ h hc => h.commit hc.1 hc.2) calls _ (Along.of_mem hcalls) ⟨?_, fun q => ?_⟩
  · exact fun id t ht => by simp [State.empty] at ht
  · simp [State.getQueueState, State.empty, QueueState.zero]

end Vetted

end Vetted

end Store

section Runs

end Runs

end Moab
