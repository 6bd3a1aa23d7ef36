import Moab.Tasks.Intact
import Moab.Tasks.KeysAndDeadlines
import Moab.Tasks.ThreadOrder

namespace Moab

open OrderedStore

section Store

variable [OrderedStore] {s : State} {t u : Task} {q : QueueId} {now : Time}

/-- A task that can still be delivered holds the dedupe key: it is being worked, or it
waits and its deadline has not passed. -/
def KeyServed (s : State) (q : QueueId) (dedupeKey : Bytes) (now : Time) : Prop :=
  ∃ id t, id.queue = q ∧ s.tasks.get id = some t ∧ t.dedupeKey = dedupeKey ∧
    (t.state = .inProgress ∨ t.state = .enqueued ∧ ¬t.expiresAt < now)

/-- The dedupe key of an entry is held by a waiting task whose deadline has passed, and
the entry does not overwrite the deadline. -/
def Shadowed (s : State) (q : QueueId) (e : EnqueueRequestEntry) (now : Time) : Prop :=
  ∃ id t, id.queue = q ∧ s.tasks.get id = some t ∧ t.dedupeKey = e.dedupeKey ∧
    t.state = .enqueued ∧ t.expiresAt < now ∧ .expiresAt ∉ e.overwriteOnDuplicate

/-- A task after the overwrites of an entry. -/
structure Merged (t : Task) (overwrites : List OverwriteOnDuplicate) (expiresAt : Time) (u : Task) :
    Prop where
  id : u.id = t.id
  state : u.state = t.state
  dedupeKey : u.dedupeKey = t.dedupeKey
  expiresAt : u.expiresAt = if .expiresAt ∈ overwrites then expiresAt else t.expiresAt

theorem overwriteField_merges (scheduledAt : Time) (payload : Bytes) (expiresAt : Time)
    (a : State × Task) (o : OverwriteOnDuplicate) :
    Ensures True (overwriteField scheduledAt payload expiresAt a o)
      (fun b => Merged a.2 [o] expiresAt b.2) := by
  cases o with
  | invalid | payload | expiresAt => exact Ensures.ok ⟨rfl, rfl, rfl, by simp⟩
  | scheduledAt =>
    apply Ensures.ite
    · exact fun _ => Ensures.ok ⟨rfl, rfl, rfl, by simp⟩
    · exact fun _ => Ensures.bind_any (fun _ => Ensures.ok ⟨rfl, rfl, rfl, by simp⟩)

omit [OrderedStore] in
theorem Merged.trans {v : Task} {l l' : List OverwriteOnDuplicate} {expiresAt : Time}
    (h : Merged t l expiresAt u) (h' : Merged u l' expiresAt v) :
      Merged t (l ++ l') expiresAt v where
  id := h'.id.trans h.id
  state := h'.state.trans h.state
  dedupeKey := h'.dedupeKey.trans h.dedupeKey
  expiresAt := by
    rw [h'.expiresAt, h.expiresAt]
    by_cases hl : .expiresAt ∈ l <;> simp [hl]

theorem overwriteFields_merge (scheduledAt : Time) (payload : Bytes) (expiresAt : Time)
    (l : List OverwriteOnDuplicate) (a : State × Task) :
    Ensures True (l.foldlM (overwriteField scheduledAt payload expiresAt) a)
      (fun b => Merged a.2 l expiresAt b.2) := by
  induction l generalizing a with
  | nil => exact Ensures.ok ⟨rfl, rfl, rfl, by simp⟩
  | cons o l ih =>
    rw [List.foldlM_cons]
    refine (overwriteField_merges scheduledAt payload expiresAt a o).bind ?_
    intro b hb
    exact (ih b).mono (fun c hc => hb.trans hc)

/-- A duplicate is merged into a task that waits, and changes no other. -/
theorem overwriteDuplicate_merges {id : TaskId} (hid : t.id = id) (row : s.tasks.get id = some t)
    (overwrites : List OverwriteOnDuplicate) (scheduledAt : Time) (payload : Bytes)
    (expiresAt : Time) :
    Ensures True (overwriteDuplicate s id overwrites scheduledAt payload expiresAt)
      (fun a => ∃ u, a.1.tasks.get id = some u ∧
        Merged t (if t.state = .enqueued then overwrites else []) expiresAt u) := by
  have hnone : Merged t [] expiresAt t := ⟨rfl, rfl, rfl, by simp⟩
  unfold overwriteDuplicate
  apply Ensures.ite
  · intro hnil
    refine Ensures.ok ⟨t, row, ?_⟩
    rw [hnil, ite_self]
    exact hnone
  · intro _
    rw [State.getTask_eq_ok.mpr row]
    apply Ensures.ite
    · intro state
      rw [if_pos state]
      refine (overwriteFields_merge scheduledAt payload expiresAt overwrites (s, t)).bind ?_
      intro a ha
      refine Ensures.ok ⟨a.2, ?_, ha⟩
      rw [← hid, ← ha.id]
      exact Table.get_set_self ..
    · intro state
      rw [if_neg state]
      exact Ensures.ok ⟨t, row, hnone⟩

/-- The holder of the key of an entry came with the entry, or is a live task that the
entry was merged into. -/
inductive Holding (s : State) (q : QueueId) (e : EnqueueRequestEntry) (s' : State) : Prop where
  | created {id : TaskId} {u : Task} (queue : id.queue = q) (row : s'.tasks.get id = some u)
    (key : u.dedupeKey = e.dedupeKey) (state : u.state = .enqueued)
    (expiresAt : u.expiresAt = e.expiresAt) (fresh : duplicateOf s q e = none)
  | merged {id : TaskId} {t u : Task} (queue : id.queue = q) (row : s.tasks.get id = some t)
    (live : t.live) (key : t.dedupeKey = e.dedupeKey) (row' : s'.tasks.get id = some u)
    (merged : Merged t (if t.state = .enqueued then e.overwriteOnDuplicate else []) e.expiresAt u)

theorem enqueueEntry_holding (hi : Indexed True s.rows) (n : Nat) (e : EnqueueRequestEntry)
    (hkey : e.dedupeKey ≠ []) :
    Ensures True (enqueueEntry q now s n e) (fun a => Holding s q e a.1) := by
  unfold enqueueEntry
  cases hd : duplicateOf s q e with
  | none =>
    refine ((createTask_rows s (newTask q (n + 1) e now)).weaken (fun _ => trivial)).bind ?_
    intro s' hs'
    have htasks : s'.tasks = s.tasks.set (q.task (n + 1)) (newTask q (n + 1) e now) :=
      congrArg Rows.tasks hs'
    have row : s'.tasks.get (q.task (n + 1)) = some (newTask q (n + 1) e now) := by
      rw [htasks]
      exact Table.get_set_self ..
    exact Ensures.ok (.created rfl row rfl rfl rfl hd)
  | some id =>
    rw [duplicateOf, if_neg hkey] at hd
    obtain ⟨m, hm, rfl⟩ := Option.map_eq_some_iff.mp hd
    obtain ⟨t, row, live, _, hheld⟩ := (hi.dedupeExact _ _).mp hm
    refine (overwriteDuplicate_merges (hi.key _ t row) row _ _ _ _).bind ?_
    intro a ha
    obtain ⟨u, hu, hmerged⟩ := ha
    exact Ensures.ok (.merged rfl row live hheld hu hmerged)

theorem enqueue_holding (hi : Indexed True s.rows) (e : EnqueueRequestEntry)
    (hkey : e.dedupeKey ≠ []) :
    Ensures True (enqueue s now ⟨q, [e]⟩)
      (fun a => a = (s, .error (.queueIdPurged q)) ∨ Holding s q e a.1) := by
  unfold enqueue
  dsimp only
  cases hp : checkQueueNotPurged s q with
  | some err =>
    obtain ⟨_, _, rfl⟩ := Option.map_eq_some_iff.mp hp
    exact Ensures.ok (Or.inl rfl)
  | none =>
    dsimp only
    unfold enqueueEntries
    refine Ensures.bind (P := fun a => Holding s q e a.1) ?_ ?_
    · refine (enqueueEntry_holding hi _ e hkey).bind ?_
      intro a ha
      exact Ensures.ok ha
    · intro a ha
      refine Ensures.ok (Or.inr ?_)
      cases ha with
      | created queue row key state expiresAt fresh =>
        exact .created queue row key state expiresAt fresh
      | merged queue row live key row' merged => exact .merged queue row live key row' merged

section Holders

variable {id : TaskId}

/-- One holder decides whether its key is served. -/
theorem keyServed_iff (h : KeysUnique s) (queue : id.queue = q) (row : s.tasks.get id = some t)
    (live : t.live) (hkey : t.dedupeKey ≠ []) :
    KeyServed s q t.dedupeKey now ↔ t.state = .inProgress ∨ t.state = .enqueued ∧
      ¬t.expiresAt < now := by
  constructor
  · intro hserved
    obtain ⟨id', u, hq, hu, heq, hstate⟩ := hserved
    have hlive : u.live := by
      rcases hstate with hst | hst
      · simp [Task.live, hst]
      · simp [Task.live, hst.1]
    have hid := h id' id u t hu row hlive live (hq.trans queue.symm) heq (heq ▸ hkey)
    rw [hid, row] at hu
    obtain rfl := Option.some.inj hu
    exact hstate
  · exact fun hstate => ⟨id, t, queue, row, rfl, hstate⟩

theorem shadowed_iff {e : EnqueueRequestEntry} (h : KeysUnique s) (queue : id.queue = q)
    (row : s.tasks.get id = some t) (live : t.live) (hkey : e.dedupeKey ≠ [])
    (hheld : t.dedupeKey = e.dedupeKey) : Shadowed s q e now ↔
      t.state = .enqueued ∧ t.expiresAt < now ∧ .expiresAt ∉ e.overwriteOnDuplicate := by
  constructor
  · intro hshadowed
    obtain ⟨id', u, hq, hu, heq, hstate, hlate⟩ := hshadowed
    have hid := h id' id u t hu row (by simp [Task.live, hstate]) live (hq.trans queue.symm)
      (heq.trans hheld.symm) (heq ▸ hkey)
    rw [hid, row] at hu
    obtain rfl := Option.some.inj hu
    exact ⟨hstate, hlate⟩
  · exact fun hlate => ⟨id, t, queue, row, hheld, hlate⟩

/-- A key that nobody holds is not held by an expired task. -/
theorem not_shadowed_of_fresh {e : EnqueueRequestEntry} (h : DedupeExact s)
    (hkey : e.dedupeKey ≠ []) (fresh : duplicateOf s q e = none) : ¬Shadowed s q e now := by
  intro hshadowed
  obtain ⟨id, u, hq, hu, heq, hstate, _⟩ := hshadowed
  subst hq
  have hget : s.dedupeKeysIndex.get ⟨id.queue, e.dedupeKey⟩ = some id.taskId :=
    (h _ _).mpr ⟨u, hu, by simp [Task.live, hstate], heq ▸ hkey, heq⟩
  simp [duplicateOf, getTaskIdByDedupeKey, hkey, hget] at fresh

end Holders

theorem Coherent.intact (h : Coherent s) : Intact s :=
  ⟨fun k thread hk => (h.heads.thread_key k thread hk).1, h.whole, fun k _ => h.heads.timed k⟩

/-- An entry with a dedupe key and a deadline to come is refused because its queue was
purged, or leaves a deliverable holder of its key exactly when it did not run into a
holder that had expired and kept its deadline. -/
theorem enqueue_serves_key_iff (h : WellFormed s) (hr : RecordsExact s) (q : QueueId) (now : Time)
    (e : EnqueueRequestEntry) (hkey : e.dedupeKey ≠ []) (intime : ¬e.expiresAt < now) :
    Ensures False (enqueue s now ⟨q, [e]⟩) (fun a =>
      a = (s, .error (.queueIdPurged q)) ∨
      (KeyServed a.1 q e.dedupeKey now ↔ ¬Shadowed s q e now)) := by
  have hc := h.coherent hr
  obtain ⟨a, ha⟩ := enqueue_returns hc.intact h.indexed h.sequence now ⟨q, [e]⟩
  have hmade : Ensures True (exec s now (.enqueue ⟨q, [e]⟩)) _ := h.exec_makes
  obtain ⟨_, _, _, hi'⟩ := hmade.of_map.elim ha
  have hholding := (enqueue_holding h.indexed e hkey).elim ha
  rw [ha]
  refine Ensures.ok (hholding.imp_right (fun hholding => ?_))
  cases hholding with
  | created queue row key state expiresAt fresh =>
    have hserved : KeyServed _ q _ now ↔ _ := keyServed_iff hi'.dedupeExact.unique queue row
      (by simp [Task.live, state]) (key.symm ▸ hkey)
    rw [key, state, expiresAt] at hserved
    rw [hserved]
    exact iff_of_true (Or.inr ⟨rfl, intime⟩) (not_shadowed_of_fresh h.dedupe hkey fresh)
  | @merged id t u queue row live key row' merged =>
    have hlive : u.live := by rw [Task.live, merged.state]; exact live
    have hserved : KeyServed _ q _ now ↔ _ := keyServed_iff hi'.dedupeExact.unique queue row' hlive
      (by rw [merged.dedupeKey, key]; exact hkey)
    rw [merged.dedupeKey, key, merged.state, merged.expiresAt] at hserved
    rw [hserved, shadowed_iff h.dedupe.unique queue row live hkey key]
    -- an overwritten deadline is the one of the entry, which is to come
    have hor : t.state = .enqueued ∨ t.state = .inProgress := by simpa [Task.live] using live
    rcases hor with state | state
    · by_cases hmem : OverwriteOnDuplicate.expiresAt ∈ e.overwriteOnDuplicate
      · simp [state, hmem, intime]
      · simp [state, hmem]
    · simp [state]

end Store

section Runs

/-- A task with a key that is due later, and expires before that. -/
def staleEntry (overwrites : List OverwriteOnDuplicate) (expiresAt : Time) : EnqueueRequestEntry :=
  ⟨[], 5, expiresAt, [1], none, overwrites, []⟩

def staleRun : List Call := [⟨5, .enqueue ⟨plainQueue, [staleEntry [] 10]⟩⟩]

theorem staleRun_wellFormed : WellFormed (run State.empty staleRun) :=
  run_wellFormed (by decide +kernel) (by decide +kernel) (by decide +kernel)

/-- An entry that overwrites the deadline brings the task back. -/
theorem enqueue_serves_key_renewed :
    Ensures False (enqueue (run State.empty staleRun) 20 ⟨plainQueue,
      [staleEntry [.expiresAt] 100]⟩)
      (fun a => a = (run State.empty staleRun, .error (.queueIdPurged plainQueue)) ∨
        KeyServed a.1 plainQueue [1] 20) := by
  refine (enqueue_serves_key_iff staleRun_wellFormed (by decide +kernel) plainQueue 20
    (staleEntry [.expiresAt] 100) (by decide) (by decide)).mono ?_
  intro a ha
  refine ha.imp_right (fun hiff => hiff.mpr ?_)
  intro hshadowed
  obtain ⟨_, _, _, _, _, _, _, hout⟩ := hshadowed
  exact hout (by decide)

/-- The first task expired at 10. An entry of time 20 is dropped in its favour, though
nobody can read it any more, and Dequeue hands nothing out. -/
theorem enqueue_drops_for_expired :
    WellFormed (run State.empty staleRun) ∧ RecordsExact (run State.empty staleRun) ∧
    Ensures False (enqueue (run State.empty staleRun) 20 ⟨plainQueue, [staleEntry [] 100]⟩)
      (fun a => a.1.tasks.entries = (run State.empty staleRun).tasks.entries ∧
        getTask a.1 20 (plainQueue.task 1) = .error (.taskNotFound (plainQueue.task 1)) ∧
        Ensures False (dequeue a.1 20 ⟨plainQueue, none, 10, none, 60⟩)
          (fun b => b.2 = .ok [] ∧ b.1.tasks.entries = [])) :=
  ⟨staleRun_wellFormed, by decide +kernel, by decide +kernel⟩

end Runs

end Moab
