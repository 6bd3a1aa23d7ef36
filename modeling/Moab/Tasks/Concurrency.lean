import Moab.Tasks.Counters

namespace Moab

open OrderedStore

section Scan

variable [OrderedStore] {s : State} {q : QueueId} {now limit keepalive : Time} {M : Int}

/-- The settings cap the tasks in progress at M. -/
def Caps (settings : Option DequeuingSettings) (M : Int) : Prop :=
  settings.map (·.maxInProgressTasks) = some M

omit [OrderedStore] in
theorem Caps.below {settings : Option DequeuingSettings} {c : TasksCounter} (h : Caps settings M)
    (hM : 0 < M) (hopen : atMaxInProgress c settings = false) : c.inProgressTasksCount < M := by
  obtain ⟨d, rfl, hd⟩ := Option.map_eq_some_iff.mp h
  simp only [atMaxInProgress, Option.any_some, decide_eq_false_iff_not, not_and,
    not_le, hd] at hopen
  exact hopen hM

/-- A scan takes no task once the cap is used up. -/
theorem scanQueue_capped {settings : Option DequeuingSettings} (hM : 0 < M) (h : Caps settings M)
    (items : List IndexItem) (a : Scan) :
    Ensures True (scanQueue s q now limit settings a items) (fun b =>
      b.counters.inProgressTasksCount ≤ max M a.counters.inProgressTasksCount) := by
  induction items generalizing a with
  | nil => exact Ensures.ok (le_max_right _ _)
  | cons i items ih =>
    apply Ensures.ite
    · exact fun _ => Ensures.ok (le_max_right _ _)
    · intro hopen
      apply Ensures.bind_any
      intro t
      have hroom : a.counters.inProgressTasksCount < M := by
        apply h.below hM
        simp only [Scan.saturated, decide_eq_true_eq, not_or] at hopen
        simpa using hopen.2.2
      have hvisit : (a.visit i t now).counters.inProgressTasksCount ≤
          a.counters.inProgressTasksCount + 1 := by
        unfold Scan.visit
        split_ifs
        · exact le_of_lt (Int.lt_succ _)
        · exact le_refl _
      apply (ih (a.visit i t now)).mono
      intro b hb
      omega

/-- The gauge that a scan leaves behind is the one it counted with. -/
theorem applyScan_inProgress (s : State) (q : QueueId) (now keepalive cursor : Time) (b : Scan) :
    ((applyScan s q now keepalive cursor b).getCounter q).inProgressTasksCount =
      b.counters.inProgressTasksCount := by
  unfold applyScan State.getCounter
  dsimp only
  rw [foldl_keeps State.counters (f := leaseTask q now keepalive) (fun _ _ => rfl),
    foldl_keeps State.counters (f := dropExpired q) (fun _ _ => rfl)]
  unfold State.setCounter
  rw [Table.get_set_self]
  rfl

theorem chargeLimiter_getCounter (s : State) (q q' : QueueId) (limiter : Option RateLimiterState)
    (n : Nat) : (chargeLimiter s q limiter n).getCounter q' = s.getCounter q' := by
  cases limiter <;> rfl

/-- The gauge after a Dequeue is within the cap, or no higher than between its passes. -/
theorem dequeueTasks_capped {req : DequeueRequest} (hM : 0 < M) (h : Caps req.dequeuingSettings M) :
    Ensures True (dequeueTasks s now req) (fun a => ∃ mid,
      dequeueInProgressTasksBeforeTime s req.queueId now req.deadLetterQueueConfig = .ok mid ∧
      (a.1.getCounter req.queueId).inProgressTasksCount ≤
        max M (mid.getCounter req.queueId).inProgressTasksCount) := by
  apply Ensures.bind_any
  intro limiter
  apply Ensures.bind (P := fun mid =>
    dequeueInProgressTasksBeforeTime s req.queueId now req.deadLetterQueueConfig = .ok mid)
  · exact Ensures.of_eq (fun _ hx => hx) (fun _ _ => trivial)
  intro mid hmid
  apply Ensures.bind (P := fun a => (a.1.getCounter req.queueId).inProgressTasksCount ≤
    max M (mid.getCounter req.queueId).inProgressTasksCount)
  · apply (scanQueue_capped hM h _ _).bind
    intro b hb
    apply Ensures.ok
    rw [applyScan_inProgress]
    exact hb
  · intro a ha
    apply Ensures.ok
    refine ⟨mid, hmid, ?_⟩
    rw [chargeLimiter_getCounter]
    exact ha

end Scan

section Rows

variable [OrderedStore] {th : Prop} {r r' : Rows} {q : QueueId} {now : Time}

/-- Only a hand-out of the queue adds to its tasks in progress. -/
theorem Step.inProgress_le {e : Event} (hs : Step th r e r')
    (he : ∀ t t', e = .leased t t' → t.id.queue ≠ q) :
    rowCount r'.tasks q .inProgress ≤ rowCount r.tasks q .inProgress := by
  have hset : ∀ {t t' : Task}, r.tasks.get t.id = some t → t'.id = t.id →
      t'.counts q .inProgress ≤ t.counts q .inProgress →
      rowCount (r.tasks.set t.id t') q .inProgress ≤ rowCount r.tasks q .inProgress := by
    intro t t' row hid hle
    have hrows : _ = rowCount r.tasks q .inProgress + _ := rowCount_set row hid
    omega
  have hdelete : ∀ {t : Task}, r.tasks.get t.id = some t →
      rowCount (r.tasks.delete t.id) q .inProgress ≤ rowCount r.tasks q .inProgress := by
    intro t row
    have hrows : _ = rowCount r.tasks q .inProgress := rowCount_delete row
    omega
  cases hs with
  | create fresh state free calm =>
    rename_i t
    have hrows : rowCount (r.create t).tasks q .inProgress = _ := rowCount_new fresh
    have hzero : t.counts q .inProgress = 0 := by simp [Task.counts, state]
    omega
  | overwrite row state => exact hset row rfl (le_refl _)
  | delete row => exact hdelete row
  | renew row state => exact hset row rfl (le_refl _)
  | retry row state => exact hset row rfl (by simp [Task.counts, Task.retry])
  | die row state => exact hset row rfl (by simp [Task.counts, Task.die])
  | restart row state => exact hset row rfl (by simp [Task.counts, Task.restart])
  | expire row state => exact hdelete row
  | lease row state =>
    have hother := he _ _ rfl
    exact hset row rfl (by simp [Task.counts, Task.lease, hother])
  | _ => exact le_refl _

theorem Steps.inProgress_le {es : List Event} (hs : Steps th r es r')
    (he : ∀ e ∈ es, ∀ t t', e = .leased t t' → t.id.queue ≠ q) :
    rowCount r'.tasks q .inProgress ≤ rowCount r.tasks q .inProgress := by
  apply Trace.invariant_of (I := fun x => rowCount x.tasks q .inProgress ≤
    rowCount r.tasks q .inProgress) hs
  · intro e hm a b ha hab
    exact (hab.inProgress_le (he e hm)).trans ha
  · exact le_refl _

/-- A call that is no Dequeue of the queue adds nothing to its tasks in progress. -/
theorem Caused.inProgress_le {op : Op} {response : Response} {es : List Event}
    (h : Caused now op response es) (hs : Steps th r es r')
    (hop : ∀ req, op = .dequeue req → req.queueId ≠ q) :
    rowCount r'.tasks q .inProgress ≤ rowCount r.tasks q .inProgress := by
  have plain : .leased ∉ op.kinds → rowCount r'.tasks q .inProgress ≤
      rowCount r.tasks q .inProgress := by
    intro hk
    apply hs.inProgress_le
    intro e hm t t' he
    have hkind := h.kinds e hm
    rw [he] at hkind
    exact absurd hkind hk
  cases h with
  | dequeue lapses waited hands =>
    rename_i req ts es fs
    apply hs.inProgress_le
    intro e hm t t' he
    rcases List.mem_append.mp hm with hm | hm
    · have hkind := lapses.kinds e hm
      rw [he] at hkind
      simp [Event.kind] at hkind
    · rcases List.mem_append.mp hm with hm | hm
      · rw [hands] at hm
        simp only [he, List.mem_cons, List.mem_append, List.mem_map, reduceCtorEq, false_or,
          and_false, exists_false, Event.leased.injEq, List.mem_filter] at hm
        obtain ⟨u, ⟨hu, _⟩, rfl, _⟩ := hm
        rw [(waited u hu).2]
        exact hop req rfl
      · simp [he] at hm
  | refusedDequeue =>
    cases hs with
    | nil => exact le_refl _
  | _ => exact plain (by simp [Op.kinds])

end Rows

section Calls

variable [OrderedStore] {s : State} {q : QueueId} {now : Time} {M : Int}

/-- After a Dequeue the tasks in progress are within the cap, or no more than its first
pass left. -/
theorem WellFormed.dequeue_capped {req : DequeueRequest} (h : WellFormed s) (hc : Counted s)
    (hM : 0 < M) (hcap : Caps req.dequeuingSettings M) :
    Ensures True (dequeueTasks s now req) (fun a => ∃ mid,
      dequeueInProgressTasksBeforeTime s req.queueId now req.deadLetterQueueConfig = .ok mid ∧
      rowCount mid.tasks req.queueId .inProgress ≤ rowCount s.tasks req.queueId .inProgress ∧
      (rowCount a.1.tasks req.queueId .inProgress : Int) ≤
        max M (rowCount mid.tasks req.queueId .inProgress)) := by
  have hmade : Ensures True (dequeueTasks s now req) _ :=
    dequeueTasks_makes h.indexed h.heads (fun _ => trivial) (fun _ => trivial)
  apply ((dequeueTasks_capped hM hcap).and hmade).mono
  intro a ha
  obtain ⟨⟨mid, hmid, hle⟩, mid', es, ts, fs, hmid', hes, hlapses, _, hwaited, _, hhands, hfs⟩ := ha
  obtain rfl := Except.ok.inj (hmid.symm.trans hmid')
  have hbalanced := counted_iff_balanced.mp hc
  have hbetween : Counted mid := counted_iff_balanced.mpr (hlapses.balanced hes hbalanced)
  have hcause := Caused.dequeue hlapses hwaited hhands
  have hafter : Counted a.1 := counted_iff_balanced.mpr (hcause.balanced (hes.append hfs) hbalanced)
  refine ⟨mid, hmid, ?_, ?_⟩
  · apply hes.inProgress_le
    intro e hm t t' he
    have hkind := hlapses.kinds e hm
    rw [he] at hkind
    simp [Event.kind] at hkind
  · rw [(hbetween req.queueId).2.1, (hafter req.queueId).2.1] at hle
    exact hle

/-- A Dequeue of the queue is capped at M. -/
def Op.capped (q : QueueId) (M : Int) : Op → Prop
  | .dequeue req => req.queueId = q → Caps req.dequeuingSettings M
  | _ => True

/-- One call keeps the tasks in progress within the cap. -/
theorem WellFormed.commit_capped {op : Op} (h : WellFormed s) (hc : Counted s) (hM : 0 < M)
    (hop : op.capped q M) (hle : (rowCount s.tasks q .inProgress : Int) ≤ M) :
    (rowCount (commit s now op).tasks q .inProgress : Int) ≤ M := by
  apply commit_keeps (I := fun s => (rowCount s.tasks q .inProgress : Int) ≤ M) hle
  have hother : (∀ req, op = .dequeue req → req.queueId ≠ q) →
      Ensures True (exec s now op) (fun a => (rowCount a.1.tasks q .inProgress : Int) ≤ M) := by
    intro hne
    apply h.exec_makes.mono
    intro a ha
    obtain ⟨es, hes, hcause, _⟩ := ha
    have hrows : rowCount a.1.tasks q .inProgress ≤ _ := hcause.inProgress_le hes hne
    have hstart : rowCount s.rows.tasks q .inProgress = rowCount s.tasks q .inProgress := rfl
    omega
  cases op with
  | dequeue req =>
    by_cases hq : req.queueId = q
    · apply Ensures.map
      unfold dequeue
      cases checkQueueNotPurged s req.queueId with
      | some e => exact Ensures.ok hle
      | none =>
        apply (h.dequeue_capped hc hM (hop hq)).bind
        intro a ha
        obtain ⟨mid, _, hmid, hcap⟩ := ha
        rw [hq] at hmid hcap
        apply Ensures.ok
        dsimp only
        omega
    · apply hother
      intro req' he
      obtain rfl := Op.dequeue.inj he
      exact hq
  | _ => exact hother (by simp)

/-- A Dequeue of a queue that is capped at M leaves at most M of its tasks in progress,
or as many as its first pass left; and a run without threads whose Dequeues are all
capped at M never has more than M. -/
theorem dequeue_inProgress_le (q : QueueId) (M : Int) (hM : 0 < M) :
    (∀ s now req s' ts, WellFormed s → Counted s → req.queueId = q →
      Caps req.dequeuingSettings M → dequeue s now req = .ok (s', .ok ts) → ∃ mid,
        dequeueInProgressTasksBeforeTime s q now req.deadLetterQueueConfig = .ok mid ∧
        (rowCount s'.tasks q .inProgress : Int) ≤ max M (rowCount mid.tasks q .inProgress)) ∧
    ∀ calls : List Call, (∀ c ∈ calls, ¬c.op.threaded ∧ c.op.capped q M) →
      (rowCount (run State.empty calls).tasks q .inProgress : Int) ≤ M := by
  constructor
  · intro s now req s' ts h hc hq hcap hx
    have hcapped : Ensures True (dequeueTasks s now req) _ := h.dequeue_capped hc hM hcap
    obtain ⟨mid, hmid, _, hle⟩ := hcapped.elim (dequeue_ok hx)
    rw [hq] at hmid hle
    exact ⟨mid, hmid, hle⟩
  · intro calls h
    have hstart : (rowCount State.empty.tasks q .inProgress : Int) ≤ M := by
      have hzero : rowCount State.empty.tasks q .inProgress = 0 :=
        Table.count_eq_zero.mpr (fun id t ht => by simp [State.empty] at ht)
      omega
    have hrun := run_keeps (I := fun s => (Sound False False s ∧ Counted s) ∧
        (rowCount s.tasks q .inProgress : Int) ≤ M)
      (fun s c hs hc => ⟨⟨hs.1.1.commit hc.1, commit_keeps hs.1.2 (hs.1.2.exec hs.1.1.wellFormed)⟩,
        hs.1.1.wellFormed.commit_capped hs.1.2 hM hc.2 hs.2⟩)
      calls _ (Along.of_mem h) ⟨⟨Sound.empty, Counted.empty⟩, hstart⟩
    exact hrun.2

end Calls

section Runs

def threeDue : List Call :=
  [⟨5, .enqueue ⟨plainQueue, [plainEntry 5 100 [], plainEntry 6 100 [], plainEntry 7 100 []]⟩⟩]

def twoAtOnce : DequeueRequest := ⟨plainQueue, some ⟨2, none, false⟩, 10, none, 60⟩

/-- Three tasks are due, two of them may be worked. -/
theorem dequeue_inProgress_le_two :
    (∃ s' ts mid, dequeue (run State.empty threeDue) 8 twoAtOnce = .ok (s', .ok ts) ∧
      ts.length = 2 ∧
      dequeueInProgressTasksBeforeTime (run State.empty threeDue) plainQueue 8 none = .ok mid ∧
      (rowCount s'.tasks plainQueue .inProgress : Int) ≤
        max 2 (rowCount mid.tasks plainQueue .inProgress : Int)) ∧
    (rowCount (run State.empty (threeDue ++ [⟨8, .dequeue twoAtOnce⟩])).tasks plainQueue
      .inProgress : Int) ≤ 2 := by
  obtain ⟨hcall, hrun⟩ := dequeue_inProgress_le plainQueue 2 (by decide)
  have hplain : ∀ c ∈ threeDue, ¬c.op.threaded := by simp [threeDue, Op.threaded, plainEntry]
  constructor
  · have hx : Ensures False (dequeue (run State.empty threeDue) 8 twoAtOnce)
        (fun a => Ensures False a.2 (fun ts => ts.length = 2)) := by decide +kernel
    obtain ⟨⟨s', response⟩, hs', hresponse⟩ := hx.returns
    obtain ⟨ts, rfl, htwo⟩ := hresponse.returns
    obtain ⟨mid, hmid, hle⟩ := hcall _ 8 twoAtOnce s' ts (run_unthreaded_sound _ hplain).wellFormed
      (run_unthreaded_counted _ hplain) rfl rfl hs'
    exact ⟨s', ts, mid, hs', htwo, hmid, hle⟩
  · apply hrun
    intro c hc
    simp only [threeDue, List.cons_append, List.nil_append, List.mem_cons, List.not_mem_nil,
      or_false] at hc
    rcases hc with rfl | rfl
    · exact ⟨by simp [Op.threaded, plainEntry], trivial⟩
    · exact ⟨by simp [Op.threaded], fun _ => rfl⟩

end Runs

end Moab
