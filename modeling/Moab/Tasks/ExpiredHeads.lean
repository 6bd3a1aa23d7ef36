import Moab.Tasks.Intact
import Moab.Tasks.Selection

namespace Moab

open OrderedStore

section Store

variable [OrderedStore]

variable {s mid : State} {q : QueueId} {k : ThreadKey} {now limit keepalive cursor : Time}
  {settings : Option DequeuingSettings} {items : List IndexItem} {b : Scan} {ts : List Task}

section Scanning

theorem applyScan_threads (s : State) (q : QueueId) (now keepalive cursor : Time) (b : Scan) :
    (applyScan s q now keepalive cursor b).threads = s.threads ∧
    (applyScan s q now keepalive cursor b).threadedTasksIndex = s.threadedTasksIndex := by
  unfold applyScan
  dsimp only
  constructor
  · rw [foldl_keeps State.threads (f := leaseTask q now keepalive) (fun _ _ => rfl),
      foldl_keeps State.threads (f := dropExpired q) (fun _ _ => rfl)]
    rfl
  · rw [foldl_keeps State.threadedTasksIndex (f := leaseTask q now keepalive) (fun _ _ => rfl),
      foldl_keeps State.threadedTasksIndex (f := dropExpired q) (fun _ _ => rfl)]
    rfl

/-- The rows of a thread after a scan, number by number. -/
theorem applyScan_liveRow (hscan : Scanned mid q now items b ts) (n : Nat) :
    (applyScan mid q now keepalive cursor b).liveRow k n = mid.liveRow k n ∨
    ∃ t ∈ ts, t.threadKey = k ∧ t.id.taskId = n ∧ mid.liveRow k n = some t ∧
      (applyScan mid q now keepalive cursor b).liveRow k n =
        if t.expiresAt < now then none else some (t.lease now keepalive) := by
  have hrows : Rewrites now keepalive ts mid (applyScan mid q now keepalive cursor b) :=
    applyScan_rewrites hscan.queued.batch.nodup hscan.visited
  generalize applyScan mid q now keepalive cursor b = s' at hrows ⊢
  by_cases hmet : ∃ t ∈ ts, t.id = k.queue.task n
  · obtain ⟨t, ht, hid⟩ := hmet
    have hrow : mid.tasks.get (k.queue.task n) = some t := hid ▸ hscan.queued.batch.row t ht
    have hlive : t.live := by simp [Task.live, (hscan.queued.state t ht).1]
    by_cases hth : t.threadId = k.threadId
    · right
      refine ⟨t, ht, ?_, by rw [hid]; rfl, liveRow_eq_some.mpr ⟨hrow, hlive, hth⟩, ?_⟩
      · rw [Task.threadKey, hid, hth]
        rfl
      · split_ifs with hlate
        · have hgone := hrows.expired t ht hlate
          rw [hid] at hgone
          rw [State.liveRow, hgone]
          rfl
        · have hleased := hrows.leased t ht hlate
          rw [hid] at hleased
          exact liveRow_eq_some.mpr ⟨hleased, rfl, hth⟩
    · left
      have hnone : mid.liveRow k n = none := by
        simp [State.liveRow, hrow, hth]
      rw [hnone]
      by_cases hlate : t.expiresAt < now
      · have hgone := hrows.expired t ht hlate
        rw [hid] at hgone
        rw [State.liveRow, hgone]
        rfl
      · have hleased := hrows.leased t ht hlate
        rw [hid] at hleased
        simp [State.liveRow, hleased, Task.lease, hth]
  · left
    have hsame := hrows.others (k.queue.task n) (fun t ht he => hmet ⟨t, ht, he⟩)
    rw [State.liveRow, State.liveRow, hsame]

/-- A task of a thread that a scan meets is the head of the thread. -/
theorem Scanned.head {t : Task} (hh : Heads WellFormed.anyScope mid)
    (hscan : Scanned mid q now items b ts) (ht : t ∈ ts) (threaded : t.threadId ≠ []) :
    ∃ thread, mid.threads.get t.threadKey = some thread ∧ thread.headTaskId = t.id := by
  have hq := (hscan.queued.state t ht).2
  have hrow := hscan.queued.batch.row t ht
  have hitem := hscan.queued.item t ht
  rw [← hq] at hitem
  obtain ⟨thread, hk, hhead, _⟩ := hh.queue_head _ _ hitem t hrow threaded
  exact ⟨thread, hk, hhead⟩

theorem Scanned.liveRow {t : Task} (hscan : Scanned mid q now items b ts) (ht : t ∈ ts) :
    mid.liveRow t.threadKey t.id.taskId = some t :=
  liveRow_eq_some.mpr ⟨hscan.queued.batch.row t ht,
    by simp [Task.live, (hscan.queued.state t ht).1], rfl⟩

/-- A thread that the scan met no member of. -/
theorem applyScan_untouched (hscan : Scanned mid q now items b ts) (h : ∀ t ∈ ts, t.threadKey ≠ k) :
    (applyScan mid q now keepalive cursor b).strand k = mid.strand k := by
  obtain ⟨hthreads, hmembers⟩ := applyScan_threads mid q now keepalive cursor b
  refine strand_congr (congrArg (·.get k) hthreads) (congrArg (·.items k) hmembers) ?_ ?_
  · intro n
    rcases applyScan_liveRow hscan n with hsame | ⟨t, ht, hkey, _⟩
    · exact hsame
    · exact absurd hkey (h t ht)
  · intro i hi
    rw [applyScan_items hscan.visited, and_iff_left]
    intro t ht hitem
    obtain ⟨hq, he⟩ := hitem
    have hid : k.queue.task i.taskId = t.id := by
      rw [hq, he, ← (hscan.queued.state t ht).2]
      exact TaskId.queue_task t.id
    obtain ⟨u, hu⟩ := Option.ne_none_iff_exists'.mp hi
    obtain ⟨hrow, _, hth⟩ := liveRow_eq_some.mp hu
    rw [hid] at hrow
    obtain rfl := Option.some.inj ((hscan.queued.batch.row t ht).symm.trans hrow)
    refine h t ht ?_
    rw [Task.threadKey, hth, (hscan.queued.state t ht).2, ← hq]

/-- The head that the scan found expired: its row goes and the record stays. -/
theorem applyScan_dropped {t : Task} (hh : Heads WellFormed.anyScope mid)
    (hscan : Scanned mid q now items b ts) (ht : t ∈ ts) (threaded : t.threadId ≠ [])
    (late : t.expiresAt < now) :
    ¬((applyScan mid q now keepalive cursor b).strand t.threadKey).Whole := by
  intro hwhole
  obtain ⟨thread, hthread, hhead⟩ := hscan.head hh ht threaded
  have hrecord : (applyScan mid q now keepalive cursor b).threads.get t.threadKey =
      some thread := by
    rw [(applyScan_threads mid q now keepalive cursor b).1]
    exact hthread
  obtain ⟨u, hu, _⟩ := hwhole.head thread hrecord
  have hrewrites : Rewrites now keepalive ts mid (applyScan mid q now keepalive cursor b) :=
    applyScan_rewrites hscan.queued.batch.nodup hscan.visited
  have hgone := hrewrites.expired t ht late
  have hrow := (liveRow_eq_some.mp hu).1
  rw [hhead] at hrow
  exact absurd (hrow.symm.trans hgone) (by simp)

/-- The head that the scan handed out. -/
theorem applyScan_leased {t : Task} (hh : Heads WellFormed.anyScope mid)
    (hscan : Scanned mid q now items b ts) (ht : t ∈ ts) (threaded : t.threadId ≠ [])
    (due : ¬t.expiresAt < now) :
    ((applyScan mid q now keepalive cursor b).strand t.threadKey).Whole ↔
      (mid.strand t.threadKey).Whole := by
  obtain ⟨thread, hthread, hhead⟩ := hscan.head hh ht threaded
  obtain ⟨hthreads, hmembers⟩ := applyScan_threads mid q now keepalive cursor b
  have hrewrites : Rewrites now keepalive ts mid (applyScan mid q now keepalive cursor b) :=
    applyScan_rewrites hscan.queued.batch.nodup hscan.visited
  have hrow : ∀ n, (applyScan mid q now keepalive cursor b).liveRow t.threadKey n =
      mid.liveRow t.threadKey n ∨ _ := applyScan_liveRow hscan
  generalize applyScan mid q now keepalive cursor b = s' at hthreads hmembers hrewrites hrow ⊢
  have hrecord : (s'.strand t.threadKey).record = (mid.strand t.threadKey).record :=
    congrArg (·.get t.threadKey) hthreads
  have hlist : (s'.strand t.threadKey).members = (mid.strand t.threadKey).members :=
    congrArg (·.items t.threadKey) hmembers
  -- a thread has one head, so the scan met no other member
  have hface : ∀ n, (s'.liveRow t.threadKey n).map Task.face =
      (mid.liveRow t.threadKey n).map Task.face := by
    intro n
    rcases hrow n with hsame | ⟨u, hu, hkey, hn, hold, hnew⟩
    · rw [hsame]
    · have hth : u.threadId = t.threadId := congrArg ThreadKey.threadId hkey
      obtain ⟨x, hx, hheadu⟩ := hscan.head hh hu (hth ▸ threaded)
      rw [hkey] at hx
      obtain rfl := Option.some.inj (hthread.symm.trans hx)
      obtain rfl : u = t := List.inj_on_of_nodup_map hscan.queued.batch.nodup hu ht
        (hheadu.symm.trans hhead)
      rw [hnew, hold, if_neg due]
      rfl
  have hself' : s'.liveRow t.threadKey t.id.taskId = some (t.lease now keepalive) :=
    liveRow_eq_some.mpr ⟨hrewrites.leased t ht due, rfl, rfl⟩
  constructor
  · intro hwhole
    refine hwhole.alike hrecord.symm hlist.symm (fun n => (hface n).symm) ?_
    intro x u hx hu _
    obtain rfl := Option.some.inj (hthread.symm.trans hx)
    rw [hhead] at hu
    obtain rfl := Option.some.inj ((hscan.liveRow ht).symm.trans hu)
    refine ⟨?_, by rw [show t.queueIndexItem.taskId = t.id.taskId from rfl, hscan.liveRow ht]; simp⟩
    rw [show t.threadKey.queue = q from (hscan.queued.state t ht).2]
    exact hscan.queued.item t ht
  · intro hwhole
    refine hwhole.alike hrecord hlist hface ?_
    intro x u hx hu hst
    rw [hrecord] at hx
    obtain rfl := Option.some.inj (hthread.symm.trans hx)
    rw [hhead] at hu
    obtain rfl := Option.some.inj (hself'.symm.trans hu)
    simp [Task.lease] at hst

/-- A scan leaves a thread whole that was, unless it met its head and found it
expired. -/
theorem applyScan_whole (hh : Heads WellFormed.anyScope mid) (hscan : Scanned mid q now items b ts)
    (hk : k.threadId ≠ []) : ((applyScan mid q now keepalive cursor b).strand k).Whole ↔
      (mid.strand k).Whole ∧ ∀ t ∈ ts, t.expiresAt < now → t.threadKey ≠ k := by
  by_cases hlate : ∃ t ∈ ts, t.expiresAt < now ∧ t.threadKey = k
  · obtain ⟨t, ht, late, hkey⟩ := hlate
    subst hkey
    constructor
    · exact fun hwhole => absurd hwhole (applyScan_dropped hh hscan ht hk late)
    · exact fun h => absurd rfl (h.2 t ht late)
  · have hnone : ∀ t ∈ ts, t.expiresAt < now → t.threadKey ≠ k :=
      fun t ht late hkey => hlate ⟨t, ht, late, hkey⟩
    rw [and_iff_left hnone]
    by_cases hmet : ∃ t ∈ ts, t.threadKey = k
    · obtain ⟨t, ht, hkey⟩ := hmet
      subst hkey
      exact applyScan_leased hh hscan ht hk (fun late => hnone t ht late rfl)
    · rw [applyScan_untouched hscan (fun t ht hkey => hmet ⟨t, ht, hkey⟩)]

end Scanning

section Longest

/-- The tasks from the cursor on whose time has come, in the order of the index. -/
def dueTasks (s : State) (q : QueueId) (now : Time) : List Task :=
  (listInRange s.queueIndex q (s.getQueueState q).lastVisitedEnqueued now).filterMap
    (fun i => s.tasks.get (q.task i.taskId))

omit [OrderedStore] in
theorem length_filterMap {α β : Type} {f : α → Option β} (l : List α)
    (h : ∀ a ∈ l, ∃ b, f a = some b) : (l.filterMap f).length = l.length := by
  induction l with
  | nil => rfl
  | cons a l ih =>
    obtain ⟨b, hb⟩ := h a List.mem_cons_self
    rw [List.filterMap_cons_some hb, List.length_cons, List.length_cons,
      ih (fun c hc => h c (List.mem_cons_of_mem _ hc))]

omit [OrderedStore] in
theorem take_filterMap {α β : Type} {f : α → Option β} (l : List α) (h : ∀ a ∈ l, ∃ b, f a = some b)
    (n : Nat) : (l.filterMap f).take n = (l.take n).filterMap f := by
  induction l generalizing n with
  | nil => simp
  | cons a l ih =>
    obtain ⟨b, hb⟩ := h a List.mem_cons_self
    cases n with
    | zero => simp
    | succ n =>
      rw [List.filterMap_cons_some hb, List.take_succ_cons, List.take_succ_cons,
        List.filterMap_cons_some hb, ih (fun c hc => h c (List.mem_cons_of_mem _ hc))]

theorem LooksOn.take {l : List Task} (h : LooksOn s q now limit settings l) (n : Nat) :
    LooksOn s q now limit settings (l.take n) := by
  obtain ⟨htaken, hvisited, hcap⟩ := h
  have hle : ((l.take n).filter (fun t => !t.overdue now)).length ≤
      (l.filter (fun t => !t.overdue now)).length :=
    ((List.take_sublist n l).filter _).length_le
  have hlen : (l.take n).length ≤ l.length := (List.take_sublist n l).length_le
  refine ⟨by omega, by omega, ?_⟩
  intro d hd hpos
  have hd' := hcap d hd hpos
  omega

/-- The tasks a scan met are the first of those that were due. -/
theorem Scanned.take_dueTasks (hscan : Scanned mid q now items b ts) (hq : QueueSound mid)
    (hitems : items = listInRange mid.queueIndex q (mid.getQueueState q).lastVisitedEnqueued now) :
    (dueTasks mid q now).take ts.length = ts := by
  have hrows : ∀ i ∈ items, ∃ t, mid.tasks.get (q.task i.taskId) = some t := by
    intro i hi
    rw [hitems] at hi
    obtain ⟨t, ht, _⟩ := hq q i (mem_listInRange.mp hi).1
    exact ⟨t, ht⟩
  have hself : ∀ t ∈ ts, mid.tasks.get (q.task t.queueIndexItem.taskId) = some t := by
    intro t ht
    rw [← (hscan.queued.state t ht).2]
    exact hscan.queued.batch.row t ht
  rw [dueTasks, ← hitems, take_filterMap items hrows, ← hscan.met, List.filterMap_map]
  exact (List.filterMap_congr hself).trans List.filterMap_some

theorem length_dueTasks (hq : QueueSound mid) : (dueTasks mid q now).length =
    (listInRange mid.queueIndex q (mid.getQueueState q).lastVisitedEnqueued now).length := by
  refine length_filterMap _ (fun i hi => ?_)
  obtain ⟨t, ht, _⟩ := hq q i (mem_listInRange.mp hi).1
  exact ⟨t, ht⟩

/-- A scan meets a task exactly if it looks on after all that are due before it. -/
theorem Scanned.meets_iff (hscan : Scanned mid q now items b ts) (hq : QueueSound mid)
    (hitems : items = listInRange mid.queueIndex q (mid.getQueueState q).lastVisitedEnqueued now)
    (hopen : ∀ n < ts.length, LooksOn mid q now limit settings (ts.take n))
    (hstop : ts.length = items.length ∨ ¬LooksOn mid q now limit settings ts) (t : Task) :
    t ∈ ts ↔ ∃ n : Nat, (dueTasks mid q now)[n]? = some t ∧
      LooksOn mid q now limit settings ((dueTasks mid q now).take n) := by
  have htake := hscan.take_dueTasks hq hitems
  have hlen : (dueTasks mid q now).length = items.length := by
    rw [length_dueTasks hq, ← hitems]
  generalize dueTasks mid q now = due at htake hlen ⊢
  constructor
  · intro ht
    obtain ⟨n, hn, he⟩ := List.mem_iff_getElem.mp ht
    refine ⟨n, ?_, ?_⟩
    · have hget : ts[n]? = some t := by rw [List.getElem?_eq_getElem hn, he]
      rw [← htake, List.getElem?_take_of_lt hn] at hget
      exact hget
    · have hprefix : ts.take n = due.take n := by
        conv_lhs => rw [← htake]
        rw [List.take_take, Nat.min_eq_left (Nat.le_of_lt hn)]
      rw [← hprefix]
      exact hopen n hn
  · intro hmet
    obtain ⟨n, hget, hlooks⟩ := hmet
    obtain ⟨hn, _⟩ := List.getElem?_eq_some_iff.mp hget
    have hlt : n < ts.length := by
      by_contra hle
      rcases hstop with hall | hfull
      · omega
      · refine hfull ?_
        have hprefix := hlooks.take ts.length
        rw [List.take_take, Nat.min_eq_left (Nat.not_lt.mp hle), htake] at hprefix
        exact hprefix
    rw [← List.getElem?_take_of_lt hlt, htake] at hget
    exact List.mem_of_getElem? hget

theorem dequeueTasksBeforeTime_meets (hi : Indexed True mid.rows) (hq : QueueSound mid)
    (limit keepalive : Time) (settings : Option DequeuingSettings) :
    ∃ b ts cursor response, Scanned mid q now
        (listInRange mid.queueIndex q (mid.getQueueState q).lastVisitedEnqueued now) b ts ∧
      (∀ t, t ∈ ts ↔ ∃ n : Nat, (dueTasks mid q now)[n]? = some t ∧
        LooksOn mid q now limit settings ((dueTasks mid q now).take n)) ∧
      dequeueTasksBeforeTime mid q now limit settings keepalive =
        .ok (applyScan mid q now keepalive cursor b, response) := by
  obtain ⟨items, b, ts, hitems, hscan, hok, hopen, hstop⟩ := dequeueTasksBeforeTime_scans hi hq
  subst hitems
  exact ⟨b, ts, _, _, hscan, hscan.meets_iff hq rfl hopen hstop, hok⟩

end Longest

section Dequeue

variable {req : DequeueRequest} {t : Task}

theorem Loses.congr {s' : State} (h : s'.strand t.threadKey = s.strand t.threadKey) :
    Loses s' now t ↔ Loses s now t := by
  constructor
  · intro hl
    obtain ⟨interval, hint, hs⟩ := hl.stalls
    exact ⟨hl.threaded, hl.unexpired, hl.retries, interval, hint, (Stalls.congr h).mp hs⟩
  · intro hl
    obtain ⟨interval, hint, hs⟩ := hl.stalls
    exact ⟨hl.threaded, hl.unexpired, hl.retries, interval, hint, (Stalls.congr h).mpr hs⟩

/-- The leases that lapse, thread by thread. -/
theorem dequeueInProgressTasksBeforeTime_whole (hc : Coherent s) (q : QueueId) (now : Time)
    (dlqConfig : Option DeadLetterQueueConfig) :
    Ensures True (dequeueInProgressTasksBeforeTime s q now dlqConfig) (fun mid =>
      Heads WellFormed.anyScope mid ∧ Indexed True mid.rows ∧ ∀ k, k.threadId ≠ [] →
        ((mid.strand k).Whole ↔ ∀ i ∈ timedOutItems s q now, ∀ u,
          s.tasks.get (q.task i.taskId) = some u → u.threadKey = k → ¬Loses s now u)) := by
  refine (dequeueInProgressTasksBeforeTime_strands dlqConfig
    (fun u x => x.Whole ↔ ¬Loses s now u) hc.heads hc.indexed ?_).mono ?_
  · intro i hi u hu state s1 hh1 hi1 row1 hstrand
    refine ((handleTaskFailure_strands now dlqConfig hh1 hi1 row1 state ?_ (fun hc => hc)).weaken
      (fun _ => trivial)).mono ?_
    · intro hne
      rw [hstrand hne]
      exact hc.whole _ hne
    · intro s2 hs2
      refine ⟨hs2.away, fun hne => ?_⟩
      rw [hs2.whole hne, Loses.congr (hstrand hne)]
  · intro mid hmid
    obtain ⟨hh, hi, haway, hdone⟩ := hmid
    refine ⟨hh, hi, fun k hk => ?_⟩
    constructor
    · intro hwhole i hi u hu hkey
      have hne : u.threadId ≠ [] := fun hnil => hk (by rw [← hkey]; exact hnil)
      rw [← hkey] at hwhole
      exact (hdone i hi u hu hne).mp hwhole
    · intro hnone
      by_cases hlapsed : ∃ i ∈ timedOutItems s q now, ∃ u,
          s.tasks.get (q.task i.taskId) = some u ∧ u.threadKey = k
      · obtain ⟨i, hi, u, hu, hkey⟩ := hlapsed
        have hlost := hnone i hi u hu hkey
        subst hkey
        exact (hdone i hi u hu hk).mpr hlost
      · rw [haway k (fun i hi u hu hkey => hlapsed ⟨i, hi, u, hu, hkey⟩)]
        exact hc.whole k hk

/-- A lease that lapsed is of a head that nobody will find. -/
def LosesHead (s : State) (q : QueueId) (now : Time) : Prop :=
  ∃ i ∈ timedOutItems s q now, ∃ u, s.tasks.get (q.task i.taskId) = some u ∧ Loses s now u

/-- A scan gets as far as the head of a thread that has expired. -/
def MeetsExpiredHead (s : State) (q : QueueId) (now limit : Time)
    (settings : Option DequeuingSettings) : Prop :=
  ∃ (n : Nat) (t : Task), (dueTasks s q now)[n]? = some t ∧ t.threadId ≠ [] ∧ t.expiresAt < now ∧
    LooksOn s q now limit settings ((dueTasks s q now).take n)

/-- A Dequeue that breaks a thread, in the pass over the lapsed leases or in the scan
after it. -/
def Disturbs (s : State) (now : Time) (req : DequeueRequest) : Prop :=
  checkQueueNotPurged s req.queueId = none ∧ ∃ limiter mid, rateLimiterFor s req now = .ok limiter ∧
    dequeueInProgressTasksBeforeTime s req.queueId now req.deadLetterQueueConfig = .ok mid ∧
    (LosesHead s req.queueId now ∨ MeetsExpiredHead mid req.queueId now
      (effectiveLimit limiter req.dequeueLimit) req.dequeuingSettings)

/-- What a Dequeue did: it failed or was refused, or both passes were made. -/
inductive Dequeues (s : State) (now : Time) (req : DequeueRequest) (s' : State) : Prop
  | refused (same : s' = s) (idle : ¬Disturbs s now req)
  | scanned (limiter : Option RateLimiterState) (mid : State) (b : Scan) (ts : List Task)
      (cursor : Time) (unpurged : checkQueueNotPurged s req.queueId = none)
      (limited : rateLimiterFor s req now = .ok limiter)
      (passed : dequeueInProgressTasksBeforeTime s req.queueId now
        req.deadLetterQueueConfig = .ok mid)
      (scan : Scanned mid req.queueId now (listInRange mid.queueIndex req.queueId
        (mid.getQueueState req.queueId).lastVisitedEnqueued now) b ts)
      (met : ∀ t, t ∈ ts ↔ ∃ n : Nat, (dueTasks mid req.queueId now)[n]? = some t ∧
        LooksOn mid req.queueId now (effectiveLimit limiter req.dequeueLimit) req.dequeuingSettings
          ((dueTasks mid req.queueId now).take n))
      (same : SameHeads (applyScan mid req.queueId now req.keepaliveTimeoutInSeconds cursor b) s')

theorem dequeue_dequeues (hc : Coherent s) (now : Time) (req : DequeueRequest) :
    Dequeues s now req (commit s now (.dequeue req)) := by
  have hfail : ∀ e, dequeueTasks s now req = .error e →
      checkQueueNotPurged s req.queueId = none → commit s now (.dequeue req) = s := by
    intro e he hp
    simp [commit, exec, dequeue, hp, he, bind, Except.bind, Except.map]
  cases hp : checkQueueNotPurged s req.queueId with
  | some e =>
    refine .refused ?_ (fun hd => by simp [hd.1] at hp)
    simp [commit, exec, dequeue, hp, Except.map]
  | none =>
    cases hl : rateLimiterFor s req now with
    | error e =>
      refine .refused (hfail e ?_ hp) ?_
      · simp [dequeueTasks, hl, bind, Except.bind]
      · intro hd
        obtain ⟨_, limiter, _, hlimiter, _⟩ := hd
        simp [hl] at hlimiter
    | ok limiter =>
      cases hm : dequeueInProgressTasksBeforeTime s req.queueId now req.deadLetterQueueConfig with
      | error e =>
        refine .refused (hfail e ?_ hp) ?_
        · simp [dequeueTasks, hl, hm, bind, Except.bind]
        · intro hd
          obtain ⟨_, _, mid, _, hmid, _⟩ := hd
          simp [hm] at hmid
      | ok mid =>
        have hpass := dequeueInProgressTasksBeforeTime_whole hc req.queueId now
          req.deadLetterQueueConfig
        obtain ⟨hh, hi, _⟩ := hpass.elim hm
        obtain ⟨b, ts, cursor, response, hscan, hmet, hok⟩ := dequeueTasksBeforeTime_meets hi
          hh.queueSound (effectiveLimit limiter req.dequeueLimit) req.keepaliveTimeoutInSeconds
          req.dequeuingSettings
        refine .scanned limiter mid b ts cursor hp hl hm hscan hmet ?_
        have hcommit : commit s now (.dequeue req) = chargeLimiter (applyScan mid req.queueId now
            req.keepaliveTimeoutInSeconds cursor b) req.queueId limiter response.length := by
          simp only [commit, exec, dequeue, hp, dequeueTasks, hl, hm, hok, bind,
            Except.bind, Except.map]
        rw [hcommit]
        exact (chargeLimiter_same _ req.queueId limiter _).1

/-- A Dequeue on a well-formed state keeps the indexes and records of every thread in
agreement with its rows exactly if it meets no expired head and loses no head whose
lease lapsed; Enqueue then goes on working. -/
theorem dequeue_whole_iff (h : WellFormed s) (hr : RecordsExact s) (now : Time)
    (req : DequeueRequest) :
    ((∀ k, k.threadId ≠ [] → ((commit s now (.dequeue req)).strand k).Whole) ↔
      ¬Disturbs s now req) ∧
    (¬Disturbs s now req → ∀ now' req', ∃ a, enqueue
      (commit s now (.dequeue req)) now' req' = .ok a) := by
  have hc := h.coherent hr
  have hmade : Indexed True (commit s now (.dequeue req)).rows ∧
      Sequenced (commit s now (.dequeue req)).rows := by
    refine commit_keeps (I := fun s' => Indexed True s'.rows ∧ Sequenced s'.rows)
      ⟨h.indexed, h.sequence⟩ ?_
    have hexec : Ensures True (exec s now (.dequeue req)) _ :=
      exec_makes h.indexed h.heads h.sequence
        (fun _ => trivial) (fun _ => trivial) (fun _ => trivial)
    refine hexec.mono (fun a ha => ?_)
    obtain ⟨es, hes, _, hseq⟩ := ha
    exact ⟨h.indexed.steps hes, hseq⟩
  have hiff : (Heads WellFormed.anyScope (commit s now (.dequeue req))) ∧
      ((∀ k, k.threadId ≠ [] → ((commit s now (.dequeue req)).strand k).Whole) ↔
        ¬Disturbs s now req) := by
    cases dequeue_dequeues hc now req with
    | refused same idle =>
      rw [same]
      exact ⟨hc.heads, fun _ => idle, fun _ => hc.whole⟩
    | scanned limiter mid b ts cursor unpurged limited passed scan met same =>
      have hpass := dequeueInProgressTasksBeforeTime_whole hc req.queueId now
        req.deadLetterQueueConfig
      obtain ⟨hh, hi, hwhole⟩ := hpass.elim passed
      refine ⟨(applyScan_heads hh scan.queued scan.visited).same same, ?_⟩
      constructor
      · intro hall hd
        obtain ⟨_, limiter', mid', hlimiter, hmid, hcases⟩ := hd
        obtain rfl := Except.ok.inj (limited.symm.trans hlimiter)
        obtain rfl := Except.ok.inj (passed.symm.trans hmid)
        rcases hcases with hlost | hexpired
        · obtain ⟨i, hi, u, hu, hloses⟩ := hlost
          have hk := hall u.threadKey hloses.threaded
          rw [same.strand, applyScan_whole hh scan hloses.threaded, hwhole _ hloses.threaded] at hk
          exact hk.1 i hi u hu rfl hloses
        · obtain ⟨n, t, hget, threaded, late, hlooks⟩ := hexpired
          have hk := hall t.threadKey threaded
          rw [same.strand, applyScan_whole hh scan threaded] at hk
          exact hk.2 t ((met t).mpr ⟨n, hget, hlooks⟩) late rfl
      · intro hd k hk
        rw [same.strand, applyScan_whole hh scan hk, hwhole k hk]
        constructor
        · intro i hi u hu _ hloses
          exact hd ⟨unpurged, limiter, mid, limited, passed, Or.inl ⟨i, hi, u, hu, hloses⟩⟩
        · intro t ht late hkey
          obtain ⟨n, hget, hlooks⟩ := (met t).mp ht
          have threaded : t.threadId ≠ [] := by
            intro hnil
            exact hk (by rw [← hkey]; exact hnil)
          exact hd ⟨unpurged, limiter, mid, limited, passed,
            Or.inr ⟨n, t, hget, threaded, late, hlooks⟩⟩
  refine ⟨hiff.2, fun hd now' req' => ?_⟩
  refine enqueue_returns ⟨?_, hiff.2.mpr hd, fun k _ => hiff.1.timed k⟩ hmade.1 hmade.2 now' req'
  exact fun k thread hk => (hiff.1.thread_key k thread hk).1

end Dequeue

end Store

section Runs

/-- A thread of two members, the first of which expires at the given time. -/
def pairRun (expiresAt : Time) : List Call :=
  [⟨5, .enqueue ⟨threadQueue, [⟨[], 5, expiresAt, [], none, [], [7]⟩, threadEntry 6 [] []]⟩⟩]

theorem pairRun_wellFormed (expiresAt : Time)
    (hk : Along runStep Call.keepsHeads State.empty (pairRun expiresAt))
    (hl : Linked (run State.empty (pairRun expiresAt))) :
    WellFormed (run State.empty (pairRun expiresAt)) :=
  run_wellFormed (by simp [pairRun, Op.collectsPurged]) hk hl

/-- The head is handed out before it expires. -/
theorem dequeue_whole_pair :
    ((commit (run State.empty (pairRun 1000)) 8 (.dequeue dequeueAll)).strand
      ⟨threadQueue, [7]⟩).Whole := by
  have hw := pairRun_wellFormed 1000 (by decide +kernel) (by decide +kernel)
  refine (dequeue_whole_iff hw (by decide +kernel) 8 dequeueAll).1.mpr ?_ ⟨threadQueue, [7]⟩
    (by decide)
  intro hd
  obtain ⟨_, limiter, mid, _, hmid, hcases⟩ := hd
  rcases hcases with hlost | hexpired
  · obtain ⟨i, hi, _⟩ := hlost
    have hnone : timedOutItems (run State.empty (pairRun 1000)) threadQueue 8 = [] := by
      decide +kernel
    have hi' : i ∈ timedOutItems (run State.empty (pairRun 1000)) threadQueue 8 := hi
    rw [hnone] at hi'
    simp at hi'
  · obtain ⟨n, t, hget, _, late, _⟩ := hexpired
    have hdue : Ensures False (dequeueInProgressTasksBeforeTime (run State.empty (pairRun 1000))
        threadQueue 8 none) (fun mid => ∀ t ∈ dueTasks mid threadQueue 8, ¬t.expiresAt < 8) := by
      decide +kernel
    exact hdue.elim hmid t (List.mem_of_getElem? hget) late

/-- The head has expired when it is met: its row is gone, the record still names it,
the other member is in no queue index, and the thread takes no more tasks. -/
theorem dequeue_wedges_pair :
    WellFormed (run State.empty (pairRun 7)) ∧ RecordsExact (run State.empty (pairRun 7)) ∧
    ((commit (run State.empty (pairRun 7)) 8 (.dequeue dequeueAll)).threads.get
      ⟨threadQueue, [7]⟩).map Thread.headTaskId = some (threadQueue.task 1) ∧
    (commit (run State.empty (pairRun 7)) 8 (.dequeue dequeueAll)).tasks.get
    (threadQueue.task 1) = none ∧
      ((commit (run State.empty (pairRun 7)) 8 (.dequeue dequeueAll)).tasks.get
        (threadQueue.task 2)).map Task.state = some .enqueued ∧
    (commit (run State.empty (pairRun 7)) 8 (.dequeue dequeueAll)).queueIndex.items threadQueue =
    [] ∧ (enqueue (commit (run State.empty (pairRun 7)) 8 (.dequeue dequeueAll)) 9
      ⟨threadQueue, [threadEntry 9 [] []]⟩).isOk = false :=
  ⟨pairRun_wellFormed 7 (by decide +kernel)
    (by decide +kernel), by decide +kernel, by decide +kernel,
    by decide +kernel, by decide +kernel, by decide +kernel, by decide +kernel⟩

end Runs

end Moab
