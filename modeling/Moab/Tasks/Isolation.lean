import Moab.Framework.SortedList
import Moab.Tasks.Confined

namespace Moab

open OrderedStore

section Requests

/-- The calls on one queue of a tasks core. -/
inductive Message where
  | call (op : Op)
  | getTask (taskId : TaskId)
  | listTasks (req : ListTasksRequest)
  | getStatistics (queueId : QueueId)

def Op.For (q : QueueId) : Op → Prop
  | .enqueue req => req.queueId = q
  | .dequeue req => req.queueId = q
  -- the handler builds every entry with the queue id of its request
  | .reportStatus req => ∀ e ∈ req.entries, e.taskId.queue = q
  | .deleteTasks req => req.queueId = q
  | .restartTasks req => req.queueId = q
  | .purgeQueue r => r = q
  -- the two collections work on the whole shard
  | .runTasksGarbageCollection _ => False
  | .runPurgeQueueGarbageCollection _ => False

def Message.For (q : QueueId) : Message → Prop
  | .call op => op.For q
  | .getTask taskId => taskId.queue = q
  | .listTasks req => req.queueId = q
  | .getStatistics r => r = q

/-- A message with the queue it is addressed to. -/
structure Request where
  queueId : QueueId
  now : Time
  message : Message
  addressed : message.For queueId
  ids : queueId.IsUInt64

inductive Reply where
  | call (r : Response)
  | getTask (r : Except TasksError Task)
  | listTasks (r : Except TasksError ListTasksResponse)
  | getStatistics (r : GetStatisticsResponse)

end Requests

section Store

variable [OrderedStore]

section Serving

def answer (pager : Pager) (s : State) (now : Time) : Message → Except CoreError (State × Reply)
  | .call op => (exec s now op).map (fun a => (a.1, .call a.2))
  | .getTask taskId => .ok (s, .getTask (getTask s now taskId))
  | .listTasks req => (coreListTasks pager s req).map (fun r => (s, .listTasks r))
  | .getStatistics q => .ok (s, .getStatistics (getStatistics s now q))

/-- A failed call discards its transaction. -/
def serve (pager : Pager) (s : State) (r : Request) : State × Except CoreError Reply :=
  match answer pager s r.now r.message with
  | .ok a => (a.1, .ok a.2)
  | .error e => (s, .error e)

def serveAll (pager : Pager) (s : State) (rs : List Request) : State :=
  rs.foldl (fun s r => (serve pager s r).1) s

/-- The replies to the requests that are addressed to q, in order. -/
def repliesTo (pager : Pager) (q : QueueId) : State → List Request → List (Except CoreError Reply)
  | _, [] => []
  | s, r :: rs =>
    if r.queueId = q then (serve pager s r).2 :: repliesTo pager q (serve pager s r).1 rs
    else repliesTo pager q (serve pager s r).1 rs

end Serving

/-- Two stores have the same rows of q in every table and index. -/
def Agree (q : QueueId) (s u : State) : Prop := ∀ a : Address, a.queue = q → s.value a = u.value a

/-- Every row is stored under its own id, and a thread's head is of its queue. -/
def State.Proper (s : State) : Prop :=
  ∀ (a : Address) (v : a.Value), s.value a = some v → a.queue.IsUInt64 ∧ a.Proper v

theorem State.proper_empty : State.empty.Proper := by
  intro a v hv
  cases a <;> simp [State.value, State.empty, presence] at hv

section Steps

variable {pager : Pager} {q : QueueId} {s₀ s u : State} {r : Request}

/-- An answer may be put in another form. -/
theorem PairedWith.map {α β : Type} (f : α → β) {x y : Except CoreError (State × α)}
    (h : Related (PairedWith q s₀) x y) :
    Related (PairedWith q s₀) (x.map (fun a => (a.1, f a.2))) (y.map (fun a => (a.1, f a.2))) := by
  refine .map (h.mono ?_)
  rintro ⟨s', a⟩ ⟨u', _⟩ ⟨h', rfl⟩
  exact ⟨h', rfl⟩

theorem Paired.exec (h : Paired q s₀ s u) (now : Time) {op : Op} (hop : op.For q) :
    Related (PairedWith q s₀) (exec s now op) (exec u now op) := by
  cases op with
  | enqueue req => exact PairedWith.map Response.enqueue (h.enqueue hop)
  | dequeue req => exact PairedWith.map Response.dequeue (h.dequeue hop)
  | reportStatus req =>
    exact PairedWith.map Response.reportStatus (h.reportEntries _ req.entries hop)
  | deleteTasks req => exact .map ((h.deleteTasks hop).mono (fun _ _ h' => ⟨h', rfl⟩))
  | restartTasks req =>
    obtain rfl := hop
    exact PairedWith.map Response.restartTasks (h.restartEntries req.entries)
  | purgeQueue r =>
    obtain rfl := hop
    exact .ok ⟨h.put (.setPurgeGCRecord r) (.setPurgeGCRecord r) rfl trivial, rfl⟩
  | runTasksGarbageCollection req | runPurgeQueueGarbageCollection req => exact False.elim hop

theorem Paired.listFromIndex (h : Paired q s₀ s u) {x y : Index QueueId IndexItem}
    (hxy : x.items q = y.items q) (token : Option PaginationToken) (limit : Nat) :
    listFromIndex pager s q x token limit = listFromIndex pager u q y token limit := by
  unfold Moab.listFromIndex
  dsimp only
  rw [hxy, h.getTasks]

theorem Paired.listTasksPage (h : Paired q s₀ s u) (state : TaskState)
    (token : Option PaginationToken) (limit : Nat) :
    listTasksPage pager s q state token limit = listTasksPage pager u q state token limit := by
  cases state with
  | invalid =>
    have hrows : s.tasks.entries.filter (fun e => decide (e.1.queue = q)) =
        u.tasks.entries.filter (fun e => decide (e.1.queue = q)) :=
      Table.entries_filter_ext (p := fun id => decide (id.queue = q))
        (fun id hid => h.task (of_decide_eq_true hid))
    unfold Moab.listTasksPage
    dsimp only
    rw [hrows]
  | enqueued => exact h.listFromIndex h.queueItems token limit
  | inProgress => exact h.listFromIndex h.inProgressItems token limit
  | dead => exact h.listFromIndex h.deadItems token limit

theorem Paired.coreListTasks (h : Paired q s₀ s u) {req : ListTasksRequest}
    (hreq : req.queueId = q) : coreListTasks pager s req = coreListTasks pager u req := by
  subst hreq
  unfold Moab.coreListTasks
  rw [h.checkQueueNotPurged, h.listTasksPage]

theorem Paired.getStatistics {now : Time} (h : Paired q s₀ s u) :
    getStatistics s now q = getStatistics u now q := by
  unfold Moab.getStatistics getAgeOfOldestEnqueuedTask listInRange
  rw [h.getCounter, h.getQueueState, h.queueItems]

/-- Step: a message to q is answered alike wherever the rows of q are alike. -/
theorem Paired.answer (h : Paired q s₀ s u) (pager : Pager) (now : Time) {m : Message}
    (hm : m.For q) : Related (PairedWith q s₀) (answer pager s now m) (answer pager u now m) := by
  cases m with
  | call op => exact PairedWith.map Reply.call (h.exec now hm)
  | getTask taskId =>
    have hget : Moab.getTask s now taskId = Moab.getTask u now taskId := by
      unfold Moab.getTask
      rw [h.task hm]
    exact .ok ⟨h, congrArg Reply.getTask hget⟩
  | listTasks req =>
    refine .map ?_
    rw [h.coreListTasks hm]
    exact (Related.same _).mono (fun _ _ h' => ⟨h, congrArg Reply.listTasks h'.1⟩)
  | getStatistics r =>
    obtain rfl := hm
    exact .ok ⟨h, congrArg Reply.getStatistics h.getStatistics⟩

theorem Paired.start (hs : s.Proper) (hagree : Agree q s u) : Paired q s s u :=
  ⟨hagree, fun _ _ => rfl, fun a v _ hv => (hs a v hv).2⟩

theorem serve_paired (pager : Pager) (hs : s.Proper) (hagree : Agree q s u) (hr : r.queueId = q) :
    PairedWith q s (serve pager s r) (serve pager u r) := by
  have hstart := Paired.start hs hagree
  have hanswer := hstart.answer pager r.now (hr ▸ r.addressed)
  unfold serve
  cases hs' : answer pager s r.now r.message <;> cases hu' : answer pager u r.now r.message <;>
    rw [hs', hu'] at hanswer
  · exact ⟨hstart, congrArg Except.error hanswer⟩
  · exact False.elim hanswer
  · exact False.elim hanswer
  · exact ⟨hanswer.1, congrArg Except.ok hanswer.2⟩

/-- A request leaves the rows of every other queue as they are. -/
theorem serve_frame (hs : s.Proper) {a : Address} (ha : a.queue ≠ r.queueId) :
    (serve pager s r).1.value a = s.value a :=
  (serve_paired pager (u := s) hs (fun _ _ => rfl) rfl).1.frame a ha

theorem serve_proper (hs : s.Proper) : (serve pager s r).1.Proper := by
  intro a v hv
  by_cases ha : a.queue = r.queueId
  · refine ⟨ha ▸ r.ids, ?_⟩
    exact (serve_paired pager (u := s) hs (fun _ _ => rfl) rfl).1.proper a v ha hv
  · rw [serve_frame hs ha] at hv
    exact hs a v hv

theorem serveAll_proper (hs : s.Proper) (rs : List Request) : (serveAll pager s rs).Proper := by
  induction rs generalizing s with
  | nil => exact hs
  | cons r rs ih => exact ih (serve_proper hs)

/-- Run: the requests to other queues can be left out, one after the other. -/
theorem serveAll_filter (pager : Pager) (hs : s.Proper) (hu : u.Proper) (hagree : Agree q s u)
    (rs : List Request) : repliesTo pager q s rs = repliesTo pager q u (rs.filter (·.queueId = q)) ∧
      Agree q (serveAll pager s rs) (serveAll pager u (rs.filter (·.queueId = q))) := by
  induction rs generalizing s u with
  | nil => exact ⟨rfl, hagree⟩
  | cons r rs ih =>
    by_cases hr : r.queueId = q
    · obtain ⟨hstep, hreply⟩ := serve_paired pager (r := r) hs hagree hr
      obtain ⟨hreplies, hfinal⟩ := ih (serve_proper hs) (serve_proper hu) hstep.same
      rw [List.filter_cons_of_pos (by simpa using hr)]
      refine ⟨?_, hfinal⟩
      rw [repliesTo, repliesTo, if_pos hr, if_pos hr, hreply, hreplies]
    · have hkeep : Agree q (serve pager s r).1 u := by
        intro a ha
        have hother : a.queue ≠ r.queueId := by
          rw [ha]
          exact Ne.symm hr
        rw [serve_frame hs hother]
        exact hagree a ha
      obtain ⟨hreplies, hfinal⟩ := ih (serve_proper hs) hu hkeep
      rw [List.filter_cons_of_neg (by simpa using hr)]
      refine ⟨?_, hfinal⟩
      rw [repliesTo, if_neg hr, hreplies]

/-- Two runs with the same requests to q, from stores with the same rows of q,
give the same replies to q, and whatever is stored under a key of q or in a
range of q is the same in both. -/
theorem serve_isolated (pager : Pager) (q : QueueId) (s u : State) (rs rs' : List Request)
    (hq : q.IsUInt64) (hs : s.Proper) (hu : u.Proper) (hagree : Agree q s u)
    (hsame : rs.filter (·.queueId = q) = rs'.filter (·.queueId = q)) :
    repliesTo pager q s rs = repliesTo pager q u rs' ∧
      ∀ p, Owned q p → ∀ a : Address, p <+: a.key →
        (serveAll pager s rs).value a = (serveAll pager u rs').value a := by
  obtain ⟨hreplies, hfinal⟩ := serveAll_filter pager hs hu hagree rs
  obtain ⟨hreplies', hfinal'⟩ := serveAll_filter pager hu hu (fun _ _ => rfl) rs'
  rw [hsame] at hreplies hfinal
  refine ⟨hreplies.trans hreplies'.symm, ?_⟩
  intro p hp a ha
  by_cases hqueue : a.queue = q
  · exact (hfinal a hqueue).trans (hfinal' a hqueue).symm
  · -- no row of another queue is stored under these bytes
    have habsent : ∀ x : State, x.Proper → x.value a = none := by
      intro x hx
      cases hv : x.value a with
      | none => rfl
      | some v => exact absurd (hp.queue_eq hq (hx a v hv).1 ha) hqueue
    rw [habsent _ (serveAll_proper hs rs), habsent _ (serveAll_proper hu rs')]

end Steps

end Store

section Runs

def ownQueue : QueueId := ⟨1, 1⟩
def otherQueue : QueueId := ⟨1, 2⟩

/-- One entry with a thread and a dedupe key. -/
def enqueueOne (q : QueueId) (threadId dedupeKey : Bytes) (h : q.IsUInt64) : Request where
  queueId := q
  now := 5
  message := .call (.enqueue ⟨q, [⟨[7], 0, 100, dedupeKey, none, [], threadId⟩]⟩)
  addressed := rfl
  ids := h

def dequeueSome (q : QueueId) (h : q.IsUInt64) : Request where
  queueId := q
  now := 6
  message := .call (.dequeue ⟨q, none, 10, none, 30⟩)
  addressed := rfl
  ids := h

def statisticsOf (q : QueueId) (h : q.IsUInt64) : Request where
  queueId := q
  now := 7
  message := .getStatistics q
  addressed := rfl
  ids := h

def plainPages : Pager where
  page l _ n := ⟨l.take n, none, none⟩

/-- A queue that is alone, and one beside another with the same thread and key. -/
def alone : List Request :=
  [enqueueOne ownQueue [1] [2] (by decide), dequeueSome ownQueue (by decide),
    statisticsOf ownQueue (by decide)]

def crowded : List Request :=
  [enqueueOne otherQueue [1] [2] (by decide), enqueueOne ownQueue [1] [2] (by decide),
    enqueueOne otherQueue [1, 1] [] (by decide), dequeueSome ownQueue (by decide),
    dequeueSome otherQueue (by decide), statisticsOf ownQueue (by decide)]

theorem serve_isolated_crowded :
    repliesTo plainPages ownQueue State.empty alone =
      repliesTo plainPages ownQueue State.empty crowded ∧
    ∀ p, Owned ownQueue p → ∀ a : Address, p <+: a.key →
      (serveAll plainPages State.empty alone).value a =
        (serveAll plainPages State.empty crowded).value a :=
  serve_isolated plainPages ownQueue State.empty State.empty alone crowded (by decide)
    State.proper_empty State.proper_empty (fun _ _ => rfl) rfl

end Runs

end Moab
