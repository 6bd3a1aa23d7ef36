import Moab.Queues.Runs
import Moab.Server.Rules
import Moab.Tasks.Limiter
import Moab.Tasks.Numbered

namespace Moab.Server

open Coreapis OrderedStore

section World

variable [OrderedStore]

/-- The two cores behind the front end, and the ids that queues have had so far. -/
structure World where
  queues : Queues.State
  tasks : State
  used : List QueueId

def World.start : World := ⟨Queues.State.empty, State.empty, []⟩

/-- What the core says where its transaction fails. -/
def internalError : Error := .internal "internal error"

/-- The ids among the given ones that now belong to a queue. -/
def gained (s : Queues.State) (new : Option QueueId) : List QueueId :=
  new.toList.filter (fun q => (s.queues.get q).isSome)

variable {α : Type} (w : World) (now : Time)

/-- The outcome of a call of the queues core that may bring an id along. -/
def World.ofQueues (new : Option QueueId)
    (r : Except Queues.CoreError (Queues.State × Except Queues.ApplicationError α)) :
    World × Except Error (Reply α) :=
  match r with
  | .ok (s, .ok a) => ({ w with queues := s, used := gained s new ++ w.used }, .ok ⟨a, now⟩)
  | .ok (s, .error err) =>
    ({ w with queues := s, used := gained s new ++ w.used }, .error (.queues err))
  | .error _ => (w, .error internalError)

/-- The outcome of a call of the tasks core. -/
def World.ofTasks (r : Except CoreError (State × Except TasksError α)) :
    World × Except Error (Reply α) :=
  match r with
  | .ok (s, .ok a) => ({ w with tasks := s }, .ok ⟨a, now⟩)
  | .ok (s, .error err) => ({ w with tasks := s }, .error (.tasks err))
  | .error _ => (w, .error internalError)

/-- What the cores answer to a request at a time of theirs. The answers to requests that
only read lists and statistics are given. -/
def World.answer [Gronx] (readings : (req : Request) → Except Error (Reply req.Response)) :
    (req : Request) → World × Except Error (Reply req.Response)
  | .getQueueByName req => (w, match w.queues.queueByName req.accountId req.queueName with
    | none => .error (.queues (Queues.queueNotFoundError req.queueName))
    | some queue => .ok ⟨queue, now⟩)
  | .createQueue req =>
    w.ofQueues now (some req.queueId) (.ok (Queues.createQueue w.queues now req))
  | .updateQueue req => w.ofQueues now none (.ok (Queues.updateQueue w.queues now req))
  | .deleteQueue req => w.ofQueues now none (.ok (Queues.deleteQueue w.queues req))
  | .swapQueueId req =>
    w.ofQueues now (some ⟨req.accountId, req.newQueueId⟩)
      (.ok (Queues.swapQueueId w.queues now req))
  | .createSchedule req => w.ofQueues now none (Queues.createSchedule w.queues now req)
  | .updateSchedule req => w.ofQueues now none (Queues.updateSchedule w.queues now req)
  | .deleteSchedule req => w.ofQueues now none (.ok (Queues.deleteSchedule w.queues req))
  | .getTask taskId => w.ofTasks now (.ok (w.tasks, Moab.getTask w.tasks now taskId))
  | .enqueue req => w.ofTasks now (Moab.enqueue w.tasks now req)
  | .dequeue req => w.ofTasks now (Moab.dequeue w.tasks now req)
  | .reportStatus req =>
    w.ofTasks now ((reportStatuses w.tasks now req).map (fun a => (a.1, .ok a.2)))
  | .deleteTasks req => w.ofTasks now ((Moab.deleteTasks w.tasks req).map (fun s => (s, .ok ())))
  | .restartTasks req =>
    w.ofTasks now ((Moab.restartTasks w.tasks now req).map (fun a => (a.1, .ok a.2)))
  | .purgeQueue queueId => w.ofTasks now (.ok (Moab.purgeQueue w.tasks queueId, .ok ()))
  | .listQueues req => (w, readings (.listQueues req))
  | .listSchedules req => (w, readings (.listSchedules req))
  | .getSchedule req => (w, readings (.getSchedule req))
  | .getStatistics queueId => (w, readings (.getStatistics queueId))
  | .listTasks req => (w, readings (.listTasks req))

/-- A call of the queues core. -/
def World.commitQueues [Gronx] (op : Queues.Op) : World :=
  { w with
    queues := Queues.commit w.queues now op
    used := gained (Queues.commit w.queues now op) op.newQueueId ++ w.used }

/-- A call of the tasks core. -/
def World.commitTasks (op : Op) : World := { w with tasks := commit w.tasks now op }

/-- The world after a request. -/
def World.after [Gronx] (req : Request) : World :=
  match req.queuesOp, req.op with
  | some op, _ => w.commitQueues now op
  | none, some op => w.commitTasks now op
  | none, none => w

variable {w now}

section Map

omit [OrderedStore]

variable {ε σ β γ : Type} {x : Except ε β}

theorem map_fst_congr {f : β → σ × α} {g : β → σ × γ} (h : ∀ b, (f b).1 = (g b).1) :
    (x.map f).map Prod.fst = (x.map g).map Prod.fst := by
  cases x with
  | ok b => exact congrArg Except.ok (h b)
  | error err => rfl

theorem map_fst {x : Except ε (σ × β)} {f : σ × β → σ × α} (h : ∀ b, (f b).1 = b.1) :
    (x.map f).map Prod.fst = x.map Prod.fst := by
  cases x with
  | ok b => exact congrArg Except.ok (h b)
  | error err => rfl

end Map

theorem ofQueues_fst [Gronx] (op : Queues.Op)
    {r : Except Queues.CoreError (Queues.State × Except Queues.ApplicationError α)}
    (h : (Queues.exec w.queues now op).map Prod.fst = r.map Prod.fst)
    (hr : r.toOption = none → op.newQueueId = none) :
    (w.ofQueues now op.newQueueId r).1 = w.commitQueues now op := by
  unfold World.commitQueues Queues.commit
  cases hexec : Queues.exec w.queues now op with
  | ok a =>
    rw [hexec] at h
    match r, h with
    | .ok (s, .ok b), h =>
      obtain rfl : a.1 = s := Except.ok.inj h
      rfl
    | .ok (s, .error err), h =>
      obtain rfl : a.1 = s := Except.ok.inj h
      rfl
  | error err =>
    rw [hexec] at h
    match r, h, hr with
    | .error err, _, hr =>
      rw [hr rfl]
      rfl

theorem ofTasks_fst (op : Op) {r : Except CoreError (State × Except TasksError α)}
    (h : (exec w.tasks now op).map Prod.fst = r.map Prod.fst) :
    (w.ofTasks now r).1 = w.commitTasks now op := by
  unfold World.commitTasks commit
  cases hexec : exec w.tasks now op with
  | ok a =>
    rw [hexec] at h
    match r, h with
    | .ok (s, .ok b), h =>
      obtain rfl : a.1 = s := Except.ok.inj h
      rfl
    | .ok (s, .error err), h =>
      obtain rfl : a.1 = s := Except.ok.inj h
      rfl
  | error err =>
    rw [hexec] at h
    match r, h with
    | .error err, _ => rfl

theorem answer_fst [Gronx] {readings : (req : Request) → Except Error (Reply req.Response)}
    (req : Request) : (w.answer now readings req).1 = w.after now req := by
  cases req with
  | createQueue req => exact ofQueues_fst (.createQueue req) rfl (fun hr => nomatch hr)
  | updateQueue req => exact ofQueues_fst (.updateQueue req) rfl (fun hr => nomatch hr)
  | deleteQueue req => exact ofQueues_fst (.deleteQueue req) rfl (fun hr => nomatch hr)
  | swapQueueId req => exact ofQueues_fst (.swapQueueId req) rfl (fun hr => nomatch hr)
  | createSchedule req =>
    exact ofQueues_fst (.createSchedule req) (map_fst (fun _ => rfl)) (fun _ => rfl)
  | updateSchedule req =>
    exact ofQueues_fst (.updateSchedule req) (map_fst (fun _ => rfl)) (fun _ => rfl)
  | deleteSchedule req => exact ofQueues_fst (.deleteSchedule req) rfl (fun hr => nomatch hr)
  | enqueue req => exact ofTasks_fst (.enqueue req) (map_fst (fun _ => rfl))
  | dequeue req => exact ofTasks_fst (.dequeue req) (map_fst (fun _ => rfl))
  | reportStatus req =>
    exact ofTasks_fst (.reportStatus req) (map_fst_congr (fun _ => rfl))
  | deleteTasks req =>
    exact ofTasks_fst (.deleteTasks req) (map_fst_congr (fun _ => rfl))
  | restartTasks req =>
    exact ofTasks_fst (.restartTasks req) (map_fst_congr (fun _ => rfl))
  | getTask taskId =>
    change (w.ofTasks now (.ok (w.tasks, Moab.getTask w.tasks now taskId))).1 = w
    cases Moab.getTask w.tasks now taskId with
    | ok t => rfl
    | error err => rfl
  | _ => rfl

end World

section Ids

variable [OrderedStore] {w u w' u' : World} {now : Time} {q : QueueId} {op : Queues.Op} {e : Event}

/-- An id that a call brings along belonged to no queue before. -/
def World.Fresh (w : World) (op : Queues.Op) : Prop := ∀ q, op.newQueueId = some q → q ∉ w.used

theorem fresh_of_none (h : op.newQueueId = none) : w.Fresh op := by
  intro q hq
  rw [h] at hq
  cases hq

/-- The tables of the queues core are in order, and an id that is not used is in none. -/
structure Consistent (w : World) : Prop where
  structured : Queues.Structured w.queues
  unused : ∀ q, q ∉ w.used → w.queues.queues.get q = none ∧ w.queues.gcRecords.get q = none

/-- A queue had the id, and none has it any more. -/
def Retired (w : World) (q : QueueId) : Prop := q ∈ w.used ∧ w.queues.queues.get q = none

theorem Consistent.start : Consistent World.start where
  structured := Queues.Structured.empty
  unused q _ := by simp [World.start, Queues.State.empty]

theorem Consistent.op_unused (h : Consistent w) (hf : w.Fresh op) : op.Unused w.queues :=
  fun q hq => h.unused q (hf q hq)

theorem Consistent.mem_used (h : Consistent w) (hq : w.queues.queues.get q ≠ none) : q ∈ w.used :=
  Classical.byContradiction (fun hn => hq (h.unused q hn).1)

/-- A queue whose numbers go on from those in w, and that is not marked as purged. -/
def GoesOn (q : QueueId) (w u : World) : Prop :=
  u.tasks.purgeGCRecords.get q = none ∧ Continues q w.tasks u.tasks

theorem GoesOn.refl (hmark : w.tasks.purgeGCRecords.get q = none) (hn : Numbered q w.tasks) :
    GoesOn q w w := ⟨hmark, Continues.refl hn⟩

theorem GoesOn.commitTasks {op : Op} (h : GoesOn q w u) (hop : op ≠ .purgeQueue q) :
    GoesOn q w (u.commitTasks now op) :=
  ⟨commit_keeps (I := fun s => s.purgeGCRecords.get q = none) h.1 (exec_unmarked h.1 hop),
    h.2.trans (commit_continues h.2.numbered h.1 now op)⟩

variable [Gronx]

theorem Consistent.commitQueues (h : Consistent w) (hf : w.Fresh op) :
    Consistent (w.commitQueues now op) := by
  have hu := h.op_unused hf
  refine ⟨h.structured.commit hu now, fun q hq => ?_⟩
  obtain ⟨hnew, hold⟩ := not_or.mp (fun h => hq (List.mem_append.mpr h))
  obtain ⟨hqueue, hrecord⟩ := h.unused q hold
  refine ⟨?_, h.structured.commit_unrecorded hu hqueue hrecord⟩
  by_cases hq : op.newQueueId = some q
  · change (Queues.commit w.queues now op).queues.get q = none
    simpa [gained, hq] using hnew
  · exact h.structured.commit_absent hu hq hqueue

theorem Retired.commitQueues (hr : Retired w q) (h : Consistent w) (hf : w.Fresh op) :
    Retired (w.commitQueues now op) q :=
  ⟨List.mem_append_right _ hr.1,
    h.structured.commit_absent (h.op_unused hf) (fun hq => hf q hq hr.1) hr.2⟩

end Ids

section Serving

variable [OrderedStore] [Gronx] {w u w' u' : World} {q : QueueId} {e : Event} {es : List Event}

/-- A call reaches the cores with an answer or without one, or it does not reach them. -/
def Answers (w : World) (req : Request) (r : Except Error (Reply req.Response))
    (w' : World) : Prop :=
  (∃ now readings, (∀ op, req.queuesOp = some op → w.Fresh op) ∧
    w' = (w.answer now readings req).1 ∧
    (r = (w.answer now readings req).2 ∨ ∃ message, r = .error (.internal message))) ∨
  w' = w ∧ ∃ message, r = .error (.internal message)

/-- The cores take part in the calls only. The clock and the random numbers of the front
end are any, and so is its cache: other instances of it fill and read theirs. -/
def Serves (w : World) (e : Event) (w' : World) : Prop :=
  match e with
  | ⟨.call req, r⟩ => Answers w req r w'
  | _ => w' = w

/-- An answer other than an internal error is one of the cores. -/
theorem Answers.reply {req : Request} {reply : Reply req.Response}
    (h : Answers w req (.ok reply) w') :
    ∃ now readings, w' = (w.answer now readings req).1 ∧
      .ok reply = (w.answer now readings req).2 := by
  rcases h with ⟨now, readings, _, hw, hr | ⟨_, hr⟩⟩ | ⟨_, _, hr⟩
  · exact ⟨now, readings, hw, hr⟩
  · cases hr
  · cases hr

theorem Answers.named {req : GetQueueByNameRequest} {reply : Reply Queue}
    (h : Answers w (.getQueueByName req) (.ok reply) w') :
    w.queues.queueByName req.accountId req.queueName = some reply.response := by
  obtain ⟨now, readings, _, hr⟩ := h.reply
  simp only [World.answer] at hr
  split at hr
  · cases hr
  · next queue named =>
    rw [named, Except.ok.inj hr]

/-- What an event may do to the world. -/
theorem Serves.change (h : Serves w e w') : w' = w ∨
    (∃ now op, w.Fresh op ∧ w' = w.commitQueues now op) ∨
    ∃ now op req, request e = some req ∧ req.op = some op ∧ w' = w.commitTasks now op := by
  obtain ⟨effect, r⟩ := e
  cases effect with
  | call req =>
    rcases h with ⟨now, readings, hfresh, hw, _⟩ | ⟨hw, _⟩
    · rw [answer_fst, World.after] at hw
      cases hqueues : req.queuesOp with
      | some op =>
        rw [hqueues] at hw
        exact Or.inr (Or.inl ⟨now, op, hfresh op hqueues, hw⟩)
      | none =>
        rw [hqueues] at hw
        cases htasks : req.op with
        | some op =>
          rw [htasks] at hw
          exact Or.inr (Or.inr ⟨now, op, req, rfl, htasks, hw⟩)
        | none =>
          rw [htasks] at hw
          exact Or.inl hw
    · exact Or.inl hw
  | _ => exact Or.inl h

theorem Consistent.serves (h : Consistent w) (hs : Serves w e w') : Consistent w' := by
  rcases hs.change with rfl | ⟨now, op, hf, rfl⟩ | ⟨now, op, req, _, _, rfl⟩
  · exact h
  · exact h.commitQueues hf
  · exact { h with }

theorem Retired.serves (hr : Retired w q) (h : Consistent w) (hs : Serves w e w') :
    Retired w' q := by
  rcases hs.change with rfl | ⟨now, op, hf, rfl⟩ | ⟨now, op, req, _, _, rfl⟩
  · exact hr
  · exact hr.commitQueues h hf
  · exact hr

omit [OrderedStore] [Gronx] in
theorem purgeQueue_of_op {req : Request} (h : req.op = some (.purgeQueue q)) :
    req = .purgeQueue q := by
  cases req with
  | purgeQueue queueId => exact congrArg Request.purgeQueue (Op.purgeQueue.inj (Option.some.inj h))
  | _ => simp [Request.op] at h

/-- Only a purge of the queue itself stands in the way of its numbers. -/
theorem GoesOn.serves (h : GoesOn q w u) (hs : Serves u e u')
    (he : request e ≠ some (.purgeQueue q)) : GoesOn q w u' := by
  rcases hs.change with rfl | ⟨now, op, _, rfl⟩ | ⟨now, op, req, hreq, hop, rfl⟩
  · exact h
  · exact h
  · apply h.commitTasks
    intro hpurge
    rw [hpurge] at hop
    rw [hreq, purgeQueue_of_op hop] at he
    exact he rfl

/-- The id that the queues core took from a queue and told the handler. -/
def taken : Event → Option QueueId
  | ⟨.call (.deleteQueue _), .ok reply⟩ => some reply.response
  | ⟨.call (.swapQueueId _), .ok reply⟩ => some reply.response.2
  | _ => none

omit [Gronx] in
theorem ofQueues_ok {α : Type} {now : Time} {new : Option QueueId} {reply : Reply α}
    {a : Queues.State × Except Queues.ApplicationError α} (hw : w' = (w.ofQueues now new (.ok a)).1)
    (h : .ok reply = (w.ofQueues now new (.ok a)).2) :
    a = (w'.queues, .ok reply.response) ∧ ∀ q ∈ w.used, q ∈ w'.used := by
  obtain ⟨s, r⟩ := a
  cases r with
  | error err => cases h
  | ok a =>
    obtain rfl := Except.ok.inj h
    rw [hw]
    exact ⟨rfl, fun q hq => List.mem_append_right _ hq⟩

/-- An id that was taken from a queue is retired. -/
theorem Consistent.retired_of_taken (h : Consistent w) (hs : Serves w e w')
    (he : taken e = some q) : Retired w' q := by
  unfold taken at he
  split at he
  · obtain ⟨now, readings, hw, hr⟩ := Answers.reply hs
    obtain ⟨hd, hused⟩ := ofQueues_ok hw hr
    rw [Option.some.inj he] at hd
    obtain ⟨hstored, hgone⟩ := h.structured.deleteQueue_takes hd
    exact ⟨hused q (h.mem_used hstored), hgone⟩
  · next reply =>
    obtain ⟨now, readings, hw, hr⟩ := Answers.reply hs
    obtain ⟨hd, hused⟩ := ofQueues_ok hw hr
    obtain ⟨hstored, hgone⟩ := h.structured.swapQueueId_takes hd
    rw [Option.some.inj he] at hstored hgone
    exact ⟨hused q (h.mem_used hstored), hgone⟩
  · cases he

/-- The tasks that a core told the handler. -/
def returned : Event → List Task
  | ⟨.call (.enqueue _), .ok reply⟩ => reply.response
  | ⟨.call (.dequeue _), .ok reply⟩ => reply.response
  | ⟨.call (.restartTasks _), .ok reply⟩ => reply.response.filterMap (·.task)
  | ⟨.call (.getTask _), .ok reply⟩ => [reply.response]
  | _ => []

omit [Gronx] in
theorem ofTasks_ok {α : Type} {now : Time} {reply : Reply α}
    {r : Except CoreError (State × Except TasksError α)} (hw : w' = (w.ofTasks now r).1)
    (h : .ok reply = (w.ofTasks now r).2) : r = .ok (w'.tasks, .ok reply.response) := by
  match r with
  | .ok (s, .ok a) =>
    obtain rfl := Except.ok.inj h
    rw [hw]
    rfl
  | .ok (s, .error err) => cases h
  | .error err => cases h

omit [Gronx] in
theorem GoesOn.exec_returned (h : GoesOn q w u) {now : Time} {op : Op} {s : State} {r : Response}
    (hx : exec u.tasks now op = .ok (s, r)) {t : Task} (ht : t ∈ r.tasks) (hq : t.id.queue = q) :
    t.id.taskId ≤ s.sequence q :=
  ((exec_continues h.2.numbered h.1 op).elim hx).2 t ht hq

/-- The tasks of an answer have been numbered. -/
theorem GoesOn.returned (h : GoesOn q w u) (hs : Serves u e u') {t : Task} (ht : t ∈ returned e)
    (hq : t.id.queue = q) : t.id.taskId ≤ u'.tasks.sequence q := by
  unfold Server.returned at ht
  split at ht
  · next req reply =>
    obtain ⟨now, readings, hw, hr⟩ := Answers.reply hs
    have hx : exec u.tasks now (.enqueue req) = .ok (u'.tasks, .enqueue (.ok reply.response)) := by
      rw [exec, ofTasks_ok hw hr]
      rfl
    exact h.exec_returned hx ht hq
  · next req reply =>
    obtain ⟨now, readings, hw, hr⟩ := Answers.reply hs
    have hx : exec u.tasks now (.dequeue req) = .ok (u'.tasks, .dequeue (.ok reply.response)) := by
      rw [exec, ofTasks_ok hw hr]
      rfl
    exact h.exec_returned hx ht hq
  · next req reply =>
    obtain ⟨now, readings, hw, hr⟩ := Answers.reply hs
    have hx : exec u.tasks now (.restartTasks req) =
        .ok (u'.tasks, .restartTasks reply.response) := by
      have hmap := ofTasks_ok hw hr
      rw [exec]
      cases hrestart : Moab.restartTasks u.tasks now req with
      | error err =>
        rw [hrestart] at hmap
        cases hmap
      | ok a =>
        rw [hrestart] at hmap
        obtain ⟨hs, hr⟩ := Prod.mk.inj (Except.ok.inj hmap)
        rw [← hs, ← Except.ok.inj hr]
        rfl
    exact h.exec_returned hx ht hq
  · next taskId reply =>
    obtain ⟨now, readings, hw, hr⟩ := Answers.reply hs
    obtain ⟨hstate, hget⟩ := Prod.mk.inj (Except.ok.inj (ofTasks_ok hw hr))
    obtain rfl := List.mem_singleton.mp ht
    have hrow : u.tasks.tasks.get taskId = some reply.response := by
      unfold Moab.getTask at hget
      split at hget
      · cases hget
      · next hrow =>
        split_ifs at hget
        rw [hrow, Except.ok.inj hget]
    obtain ⟨hid, hle⟩ := h.2.numbered taskId reply.response hrow
    rw [← hstate, hid]
    rw [hid] at hq
    exact hle hq
  · cases ht

section Traces

/-- The calls of a handler keep the tables in order, and retire ids for good. -/
theorem Consistent.trace (h : Consistent w) (ht : Trace Serves w es w') : Consistent w' :=
  ht.invariant (fun _ _ _ hc hs => hc.serves hs) h

theorem Retired.trace (hr : Retired w q) (h : Consistent w) (ht : Trace Serves w es w') :
    Retired w' q :=
  (ht.invariant (I := fun w => Consistent w ∧ Retired w q)
    (fun _ _ _ hc hs => ⟨hc.1.serves hs, hc.2.serves hc.1 hs⟩) ⟨h, hr⟩).2

theorem GoesOn.trace (h : GoesOn q w u) (ht : Trace Serves u es u')
    (hes : .purgeQueue q ∉ sent es) : GoesOn q w u' := by
  refine ht.invariant_of (I := GoesOn q w) (fun e he _ _ hg hs => hg.serves hs ?_) h
  exact fun hreq => hes (List.mem_filterMap.mpr ⟨e, he, hreq⟩)

theorem Consistent.retired_of_mem (h : Consistent w) (ht : Trace Serves w es w') (he : e ∈ es)
    (hq : taken e = some q) : Retired w' q := by
  obtain ⟨before, after, rfl⟩ := List.append_of_mem he
  obtain ⟨u, hu, hrest⟩ := ht.split
  cases hrest with
  | cons hs hrest =>
    have hc := h.trace hu
    exact (hc.retired_of_taken hs hq).trace (hc.serves hs) hrest

theorem GoesOn.returned_trace (h : GoesOn q w u) (ht : Trace Serves u es u')
    (hes : .purgeQueue q ∉ sent es) (he : e ∈ es) {t : Task} (hret : t ∈ Server.returned e)
    (hq : t.id.queue = q) : t.id.taskId ≤ u'.tasks.sequence q := by
  obtain ⟨before, after, rfl⟩ := List.append_of_mem he
  obtain ⟨v, hv, hrest⟩ := ht.split
  cases hrest with
  | @cons _ v' _ _ _ hs hrest =>
    rw [sent_append, List.mem_append, not_or] at hes
    have hgo := h.trace hv hes.1
    have hevent : request e ≠ some (.purgeQueue q) :=
      fun hreq => hes.2 (List.mem_filterMap.mpr ⟨e, List.mem_cons_self, hreq⟩)
    have hgo' := hgo.serves hs hevent
    have hnext : GoesOn q v' v' := GoesOn.refl hgo'.1 hgo'.2.numbered
    have hlast : GoesOn q v' u' := hnext.trace hrest (fun hmem => hes.2 (by
      obtain ⟨e', he', hreq⟩ := List.mem_filterMap.mp hmem
      exact List.mem_filterMap.mpr ⟨e', List.mem_cons_of_mem _ he', hreq⟩))
    exact Nat.le_trans (hgo.returned hs hret hq) hlast.2.grows

end Traces

end Serving

end Moab.Server
