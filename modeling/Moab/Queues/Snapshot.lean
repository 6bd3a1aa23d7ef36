import Moab.Framework.Load
import Moab.Queues.Runs

namespace Moab.Queues

open OrderedStore

section Model

variable [OrderedStore]

/-- The primary entities of a core, section by section in the order they are
streamed. No index is part of a snapshot. -/
structure Snapshot where
  queues : List Queue
  schedules : List Schedule
  counters : List (Nat × QueuesCounter)
  gcRecords : List QueueId

def snapshot (s : State) : Snapshot where
  queues := s.queues.entries.map Prod.snd
  schedules := s.schedules.entries.map Prod.snd
  counters := s.counters.entries
  gcRecords := s.gcRecords.entries.map Prod.fst

variable (owns : Nat → Bool)

/-- queuesTable.RestoreEntity. An entity is skipped if the shard key of its account
lies outside the bounds. -/
def restoreQueue (s : State) (queue : Queue) : State :=
  if owns queue.id.accountId then s.createQueue queue else s

def restoreSchedule (s : State) (schedule : Schedule) : State :=
  if owns schedule.id.accountId then s.createSchedule schedule else s

/-- The account of a counter is read off its key. -/
def restoreCounter (s : State) (e : Nat × QueuesCounter) : State :=
  if owns e.1 then { s with counters := s.counters.set e.1 e.2 } else s

def restoreGCRecord (s : State) (q : QueueId) : State :=
  if owns q.accountId then { s with gcRecords := s.gcRecords.set q () } else s

/-- Feeds the entities of one stream to their tables. -/
def restoreStream (s : State) (stream : Snapshot) : State :=
  let s := stream.queues.foldl (restoreQueue owns) s
  let s := stream.schedules.foldl (restoreSchedule owns) s
  let s := stream.counters.foldl (restoreCounter owns) s
  stream.gcRecords.foldl (restoreGCRecord owns) s

/-- Every table is cleared first, so what was there before does not matter. -/
def restore (readers : List Snapshot) : State := readers.foldl (restoreStream owns) State.empty

end Model

section Part

variable [OrderedStore] {s t r : State} {p q owns : Nat → Bool}

/-- What a state holds of another: every table and every index, for the accounts
that p picks. -/
structure Part (s : State) (p : Nat → Bool) (t : State) : Prop where
  queues : s.queues.IsPart (fun q => p q.accountId) t.queues
  queueNames : s.queueNames.IsPart (fun k => p k.accountId) t.queueNames
  schedules : s.schedules.IsPart (fun id => p id.accountId) t.schedules
  scheduleNames : s.scheduleNames.IsPart (fun k => p k.queue.accountId) t.scheduleNames
  scheduledIndex : ∀ i, i ∈ t.scheduledIndex.items () ↔
    p i.id.accountId = true ∧ i ∈ s.scheduledIndex.items ()
  counters : s.counters.IsPart p t.counters
  gcRecords : s.gcRecords.IsPart (fun q => p q.accountId) t.gcRecords

theorem Part.refl (s : State) : Part s (fun _ => true) s where
  queues _ := rfl
  queueNames _ := rfl
  schedules _ := rfl
  scheduleNames _ := rfl
  scheduledIndex _ := by simp
  counters _ := rfl
  gcRecords _ := rfl

theorem Part.empty (s : State) : Part s (fun _ => false) State.empty where
  queues _ := by simp [State.empty]
  queueNames _ := by simp [State.empty]
  schedules _ := by simp [State.empty]
  scheduleNames _ := by simp [State.empty]
  scheduledIndex _ := by simp [State.empty]
  counters _ := by simp [State.empty]
  gcRecords _ := by simp [State.empty]

/-- The names and the times of a part are those of its rows. -/
theorem Part.names (h : Part s p t) (hs : Structured s) :
    Unique queueNameClaim t.queues t.queueNames ∧
      Unique scheduleNameClaim t.schedules t.scheduleNames ∧
      Exact scheduled t.schedules t.scheduledIndex :=
  ⟨(hs.registered.names.isPart_iff h.queues (fun _ _ => rfl)).mpr h.queueNames,
    (hs.shelved.names.isPart_iff h.schedules (fun _ _ => rfl)).mpr h.scheduleNames,
    (hs.shelved.filed.isPart_iff h.schedules (fun _ _ => rfl)).mpr (fun _ => h.scheduledIndex)⟩

theorem Part.of_names (hs : Structured s)
    (queues : s.queues.IsPart (fun q => p q.accountId) t.queues)
    (schedules : s.schedules.IsPart (fun id => p id.accountId) t.schedules)
    (counters : s.counters.IsPart p t.counters)
    (gcRecords : s.gcRecords.IsPart (fun q => p q.accountId) t.gcRecords)
    (queueNames : Unique queueNameClaim t.queues t.queueNames)
    (scheduleNames : Unique scheduleNameClaim t.schedules t.scheduleNames)
    (filed : Exact scheduled t.schedules t.scheduledIndex) : Part s p t where
  queues := queues
  queueNames := (hs.registered.names.isPart_iff queues (fun _ _ => rfl)).mp queueNames
  schedules := schedules
  scheduleNames := (hs.shelved.names.isPart_iff schedules (fun _ _ => rfl)).mp scheduleNames
  scheduledIndex := (hs.shelved.filed.isPart_iff schedules (fun _ _ => rfl)).mp filed ()
  counters := counters
  gcRecords := gcRecords

theorem Part.congr (h : Part s p t) (hpq : ∀ a, p a = q a) : Part s q t := by
  have he : p = q := funext hpq
  rwa [← he]

section Streams

theorem restoreQueues_eq (l : List Queue) (t : State) : l.foldl (restoreQueue owns) t = { t with
    queues := t.queues.load (fun x => owns x.id.accountId) Queue.id id l
    queueNames := t.queueNames.load (fun x => owns x.id.accountId)
      (fun x => ⟨x.id.accountId, x.name⟩) (fun x => x.id.queueId) l } := by
  induction l generalizing t with
  | nil => rfl
  | cons x l ih =>
    rw [List.foldl_cons, ih]
    unfold restoreQueue Table.load
    rw [List.foldl_cons, List.foldl_cons]
    split <;> rfl

theorem restoreSchedules_eq (l : List Schedule) (t : State) :
    l.foldl (restoreSchedule owns) t = { t with
      schedules := t.schedules.load (fun x => owns x.id.accountId) Schedule.id id l
      scheduleNames := t.scheduleNames.load (fun x => owns x.id.accountId)
        (fun x => ⟨x.id.queue, x.name⟩) (fun x => x.id.scheduleId) l
      scheduledIndex := t.scheduledIndex.load (fun x => owns x.id.accountId) (fun _ => ())
        Schedule.scheduledItem l } := by
  induction l generalizing t with
  | nil => rfl
  | cons x l ih =>
    rw [List.foldl_cons, ih]
    unfold restoreSchedule Table.load Index.load
    rw [List.foldl_cons, List.foldl_cons, List.foldl_cons]
    split <;> rfl

theorem restoreCounters_eq (l : List (Nat × QueuesCounter)) (t : State) :
    l.foldl (restoreCounter owns) t = { t with
      counters := t.counters.load (fun e => owns e.1) Prod.fst Prod.snd l } := by
  induction l generalizing t with
  | nil => rfl
  | cons e l ih =>
    rw [List.foldl_cons, ih]
    unfold restoreCounter Table.load
    rw [List.foldl_cons]
    split <;> rfl

theorem restoreGCRecords_eq (l : List QueueId) (t : State) :
    l.foldl (restoreGCRecord owns) t = { t with
      gcRecords := t.gcRecords.load (fun q => owns q.accountId) id (fun _ => ()) l } := by
  induction l generalizing t with
  | nil => rfl
  | cons e l ih =>
    rw [List.foldl_cons, ih]
    unfold restoreGCRecord Table.load
    rw [List.foldl_cons]
    split <;> rfl

end Streams

/-- The rows of a stream whose rows carry their own keys. -/
theorem mem_stream {κ ν : Type} [LinearOrder κ] {T : Table κ ν} (key : ν → κ)
    (hkey : ∀ k v, T.get k = some v → key v = k) (k : κ) (v : ν) :
    T.get k = some v ↔ ∃ e ∈ T.entries.map Prod.snd, key e = k ∧ id e = v := by
  constructor
  · intro hv
    exact ⟨v, List.mem_map.mpr ⟨(k, v), Table.mem_entries.mpr hv, rfl⟩, hkey k v hv, rfl⟩
  · rintro ⟨w, hw, rfl, rfl⟩
    obtain ⟨e, he, rfl⟩ := List.mem_map.mp hw
    have hget := Table.mem_entries.mp he
    rw [hkey _ _ hget]
    exact hget

/-- Step: a stream adds what it has of the accounts that are owned. -/
theorem Part.stream (h : Part s p t) (hr : Part s q r) (hs : Structured s) (owns : Nat → Bool) :
    Part s (fun a => p a || owns a && q a) (restoreStream owns t (snapshot r)) := by
  have hqueues := mem_stream Queue.id
    (fun k v hv => hs.registered.keyed k v (hr.queues.sub k v hv))
  have hschedules := mem_stream Schedule.id
    (fun k v hv => hs.shelved.keyed k v (hr.schedules.sub k v hv))
  have hcounters : ∀ k v, r.counters.get k = some v ↔
      ∃ e ∈ r.counters.entries, e.1 = k ∧ e.2 = v := by
    intro k v
    rw [← Table.mem_entries]
    constructor
    · intro he
      exact ⟨(k, v), he, rfl, rfl⟩
    · rintro ⟨e, he, rfl, rfl⟩
      exact he
  have hrecords : ∀ k v, r.gcRecords.get k = some v ↔
      ∃ e ∈ r.gcRecords.entries.map Prod.fst, id e = k ∧ () = v := by
    intro k v
    constructor
    · intro hv
      exact ⟨k, List.mem_map.mpr ⟨(k, v), Table.mem_entries.mpr hv, rfl⟩, rfl, rfl⟩
    · rintro ⟨_, hk, rfl, _⟩
      obtain ⟨e, he, rfl⟩ := List.mem_map.mp hk
      exact Table.mem_entries.mp he
  obtain ⟨hqueueNames, hscheduleNames, hfiled⟩ := h.names hs
  have hqueueRows : ∀ x ∈ r.queues.entries.map Prod.snd, s.queues.get x.id = some (id x) :=
    fun x hx => hr.queues.sub _ _ ((hqueues _ _).mpr ⟨x, hx, rfl, rfl⟩)
  have hscheduleRows : ∀ x ∈ r.schedules.entries.map Prod.snd, s.schedules.get x.id = some (id x) :=
    fun x hx => hr.schedules.sub _ _ ((hschedules _ _).mpr ⟨x, hx, rfl, rfl⟩)
  unfold restoreStream snapshot
  dsimp only
  rw [restoreQueues_eq, restoreSchedules_eq, restoreCounters_eq, restoreGCRecords_eq]
  apply Part.of_names hs
  · exact h.queues.load hr.queues hqueues (fun _ => rfl)
  · exact h.schedules.load hr.schedules hschedules (fun _ => rfl)
  · exact h.counters.load hr.counters hcounters (fun _ => rfl)
  · exact h.gcRecords.load hr.gcRecords hrecords (fun _ => rfl)
  · exact hqueueNames.load hs.registered.names h.queues.sub hqueueRows (fun _ => rfl)
  · exact hscheduleNames.load hs.shelved.names h.schedules.sub hscheduleRows (fun _ => rfl)
  · exact hfiled.load h.schedules.sub hscheduleRows (fun _ => rfl)

/-- A snapshot of a part of a state, restored into bounds. -/
theorem Part.restore (hr : Part s q r) (hs : Structured s) (owns : Nat → Bool) :
    Part s (fun a => owns a && q a) (restore owns [snapshot r]) :=
  ((Part.empty s).stream hr hs owns).congr (fun _ => Bool.false_or _)

/-- Two parts that cover every account of a state make up the state. -/
theorem Part.eq (h : Part s p t) (hqueues : ∀ q x, s.queues.get q = some x → p q.accountId = true)
    (hcounters : ∀ a c, s.counters.get a = some c → p a = true)
    (hrecords : ∀ q u, s.gcRecords.get q = some u → p q.accountId = true) (hs : Structured s) :
    t = s := by
  have hall : ∀ {κ ν : Type} [LinearOrder κ] {P : κ → Bool} {T u : Table κ ν}, T.IsPart P u →
      (∀ k v, T.get k = some v → P k = true) → u = T := by
    intro κ ν _ P T u hpart hP
    apply Table.ext
    intro k
    rw [hpart k]
    cases hk : T.get k with
    | none => split <;> rfl
    | some v => rw [if_pos (hP k v hk)]
  have hschedules : ∀ id x, s.schedules.get id = some x → p id.accountId = true := by
    intro id x hx
    rcases h0 : s.queues.get id.queue with _ | queue
    · have hhome := hs.homed id x hx
      rw [h0] at hhome
      obtain ⟨u, hu⟩ := Option.isSome_iff_exists.mp (hhome.resolve_left (by simp))
      exact hrecords _ u hu
    · exact hqueues _ queue h0
  have hq : t.queues = s.queues := hall h.queues hqueues
  have hsch : t.schedules = s.schedules := hall h.schedules hschedules
  obtain ⟨hqueueNames, hscheduleNames, hfiled⟩ := h.names hs
  rw [hq] at hqueueNames
  rw [hsch] at hscheduleNames hfiled
  have hqn : t.queueNames = s.queueNames := hqueueNames.ext hs.registered.names
  have hsn : t.scheduleNames = s.scheduleNames := hscheduleNames.ext hs.shelved.names
  have hsi : t.scheduledIndex = s.scheduledIndex := hfiled.ext hs.shelved.filed
  have hc : t.counters = s.counters := hall h.counters hcounters
  have hg : t.gcRecords = s.gcRecords := hall h.gcRecords hrecords
  cases t
  cases s
  dsimp only at hq hqn hsch hsn hsi hc hg
  rw [hq, hqn, hsch, hsn, hsi, hc, hg]

end Part

section Routed

/-- The account by which a call is routed. The collection is sent to every shard. -/
def Op.accountId : Op → Option Nat
  | .createQueue req => some req.queueId.accountId
  | .updateQueue req => some req.accountId
  | .deleteQueue req => some req.accountId
  | .swapQueueId req => some req.accountId
  | .createSchedule req => some req.accountId
  | .updateSchedule req => some req.accountId
  | .deleteSchedule req => some req.accountId
  | .reportSchedulesStatus req => some req.scheduleId.accountId
  | .runQueuesGarbageCollection _ => none

variable [OrderedStore] {s : State} {owns : Nat → Bool} {op : Op}

/-- Everything that is stored belongs to an account that is owned. -/
structure Routed (owns : Nat → Bool) (s : State) : Prop where
  queues : ∀ q x, s.queues.get q = some x → owns q.accountId = true
  counters : ∀ a c, s.counters.get a = some c → owns a = true
  gcRecords : ∀ q u, s.gcRecords.get q = some u → owns q.accountId = true

theorem Routed.empty : Routed owns State.empty where
  queues q x hx := by simp [State.empty] at hx
  counters a c hc := by simp [State.empty] at hc
  gcRecords q u hu := by simp [State.empty] at hu

/-- Writing a row under a key that is owned. -/
theorem owned_set {κ ν : Type} [LinearOrder κ] {P : κ → Bool} {T : Table κ ν}
    (h : ∀ k v, T.get k = some v → P k = true) {k : κ} (hk : P k = true) (w : ν) :
    ∀ j v, (T.set k w).get j = some v → P j = true := by
  intro j v hv
  rw [Table.get_set] at hv
  split at hv
  · next hj => exact hj ▸ hk
  · exact h j v hv

theorem owned_delete {κ ν : Type} [LinearOrder κ] {P : κ → Bool} {T : Table κ ν}
    (h : ∀ k v, T.get k = some v → P k = true) (k : κ) :
    ∀ j v, (T.delete k).get j = some v → P j = true := by
  intro j v hv
  rw [Table.get_delete] at hv
  split at hv
  · exact absurd hv (by simp)
  · exact h j v hv

variable [Gronx]

theorem Routed.commit (h : Routed owns s) (hs : Structured s) (hu : op.Unused s)
    (hop : ∀ a, op.accountId = some a → owns a = true) (now : Time) :
    Routed owns (commit s now op) := by
  have hstored : ∀ {accountId name queue}, s.queueByName accountId name = some queue →
      owns queue.id.accountId = true :=
    fun hq => h.queues _ _ (hs.registered.queueByName hq).1
  have heffect := commit_effect s now op
  generalize Queues.commit s now op = t at heffect ⊢
  cases heffect with
  | nothing => exact h
  | createQueue =>
    exact ⟨owned_set h.queues (hop _ rfl) _, owned_set h.counters (hop _ rfl) _, h.gcRecords⟩
  | updateQueue named | createSchedule named | deleteSchedule named =>
    exact ⟨owned_set h.queues (hstored named) _, h.counters, h.gcRecords⟩
  | deleteQueue named =>
    exact ⟨owned_delete h.queues _, owned_set h.counters (hstored named) _,
      owned_set h.gcRecords (hstored named) _⟩
  | @swapQueueId req queue named absent =>
    have hmoving := hs.moving hu named absent
    refine ⟨owned_delete ?_ queue.id, ?_, ?_⟩
    · rw [hmoving.queues]
      exact owned_set h.queues (hop _ rfl) _
    · change ∀ a c, (moveSchedules _ _ _ _ s).counters.get a = some c → owns a = true
      rw [hmoving.counters]
      exact h.counters
    · change ∀ q u, (moveSchedules _ _ _ _ s).gcRecords.get q = some u → owns q.accountId = true
      rw [hmoving.gcRecords]
      exact h.gcRecords
  | updateSchedule _ _ _ written | reportSchedulesStatus _ written =>
    rw [updateSchedule_frame written]
    exact ⟨h.queues, h.counters, h.gcRecords⟩
  | runQueuesGarbageCollection =>
    exact runQueuesGarbageCollection_keeps hs.shelved.keyed _
      (fun _ _ ht _ _ => ⟨ht.queues, ht.counters, ht.gcRecords⟩)
      (fun _ q ht _ => ⟨ht.queues, ht.counters, owned_delete ht.gcRecords q⟩) h

/-- A snapshot of a state that a run reaches, restored into any bounds, gives the
rows and the indexes of the accounts in the bounds. A range that is split in two
and merged again gives back the state. -/
theorem run_restored (calls : List Call) (owns left right : Nat → Bool)
    (hids : (newQueueIds calls).Nodup)
    (hrouted : ∀ c ∈ calls, ∀ a, c.op.accountId = some a → owns a = true)
    (hsplit : ∀ a, owns a = (left a || right a)) :
    (∀ bounds, Part (run State.empty calls) bounds
      (restore bounds [snapshot (run State.empty calls)])) ∧
    restore owns [snapshot (restore left [snapshot (run State.empty calls)]),
      snapshot (restore right [snapshot (run State.empty calls)])] = run State.empty calls := by
  obtain ⟨hs, hr⟩ : Structured (run State.empty calls) ∧ Routed owns (run State.empty calls) :=
    ((along_unused_empty hids).and_forall hrouted).foldl
      (I := fun s => Structured s ∧ Routed owns s)
      (fun _ c hI hc => ⟨hI.1.commit hc.1 c.now, hI.2.commit hI.1 hc.1 hc.2 c.now⟩)
      ⟨.empty, .empty⟩
  generalize run State.empty calls = s at hs hr ⊢
  have hone : ∀ bounds, Part s bounds (restore bounds [snapshot s]) :=
    fun bounds => ((Part.refl s).restore hs bounds).congr (fun a => Bool.and_true (bounds a))
  refine ⟨hone, ?_⟩
  have hboth := ((Part.empty s).stream (hone left) hs owns).stream (hone right) hs owns
  have hwhole : Part s owns (restore owns [snapshot (restore left [snapshot s]),
      snapshot (restore right [snapshot s])]) := by
    refine Part.congr hboth ?_
    intro a
    rw [hsplit a]
    cases left a <;> cases right a <;> rfl
  exact hwhole.eq hr.queues hr.counters hr.gcRecords hs

end Routed

section Setup

/-- The account of the setup lives on the first of two shards. -/
theorem run_restored_swapped : restore (fun _ => true)
    [snapshot (restore (· = 1) [snapshot (run State.empty swapped)]),
      snapshot (restore (· ≠ 1) [snapshot (run State.empty swapped)])] = run State.empty swapped :=
  (run_restored swapped (fun _ => true) (· = 1) (· ≠ 1) (by decide) (by simp)
    (by intro a; by_cases ha : a = 1 <;> simp [ha])).2

end Setup

end Moab.Queues
