import Moab.Queues.Exec

namespace Moab.Queues

open OrderedStore

variable [OrderedStore]

/-- The tables that hold queues. -/
structure Registry where
  queues : Table QueueId Queue
  queueNames : Table QueueName Nat
  counters : Table Nat QueuesCounter
  gcRecords : Table QueueId Unit

/-- The tables that hold schedules. -/
structure Shelves where
  schedules : Table ScheduleId Schedule
  scheduleNames : Table ScheduleName Nat
  scheduledIndex : Index Unit ScheduledItem

def State.registry (s : State) : Registry := ⟨s.queues, s.queueNames, s.counters, s.gcRecords⟩

def State.shelves (s : State) : Shelves := ⟨s.schedules, s.scheduleNames, s.scheduledIndex⟩

omit [OrderedStore] in
/-- Every queue claims its name in its account. -/
def queueNameClaim : Claim QueueId Queue QueueName Nat where
  key q x := some ⟨q.accountId, x.name⟩
  value q := q.queueId
  owner k n := ⟨k.accountId, n⟩
  owner_key := by
    intro q x k h
    obtain rfl := Option.some.inj h
    rfl
  value_owner _ _ := rfl

omit [OrderedStore] in
/-- Every schedule claims its name in its queue. -/
def scheduleNameClaim : Claim ScheduleId Schedule ScheduleName Nat where
  key id x := some ⟨id.queue, x.name⟩
  value id := id.scheduleId
  owner k n := k.queue.schedule n
  owner_key := by
    intro id x k h
    obtain rfl := Option.some.inj h
    rfl
  value_owner _ _ := rfl

def Registry.countQueues (r : Registry) (accountId : Nat) : Nat :=
  r.queues.count (fun q _ => decide (q.accountId = accountId))

def Registry.numberOfQueues (r : Registry) (accountId : Nat) : Int :=
  ((r.counters.get accountId).getD ⟨0⟩).numberOfQueues

/-- Names, counters and garbage records agree with the rows of the queues. -/
structure Registered (r : Registry) : Prop where
  keyed : ∀ q x, r.queues.get q = some x → x.id = q
  names : Unique queueNameClaim r.queues r.queueNames
  counted : ∀ a, r.numberOfQueues a = r.countQueues a
  retired : ∀ q, (r.gcRecords.get q).isSome → r.queues.get q = none

/-- Names and times agree with the rows of the schedules. -/
structure Shelved (r : Shelves) : Prop where
  keyed : ∀ id x, r.schedules.get id = some x → x.id = id
  names : Unique scheduleNameClaim r.schedules r.scheduleNames
  filed : Exact scheduled r.schedules r.scheduledIndex

section Registered

variable {s : State} {x y : Queue}

theorem Registered.empty : Registered State.empty.registry where
  keyed q x hx := by simp [State.empty, State.registry] at hx
  names := Unique.empty
  counted a := by
    have hzero : Table.count (fun (q : QueueId) (_ : Queue) => decide (q.accountId = a))
        Table.empty = 0 := Table.count_eq_zero.mpr (by simp)
    simp [State.empty, State.registry, Registry.countQueues, Registry.numberOfQueues, hzero]
  retired q hq := by simp [State.empty, State.registry] at hq

theorem Registered.mem_names (h : Registered s.registry) {accountId : Nat}
    {name : Bytes} {n : Nat} : s.queueNames.get ⟨accountId, name⟩ = some n ↔
      ∃ x, s.queues.get ⟨accountId, n⟩ = some x ∧ x.name = name := by
  refine (h.names _ n).trans ?_
  simp [queueNameClaim, State.registry]

/-- A name that resolves to no queue is free. -/
theorem Registered.unnamed (h : Registered s.registry) {accountId : Nat} {name : Bytes}
    (hnone : s.queueByName accountId name = none) : s.queueNames.get ⟨accountId, name⟩ = none := by
  cases hn : s.queueNames.get ⟨accountId, name⟩ with
  | none => rfl
  | some n =>
    obtain ⟨x, hx, _⟩ := h.mem_names.mp hn
    unfold State.queueByName at hnone
    rw [hn] at hnone
    exact absurd (hx.symm.trans hnone) (by simp)

theorem Registered.queueByName (h : Registered s.registry) {accountId : Nat} {name : Bytes}
    (hx : s.queueByName accountId name = some x) :
    s.queues.get x.id = some x ∧ x.id.accountId = accountId ∧ x.name = name := by
  obtain ⟨n, hn, hrow⟩ := Option.bind_eq_some_iff.mp hx
  obtain ⟨y, hy, hname⟩ := h.mem_names.mp hn
  obtain rfl := Option.some.inj (hrow.symm.trans hy)
  rw [h.keyed _ x hrow]
  exact ⟨hrow, rfl, hname⟩

theorem numberOfQueues_addQueues (accountId : Nat) (n : Int) (a : Nat) :
    (s.addQueues accountId n).registry.numberOfQueues a =
      s.registry.numberOfQueues a + if accountId = a then n else 0 := by
  change ((((s.counters.set accountId _).get a)).getD ⟨0⟩).numberOfQueues = _
  split
  · next ha =>
    rw [ha, Table.get_set_self]
    rfl
  · next ha =>
    rw [Table.get_set_ne _ _ (Ne.symm ha), add_zero]
    rfl

theorem countQueues_create (absent : s.queues.get x.id = none) (a : Nat) :
    (s.createQueue x).registry.countQueues a =
      s.registry.countQueues a + if x.id.accountId = a then 1 else 0 := by
  have hcount := Table.count_set_of_none (fun q _ => decide (q.accountId = a)) x absent
  rw [Table.toNat_decide] at hcount
  exact hcount

theorem countQueues_update (row : s.queues.get y.id = some x) (a : Nat) :
    (s.updateQueue y).registry.countQueues a = s.registry.countQueues a :=
  Table.count_set_of_some (v := y) (fun (q : QueueId) _ => decide (q.accountId = a)) row rfl

theorem countQueues_delete (row : s.queues.get x.id = some x) (a : Nat) :
    (s.deleteQueue x).registry.countQueues a + (if x.id.accountId = a then 1 else 0) =
      s.registry.countQueues a := by
  have hcount := Table.count_delete_of_some (fun q _ => decide (q.accountId = a)) row
  rw [Table.toNat_decide] at hcount
  exact hcount

/-- The rows of a table in which one row is written. -/
theorem keyed_set {t : Table QueueId Queue} (h : ∀ q x, t.get q = some x → x.id = q) :
    ∀ q x, (t.set y.id y).get q = some x → x.id = q := by
  intro q x hx
  rw [Table.get_set] at hx
  split at hx
  · next hq =>
    obtain rfl := Option.some.inj hx
    exact hq.symm
  · exact h q x hx

theorem keyed_delete {t : Table QueueId Queue} (h : ∀ q x, t.get q = some x → x.id = q)
    (p : QueueId) : ∀ q x, (t.delete p).get q = some x → x.id = q := by
  intro q x hx
  rw [Table.get_delete] at hx
  split at hx
  · exact absurd hx (by simp)
  · exact h q x hx

theorem Registered.create (h : Registered s.registry) (absent : s.queues.get x.id = none)
    (unnamed : s.queueNames.get ⟨x.id.accountId, x.name⟩ = none)
    (unused : s.gcRecords.get x.id = none) :
    Registered ((s.createQueue x).addQueues x.id.accountId 1).registry where
  keyed := keyed_set h.keyed
  names := by
    refine h.names.claim (k := x.id) ?_ unnamed rfl
    intro v hv
    exact absurd (absent.symm.trans hv) (by simp)
  counted a := by
    rw [numberOfQueues_addQueues]
    change s.registry.numberOfQueues a + _ = ((s.createQueue x).registry.countQueues a : Int)
    rw [countQueues_create absent, h.counted]
    split <;> simp
  retired q hq := by
    change (s.queues.set x.id x).get q = none
    rw [Table.get_set_ne]
    · exact h.retired q hq
    · rintro rfl
      change (s.gcRecords.get x.id).isSome at hq
      rw [unused] at hq
      exact absurd hq (by simp)

/-- Rewriting a queue under its name and id. -/
theorem Registered.update (h : Registered s.registry) (row : s.queues.get y.id = some x)
    (hname : y.name = x.name) : Registered (s.updateQueue y).registry where
  keyed := keyed_set h.keyed
  names := h.names.set_keep (v := x) row (by simp [queueNameClaim, hname])
  counted a := by
    rw [countQueues_update row]
    exact h.counted a
  retired q hq := by
    change (s.queues.set y.id y).get q = none
    have hnone := h.retired q hq
    rw [Table.get_set_ne]
    · exact hnone
    · rintro rfl
      exact absurd (row.symm.trans hnone) (by simp)

theorem Registered.delete (h : Registered s.registry) (row : s.queues.get x.id = some x) :
    Registered ({ (s.deleteQueue x).addQueues x.id.accountId (-1) with
      gcRecords := s.gcRecords.set x.id () } : State).registry where
  keyed := keyed_delete h.keyed x.id
  names := h.names.delete_release row rfl
  counted a := by
    change ((s.deleteQueue x).addQueues x.id.accountId (-1)).registry.numberOfQueues a =
      ((s.deleteQueue x).registry.countQueues a : Int)
    rw [numberOfQueues_addQueues]
    change s.registry.numberOfQueues a + _ = _
    rw [h.counted, ← countQueues_delete row a]
    split <;> simp
  retired q hq := by
    change ((s.gcRecords.set x.id ()).get q).isSome at hq
    change (s.queues.delete x.id).get q = none
    rw [Table.get_set] at hq
    rw [Table.get_delete]
    split
    · rfl
    · next hne =>
      rw [if_neg hne] at hq
      exact h.retired q hq

/-- The queue keeps its name under the new id. -/
theorem Registered.swap (h : Registered s.registry) (row : s.queues.get x.id = some x)
    (hname : y.name = x.name) (haccount : y.id.accountId = x.id.accountId)
    (absent : s.queues.get y.id = none) (unused : s.gcRecords.get y.id = none) :
    Registered (s.swapId x.id y).registry := by
  have hne : x.id ≠ y.id := by
    intro he
    rw [← he, row] at absent
    exact absurd absent (by simp)
  have hgone : (s.queues.delete x.id).get y.id = none := by
    rw [Table.get_delete_ne _ hne.symm]
    exact absent
  have hrows : (s.queues.set y.id y).delete x.id = (s.queues.delete x.id).set y.id y :=
    Table.delete_set _ y hne
  refine ⟨keyed_delete (keyed_set h.keyed) x.id, ?_, ?_, ?_⟩
  · -- the name is given back and claimed again
    have hreleased := h.names.delete_release row rfl
    have hfree : (s.queueNames.delete ⟨x.id.accountId, x.name⟩).get
        ⟨y.id.accountId, y.name⟩ = none := by
      rw [hname, haccount]
      exact Table.get_delete_self ..
    have hclaimed := hreleased.claim (k := y.id) (w := y)
      (fun v hv => absurd (hgone.symm.trans hv) (by simp)) hfree rfl
    change Unique queueNameClaim ((s.queues.set y.id y).delete x.id)
      (s.queueNames.set ⟨y.id.accountId, y.name⟩ y.id.queueId)
    rw [hrows, ← Table.set_delete s.queueNames]
    rw [hname, haccount] at hclaimed ⊢
    exact hclaimed
  · intro a
    have hdelete := countQueues_delete row a
    have hcreate := countQueues_create (s := s.deleteQueue x) (x := y) hgone a
    rw [haccount] at hcreate
    change s.registry.numberOfQueues a = (((s.queues.set y.id y).delete x.id).count _ : Nat)
    rw [h.counted, hrows, ← hdelete, ← hcreate]
    rfl
  · intro q hq
    change ((s.queues.set y.id y).delete x.id).get q = none
    rw [Table.get_delete]
    split
    · rfl
    · rw [Table.get_set_ne]
      · exact h.retired q hq
      · rintro rfl
        change (s.gcRecords.get y.id).isSome at hq
        rw [unused] at hq
        exact absurd hq (by simp)

end Registered

section Shelved

variable {s t : State} {x y : Schedule} {old new : QueueId}

theorem Shelved.empty : Shelved State.empty.shelves where
  keyed id x hx := by simp [State.empty, State.shelves] at hx
  names := Unique.empty
  filed := Exact.empty

theorem Shelved.mem_names (h : Shelved s.shelves) {q : QueueId} {name : Bytes} {n : Nat} :
    s.scheduleNames.get ⟨q, name⟩ = some n ↔
      ∃ x, s.schedules.get (q.schedule n) = some x ∧ x.name = name := by
  refine (h.names _ n).trans ?_
  simp [scheduleNameClaim, State.shelves]

/-- A name that resolves to no schedule is free. -/
theorem Shelved.unnamed (h : Shelved s.shelves) {q : QueueId} {name : Bytes}
    (hnone : s.scheduleByName q name = none) : s.scheduleNames.get ⟨q, name⟩ = none := by
  cases hn : s.scheduleNames.get ⟨q, name⟩ with
  | none => rfl
  | some n =>
    obtain ⟨x, hx, _⟩ := h.mem_names.mp hn
    unfold State.scheduleByName at hnone
    rw [hn] at hnone
    exact absurd (hx.symm.trans hnone) (by simp)

theorem Shelved.create (h : Shelved s.shelves) (absent : s.schedules.get x.id = none)
    (unnamed : s.scheduleNames.get ⟨x.id.queue, x.name⟩ = none) :
    Shelved (s.createSchedule x).shelves := by
  have hstep : Step s.rows (.created x) (s.createSchedule x).rows := Step.create absent
  refine ⟨hstep.keyed h.keyed, ?_, hstep.filed h.filed⟩
  refine h.names.claim (k := x.id) ?_ unnamed rfl
  intro v hv
  exact absurd (absent.symm.trans hv) (by simp)

theorem Shelved.delete (h : Shelved s.shelves) (row : s.schedules.get x.id = some x) :
    Shelved (s.deleteSchedule x).shelves := by
  have hstep : Step s.rows (.deleted x) (s.deleteSchedule x).rows := Step.delete row
  exact ⟨hstep.keyed h.keyed, h.names.delete_release row rfl, hstep.filed h.filed⟩

theorem updateSchedule_frame (written : s.updateSchedule y = .ok t) :
    t = { s with schedules := s.schedules.set y.id y, scheduledIndex := t.scheduledIndex } := by
  unfold State.updateSchedule at written
  cases hx : s.getSchedule y.id with
  | error e =>
    rw [hx] at written
    exact absurd written (by simp [bind, Except.bind])
  | ok x =>
    rw [hx] at written
    obtain rfl := Except.ok.inj written
    rfl

theorem Shelved.update (h : Shelved s.shelves) (written : s.updateSchedule y = .ok t)
    (row : s.schedules.get x.id = some x) (same : y.id = x.id) (hname : y.name = x.name) :
    Shelved t.shelves := by
  have hstep := (updateSchedule_written written row same).1
  refine ⟨hstep.keyed h.keyed, ?_, hstep.filed h.filed⟩
  rw [updateSchedule_frame written]
  refine h.names.set_keep (v := x) (by rw [same]; exact row) ?_
  simp [scheduleNameClaim, hname]

/-- The state while the schedules of a queue are being moved to an unused id. -/
structure Shelving (s : State) (old new : QueueId) (t : State) : Prop extends
    Moving s old new t where
  shelved : Shelved t.shelves
  named : ∀ i j x y, t.schedules.get (old.schedule i) = some x →
    t.schedules.get (new.schedule j) = some y → x.name ≠ y.name
  others : ∀ q, q ≠ old → q ≠ new → t.countSchedules q = s.countSchedules q
  both : t.countSchedules old + t.countSchedules new = s.countSchedules old
  origin : ∀ id x, t.schedules.get id = some x → id.queue = new ∨ (s.schedules.get id).isSome

theorem Shelving.move (h : Shelving s old new t) (hne : old ≠ new)
    (row : t.schedules.get x.id = some x) (hq : x.id.queue = old) :
    Shelving s old new (moveSchedule new t x) := by
  have hmove := h.toMoving.move hne row hq
  have hcount := moveSchedule_count hne h.apart row hq
  have hid : (moved x new).id ≠ x.id := moved_id_ne (by rw [hq]; exact hne)
  have hold : x.id = old.schedule x.id.scheduleId := by
    rw [← hq, ScheduleId.queue_schedule]
  have hnew : ∀ i, old.schedule i ≠ (moved x new).id :=
    fun i he => hne (congrArg ScheduleId.queue he)
  have hleft : ∀ j, new.schedule j ≠ x.id := by
    intro j he
    rw [hold] at he
    exact hne (congrArg ScheduleId.queue he).symm
  refine ⟨hmove, ?_, ?_, ?_, ?_, ?_⟩
  · refine (h.shelved.delete row).create (x := moved x new) ?_ ?_
    · exact (Table.get_delete_ne _ hid).trans (h.apart.absent row hq)
    · -- the name is free at the new id: nothing that was moved has it
      change (t.scheduleNames.delete ⟨x.id.queue, x.name⟩).get ⟨new, x.name⟩ = none
      rw [Table.get_delete]
      split
      · rfl
      · cases hn : t.scheduleNames.get ⟨new, x.name⟩ with
        | none => rfl
        | some n =>
          obtain ⟨y, hy, hname⟩ := h.shelved.mem_names.mp hn
          rw [hold] at row
          exact absurd hname.symm (h.named _ n x y row hy)
  · intro i j a b ha hb
    rw [moveSchedule_row, if_neg (hnew i)] at ha
    split at ha
    · exact absurd ha (by simp)
    · next hi =>
      rw [moveSchedule_row] at hb
      split at hb
      · -- names are unique in the old queue
        obtain rfl := Option.some.inj hb
        intro hname
        apply hi
        have hkey : scheduleNameClaim.key (old.schedule i) a = some ⟨old, x.name⟩ :=
          congrArg (fun n => some (ScheduleName.mk old n)) hname
        exact h.shelved.names.eq_of_key ha row hkey
          (congrArg (fun q => some (ScheduleName.mk q x.name)) hq)
      · rw [if_neg (hleft j)] at hb
        exact h.named i j a b ha hb
  · intro q hqo hqn
    have hq' := hcount q
    rw [if_neg (Ne.symm hqo), if_neg (Ne.symm hqn)] at hq'
    exact hq'.trans (h.others q hqo hqn)
  · have ho := hcount old
    have hn := hcount new
    rw [if_pos rfl, if_neg hne.symm] at ho
    rw [if_pos rfl, if_neg hne] at hn
    have hboth := h.both
    omega
  · intro id y hy
    rw [moveSchedule_row] at hy
    split at hy
    · next he => exact Or.inl (congrArg ScheduleId.queue he)
    · split at hy
      · exact absurd hy (by simp)
      · exact h.origin id y hy

/-- A queue id under which nothing is stored receives all schedules of another. -/
theorem moveSchedules_shelving (h : Shelved s.shelves) (hne : old ≠ new)
    (hfree : s.countSchedules new = 0) :
    Shelving s old new (moveSchedules old new (s.schedules.entries.length + 1) none s) ∧
      (moveSchedules old new (s.schedules.entries.length + 1) none s).countSchedules old = 0 := by
  have hnone : ∀ n, s.schedules.get (new.schedule n) = none := by
    intro n
    cases hx : s.schedules.get (new.schedule n) with
    | none => rfl
    | some x => exact absurd rfl (countSchedules_eq_zero.mp hfree _ x hx)
  have hapart : Apart s old new := fun n _ _ => hnone n
  refine ⟨moveSchedules_keeps hne (fun _ h => h.keyed) (fun _ _ h => h.move hne) _ none s ?_, ?_⟩
  · refine ⟨.refl h.keyed hapart, h, ?_, fun _ _ _ => rfl, ?_, ?_⟩
    · intro i j x y _ hy
      exact absurd (hy.symm.trans (hnone j)) (by simp)
    · rw [hfree]
      rfl
    · intro id x hx
      rw [hx]
      exact Or.inr rfl
  · refine moveSchedules_empties hne _ none s h.keyed hapart ?_ (fun _ _ _ _ => rfl)
    exact Nat.lt_succ_of_le List.countP_le_length

end Shelved

/-- The queues, the schedules, their names, times and counters agree, and every
schedule has a queue or is waiting to be collected. -/
structure Structured (s : State) : Prop where
  registered : Registered s.registry
  shelved : Shelved s.shelves
  schedulesCount : ∀ q x, s.queues.get q = some x → x.schedulesCount = s.countSchedules q
  homed : ∀ id x, s.schedules.get id = some x →
    (s.queues.get id.queue).isSome ∨ (s.gcRecords.get id.queue).isSome

section Structured

variable {s t : State} {now : Time} {op : Op}

theorem Structured.empty : Structured State.empty where
  registered := Registered.empty
  shelved := Shelved.empty
  schedulesCount q x hx := by simp [State.empty] at hx
  homed id x hx := by simp [State.empty] at hx

theorem Structured.keyed (h : Structured s) : Keyed s := ⟨h.registered.keyed, h.shelved.keyed⟩

/-- Nothing is stored under an id that no queue and no record has. -/
theorem Structured.unused (h : Structured s) {q : QueueId} (hq : s.queues.get q = none)
    (hrecord : s.gcRecords.get q = none) : s.countSchedules q = 0 := by
  rw [countSchedules_eq_zero]
  rintro id x hx rfl
  have hhome := h.homed id x hx
  rw [hq, hrecord] at hhome
  simp at hhome

theorem Structured.createQueue (h : Structured s) {x : Queue} (absent : s.queues.get x.id = none)
    (unnamed : s.queueNames.get ⟨x.id.accountId, x.name⟩ = none)
    (unused : s.gcRecords.get x.id = none) (hzero : x.schedulesCount = 0) :
    Structured ((s.createQueue x).addQueues x.id.accountId 1) where
  registered := h.registered.create absent unnamed unused
  shelved := h.shelved
  schedulesCount q y hy := by
    change (s.queues.set x.id x).get q = some y at hy
    change y.schedulesCount = s.countSchedules q
    rw [Table.get_set] at hy
    split at hy
    · next hq =>
      obtain rfl := Option.some.inj hy
      rw [hq, h.unused absent unused, hzero]
      rfl
    · exact h.schedulesCount q y hy
  homed id y hy := by
    change ((s.queues.set x.id x).get id.queue).isSome ∨ _
    rw [Table.get_set]
    split
    · exact Or.inl rfl
    · exact h.homed id y hy

theorem Structured.deleteQueue (h : Structured s) {x : Queue} (row : s.queues.get x.id = some x) :
    Structured { (s.deleteQueue x).addQueues x.id.accountId (-1) with
      gcRecords := s.gcRecords.set x.id () } where
  registered := h.registered.delete row
  shelved := h.shelved
  schedulesCount q y hy := by
    change (s.queues.delete x.id).get q = some y at hy
    rw [Table.get_delete] at hy
    split at hy
    · exact absurd hy (by simp)
    · exact h.schedulesCount q y hy
  homed id y hy := by
    change ((s.queues.delete x.id).get id.queue).isSome ∨
      ((s.gcRecords.set x.id ()).get id.queue).isSome
    rw [Table.get_delete, Table.get_set]
    split
    · exact Or.inr rfl
    · exact h.homed id y hy

/-- Rewriting a queue together with its schedules. -/
theorem Structured.rewrite (h : Structured s) {x y : Queue} (row : s.queues.get y.id = some x)
    (hname : y.name = x.name) (hregistry : t.registry = s.registry) (hshelved : Shelved t.shelves)
    (hown : y.schedulesCount = t.countSchedules y.id)
    (hothers : ∀ q, q ≠ y.id → t.countSchedules q = s.countSchedules q)
    (horigin : ∀ id v, t.schedules.get id = some v → id.queue = y.id ∨
      (s.schedules.get id).isSome) :
    Structured (t.updateQueue y) where
  registered := by
    have hupdated := h.registered.update row hname
    have hqueues : t.queues = s.queues := congrArg Registry.queues hregistry
    change Registered ⟨t.queues.set y.id y, t.registry.queueNames, t.registry.counters,
      t.registry.gcRecords⟩
    rw [hqueues, hregistry]
    exact hupdated
  shelved := hshelved
  schedulesCount q z hz := by
    have hqueues : t.queues = s.queues := congrArg Registry.queues hregistry
    change (t.queues.set y.id y).get q = some z at hz
    change z.schedulesCount = t.countSchedules q
    rw [hqueues, Table.get_set] at hz
    split at hz
    · next hq =>
      obtain rfl := Option.some.inj hz
      rw [hq, hown]
    · next hq =>
      rw [hothers q hq]
      exact h.schedulesCount q z hz
  homed id v hv := by
    have hqueues : t.queues = s.queues := congrArg Registry.queues hregistry
    have hrecords : t.gcRecords = s.gcRecords := congrArg Registry.gcRecords hregistry
    change ((t.queues.set y.id y).get id.queue).isSome ∨ (t.gcRecords.get id.queue).isSome
    rw [hqueues, hrecords, Table.get_set]
    split
    · exact Or.inl rfl
    · next hid =>
      obtain ⟨w, hw⟩ := Option.isSome_iff_exists.mp ((horigin id v hv).resolve_left hid)
      exact h.homed id w hw

theorem Structured.updateQueue (h : Structured s) {x y : Queue} (row : s.queues.get y.id = some x)
    (hname : y.name = x.name) (hcount : y.schedulesCount = x.schedulesCount) :
    Structured (s.updateQueue y) := by
  refine h.rewrite row hname rfl h.shelved ?_ (fun _ _ => rfl) ?_
  · rw [hcount]
    exact h.schedulesCount _ x row
  · intro id v hv
    rw [hv]
    exact Or.inr rfl

theorem Structured.createSchedule (h : Structured s) {x : Queue} {v : Schedule}
    (row : s.queues.get x.id = some x) (hid : v.id.queue = x.id)
    (absent : s.schedules.get v.id = none) (unnamed : s.scheduleByName x.id v.name = none) :
    Structured ((s.createSchedule v).updateQueue
      { x with schedulesCount := x.schedulesCount + 1 }) := by
  have hcount := fun q => countSchedules_create (q := q) absent
  refine h.rewrite (x := x) row rfl rfl (h.shelved.create absent ?_) ?_ ?_ ?_
  · rw [hid]
    exact h.shelved.unnamed unnamed
  · change x.schedulesCount + 1 = _
    rw [hcount, if_pos hid, h.schedulesCount _ x row]
    rfl
  · intro q hq
    rw [hcount, hid, if_neg (Ne.symm hq)]
    rfl
  · intro id w hw
    change (s.schedules.set v.id v).get id = some w at hw
    rw [Table.get_set] at hw
    split at hw
    · next he =>
      rw [he]
      exact Or.inl hid
    · rw [hw]
      exact Or.inr rfl

theorem Structured.deleteSchedule (h : Structured s) {x : Queue} {v : Schedule}
    (row : s.queues.get x.id = some x) (hid : v.id.queue = x.id)
    (hv : s.schedules.get v.id = some v) :
    Structured ((s.deleteSchedule v).updateQueue
      { x with schedulesCount := x.schedulesCount - 1 }) := by
  have hcount := fun q => countSchedules_delete (q := q) hv
  refine h.rewrite (x := x) row rfl rfl (h.shelved.delete hv) ?_ ?_ ?_
  · have hown := hcount x.id
    rw [if_pos hid] at hown
    have hrow := h.schedulesCount _ x row
    change x.schedulesCount - 1 = ((s.deleteSchedule v).countSchedules x.id : Int)
    omega
  · intro q hq
    have hother := hcount q
    rw [hid, if_neg (Ne.symm hq)] at hother
    exact hother
  · intro id w hw
    rw [deleteSchedule_get] at hw
    split at hw
    · exact absurd hw (by simp)
    · rw [hw]
      exact Or.inr rfl

theorem Structured.updateSchedule (h : Structured s) {x y : Schedule}
    (written : s.updateSchedule y = .ok t) (row : s.schedules.get x.id = some x)
    (same : y.id = x.id) (hname : y.name = x.name) : Structured t := by
  have hshelved := h.shelved.update written row same hname
  have hy : s.schedules.get y.id = some x := by
    rw [same]
    exact row
  rw [updateSchedule_frame written] at hshelved ⊢
  refine ⟨h.registered, hshelved, ?_, ?_⟩
  · intro q z hz
    refine (h.schedulesCount q z hz).trans (congrArg _ ?_)
    exact (Table.count_set_of_some (v := y) (fun (id : ScheduleId) _ => decide (id.queue = q)) hy
      rfl).symm
  · intro id v hv
    change (s.schedules.set y.id y).get id = some v at hv
    rw [Table.get_set] at hv
    split at hv
    · next hid =>
      rw [hid]
      exact h.homed _ x hy
    · exact h.homed id v hv

theorem Structured.swapId (h : Structured s) {x y : Queue} (row : s.queues.get x.id = some x)
    (hname : y.name = x.name) (haccount : y.id.accountId = x.id.accountId)
    (hcount : y.schedulesCount = x.schedulesCount) (absent : s.queues.get y.id = none)
    (unused : s.gcRecords.get y.id = none) :
    Structured
      ((moveSchedules x.id y.id (s.schedules.entries.length + 1) none s).swapId x.id y) := by
  have hne : x.id ≠ y.id := by
    intro he
    rw [← he, row] at absent
    exact absurd absent (by simp)
  have hfree := h.unused absent unused
  obtain ⟨hmoved, hempty⟩ := moveSchedules_shelving h.shelved hne hfree
  generalize moveSchedules x.id y.id (s.schedules.entries.length + 1) none s = t at hmoved hempty
  have hqueues : t.queues = s.queues := hmoved.queues
  have hregistered : Registered t.registry := by
    change Registered ⟨t.queues, t.queueNames, t.counters, t.gcRecords⟩
    rw [hmoved.queues, hmoved.queueNames, hmoved.counters, hmoved.gcRecords]
    exact h.registered
  refine ⟨hregistered.swap (hqueues ▸ row) hname haccount (hqueues ▸ absent) ?_, hmoved.shelved,
    ?_, ?_⟩
  · rw [hmoved.gcRecords]
    exact unused
  · intro q z hz
    change ((t.queues.set y.id y).delete x.id).get q = some z at hz
    change z.schedulesCount = t.countSchedules q
    rw [Table.get_delete] at hz
    split at hz
    · exact absurd hz (by simp)
    · next hqx =>
      rw [Table.get_set] at hz
      split at hz
      · next hqy =>
        obtain rfl := Option.some.inj hz
        have hboth := hmoved.both
        rw [hempty, zero_add] at hboth
        rw [hqy, hboth, hcount]
        exact h.schedulesCount _ x row
      · next hqy =>
        rw [hmoved.others q hqx hqy]
        rw [hqueues] at hz
        exact h.schedulesCount q z hz
  · intro id v hv
    change (((t.queues.set y.id y).delete x.id).get id.queue).isSome ∨
      (t.gcRecords.get id.queue).isSome
    have hold : id.queue ≠ x.id := countSchedules_eq_zero.mp hempty id v hv
    rw [Table.get_delete_ne _ hold, Table.get_set]
    split
    · exact Or.inl rfl
    · next hnew =>
      obtain ⟨w, hw⟩ := Option.isSome_iff_exists.mp ((hmoved.origin id v hv).resolve_left hnew)
      rw [hqueues, hmoved.gcRecords]
      exact h.homed id w hw

/-- A schedule of a queue that is no longer stored is deleted. -/
theorem Structured.collect (h : Structured s) {x : Schedule} (row : s.schedules.get x.id = some x)
    (hgone : s.queues.get x.id.queue = none) : Structured (s.deleteSchedule x) where
  registered := h.registered
  shelved := h.shelved.delete row
  schedulesCount q y hy := by
    have hq : x.id.queue ≠ q := by
      rintro rfl
      exact absurd (hgone.symm.trans hy) (by simp)
    have hcount := countSchedules_delete (q := q) row
    rw [if_neg hq, add_zero] at hcount
    rw [hcount]
    exact h.schedulesCount q y hy
  homed id y hy := by
    rw [deleteSchedule_get] at hy
    split at hy
    · exact absurd hy (by simp)
    · exact h.homed id y hy

theorem Structured.deleteGCRecord (h : Structured s) {q : QueueId}
    (hnone : s.countSchedules q = 0) : Structured (s.deleteGCRecord q) where
  registered := by
    refine ⟨h.registered.keyed, h.registered.names, h.registered.counted, ?_⟩
    intro p hp
    change ((s.gcRecords.delete q).get p).isSome at hp
    rw [Table.get_delete] at hp
    split at hp
    · exact absurd hp (by simp)
    · exact h.registered.retired p hp
  shelved := h.shelved
  schedulesCount := h.schedulesCount
  homed id x hx := by
    change _ ∨ ((s.gcRecords.delete q).get id.queue).isSome
    rw [Table.get_delete_ne _ (countSchedules_eq_zero.mp hnone id x hx)]
    exact h.homed id x hx

end Structured

end Moab.Queues
