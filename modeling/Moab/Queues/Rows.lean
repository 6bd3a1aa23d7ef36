import Moab.Framework.Ensures
import Moab.Framework.Secondary
import Moab.Framework.Trace
import Moab.Queues.Core

namespace Moab.Queues

open OrderedStore

variable [OrderedStore]

/-- The schedules and their index by time. -/
structure Rows where
  schedules : Table ScheduleId Schedule
  scheduledIndex : Index Unit ScheduledItem

def State.rows (s : State) : Rows := ⟨s.schedules, s.scheduledIndex⟩

omit [OrderedStore] in
/-- A schedule under another queue id. -/
def moved (x : Schedule) (q : QueueId) : Schedule := { x with id := q.schedule x.id.scheduleId }

/-- What can happen to a schedule. -/
inductive Event where
  | created (x : Schedule)
  | updated (x y : Schedule)
  | deleted (x : Schedule)
  | moved (x : Schedule) (q : QueueId)

inductive Step : Rows → Event → Rows → Prop where
  | create {r : Rows} {x : Schedule} (absent : r.schedules.get x.id = none) :
    Step r (.created x) ⟨r.schedules.set x.id x, r.scheduledIndex.add () x.scheduledItem⟩
  | update {r : Rows} {x y : Schedule} (row : r.schedules.get x.id = some x) (same : y.id = x.id) :
    Step r (.updated x y) ⟨r.schedules.set y.id y,
      if y.nextScheduledAt ≠ x.nextScheduledAt then
        (r.scheduledIndex.remove () ⟨x.nextScheduledAt, y.id⟩).add () y.scheduledItem
      else r.scheduledIndex⟩
  | delete {r : Rows} {x : Schedule} (row : r.schedules.get x.id = some x) :
    Step r (.deleted x) ⟨r.schedules.delete x.id, r.scheduledIndex.remove () x.scheduledItem⟩
  | move {r : Rows} {x : Schedule} {q : QueueId} (row : r.schedules.get x.id = some x)
    (other : x.id.queue ≠ q) (absent : r.schedules.get (moved x q).id = none) :
    Step r (.moved x q) ⟨(r.schedules.delete x.id).set (moved x q).id (moved x q),
      (r.scheduledIndex.remove () x.scheduledItem).add () (moved x q).scheduledItem⟩

abbrev Steps : Rows → List Event → Rows → Prop := Trace Step

section Steps

variable {r r' : Rows} {e : Event} {es : List Event}

omit [OrderedStore] in
theorem moved_id_ne {x : Schedule} {q : QueueId} (h : x.id.queue ≠ q) : (moved x q).id ≠ x.id :=
  fun he => h (congrArg ScheduleId.queue he).symm

/-- Rows are stored under their own id. -/
def Rows.Keyed (r : Rows) : Prop := ∀ id x, r.schedules.get id = some x → x.id = id

/-- Where a row comes from. -/
theorem Step.origin (h : Step r e r') {id : ScheduleId} {y : Schedule}
    (hy : r'.schedules.get id = some y) : r.schedules.get id = some y ∨ y.id = id ∧
      (e = .created y ∨ (∃ x, e = .updated x y ∧ r.schedules.get id = some x) ∨
        ∃ x q, e = .moved x q ∧ y = moved x q ∧ r.schedules.get x.id = some x) := by
  cases h with
  | @create x absent =>
    by_cases hid : id = x.id
    · rw [hid, Table.get_set_self] at hy
      obtain rfl := Option.some.inj hy
      exact Or.inr ⟨hid.symm, Or.inl rfl⟩
    · rw [Table.get_set_ne _ _ hid] at hy
      exact Or.inl hy
  | @update x z row same =>
    by_cases hid : id = z.id
    · rw [hid, Table.get_set_self] at hy
      obtain rfl := Option.some.inj hy
      exact Or.inr ⟨hid.symm, Or.inr (Or.inl ⟨x, rfl, by rw [hid, same]; exact row⟩)⟩
    · rw [Table.get_set_ne _ _ hid] at hy
      exact Or.inl hy
  | @delete x row =>
    by_cases hid : id = x.id
    · rw [hid, Table.get_delete_self] at hy
      exact absurd hy (by simp)
    · rw [Table.get_delete_ne _ hid] at hy
      exact Or.inl hy
  | @move x q row other absent =>
    by_cases hid : id = (moved x q).id
    · rw [hid, Table.get_set_self] at hy
      obtain rfl := Option.some.inj hy
      exact Or.inr ⟨hid.symm, Or.inr (Or.inr ⟨x, q, rfl, rfl, row⟩)⟩
    · rw [Table.get_set_ne _ _ hid] at hy
      by_cases hx : id = x.id
      · rw [hx, Table.get_delete_self] at hy
        exact absurd hy (by simp)
      · rw [Table.get_delete_ne _ hx] at hy
        exact Or.inl hy

/-- A row that a step does not write stays as it is, or is gone. -/
theorem Step.kept (h : Step r e r') {id : ScheduleId} {x y : Schedule}
    (hx : r.schedules.get id = some x) (hy : r'.schedules.get id = some y) :
    y = x ∨ e = .updated x y := by
  have hfree : ∀ {z : Schedule}, r.schedules.get z.id = none → z.id ≠ id := by
    rintro z hz rfl
    rw [hz] at hx
    exact absurd hx (by simp)
  rcases h.origin hy with hold | ⟨hid, rfl | ⟨z, rfl, hz⟩ | ⟨z, q, rfl, rfl, _⟩⟩
  · exact Or.inl (Option.some.inj (hold.symm.trans hx))
  · cases h with
    | create absent => exact absurd hid (hfree absent)
  · obtain rfl := Option.some.inj (hz.symm.trans hx)
    exact Or.inr rfl
  · cases h with
    | move _ _ absent => exact absurd hid (hfree absent)

/-- Moves to one queue do not bring another row under the id of a row. -/
theorem Steps.kept_of_moved (h : Steps r es r') {q : QueueId}
    (hes : ∀ e ∈ es, ∃ x, e = .moved x q) {id : ScheduleId} {x y : Schedule}
    (hx : r.schedules.get id = some x) (hy : r'.schedules.get id = some y) : y = x := by
  -- a row that is moved away is not of the queue, and no other takes its place
  have hkept : r'.schedules.get id = some x ∨ r'.schedules.get id = none ∧ id.queue ≠ q := by
    refine Trace.invariant_of (I := fun r => r.schedules.get id = some x ∨
      r.schedules.get id = none ∧ id.queue ≠ q) h ?_ (Or.inl hx)
    intro e he a b ha hab
    obtain ⟨z, rfl⟩ := hes e he
    cases hab with
    | move row other absent =>
      dsimp only
      by_cases hnew : id = (moved z q).id
      · rcases ha with hsome | ⟨_, hne⟩
        · rw [← hnew, hsome] at absent
          exact absurd absent (by simp)
        · exact absurd (congrArg ScheduleId.queue hnew) hne
      · rw [Table.get_set_ne _ _ hnew]
        by_cases hold : id = z.id
        · rw [hold, Table.get_delete_self]
          exact Or.inr ⟨rfl, other⟩
        · rw [Table.get_delete_ne _ hold]
          exact ha
  rcases hkept with hsome | ⟨hnone, _⟩
  · exact Option.some.inj (hy.symm.trans hsome)
  · rw [hnone] at hy
    exact absurd hy (by simp)

theorem Steps.kept_of_deleted (h : Steps r es r') (hes : ∀ e ∈ es, ∃ x, e = .deleted x)
    {id : ScheduleId} {x y : Schedule} (hx : r.schedules.get id = some x)
    (hy : r'.schedules.get id = some y) : y = x := by
  have hkept : ∀ z, r'.schedules.get id = some z → r.schedules.get id = some z := by
    refine Trace.invariant_of (I := fun r' => ∀ z, r'.schedules.get id = some z →
      r.schedules.get id = some z) h ?_ (fun _ hz => hz)
    intro e he a b ha hab z hz
    obtain ⟨v, rfl⟩ := hes e he
    rcases hab.origin hz with hold | ⟨_, hev | ⟨_, hev, _⟩ | ⟨_, _, hev, _⟩⟩
    · exact ha z hold
    all_goals exact absurd hev (by simp)
  exact Option.some.inj ((hkept y hy).symm.trans hx)

theorem Step.updated_schedules {x y : Schedule} (h : Step r (.updated x y) r') :
    r'.schedules = r.schedules.set y.id y := by
  cases h
  rfl

theorem Step.keyed (h : Step r e r') (hk : r.Keyed) : r'.Keyed := by
  intro id y hy
  rcases h.origin hy with hold | hnew
  · exact hk id y hold
  · exact hnew.1

/-- A property of schedules that does not depend on their ids, and that what is
written has, every row has. -/
theorem Step.every {P : Schedule → Prop} (h : Step r e r')
    (hr : ∀ id x, r.schedules.get id = some x → P x) (hc : ∀ x, e = .created x → P x)
    (hu : ∀ x y, e = .updated x y → P x → P y) (hm : ∀ x q, P x → P (moved x q)) :
    ∀ id x, r'.schedules.get id = some x → P x := by
  intro id y hy
  rcases h.origin hy with hold | ⟨_, he | ⟨x, he, hx⟩ | ⟨x, q, _, rfl, hx⟩⟩
  · exact hr id y hold
  · exact hc y he
  · exact hu x y he (hr id x hx)
  · exact hm x q (hr _ x hx)

theorem Steps.every {P : Schedule → Prop} (h : Steps r es r')
    (hr : ∀ id x, r.schedules.get id = some x → P x) (hc : ∀ x, .created x ∈ es → P x)
    (hu : ∀ x y, .updated x y ∈ es → P x → P y) (hm : ∀ x q, P x → P (moved x q)) :
    ∀ id x, r'.schedules.get id = some x → P x := by
  refine Trace.invariant_of (I := fun r => ∀ id x, r.schedules.get id = some x → P x) h ?_ hr
  intro e he a b ha hab
  exact hab.every ha (fun x hx => hc x (hx ▸ he)) (fun x y hx => hu x y (hx ▸ he)) hm

theorem Steps.keyed (h : Steps r es r') (hk : r.Keyed) : r'.Keyed :=
  Trace.invariant (fun _ _ _ hi hs => hs.keyed hi) h hk

/-- Each schedule contributes its next time to the index. -/
def scheduled : Projection ScheduleId Schedule Unit ScheduledItem where
  item id x := some ((), ⟨x.nextScheduledAt, id⟩)
  owner _ i := i.id
  owner_item := by
    intro id x p i h
    obtain ⟨_, rfl⟩ := Prod.mk.inj (Option.some.inj h)
    rfl

/-- The index holds the next time of every schedule and nothing else. -/
def Rows.Filed (r : Rows) : Prop := Exact scheduled r.schedules r.scheduledIndex

theorem Rows.Filed.mem_iff (h : r.Filed) {i : ScheduledItem} : i ∈ r.scheduledIndex.items () ↔
    ∃ x, r.schedules.get i.id = some x ∧ x.nextScheduledAt = i.time := by
  rw [h () i]
  apply exists_congr
  intro x
  apply and_congr_right
  intro _
  constructor
  · intro he
    exact congrArg ScheduledItem.time (Prod.mk.inj (Option.some.inj he)).2
  · intro he
    change some ((), (⟨x.nextScheduledAt, i.id⟩ : ScheduledItem)) = some ((), i)
    rw [he]

theorem Step.filed (h : Step r e r') (hf : r.Filed) : r'.Filed := by
  cases h with
  | @create x absent =>
    refine Exact.set_add hf ?_ rfl
    intro v hv
    rw [absent] at hv
    exact absurd hv (by simp)
  | @update x y row same =>
    by_cases hn : y.nextScheduledAt = x.nextScheduledAt
    · rw [if_neg (not_not.mpr hn)]
      refine Exact.set_keep hf (v := x) (by rw [same]; exact row) ?_
      change some ((), (⟨y.nextScheduledAt, y.id⟩ : ScheduledItem)) = _
      rw [hn]
      rfl
    · rw [if_pos hn]
      exact Exact.set_move hf (v := x) (by rw [same]; exact row) rfl rfl
  | @delete x row => exact Exact.delete hf row rfl (Or.inl rfl)
  | @move x q row other absent =>
    have hgone := Exact.delete hf row rfl (Or.inl rfl)
    refine Exact.set_add hgone ?_ rfl
    intro v hv
    rw [Table.get_delete_ne _ (moved_id_ne other), absent] at hv
    exact absurd hv (by simp)

theorem Steps.filed (h : Steps r es r') (hf : r.Filed) : r'.Filed :=
  Trace.invariant (fun _ _ _ hi hs => hs.filed hi) h hf

end Steps

end Moab.Queues
