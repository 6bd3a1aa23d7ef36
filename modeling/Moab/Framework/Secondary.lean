import Moab.Framework.OrderedStore

namespace Moab

open OrderedStore

variable [OrderedStore]
variable {κ ν π ι : Type} [LinearOrder κ] [DecidableEq π] [LinearOrder ι]

/-- What one row of a table contributes to a secondary index. An item names the
row it came from, so two rows never share an item. -/
structure Projection (κ ν π ι : Type) where
  item : κ → ν → Option (π × ι)
  owner : π → ι → κ
  owner_item : ∀ {k v p i}, item k v = some (p, i) → owner p i = k

/-- The index holds exactly the items that the rows of the table contribute. -/
def Exact (f : Projection κ ν π ι) (t : Table κ ν) (x : Index π ι) : Prop :=
  ∀ p i, i ∈ x.items p ↔ ∃ v, t.get (f.owner p i) = some v ∧ f.item (f.owner p i) v = some (p, i)

namespace Exact

variable {f : Projection κ ν π ι} {t : Table κ ν} {x : Index π ι}

theorem empty : Exact f (Table.empty : Table κ ν) (Index.empty : Index π ι) := by
  intro p i
  simp

theorem mem (h : Exact f t x) {k : κ} {v : ν} {p : π} {i : ι} (hg : t.get k = some v)
    (hi : f.item k v = some (p, i)) : i ∈ x.items p := by
  have ho := f.owner_item hi
  rw [h p i, ho]
  exact ⟨v, hg, hi⟩

theorem mem_iff (h : Exact f t x) {k : κ} {v : ν} {p : π} {i : ι} (hg : t.get k = some v)
    (ho : f.owner p i = k) : i ∈ x.items p ↔ f.item k v = some (p, i) := by
  rw [h p i, ho]
  constructor
  · intro hm
    obtain ⟨w, hw, hi⟩ := hm
    have he : w = v := Option.some.inj (hw.symm.trans hg)
    rwa [he] at hi
  · intro hi
    exact ⟨v, hg, hi⟩

/-- The rows determine an exact index. -/
theorem ext (h : Exact f t x) {y : Index π ι} (k : Exact f t y) : x = y := by
  apply Index.ext
  intro p i
  rw [h p i, k p i]

/-- Another projection will do if it agrees on the rows that are there. -/
theorem congr (h : Exact f t x) {g : Projection κ ν π ι} (ho : ∀ p i, g.owner p i = f.owner p i)
    (hi : ∀ k v, t.get k = some v → g.item k v = f.item k v) : Exact g t x := by
  intro p i
  rw [h p i, ho]
  apply exists_congr
  intro v
  apply and_congr_right
  intro hv
  rw [hi _ v hv]

/-- An index is still exact when only the items of one row were changed, and
these to what the row now contributes. -/
theorem of_local (h : Exact f t x) {u : Table κ ν} {y : Index π ι} (k : κ)
    (hr : ∀ k', k' ≠ k → u.get k' = t.get k')
    (hi : ∀ p i, f.owner p i ≠ k → (i ∈ y.items p ↔ i ∈ x.items p))
    (hk : ∀ p i, f.owner p i = k →
      (i ∈ y.items p ↔ ∃ v, u.get k = some v ∧ f.item k v = some (p, i))) : Exact f u y := by
  intro p i
  by_cases ho : f.owner p i = k
  · rw [hk p i ho, ho]
  · rw [hi p i ho, h p i, hr _ ho]

/-- Rewriting a row whose contribution stays the same. -/
theorem set_keep (h : Exact f t x) {k : κ} {v w : ν} (hg : t.get k = some v)
    (hf : f.item k w = f.item k v) : Exact f (t.set k w) x := by
  apply h.of_local k (fun k' hk => by simp [hk]) (fun _ _ _ => Iff.rfl)
  intro p i ho
  rw [h.mem_iff hg ho]
  simp [hf]

/-- Writing a row that contributes nothing where nothing was contributed. -/
theorem set_none (h : Exact f t x) {k : κ} {w : ν} (hg : ∀ v, t.get k = some v → f.item k v = none)
    (hf : f.item k w = none) : Exact f (t.set k w) x := by
  apply h.of_local k (fun k' hk => by simp [hk]) (fun _ _ _ => Iff.rfl)
  intro p i ho
  have hn : i ∉ x.items p := by
    intro hm
    obtain ⟨v, hv, hi⟩ := (h p i).mp hm
    rw [ho] at hv hi
    rw [hg v hv] at hi
    exact absurd hi (by simp)
  simp [hn, hf]

/-- Writing a row that now contributes an item and did not before. -/
theorem set_add (h : Exact f t x) {k : κ} {w : ν} {p : π} {i : ι}
    (hg : ∀ v, t.get k = some v → f.item k v = none) (hf : f.item k w = some (p, i)) :
    Exact f (t.set k w) (x.add p i) := by
  have hk := f.owner_item hf
  apply h.of_local k (fun k' hk => by simp [hk])
  · intro p' i' ho
    have hne : ¬(p' = p ∧ i' = i) := by
      intro he
      exact ho (by rw [he.1, he.2, hk])
    simp [hne]
  · intro p' i' ho
    have hn : i' ∉ x.items p' := by
      intro hm
      obtain ⟨v, hv, hi⟩ := (h p' i').mp hm
      rw [ho] at hv hi
      rw [hg v hv] at hi
      exact absurd hi (by simp)
    simp [hn, hf, eq_comm]

/-- Rewriting a row whose item moves. -/
theorem set_move (h : Exact f t x) {k : κ} {v w : ν} {p p' : π} {i i' : ι}
    (hg : t.get k = some v) (hv : f.item k v = some (p, i)) (hw : f.item k w = some (p', i')) :
    Exact f (t.set k w) ((x.remove p i).add p' i') := by
  have hk := f.owner_item hv
  have hk' := f.owner_item hw
  apply h.of_local k (fun k' hk => by simp [hk])
  · intro a b ho
    have hne : ¬(a = p ∧ b = i) := by
      intro he
      exact ho (by rw [he.1, he.2, hk])
    have hne' : ¬(a = p' ∧ b = i') := by
      intro he
      exact ho (by rw [he.1, he.2, hk'])
    simp [hne, hne']
  · intro a b ho
    have hm := h.mem_iff hg ho
    rw [hv] at hm
    simp only [Option.some.injEq, Prod.mk.injEq] at hm
    simp only [Index.mem_add, Index.mem_remove, Table.get_set_self, Option.some.injEq,
      exists_eq_left', hw, Prod.mk.injEq, hm]
    constructor
    · intro hc
      rcases hc with hc | hc
      · exact ⟨hc.1.symm, hc.2.symm⟩
      · exact absurd ⟨hc.1.1.symm, hc.1.2.symm⟩ hc.2
    · intro hc
      exact Or.inl ⟨hc.1.symm, hc.2.symm⟩

/-- Rewriting a row that no longer contributes. -/
theorem set_remove (h : Exact f t x) {k : κ} {v w : ν} {p : π} {i : ι} (hg : t.get k = some v)
    (hv : f.item k v = some (p, i)) (hw : f.item k w = none) :
    Exact f (t.set k w) (x.remove p i) := by
  have hk := f.owner_item hv
  apply h.of_local k (fun k' hk => by simp [hk])
  · intro a b ho
    have hne : ¬(a = p ∧ b = i) := by
      intro he
      exact ho (by rw [he.1, he.2, hk])
    simp [hne]
  · intro a b ho
    have hm := h.mem_iff hg ho
    rw [hv] at hm
    simp only [Option.some.injEq, Prod.mk.injEq] at hm
    simp only [Index.mem_remove, Table.get_set_self, Option.some.injEq, exists_eq_left', hw,
      reduceCtorEq, iff_false, hm]
    intro hc
    exact hc.2 ⟨hc.1.1.symm, hc.1.2.symm⟩

/-- Deleting a row together with its item. A row that contributes nothing may
have any item of its own removed. -/
theorem delete (h : Exact f t x) {k : κ} {v : ν} {p : π} {i : ι} (hg : t.get k = some v)
    (ho : f.owner p i = k) (hv : f.item k v = some (p, i) ∨ f.item k v = none) :
    Exact f (t.delete k) (x.remove p i) := by
  apply h.of_local k (fun k' hk => by simp [hk])
  · intro a b ho'
    have hne : ¬(a = p ∧ b = i) := by
      intro he
      exact ho' (by rw [he.1, he.2, ho])
    simp [hne]
  · intro a b ho'
    have hm := h.mem_iff hg ho'
    simp only [Index.mem_remove, Table.get_delete_self, reduceCtorEq, false_and, exists_false,
      iff_false, hm]
    intro hc
    rcases hv with hv | hv
    · rw [hv] at hc
      simp only [Option.some.injEq, Prod.mk.injEq] at hc
      exact hc.2 ⟨hc.1.1.symm, hc.1.2.symm⟩
    · rw [hv] at hc
      exact absurd hc.1 (by simp)

/-- Deleting a row that contributes nothing. -/
theorem delete_keep (h : Exact f t x) {k : κ} {v : ν} (hg : t.get k = some v)
    (hv : f.item k v = none) : Exact f (t.delete k) x := by
  apply h.of_local k (fun k' hk => by simp [hk]) (fun _ _ _ => Iff.rfl)
  intro a b ho
  rw [h.mem_iff hg ho, hv]
  simp

end Exact

variable {κ' υ : Type} [LinearOrder κ']

/-- What one row of a table claims in a unique index: at most one key, stored
with a value from which the row can be found again. -/
structure Claim (κ ν κ' υ : Type) where
  key : κ → ν → Option κ'
  value : κ → υ
  owner : κ' → υ → κ
  owner_key : ∀ {k v k'}, key k v = some k' → owner k' (value k) = k
  value_owner : ∀ k' u, value (owner k' u) = u

omit [OrderedStore] in
theorem Claim.value_eq {κ ν κ' υ : Type} (f : Claim κ ν κ' υ) {k : κ} {k' : κ'} {u : υ}
    (h : f.owner k' u = k) : u = f.value k := by
  rw [← h, f.value_owner]

/-- The unique index maps each claimed key to its one claimant and holds no
other key. -/
def Unique (f : Claim κ ν κ' υ) (t : Table κ ν) (x : Table κ' υ) : Prop :=
  ∀ k' u, x.get k' = some u ↔ ∃ v, t.get (f.owner k' u) = some v ∧ f.key (f.owner k' u) v = some k'

namespace Unique

variable {f : Claim κ ν κ' υ} {t : Table κ ν} {x : Table κ' υ}

theorem empty : Unique f (Table.empty : Table κ ν) (Table.empty : Table κ' υ) := by
  intro k' u
  simp

theorem ext (h : Unique f t x) {y : Table κ' υ} (k : Unique f t y) : x = y := by
  apply Table.ext
  intro k'
  apply Option.ext
  intro u
  rw [h k' u, k k' u]

theorem get (h : Unique f t x) {k : κ} {v : ν} {k' : κ'} (hg : t.get k = some v)
    (hk : f.key k v = some k') : x.get k' = some (f.value k) := by
  rw [h, f.owner_key hk]
  exact ⟨v, hg, hk⟩

/-- Two rows that claim one key are one row. -/
theorem eq_of_key (h : Unique f t x) {k j : κ} {v w : ν} {k' : κ'} (hg : t.get k = some v)
    (hj : t.get j = some w) (hk : f.key k v = some k') (hw : f.key j w = some k') : k = j := by
  have he : f.value k = f.value j := Option.some.inj ((h.get hg hk).symm.trans (h.get hj hw))
  rw [← f.owner_key hk, ← f.owner_key hw, he]

theorem set_keep (h : Unique f t x) {k : κ} {v w : ν} (hg : t.get k = some v)
    (hf : f.key k w = f.key k v) : Unique f (t.set k w) x := by
  intro k' u
  rw [h]
  by_cases ho : f.owner k' u = k
  · rw [ho]
    simp [hg, hf]
  · simp [ho]

/-- A row takes a key that nobody holds. -/
theorem claim (h : Unique f t x) {k : κ} {w : ν} {k' : κ'}
    (hg : ∀ v, t.get k = some v → f.key k v = none) (hx : x.get k' = none)
    (hf : f.key k w = some k') : Unique f (t.set k w) (x.set k' (f.value k)) := by
  intro j u
  by_cases hj : j = k'
  · subst hj
    by_cases hu : u = f.value k
    · rw [hu, f.owner_key hf]
      simp [hf]
    · have ho : f.owner j u ≠ k := fun he => hu (f.value_eq he)
      have hn := (h j u).not.mp (by simp [hx])
      simp only [Table.get_set_self, Option.some.injEq, ne_eq, ho, not_false_eq_true,
        Table.get_set_ne]
      exact ⟨fun he => absurd he.symm hu, fun he => absurd he hn⟩
  · rw [Table.get_set_ne _ _ hj, h]
    by_cases ho : f.owner j u = k
    · rw [ho]
      constructor
      · intro hm
        obtain ⟨v, hv, hc⟩ := hm
        rw [hg v hv] at hc
        exact absurd hc (by simp)
      · intro hm
        obtain ⟨v, hv, hc⟩ := hm
        rw [Table.get_set_self] at hv
        rw [← Option.some.inj hv, hf] at hc
        exact absurd (Option.some.inj hc).symm hj
    · simp [ho]

/-- A row that claims nothing is written over one that claimed nothing. -/
theorem set_none (h : Unique f t x) {k : κ} {w : ν}
    (hg : ∀ v, t.get k = some v → f.key k v = none) (hf : f.key k w = none) :
    Unique f (t.set k w) x := by
  intro j u
  rw [h]
  by_cases ho : f.owner j u = k
  · rw [ho]
    constructor
    · intro hm
      obtain ⟨v, hv, hc⟩ := hm
      rw [hg v hv] at hc
      exact absurd hc (by simp)
    · intro hm
      obtain ⟨v, hv, hc⟩ := hm
      rw [Table.get_set_self] at hv
      rw [← Option.some.inj hv, hf] at hc
      exact absurd hc (by simp)
  · simp [ho]

private theorem release_of (h : Unique f t x) {u : Table κ ν} {k : κ} {v : ν} {k' : κ'}
    (hg : t.get k = some v) (hv : f.key k v = some k') (hr : ∀ j, j ≠ k → u.get j = t.get j)
    (hk : ∀ w, u.get k = some w → f.key k w = none) : Unique f u (x.delete k') := by
  intro j b
  by_cases hj : j = k'
  · subst hj
    simp only [Table.get_delete_self, reduceCtorEq, false_iff, not_exists, not_and]
    intro w hw hc
    by_cases ho : f.owner j b = k
    · rw [ho] at hw hc
      rw [hk w hw] at hc
      exact absurd hc (by simp)
    · rw [hr _ ho] at hw
      exact ho (h.eq_of_key hw hg hc hv)
  · rw [Table.get_delete_ne _ hj, h]
    by_cases ho : f.owner j b = k
    · rw [ho]
      constructor
      · intro hm
        obtain ⟨w, hw, hc⟩ := hm
        rw [hg] at hw
        rw [← Option.some.inj hw, hv] at hc
        exact absurd (Option.some.inj hc).symm hj
      · intro hm
        obtain ⟨w, hw, hc⟩ := hm
        rw [hk w hw] at hc
        exact absurd hc (by simp)
    · rw [hr _ ho]

theorem set_release (h : Unique f t x) {k : κ} {v w : ν} {k' : κ'} (hg : t.get k = some v)
    (hv : f.key k v = some k') (hw : f.key k w = none) : Unique f (t.set k w) (x.delete k') :=
  h.release_of hg hv (fun j hj => by simp [hj]) (fun a ha => by
    rw [Table.get_set_self] at ha
    rw [← Option.some.inj ha, hw])

theorem delete_release (h : Unique f t x) {k : κ} {v : ν} {k' : κ'} (hg : t.get k = some v)
    (hv : f.key k v = some k') : Unique f (t.delete k) (x.delete k') :=
  h.release_of hg hv (fun j hj => by simp [hj]) (fun a ha => by simp at ha)

theorem delete_keep (h : Unique f t x) {k : κ} {v : ν} (hg : t.get k = some v)
    (hv : f.key k v = none) : Unique f (t.delete k) x := by
  intro j u
  rw [h]
  by_cases ho : f.owner j u = k
  · rw [ho]
    simp [hg, hv]
  · simp [ho]

end Unique

end Moab
