import Moab.Framework.Secondary

namespace Moab

open OrderedStore

variable [OrderedStore]
variable {κ ν π ι κ' υ ε : Type} [LinearOrder κ] [DecidableEq π] [LinearOrder ι] [LinearOrder κ']

/-- Writes back one by one those rows of a stream that are wanted. -/
def OrderedStore.Table.load (keep : ε → Bool) (key : ε → κ) (value : ε → ν) (l : List ε)
    (t : Table κ ν) : Table κ ν :=
  l.foldl (fun t e => if keep e then t.set (key e) (value e) else t) t

def OrderedStore.Index.load (keep : ε → Bool) (part : ε → π) (item : ε → ι) (l : List ε)
    (x : Index π ι) : Index π ι :=
  l.foldl (fun x e => if keep e then x.add (part e) (item e) else x) x

section Load

variable {keep : ε → Bool} {key : ε → κ} {value : ε → ν} {l : List ε} {t T : Table κ ν}

/-- One table has no other rows than another. -/
def OrderedStore.Table.Sub (t T : Table κ ν) : Prop := ∀ k v, t.get k = some v → T.get k = some v

theorem OrderedStore.Table.Sub.get_set (h : t.Sub T) {k : κ} {w : ν} (row : T.get k = some w)
    {j : κ} {v : ν} : (t.set k w).get j = some v ↔ t.get j = some v ∨ k = j ∧ w = v := by
  by_cases hj : j = k
  · subst hj
    rw [Table.get_set_self]
    constructor
    · intro hv
      exact Or.inr ⟨rfl, Option.some.inj hv⟩
    · rintro (hv | ⟨_, rfl⟩)
      · exact congrArg some (Option.some.inj (row.symm.trans (h _ v hv)))
      · rfl
  · rw [Table.get_set_ne _ _ hj]
    simp [Ne.symm hj]

theorem OrderedStore.Table.Sub.set (h : t.Sub T) {k : κ} {w : ν} (row : T.get k = some w) :
    (t.set k w).Sub T := by
  intro j v hv
  rcases (h.get_set row).mp hv with hold | ⟨rfl, rfl⟩
  · exact h j v hold
  · exact row

/-- The rows after loading are those that were there and those that were wanted. -/
theorem OrderedStore.Table.get_load (h : t.Sub T) (hl : ∀ e ∈ l, T.get (key e) = some (value e))
    {k : κ} {v : ν} : (t.load keep key value l).get k = some v ↔
      t.get k = some v ∨ ∃ e ∈ l, keep e = true ∧ key e = k ∧ value e = v := by
  induction l generalizing t with
  | nil => simp [Table.load]
  | cons e l ih =>
    obtain ⟨hrow, hrest⟩ := List.forall_mem_cons.mp hl
    change ((if keep e then t.set (key e) (value e) else t).load keep key value l).get k =
      some v ↔ _
    cases he : keep e with
    | true =>
      rw [if_pos rfl, ih (h.set hrow) hrest, h.get_set hrow]
      simp [he, or_assoc]
    | false =>
      rw [if_neg (by simp), ih h hrest]
      simp [he]

/-- A row of T claims its key again. -/
theorem Unique.set_again {f : Claim κ ν κ' υ} {x X : Table κ' υ} (h : Unique f t x)
    (hT : Unique f T X) (hsub : t.Sub T) {k : κ} {w : ν} {k' : κ'} (row : T.get k = some w)
    (hk : f.key k w = some k') : Unique f (t.set k w) (x.set k' (f.value k)) := by
  cases hrow : t.get k with
  | some v =>
    obtain rfl := Option.some.inj (row.symm.trans (hsub k v hrow))
    rw [Table.set_self hrow, Table.set_self (h.get hrow hk)]
    exact h
  | none =>
    refine h.claim (by simp [hrow]) ?_ hk
    cases hx : x.get k' with
    | none => rfl
    | some u =>
      obtain ⟨v, hv, hkey⟩ := (h k' u).mp hx
      obtain rfl := hT.eq_of_key row (hsub _ v hv) hk hkey
      exact absurd (hrow.symm.trans hv) (by simp)

theorem Unique.load {f : Claim κ ν κ' υ} {x X : Table κ' υ} (h : Unique f t x) (hT : Unique f T X)
    (hsub : t.Sub T) (hl : ∀ e ∈ l, T.get (key e) = some (value e)) {name : ε → κ'}
    (hname : ∀ e, f.key (key e) (value e) = some (name e)) :
    Unique f (t.load keep key value l) (x.load keep name (fun e => f.value (key e)) l) := by
  induction l generalizing t x with
  | nil => exact h
  | cons e l ih =>
    obtain ⟨hrow, hrest⟩ := List.forall_mem_cons.mp hl
    change Unique f ((if keep e then t.set (key e) (value e) else t).load keep key value l)
      ((if keep e then x.set (name e) (f.value (key e)) else x).load keep name _ l)
    cases keep e with
    | true => exact ih (h.set_again hT hsub hrow (hname e)) (hsub.set hrow) hrest
    | false => exact ih h hsub hrest

/-- A row of T adds its item again. -/
theorem Exact.set_again {f : Projection κ ν π ι} {x : Index π ι} (h : Exact f t x) (hsub : t.Sub T)
    {k : κ} {w : ν} {p : π} {i : ι} (row : T.get k = some w) (hf : f.item k w = some (p, i)) :
    Exact f (t.set k w) (x.add p i) := by
  cases hrow : t.get k with
  | some v =>
    obtain rfl := Option.some.inj (row.symm.trans (hsub k v hrow))
    have hsame : x.add p i = x := by
      apply Index.ext
      intro p' i'
      rw [Index.mem_add]
      refine ⟨?_, Or.inr⟩
      rintro (⟨rfl, rfl⟩ | hi)
      · exact h.mem hrow hf
      · exact hi
    rw [Table.set_self hrow, hsame]
    exact h
  | none => exact h.set_add (by simp [hrow]) hf

theorem Exact.load {f : Projection κ ν π ι} {x : Index π ι} (h : Exact f t x) (hsub : t.Sub T)
    (hl : ∀ e ∈ l, T.get (key e) = some (value e)) {part : ε → π} {item : ε → ι}
    (hitem : ∀ e, f.item (key e) (value e) = some (part e, item e)) :
    Exact f (t.load keep key value l) (x.load keep part item l) := by
  induction l generalizing t x with
  | nil => exact h
  | cons e l ih =>
    obtain ⟨hrow, hrest⟩ := List.forall_mem_cons.mp hl
    change Exact f ((if keep e then t.set (key e) (value e) else t).load keep key value l)
      ((if keep e then x.add (part e) (item e) else x).load keep part item l)
    cases keep e with
    | true => exact ih (h.set_again hsub hrow (hitem e)) (hsub.set hrow) hrest
    | false => exact ih h hsub hrest

end Load

section Restrict

variable {t T : Table κ ν} {P : κ → Bool}

/-- The rows of a table whose keys are wanted, and no others. -/
def OrderedStore.Table.IsPart (P : κ → Bool) (T t : Table κ ν) : Prop :=
  ∀ k, t.get k = if P k then T.get k else none

theorem OrderedStore.Table.isPart_iff : T.IsPart P t ↔
    ∀ k v, t.get k = some v ↔ P k = true ∧ T.get k = some v := by
  constructor
  · intro h k v
    rw [h k]
    split <;> simp [*]
  · intro h k
    apply Option.ext
    intro v
    rw [h k v]
    split <;> simp [*]

theorem OrderedStore.Table.IsPart.sub (h : T.IsPart P t) : t.Sub T := by
  intro k v hv
  exact ((Table.isPart_iff.mp h k v).mp hv).2

/-- Loading a part of a table into another part of it. -/
theorem OrderedStore.Table.IsPart.load {Q : κ → Bool} {r : Table κ ν} (h : T.IsPart P t)
    (hr : T.IsPart Q r) {keep : ε → Bool} {key : ε → κ} {value : ε → ν} {l : List ε}
    (hl : ∀ k v, r.get k = some v ↔ ∃ e ∈ l, key e = k ∧ value e = v) {own : κ → Bool}
    (hown : ∀ e, keep e = own (key e)) :
    T.IsPart (fun k => P k || own k && Q k) (t.load keep key value l) := by
  have hrows : ∀ e ∈ l, T.get (key e) = some (value e) :=
    fun e he => hr.sub _ _ ((hl _ _).mpr ⟨e, he, rfl, rfl⟩)
  rw [Table.isPart_iff]
  intro k v
  rw [Table.get_load h.sub hrows, Table.isPart_iff.mp h]
  constructor
  · rintro (⟨hp, hv⟩ | ⟨e, he, hkeep, rfl, rfl⟩)
    · simp [hp, hv]
    · have hin := (Table.isPart_iff.mp hr _ _).mp ((hl _ _).mpr ⟨e, he, rfl, rfl⟩)
      rw [hown] at hkeep
      simp [hkeep, hin.1, hin.2]
  · rintro ⟨hk, hv⟩
    rcases (Bool.or_eq_true _ _).mp hk with hp | ho
    · exact Or.inl ⟨hp, hv⟩
    · obtain ⟨ho, hq⟩ := (Bool.and_eq_true _ _).mp ho
      obtain ⟨e, he, rfl, rfl⟩ := (hl k v).mp ((Table.isPart_iff.mp hr k v).mpr ⟨hq, hv⟩)
      exact Or.inr ⟨e, he, by rw [hown]; exact ho, rfl, rfl⟩

/-- The unique index of a part of the rows is the part of the unique index. -/
theorem Unique.isPart_iff {f : Claim κ ν κ' υ} {x X : Table κ' υ} {P' : κ' → Bool}
    (hT : Unique f T X) (h : T.IsPart P t) (hP : ∀ k' u, P (f.owner k' u) = P' k') :
    Unique f t x ↔ X.IsPart P' x := by
  rw [Table.isPart_iff]
  apply forall₂_congr
  intro k' u
  rw [hT k' u]
  have hpart : (∃ v, t.get (f.owner k' u) = some v ∧ f.key (f.owner k' u) v = some k') ↔
      P' k' = true ∧ ∃ v, T.get (f.owner k' u) = some v ∧ f.key (f.owner k' u) v = some k' := by
    simp only [Table.isPart_iff.mp h, hP, and_assoc, exists_and_left]
  rw [hpart]

/-- The index of a part of the rows is the part of the index. -/
theorem Exact.isPart_iff {f : Projection κ ν π ι} {x X : Index π ι} {P' : ι → Bool}
    (hT : Exact f T X) (h : T.IsPart P t) (hP : ∀ p i, P (f.owner p i) = P' i) :
    Exact f t x ↔ ∀ p i, i ∈ x.items p ↔ P' i = true ∧ i ∈ X.items p := by
  apply forall₂_congr
  intro p i
  rw [hT p i]
  have hpart : (∃ v, t.get (f.owner p i) = some v ∧ f.item (f.owner p i) v = some (p, i)) ↔
      P' i = true ∧ ∃ v, T.get (f.owner p i) = some v ∧ f.item (f.owner p i) v = some (p, i) := by
    simp only [Table.isPart_iff.mp h, hP, and_assoc, exists_and_left]
  rw [hpart]

end Restrict

end Moab
