import Mathlib.Data.List.Sort
import Mathlib.Data.List.Nodup
import Mathlib.Order.Lattice

namespace Moab

/-- The first rows of a listing, and the key of the last of them if more rows follow. -/
def pageOf {κ ν : Type} (rows : List (κ × ν)) (limit : Nat) : List (κ × ν) × Option κ :=
  (rows.take limit,
    if limit < rows.length then (rows.take limit).getLast?.map Prod.fst else none)

/-- An ordered key-value store: primary tables listed in ascending key order,
and one-to-many indexes whose items are listed in ascending order per owner.
Deleting an absent key or item changes nothing. A table or an index is no more
than its contents. A page holds the first rows, of those with some keys, after the
key that its token names. -/
class OrderedStore where
  Table : (κ ν : Type) → [LinearOrder κ] → Type
  Index : (π ι : Type) → [DecidableEq π] → [LinearOrder ι] → Type
  tableEmpty {κ ν : Type} [LinearOrder κ] : Table κ ν
  tableGet {κ ν : Type} [LinearOrder κ] : Table κ ν → κ → Option ν
  tableSet {κ ν : Type} [LinearOrder κ] : Table κ ν → κ → ν → Table κ ν
  tableDelete {κ ν : Type} [LinearOrder κ] : Table κ ν → κ → Table κ ν
  tableEntries {κ ν : Type} [LinearOrder κ] : Table κ ν → List (κ × ν)
  tablePage {κ ν : Type} [LinearOrder κ] : Table κ ν → (κ → Bool) → Option κ → Nat →
    List (κ × ν) × Option κ
  indexEmpty {π ι : Type} [DecidableEq π] [LinearOrder ι] : Index π ι
  indexItems {π ι : Type} [DecidableEq π] [LinearOrder ι] : Index π ι → π → List ι
  indexAdd {π ι : Type} [DecidableEq π] [LinearOrder ι] : Index π ι → π → ι → Index π ι
  indexRemove {π ι : Type} [DecidableEq π] [LinearOrder ι] : Index π ι → π → ι → Index π ι
  tableGet_empty {κ ν : Type} [LinearOrder κ] (k : κ) :
    tableGet (tableEmpty : Table κ ν) k = none
  tableGet_set {κ ν : Type} [LinearOrder κ] (t : Table κ ν) (k k' : κ) (v : ν) :
    tableGet (tableSet t k v) k' = if k' = k then some v else tableGet t k'
  tableGet_delete {κ ν : Type} [LinearOrder κ] (t : Table κ ν) (k k' : κ) :
    tableGet (tableDelete t k) k' = if k' = k then none else tableGet t k'
  mem_tableEntries {κ ν : Type} [LinearOrder κ] (t : Table κ ν) (k : κ) (v : ν) :
    (k, v) ∈ tableEntries t ↔ tableGet t k = some v
  tableEntries_sorted {κ ν : Type} [LinearOrder κ] (t : Table κ ν) :
    (tableEntries t).Pairwise (fun a b => a.1 < b.1)
  tablePage_eq {κ ν : Type} [LinearOrder κ] (t : Table κ ν) (p : κ → Bool) (token : Option κ)
    (limit : Nat) : tablePage t p token limit =
      pageOf ((tableEntries t).filter (fun e => p e.1 ∧ token.all (· < e.1))) limit
  indexItems_empty {π ι : Type} [DecidableEq π] [LinearOrder ι] (p : π) :
    indexItems (indexEmpty : Index π ι) p = []
  mem_indexAdd {π ι : Type} [DecidableEq π] [LinearOrder ι] (x : Index π ι)
    (p p' : π) (i i' : ι) :
    i' ∈ indexItems (indexAdd x p i) p' ↔ (p' = p ∧ i' = i) ∨ i' ∈ indexItems x p'
  mem_indexRemove {π ι : Type} [DecidableEq π] [LinearOrder ι] (x : Index π ι)
    (p p' : π) (i i' : ι) :
    i' ∈ indexItems (indexRemove x p i) p' ↔ i' ∈ indexItems x p' ∧ ¬(p' = p ∧ i' = i)
  indexItems_sorted {π ι : Type} [DecidableEq π] [LinearOrder ι] (x : Index π ι) (p : π) :
    (indexItems x p).Pairwise (· < ·)
  table_ext {κ ν : Type} [LinearOrder κ] {t u : Table κ ν} (h : tableEntries t = tableEntries u) :
    t = u
  index_ext {π ι : Type} [DecidableEq π] [LinearOrder ι] {x y : Index π ι}
    (h : ∀ p, indexItems x p = indexItems y p) : x = y

export OrderedStore (Table Index)

namespace OrderedStore

variable [OrderedStore]

namespace Table

variable {κ ν : Type} [LinearOrder κ]

def empty : Table κ ν := tableEmpty
def get (t : Table κ ν) (k : κ) : Option ν := tableGet t k
def set (t : Table κ ν) (k : κ) (v : ν) : Table κ ν := tableSet t k v
def delete (t : Table κ ν) (k : κ) : Table κ ν := tableDelete t k
def entries (t : Table κ ν) : List (κ × ν) := tableEntries t
def page (t : Table κ ν) (p : κ → Bool) (token : Option κ) (limit : Nat) :
    List (κ × ν) × Option κ := tablePage t p token limit

@[simp] theorem get_empty (k : κ) : (empty : Table κ ν).get k = none := tableGet_empty k

theorem get_set (t : Table κ ν) (k k' : κ) (v : ν) :
    (t.set k v).get k' = if k' = k then some v else t.get k' := tableGet_set t k k' v

theorem get_delete (t : Table κ ν) (k k' : κ) :
    (t.delete k).get k' = if k' = k then none else t.get k' := tableGet_delete t k k'

@[simp] theorem get_set_self (t : Table κ ν) (k : κ) (v : ν) : (t.set k v).get k = some v := by
  simp [get_set]

@[simp] theorem get_set_ne (t : Table κ ν) {k k' : κ} (v : ν) (h : k' ≠ k) :
    (t.set k v).get k' = t.get k' := by
  simp [get_set, h]

@[simp] theorem get_delete_self (t : Table κ ν) (k : κ) : (t.delete k).get k = none := by
  simp [get_delete]

@[simp] theorem get_delete_ne (t : Table κ ν) {k k' : κ} (h : k' ≠ k) :
    (t.delete k).get k' = t.get k' := by
  simp [get_delete, h]

theorem mem_entries {t : Table κ ν} {k : κ} {v : ν} : (k, v) ∈ t.entries ↔ t.get k = some v :=
  mem_tableEntries t k v

theorem entries_sorted (t : Table κ ν) : t.entries.Pairwise (fun a b => a.1 < b.1) :=
  tableEntries_sorted t

theorem entries_nodup (t : Table κ ν) : t.entries.Nodup :=
  t.entries_sorted.imp (fun h he => by subst he; exact lt_irrefl _ h)

theorem entries_keys_nodup (t : Table κ ν) : (t.entries.map Prod.fst).Nodup := by
  rw [List.Nodup, List.pairwise_map]
  exact t.entries_sorted.imp (fun h => ne_of_lt h)

/-- A table is determined by its lookups, down to the order it is listed in. -/
theorem entries_ext {t u : Table κ ν} (h : ∀ k, t.get k = u.get k) : t.entries = u.entries := by
  refine List.Perm.eq_of_pairwise ?_ t.entries_sorted u.entries_sorted ?_
  · intro a b _ _ hab hba
    exact absurd hab (lt_asymm hba)
  · rw [List.perm_ext_iff_of_nodup t.entries_nodup u.entries_nodup]
    rintro ⟨k, v⟩
    rw [mem_entries, mem_entries, h]

/-- The part of a listing with some keys is determined by the lookups of those keys. -/
theorem entries_filter_ext {t u : Table κ ν} {p : κ → Bool}
    (h : ∀ k, p k = true → t.get k = u.get k) :
    t.entries.filter (fun e => p e.1) = u.entries.filter (fun e => p e.1) := by
  refine List.Perm.eq_of_pairwise ?_ (t.entries_sorted.filter _) (u.entries_sorted.filter _) ?_
  · intro a b _ _ hab hba
    exact absurd hab (lt_asymm hba)
  · rw [List.perm_ext_iff_of_nodup (t.entries_nodup.filter _) (u.entries_nodup.filter _)]
    rintro ⟨k, v⟩
    simp only [List.mem_filter, mem_entries]
    constructor
    · rintro ⟨hg, hp⟩
      exact ⟨h k hp ▸ hg, hp⟩
    · rintro ⟨hg, hp⟩
      exact ⟨(h k hp).trans hg, hp⟩

theorem ext {t u : Table κ ν} (h : ∀ k, t.get k = u.get k) : t = u := table_ext (entries_ext h)

@[simp] theorem set_set (t : Table κ ν) (k : κ) (v w : ν) : (t.set k v).set k w = t.set k w := by
  apply ext
  intro j
  simp only [get_set]
  split_ifs <;> rfl

/-- Writing back the row that is there changes nothing. -/
theorem set_self {t : Table κ ν} {k : κ} {v : ν} (h : t.get k = some v) : t.set k v = t := by
  apply ext
  intro j
  by_cases hj : j = k
  · rw [hj, get_set_self, h]
  · rw [get_set_ne _ _ hj]

/-- Deleting a row that is not there changes nothing. -/
theorem delete_absent {t : Table κ ν} {k : κ} (h : t.get k = none) : t.delete k = t := by
  apply ext
  intro j
  by_cases hj : j = k
  · rw [hj, get_delete_self, h]
  · rw [get_delete_ne _ hj]

theorem set_delete (t : Table κ ν) (k : κ) (v : ν) : (t.delete k).set k v = t.set k v := by
  apply ext
  intro j
  by_cases h : j = k
  · rw [h, get_set_self, get_set_self]
  · rw [get_set_ne _ _ h, get_set_ne _ _ h, get_delete_ne _ h]

theorem delete_set (t : Table κ ν) {k k' : κ} (v : ν) (h : k' ≠ k) :
    (t.set k v).delete k' = (t.delete k').set k v := by
  apply ext
  intro j
  by_cases hk : j = k
  · rw [hk, get_delete_ne _ (Ne.symm h), get_set_self, get_set_self]
  · rw [get_set_ne _ _ hk, get_delete, get_delete, get_set_ne _ _ hk]

theorem delete_comm (t : Table κ ν) (k k' : κ) :
    (t.delete k).delete k' = (t.delete k').delete k := by
  apply ext
  intro j
  simp only [get_delete]
  split_ifs <;> rfl

theorem get_foldl_set {l : List (κ × ν)} {t : Table κ ν} (hn : (l.map Prod.fst).Nodup) (k : κ)
    (v : ν) : (l.foldl (fun t e => t.set e.1 e.2) t).get k = some v ↔
      (k, v) ∈ l ∨ (∀ e ∈ l, e.1 ≠ k) ∧ t.get k = some v := by
  induction l generalizing t with
  | nil => simp
  | cons e l ih =>
    obtain ⟨hfirst, hn⟩ := List.nodup_cons.mp hn
    rw [List.foldl_cons, ih hn, get_set]
    by_cases hk : k = e.1
    · have habsent : ∀ e' ∈ l, e'.1 ≠ k := by
        intro e' he' heq
        exact hfirst (List.mem_map.mpr ⟨e', he', heq.trans hk⟩)
      have hnot : (k, v) ∉ l := fun hm => habsent _ hm rfl
      obtain ⟨k', w⟩ := e
      subst hk
      simp only [if_true, Option.some.injEq, hnot, false_or, List.mem_cons, Prod.mk.injEq, true_and,
        or_false]
      constructor
      · intro hv
        exact Or.inl hv.2.symm
      · intro hv
        exact ⟨habsent, (hv.resolve_right (fun h => h.1 _ (Or.inl rfl) rfl)).symm⟩
    · obtain ⟨k', w⟩ := e
      have hne : (k, v) ≠ (k', w) := fun he => hk (Prod.mk.inj he).1
      simp [hk, Ne.symm hk, hne]

/-- A table is what its listing writes into an empty one. -/
theorem foldl_set_entries (t : Table κ ν) :
    t.entries.foldl (fun t e => t.set e.1 e.2) (empty : Table κ ν) = t := by
  apply ext
  intro k
  apply Option.ext
  intro v
  rw [get_foldl_set t.entries_keys_nodup, mem_entries, get_empty]
  simp

section Paging

variable {t : Table κ ν} {p : κ → Bool} {token : Option κ} {limit : Nat}

/-- The rows that a page is taken from. -/
def after (t : Table κ ν) (p : κ → Bool) (token : Option κ) : List (κ × ν) :=
  t.entries.filter (fun e => p e.1 ∧ token.all (· < e.1))

theorem mem_after {k : κ} {v : ν} : (k, v) ∈ t.after p token ↔
    t.get k = some v ∧ p k ∧ token.all (· < k) := by
  simp [after, mem_entries]

theorem page_eq : t.page p token limit = pageOf (t.after p token) limit :=
  tablePage_eq t p token limit

theorem page_sublist : (t.page p token limit).1.Sublist (t.after p token) := by
  rw [page_eq]
  exact List.take_sublist _ _

/-- A page that is followed by another is not empty. -/
theorem page_ne_nil {k : κ} (h : (t.page p token limit).2 = some k) :
    (t.page p token limit).1 ≠ [] := by
  intro hnil
  rw [page_eq] at h hnil
  change (t.after p token).take limit = [] at hnil
  simp [pageOf, hnil] at h

/-- A row that a page leaves out comes after the token of the next page. -/
theorem page_rest (hl : 0 < limit) {e : κ × ν} (he : e ∈ t.after p token)
    (hout : e ∉ (t.page p token limit).1) : ∃ k, (t.page p token limit).2 = some k ∧ k < e.1 := by
  rw [page_eq] at hout ⊢
  change e ∉ (t.after p token).take limit at hout
  have hsorted : (t.after p token).Pairwise (fun a b => a.1 < b.1) := t.entries_sorted.filter _
  rw [← List.take_append_drop limit (t.after p token)] at he hsorted
  have hdrop := (List.mem_append.mp he).resolve_left hout
  have hlt : limit < (t.after p token).length := by
    have hpos := List.length_pos_of_mem hdrop
    rw [List.length_drop] at hpos
    omega
  have hne : (t.after p token).take limit ≠ [] := by
    rw [← List.length_pos_iff, List.length_take]
    omega
  have hlast := List.getLast?_eq_some_getLast hne
  refine ⟨_, ?_, (List.pairwise_append.mp hsorted).2.2 _ (List.getLast_mem hne) e hdrop⟩
  rw [pageOf, if_pos hlt, hlast]
  rfl

end Paging

/-- The number of rows that satisfy p. -/
def count (p : κ → ν → Bool) (t : Table κ ν) : Nat := t.entries.countP (fun e => p e.1 e.2)

def hit (p : κ → ν → Bool) (k : κ) : Option ν → Nat
  | none => 0
  | some v => (p k v).toNat

private def rest (t : Table κ ν) (k : κ) : List (κ × ν) := t.entries.filter (fun e => e.1 ≠ k)

private theorem mem_rest {t : Table κ ν} {k k' : κ} {v : ν} :
    (k', v) ∈ t.rest k ↔ t.get k' = some v ∧ k' ≠ k := by
  simp [rest, mem_entries]

private theorem rest_nodup (t : Table κ ν) (k : κ) : (t.rest k).Nodup :=
  t.entries_nodup.filter _

private theorem count_split (p : κ → ν → Bool) (t : Table κ ν) (k : κ) :
    t.count p = hit p k (t.get k) + (t.rest k).countP (fun e => p e.1 e.2) := by
  cases h : t.get k with
  | none =>
    have he : t.rest k = t.entries := by
      rw [rest, List.filter_eq_self]
      rintro ⟨k', v⟩ hm
      have hne : k' ≠ k := by
        rintro rfl
        rw [mem_entries, h] at hm
        exact absurd hm (by simp)
      simpa using hne
    simp [count, he, hit]
  | some v =>
    have hp : t.entries.Perm ((k, v) :: t.rest k) := by
      rw [List.perm_ext_iff_of_nodup t.entries_nodup
        (List.nodup_cons.mpr ⟨by simp [mem_rest], t.rest_nodup k⟩)]
      rintro ⟨k', v'⟩
      simp only [mem_entries, List.mem_cons, mem_rest, Prod.mk.injEq]
      constructor
      · intro hg
        by_cases hk : k' = k
        · subst hk
          rw [h] at hg
          exact Or.inl ⟨rfl, (Option.some.inj hg).symm⟩
        · exact Or.inr ⟨hg, hk⟩
      · rintro (⟨rfl, rfl⟩ | ⟨hg, _⟩)
        · exact h
        · exact hg
    rw [count, hp.countP_eq, List.countP_cons]
    cases hv : p k v <;> simp [hit, hv, Nat.add_comm]

private theorem rest_congr {t u : Table κ ν} {k : κ} (h : ∀ k', k' ≠ k → t.get k' = u.get k') :
    (t.rest k).Perm (u.rest k) := by
  rw [List.perm_ext_iff_of_nodup (t.rest_nodup k) (u.rest_nodup k)]
  rintro ⟨k', v⟩
  rw [mem_rest, mem_rest]
  constructor <;> rintro ⟨hg, hk⟩
  · exact ⟨(h k' hk).symm.trans hg, hk⟩
  · exact ⟨(h k' hk).trans hg, hk⟩

theorem count_set (p : κ → ν → Bool) (t : Table κ ν) (k : κ) (v : ν) :
    (t.set k v).count p + hit p k (t.get k) = t.count p + (p k v).toNat := by
  have hr : ((t.set k v).rest k).Perm (t.rest k) := rest_congr (fun k' hk => by simp [hk])
  rw [count_split p (t.set k v) k, count_split p t k, hr.countP_eq, get_set_self]
  simp only [hit]
  omega

theorem count_delete (p : κ → ν → Bool) (t : Table κ ν) (k : κ) :
    (t.delete k).count p + hit p k (t.get k) = t.count p := by
  have hr : ((t.delete k).rest k).Perm (t.rest k) := rest_congr (fun k' hk => by simp [hk])
  rw [count_split p (t.delete k) k, count_split p t k, hr.countP_eq, get_delete_self]
  simp only [hit]
  omega

omit [OrderedStore] in
theorem toNat_decide (c : Prop) [Decidable c] : (decide c).toNat = if c then 1 else 0 := by
  split <;> simp [*]

theorem count_set_of_none (p : κ → ν → Bool) {t : Table κ ν} {k : κ} (v : ν) (h : t.get k = none) :
    (t.set k v).count p = t.count p + (p k v).toNat := by
  have hset := count_set p t k v
  rwa [h] at hset

theorem count_set_of_some (p : κ → ν → Bool) {t : Table κ ν} {k : κ} {v w : ν}
    (h : t.get k = some w) (hp : p k v = p k w) : (t.set k v).count p = t.count p := by
  have hset := count_set p t k v
  rw [h, hp] at hset
  exact Nat.add_right_cancel hset

theorem count_delete_of_some (p : κ → ν → Bool) {t : Table κ ν} {k : κ} {v : ν}
    (h : t.get k = some v) : (t.delete k).count p + (p k v).toNat = t.count p := by
  have hdelete := count_delete p t k
  rwa [h] at hdelete

theorem count_eq_zero {p : κ → ν → Bool} {t : Table κ ν} :
    t.count p = 0 ↔ ∀ k v, t.get k = some v → p k v = false := by
  rw [count, List.countP_eq_zero]
  constructor
  · intro h k v hg
    simpa using h (k, v) (mem_entries.mpr hg)
  · rintro h ⟨k, v⟩ hm
    simpa using h k v (mem_entries.mp hm)

end Table

namespace Index

variable {π ι : Type} [DecidableEq π] [LinearOrder ι]

def empty : Index π ι := indexEmpty
def items (x : Index π ι) (p : π) : List ι := indexItems x p
def add (x : Index π ι) (p : π) (i : ι) : Index π ι := indexAdd x p i
def remove (x : Index π ι) (p : π) (i : ι) : Index π ι := indexRemove x p i

@[simp] theorem items_empty (p : π) : (empty : Index π ι).items p = [] := indexItems_empty p

@[simp] theorem mem_add {x : Index π ι} {p p' : π} {i i' : ι} :
    i' ∈ (x.add p i).items p' ↔ (p' = p ∧ i' = i) ∨ i' ∈ x.items p' := mem_indexAdd x p p' i i'

@[simp] theorem mem_remove {x : Index π ι} {p p' : π} {i i' : ι} :
    i' ∈ (x.remove p i).items p' ↔ i' ∈ x.items p' ∧ ¬(p' = p ∧ i' = i) :=
  mem_indexRemove x p p' i i'

/-- Every item of the index, whoever owns it, has the property. -/
def All (P : ι → Prop) (x : Index π ι) : Prop := ∀ p, ∀ i ∈ x.items p, P i

section All

variable {P : ι → Prop} {x : Index π ι} {p : π} {i : ι}

theorem all_empty : (empty : Index π ι).All P := by
  intro p i hi
  simp at hi

theorem All.add (h : x.All P) (hi : P i) : (x.add p i).All P := by
  intro q j hj
  rcases mem_add.mp hj with ⟨_, rfl⟩ | hj
  · exact hi
  · exact h q j hj

theorem All.remove (h : x.All P) : (x.remove p i).All P :=
  fun q j hj => h q j (mem_remove.mp hj).1

end All

theorem items_sorted (x : Index π ι) (p : π) : (x.items p).Pairwise (· < ·) :=
  indexItems_sorted x p

theorem items_nodup (x : Index π ι) (p : π) : (x.items p).Nodup :=
  (x.items_sorted p).imp (fun h => ne_of_lt h)

/-- The listing of one owner is the sorted list of its members. -/
theorem items_eq {x : Index π ι} {p : π} {l : List ι} (hl : l.Pairwise (· < ·))
    (h : ∀ i, i ∈ x.items p ↔ i ∈ l) : x.items p = l := by
  refine List.Perm.eq_of_pairwise ?_ (x.items_sorted p) hl ?_
  · intro a b _ _ hab hba
    exact absurd hab (lt_asymm hba)
  · rw [List.perm_ext_iff_of_nodup (x.items_nodup p) (hl.imp (fun h => ne_of_lt h))]
    exact h

/-- The listing of one owner is determined by its members. -/
theorem items_ext {x y : Index π ι} {p q : π} (h : ∀ i, i ∈ x.items p ↔ i ∈ y.items q) :
    x.items p = y.items q := items_eq (y.items_sorted q) h

theorem ext {x y : Index π ι} (h : ∀ p i, i ∈ x.items p ↔ i ∈ y.items p) : x = y :=
  index_ext (fun p => items_ext (h p))

/-- Taking out what is not there changes nothing. -/
theorem remove_absent {x : Index π ι} {p : π} {i : ι} (h : i ∉ x.items p) : x.remove p i = x := by
  apply ext
  intro p' i'
  rw [mem_remove, and_iff_left_iff_imp]
  rintro hi ⟨rfl, rfl⟩
  exact h hi

theorem remove_comm (x : Index π ι) (p p' : π) (i i' : ι) :
    (x.remove p i).remove p' i' = (x.remove p' i').remove p i := by
  apply ext
  intro r j
  simp only [mem_remove]
  exact and_right_comm

/-- Taking an item out and putting it back changes nothing. -/
theorem remove_add {x : Index π ι} {p : π} {i : ι} (h : i ∈ x.items p) :
    (x.remove p i).add p i = x := by
  apply ext
  intro p' i'
  rw [mem_add, mem_remove]
  by_cases he : p' = p ∧ i' = i
  · rw [he.1, he.2]
    simp [h]
  · simp [he]

/-- The head of a listing is its least member. -/
theorem head_le {x : Index π ι} {p : π} {i j : ι} {l : List ι} (h : x.items p = i :: l)
    (hj : j ∈ x.items p) : i ≤ j := by
  have hs := x.items_sorted p
  rw [h] at hs hj
  rcases List.mem_cons.mp hj with rfl | hj
  · exact le_refl _
  · exact le_of_lt (List.rel_of_pairwise_cons hs hj)

theorem items_eq_cons {x : Index π ι} {p : π} {i : ι} (hi : i ∈ x.items p)
    (h : ∀ j ∈ x.items p, i ≤ j) : ∃ l, x.items p = i :: l := by
  cases hl : x.items p with
  | nil => simp [hl] at hi
  | cons j l =>
    have hij := h j (by simp [hl])
    have hji := head_le hl hi
    exact ⟨l, by rw [le_antisymm hij hji]⟩

end Index

end OrderedStore

end Moab
