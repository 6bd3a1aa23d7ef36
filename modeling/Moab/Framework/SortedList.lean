import Moab.Framework.OrderedStore

namespace Moab.SortedList

variable {κ ν ι : Type} [LinearOrder κ] [LinearOrder ι]

def lookup (k : κ) : List (κ × ν) → Option ν
  | [] => none
  | (k', v) :: l => if k = k' then some v else lookup k l

def insert (k : κ) (v : ν) : List (κ × ν) → List (κ × ν)
  | [] => [(k, v)]
  | (k', v') :: l =>
    if k < k' then (k, v) :: (k', v') :: l
    else if k = k' then (k, v) :: l
    else (k', v') :: insert k v l

def erase (k : κ) (l : List (κ × ν)) : List (κ × ν) := l.filter (fun e => e.1 ≠ k)

abbrev Ordered (l : List (κ × ν)) : Prop := l.Pairwise (fun a b => a.1 < b.1)

theorem lookup_insert (k k' : κ) (v : ν) (l : List (κ × ν)) :
    lookup k' (insert k v l) = if k' = k then some v else lookup k' l := by
  induction l with
  | nil => simp [insert, lookup]
  | cons e l ih =>
    obtain ⟨j, w⟩ := e
    by_cases hlt : k < j
    · simp [insert, hlt, lookup]
    · by_cases heq : k = j
      · subst heq
        by_cases hk : k' = k <;> simp [insert, lookup, hk]
      · by_cases hj : k' = j
        · subst hj
          simp [insert, hlt, heq, lookup, Ne.symm heq]
        · simp [insert, hlt, heq, lookup, hj, ih]

theorem lookup_erase (k k' : κ) (l : List (κ × ν)) :
    lookup k' (erase k l) = if k' = k then none else lookup k' l := by
  induction l with
  | nil => simp [erase, lookup]
  | cons e l ih =>
    obtain ⟨j, w⟩ := e
    by_cases hj : j = k
    · subst hj
      simp only [erase, ne_eq, not_true_eq_false, decide_false, Bool.false_eq_true,
        not_false_eq_true, List.filter_cons_of_neg, lookup] at ih ⊢
      rw [ih]
      split_ifs <;> rfl
    · simp only [erase, ne_eq, hj, not_false_eq_true, decide_true, List.filter_cons_of_pos,
        lookup] at ih ⊢
      rw [ih]
      by_cases hk : k' = j
      · subst hk; simp [hj]
      · simp [hk]

theorem mem_insert {k : κ} {v : ν} {e : κ × ν} {l : List (κ × ν)} (h : e ∈ insert k v l) :
    e = (k, v) ∨ e ∈ l := by
  induction l with
  | nil => simpa [insert] using h
  | cons a l ih =>
    obtain ⟨j, w⟩ := a
    rw [insert] at h
    split_ifs at h with hlt heq
    · simpa using h
    · rcases List.mem_cons.mp h with h | h
      · exact Or.inl h
      · exact Or.inr (List.mem_cons_of_mem _ h)
    · rcases List.mem_cons.mp h with h | h
      · exact Or.inr (by simp [h])
      · rcases ih h with h | h
        · exact Or.inl h
        · exact Or.inr (List.mem_cons_of_mem _ h)

theorem insert_ordered (k : κ) (v : ν) {l : List (κ × ν)} (h : Ordered l) :
    Ordered (insert k v l) := by
  induction l with
  | nil => simp [insert, Ordered]
  | cons a l ih =>
    obtain ⟨j, w⟩ := a
    have hj : ∀ e ∈ l, j < e.1 := fun e he => List.rel_of_pairwise_cons h he
    rw [insert]
    split_ifs with hlt heq
    · refine List.Pairwise.cons ?_ h
      intro e he
      rcases List.mem_cons.mp he with rfl | he
      · exact hlt
      · exact hlt.trans (hj e he)
    · subst heq
      exact List.Pairwise.cons hj h.of_cons
    · refine List.Pairwise.cons ?_ (ih h.of_cons)
      intro e he
      rcases mem_insert he with rfl | he
      · exact lt_of_le_of_ne (not_lt.mp hlt) (Ne.symm heq)
      · exact hj e he

theorem mem_iff_lookup {l : List (κ × ν)} (h : Ordered l) (k : κ) (v : ν) :
    (k, v) ∈ l ↔ lookup k l = some v := by
  induction l with
  | nil => simp [lookup]
  | cons a l ih =>
    obtain ⟨j, w⟩ := a
    have hj : ∀ e ∈ l, j < e.1 := fun e he => List.rel_of_pairwise_cons h he
    by_cases hk : k = j
    · subst hk
      have hn : (k, v) ∉ l := fun hm => lt_irrefl _ (hj _ hm)
      simp [lookup, hn, eq_comm]
    · simp [lookup, hk, ih h.of_cons]

/-- Sorted insertion of an index item, absorbing a second copy. -/
def insertItem (i : ι) : List ι → List ι
  | [] => [i]
  | j :: l => if i < j then i :: j :: l else if i = j then j :: l else j :: insertItem i l

theorem mem_insertItem {i j : ι} {l : List ι} : j ∈ insertItem i l ↔ j = i ∨ j ∈ l := by
  induction l with
  | nil => simp [insertItem]
  | cons a l ih =>
    rw [insertItem]
    split_ifs with hlt heq
    · simp
    · subst heq; simp
    · simp only [List.mem_cons, ih]
      tauto

theorem insertItem_sorted (i : ι) {l : List ι} (h : l.Pairwise (· < ·)) :
    (insertItem i l).Pairwise (· < ·) := by
  induction l with
  | nil => simp [insertItem]
  | cons a l ih =>
    have ha : ∀ e ∈ l, a < e := fun e he => List.rel_of_pairwise_cons h he
    rw [insertItem]
    split_ifs with hlt heq
    · refine List.Pairwise.cons ?_ h
      intro e he
      rcases List.mem_cons.mp he with rfl | he
      · exact hlt
      · exact hlt.trans (ha e he)
    · exact h
    · refine List.Pairwise.cons ?_ (ih h.of_cons)
      intro e he
      rcases mem_insertItem.mp he with rfl | he
      · exact lt_of_le_of_ne (not_lt.mp hlt) (Ne.symm heq)
      · exact ha e he

/-- The reference store: a table is a key-sorted association list, an index is
a sorted item list for each owner. It shows that the laws are consistent and
lets a run be computed. -/
instance orderedStore : OrderedStore where
  Table κ ν _ := { l : List (κ × ν) // Ordered l }
  Index π ι _ _ := π → { l : List ι // l.Pairwise (· < ·) }
  tableEmpty := ⟨[], List.Pairwise.nil⟩
  tableGet t k := lookup k t.1
  tableSet t k v := ⟨insert k v t.1, insert_ordered k v t.2⟩
  tableDelete t k := ⟨erase k t.1, t.2.filter _⟩
  tableEntries t := t.1
  tablePage t p token := pageOf (t.1.filter (fun e => p e.1 ∧ token.all (· < e.1)))
  indexEmpty _ := ⟨[], List.Pairwise.nil⟩
  indexItems x p := (x p).1
  indexAdd x p i p' := if p' = p then
    ⟨insertItem i (x p').1, insertItem_sorted i (x p').2⟩ else x p'
  indexRemove x p i p' := if p' = p then ⟨(x p').1.filter (· ≠ i), (x p').2.filter _⟩ else x p'
  tableGet_empty _ := rfl
  tableGet_set t k k' v := lookup_insert k k' v t.1
  tableGet_delete t k k' := lookup_erase k k' t.1
  mem_tableEntries t k v := mem_iff_lookup t.2 k v
  tableEntries_sorted t := t.2
  tablePage_eq _ _ _ _ := rfl
  indexItems_empty _ := rfl
  mem_indexAdd x p p' i i' := by
    by_cases h : p' = p <;> simp [h, mem_insertItem]
  mem_indexRemove x p p' i i' := by
    by_cases h : p' = p <;> simp [h]
  indexItems_sorted x p := (x p).2
  table_ext h := Subtype.ext h
  index_ext h := funext (fun p => Subtype.ext (h p))

end Moab.SortedList
