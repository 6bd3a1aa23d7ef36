import Mathlib.Data.List.Nodup
import Mathlib.Data.List.TakeDrop

namespace Moab

variable {α : Type} {bound count : Int} {l A B : List α} {x : α}

/-- The first elements of a list beyond a bound, by a count that need not be its length.
A bound that is not positive is none. -/
def overflow (bound count : Int) (l : List α) : List α :=
  if bound ≤ 0 then [] else l.take (count - bound).toNat

theorem overflow_sublist : (overflow bound count l).Sublist l := by
  unfold overflow
  split_ifs
  · exact List.nil_sublist l
  · exact List.take_sublist _ l

variable [DecidableEq α]

/-- What is left of a list without duplicates when its first elements are taken out. -/
theorem filter_notMem_take (hn : l.Nodup) (k : Nat) : l.filter (· ∉ l.take k) = l.drop k := by
  have hsplit : l.filter (· ∉ l.take k) = (l.take k ++ l.drop k).filter (· ∉ l.take k) := by
    rw [List.take_append_drop]
  have htaken : (l.take k).filter (· ∉ l.take k) = [] :=
    List.filter_eq_nil_iff.mpr (fun a ha => by simpa using ha)
  have hleft : (l.drop k).filter (· ∉ l.take k) = l.drop k := by
    refine List.filter_eq_self.mpr (fun a ha => ?_)
    have hout : a ∉ l.take k := fun hin => List.disjoint_take_drop hn (Nat.le_refl k) hin ha
    simpa using hout
  rw [hsplit, List.filter_append, htaken, hleft, List.nil_append]

/-- Taking out the first elements of a list, one element x of a longer list is passed over. -/
theorem filter_notMem_take_cons (hn : (A ++ x :: B).Nodup) {k : Nat} (hk : A.length ≤ k) :
    (A ++ x :: B).filter (· ∉ (A ++ B).take k) = x :: B.drop (k - A.length) := by
  have htake : (A ++ B).take k = A ++ B.take (k - A.length) := by
    rw [List.take_append, List.take_of_length_le hk]
  have hperm : (A ++ x :: B).Perm (x :: (A ++ B)) := List.perm_middle
  obtain ⟨hx, hrest⟩ := List.nodup_cons.mp (hperm.nodup_iff.mp hn)
  have hAB : (A ++ B).filter (· ∉ (A ++ B).take k) = B.drop (k - A.length) := by
    rw [filter_notMem_take hrest, List.drop_append, List.drop_of_length_le hk, List.nil_append]
  have hkept : x ∉ (A ++ B).take k := fun hin => hx (List.mem_of_mem_take hin)
  have hA : A.filter (· ∉ (A ++ B).take k) = [] := by
    refine List.filter_eq_nil_iff.mpr (fun a ha => ?_)
    simp [htake, ha]
  rw [List.filter_append, hA, List.nil_append] at hAB
  rw [List.filter_append, hA, List.nil_append, List.filter_cons_of_pos (by simpa using hkept), hAB]

/-- Removing what overflows after each of two insertions comes to the same as removing
it once at the end: here x came in after the first removal. -/
theorem overflow_insert (hn : (A ++ x :: B).Nodup) (bound count : Int) :
    (overflow bound count (A ++ B) ++
      overflow bound (count + 1 - (overflow bound count (A ++ B)).length)
        ((A ++ x :: B).filter (· ∉ overflow bound count (A ++ B)))).Perm
    (overflow bound (count + 1) (A ++ x :: B)) := by
  unfold overflow
  by_cases hbound : bound ≤ 0
  · simp [hbound]
  · simp only [if_neg hbound]
    by_cases hnone : count ≤ bound
    · -- nothing was removed before
      have hzero : (count - bound).toNat = 0 := by omega
      simp [hzero]
    · obtain ⟨k, hk⟩ : ∃ k : Nat, count - bound = k := ⟨(count - bound).toNat, by omega⟩
      have hfirst : (count - bound).toNat = k := by omega
      have hall : (count + 1 - bound).toNat = k + 1 := by omega
      rw [hfirst, hall, List.length_take]
      by_cases hA : A.length ≤ k
      · -- x is among the elements to go, and it is the next one
        rw [filter_notMem_take_cons hn hA]
        have hone : (x :: B.drop (k - A.length)).take
            (count + 1 - (min k (A ++ B).length : Nat) - bound).toNat = [x] := by
          by_cases hlong : k ≤ (A ++ B).length
          · rw [Nat.min_eq_left hlong, show (count + 1 - (k : Nat) - bound).toNat = 1 by omega]
            rfl
          · have hlength : (A ++ B).length = A.length + B.length := List.length_append
            rw [List.drop_of_length_le (by omega), List.take_of_length_le]
            rw [List.length_singleton]
            omega
        have hsucc : k + 1 - A.length = k - A.length + 1 := by omega
        rw [hone, List.take_append, List.take_of_length_le hA, List.take_append,
          List.take_of_length_le (by omega : A.length ≤ k + 1), hsucc, List.take_succ_cons,
          List.append_assoc]
        exact (List.perm_append_singleton x _).append_left A
      · -- x comes after the elements to go
        have hshort : k ≤ A.length := by omega
        have htake : (A ++ B).take k = (A ++ x :: B).take k := by
          rw [List.take_append_of_le_length hshort, List.take_append_of_le_length hshort]
        have hlength : min k (A ++ B).length = k := by
          rw [List.length_append]
          omega
        rw [hlength, htake, filter_notMem_take hn,
          show (count + 1 - (k : Nat) - bound).toNat = 1 by omega]
        rw [← List.take_add]

end Moab
