import Mathlib.Data.List.Perm.Basic
import Mathlib.Order.Lattice

namespace Moab

variable {α β : Type} [LinearOrder β] {key : α → β} {n : Nat} {l l' : List α} {a : α}

/-- The elements of a list with the n greatest keys: fewer than n are greater. -/
def Newest (key : α → β) (n : Nat) (l : List α) (a : α) : Prop :=
  a ∈ l ∧ l.countP (fun b => key a < key b) < n

instance [DecidableEq α] : Decidable (Newest key n l a) :=
  inferInstanceAs (Decidable (_ ∧ _))

namespace Newest

theorem perm_iff (h : l.Perm l') : Newest key n l a ↔ Newest key n l' a := by
  unfold Newest
  rw [h.mem_iff, h.countP_eq]

/-- Keys are all that matters. -/
theorem map_iff {γ : Type} {f : γ → α} {m : List γ} {c : γ} (hc : c ∈ m) :
    Newest key n (m.map f) (f c) ↔ Newest (fun b => key (f b)) n m c := by
  unfold Newest
  rw [List.countP_map, and_iff_right (List.mem_map_of_mem hc), and_iff_right hc]
  rfl

/-- In a list sorted by key they come last. -/
theorem mem_drop_iff (h : l.Pairwise (fun a b => key a < key b)) :
    a ∈ l.drop (l.length - n) ↔ Newest key n l a := by
  induction l with
  | nil => simp [Newest]
  | cons x l ih =>
    obtain ⟨hx, hl⟩ := List.pairwise_cons.mp h
    have hcount : ∀ b ∈ x :: l, (x :: l).countP (fun c => key b < key c) =
        l.countP (fun c => key b < key c) := by
      intro b hb
      rw [List.countP_cons_of_neg]
      rcases List.mem_cons.mp hb with he | hb
      · simp [he]
      · simpa using le_of_lt (hx b hb)
    have hall : l.countP (fun c => key x < key c) = l.length := by
      rw [List.countP_eq_length]
      exact fun c hc => by simpa using hx c hc
    by_cases hn : l.length < n
    · -- everything is kept, since an element is not greater than itself
      rw [List.length_cons, Nat.sub_eq_zero_of_le hn, List.drop_zero]
      constructor
      · intro ha
        refine ⟨ha, ?_⟩
        rw [hcount a ha]
        exact Nat.lt_of_le_of_lt List.countP_le_length hn
      · exact fun ha => ha.1
    · have hlen : (x :: l).length - n = (l.length - n) + 1 := by
        rw [List.length_cons]
        omega
      rw [hlen, List.drop_succ_cons, ih hl]
      constructor
      · intro ha
        have hmem : a ∈ x :: l := List.mem_cons_of_mem x ha.1
        refine ⟨hmem, ?_⟩
        rw [hcount a hmem]
        exact ha.2
      · intro ha
        have hlt := ha.2
        rw [hcount a ha.1] at hlt
        rcases List.mem_cons.mp ha.1 with he | hmem
        · rw [he, hall] at hlt
          exact absurd hlt hn
        · exact ⟨hmem, hlt⟩

end Newest

end Moab
