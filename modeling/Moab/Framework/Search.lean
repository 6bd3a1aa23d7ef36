import Mathlib.Order.Basic

namespace Moab

/-- Binary search for the first place between i and j where f holds. -/
def searchBetween (f : Nat → Bool) : Nat → Nat → Nat → Nat
  | 0, i, _ => i
  | rounds + 1, i, j =>
    if i < j then
      if f ((i + j) / 2) then searchBetween f rounds i ((i + j) / 2)
      else searchBetween f rounds ((i + j) / 2 + 1) j
    else i

/-- sort.Search: the first of n places where f holds, or n. The interval gets shorter in
every round, so n rounds are enough. -/
def search (n : Nat) (f : Nat → Bool) : Nat := searchBetween f n 0 n

/-- A place before which f fails and from which on it holds, among n places. -/
structure Boundary (n : Nat) (f : Nat → Bool) (m : Nat) : Prop where
  le : m ≤ n
  before : ∀ i, i < m → f i = false
  after : ∀ i, m ≤ i → i < n → f i = true

variable {n : Nat} {f : Nat → Bool}

theorem searchBetween_boundary (mono : ∀ i j, i ≤ j → j < n → f i = true → f j = true)
    {rounds i j : Nat} (hrounds : j ≤ i + rounds) (hij : i ≤ j) (hjn : j ≤ n)
    (hbefore : ∀ k, k < i → f k = false) (hafter : ∀ k, j ≤ k → k < n → f k = true) :
    Boundary n f (searchBetween f rounds i j) := by
  induction rounds generalizing i j with
  | zero =>
    obtain rfl : i = j := by omega
    exact ⟨hjn, hbefore, hafter⟩
  | succ rounds ih =>
    unfold searchBetween
    -- the half that is left out is settled by the value in the middle
    split_ifs with hlt hmid
    · exact ih (by omega) (by omega) (by omega) hbefore (fun k hk hkn => mono _ k hk hkn hmid)
    · refine ih (by omega) (by omega) hjn ?_ hafter
      intro k hk
      by_contra hfk
      exact hmid (mono k _ (by omega) (by omega) (by simpa using hfk))
    · obtain rfl : i = j := by omega
      exact ⟨hjn, hbefore, hafter⟩

/-- A property that stays once it holds is found where it begins. -/
theorem search_boundary (mono : ∀ i j, i ≤ j → j < n → f i = true → f j = true) :
    Boundary n f (search n f) :=
  searchBetween_boundary mono (by omega) (by omega) (Nat.le_refl n) (by omega) (by omega)

end Moab
