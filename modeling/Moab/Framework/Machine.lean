import Mathlib.Tactic.Linarith

namespace Moab

/-- An integer that 64 signed bits hold. -/
def Fits (n : Int) : Prop := -2 ^ 63 ≤ n ∧ n < 2 ^ 63

theorem Fits.bmod {n : Int} (h : Fits n) : n.bmod (2 ^ 64) = n :=
  Int.bmod_eq_of_le (by have := h.1; omega) (by have := h.2; omega)

section Exact

variable {a b : Int64}

theorem toInt_add_of_fits (h : Fits (a.toInt + b.toInt)) : (a + b).toInt = a.toInt + b.toInt := by
  rw [Int64.toInt_add, h.bmod]

theorem toInt_sub_of_fits (h : Fits (a.toInt - b.toInt)) : (a - b).toInt = a.toInt - b.toInt := by
  rw [Int64.toInt_sub, h.bmod]

theorem toInt_mul_of_fits (h : Fits (a.toInt * b.toInt)) : (a * b).toInt = a.toInt * b.toInt := by
  rw [Int64.toInt_mul, h.bmod]

/-- Division rounds towards zero, and wraps only for the least integer. -/
theorem toInt_div_of_lt (h : -2 ^ 63 < a.toInt) : (a / b).toInt = a.toInt.tdiv b.toInt := by
  rw [Int64.toInt_div]
  apply Fits.bmod
  have hle : (a.toInt.tdiv b.toInt).natAbs ≤ a.toInt.natAbs := by
    rw [Int.natAbs_tdiv]
    exact Nat.div_le_self _ _
  have hlt := a.toInt_lt
  exact ⟨by omega, by omega⟩

theorem toInt_div_of_nonneg (h : 0 ≤ a.toInt) : (a / b).toInt = a.toInt / b.toInt := by
  rw [toInt_div_of_lt (by omega), Int.tdiv_eq_ediv_of_nonneg h]

end Exact

theorem tdiv_nonpos {d r : Int} (hd : d ≤ 0) (hr : 0 ≤ r) : d.tdiv r ≤ 0 := by
  have hopp := Int.tdiv_nonneg (by omega : 0 ≤ -d) hr
  rw [Int.neg_tdiv] at hopp
  omega

/-- Whole divisors taken out of a distance lead no further than its other end. -/
theorem tdiv_mul_between (x d r : Int) : min x (x + d) ≤ x + d.tdiv r * r ∧
    x + d.tdiv r * r ≤ max x (x + d) := by
  have hsplit := Int.tdiv_mul_add_tmod d r
  have hrest : (d.tmod r).natAbs ≤ d.natAbs := by
    rw [Int.natAbs_tmod]
    exact Nat.mod_le _ _
  rcases le_total 0 d with hd | hd
  · have hpos := Int.tmod_nonneg r hd
    omega
  · have hneg : d.tmod r ≤ 0 := by
      have hopp := Int.tmod_nonneg r (by omega : 0 ≤ -d)
      rw [Int.neg_tmod] at hopp
      omega
    omega

end Moab
