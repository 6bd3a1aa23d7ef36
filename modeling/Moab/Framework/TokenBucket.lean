import Mathlib.Tactic.Linarith
import Mathlib.Tactic.Ring

namespace Moab

/-- A bucket that gains one token per interval, up to a capacity. -/
@[ext] structure Bucket where
  tokens : Int
  refilledAt : Int

namespace Bucket

variable {cap R now m : Int} {b : Bucket}

/-- Adds the tokens of the whole intervals that have passed. What is left of an
interval is kept, unless the bucket is full. -/
def refill (cap R now : Int) (b : Bucket) : Bucket :=
  if b.tokens < cap then
    if 0 < (now - b.refilledAt) / R then
      if cap < b.tokens + (now - b.refilledAt) / R then ⟨cap, now⟩
      else ⟨b.tokens + (now - b.refilledAt) / R, b.refilledAt + (now - b.refilledAt) / R * R⟩
    else b
  else ⟨b.tokens, now⟩

def spend (n : Int) (b : Bucket) : Bucket := ⟨b.tokens - n, b.refilledAt⟩

/-- Between empty and full, and not refilled in the future. -/
structure Ready (cap now : Int) (b : Bucket) : Prop where
  nonneg : 0 ≤ b.tokens
  le_cap : b.tokens ≤ cap
  past : b.refilledAt ≤ now

theorem Ready.mono {lo hi : Int} (h : b.Ready cap lo) (hle : lo ≤ hi) : b.Ready cap hi :=
  ⟨h.nonneg, h.le_cap, h.past.trans hle⟩

/-- What the bucket can give out until time m. -/
def allowance (R m : Int) (b : Bucket) : Int := b.tokens + (m - b.refilledAt) / R

theorem elapsed_mul_le (hR : 0 < R) (t : Int) : t / R * R ≤ t := Int.ediv_mul_le t (by omega)

theorem elapsed_nonneg (hR : 0 < R) {t : Int} (ht : 0 ≤ t) :
    0 ≤ t / R := Int.ediv_nonneg ht (by omega)

theorem refill_ready (hR : 0 < R) (h : b.Ready cap now) : (b.refill cap R now).Ready cap now := by
  have hpast := h.past
  have hmul := elapsed_mul_le hR (now - b.refilledAt)
  unfold refill
  split_ifs with hroom hnew hcap
  · exact ⟨by linarith [h.nonneg], le_refl _, le_refl _⟩
  · exact ⟨by linarith [h.nonneg], by simpa using hcap, by simp only; linarith⟩
  · exact h
  · exact ⟨h.nonneg, h.le_cap, le_refl _⟩

theorem spend_ready {n : Int} (h : b.Ready cap now) (hn : 0 ≤ n) (hle : n ≤ b.tokens) :
    (b.spend n).Ready cap now := by
  have hcap := h.le_cap
  exact ⟨by simp only [spend]; linarith, by simp only [spend]; linarith, h.past⟩

theorem spend_allowance (n : Int) : (b.spend n).allowance R m + n = b.allowance R m := by
  unfold spend allowance
  ring

/-- Refilling later gains at most what waiting for it does. -/
theorem elapsed_split (hR : 0 < R) (s t : Int) : s / R + t / R ≤ (s + t) / R := by
  rw [Int.le_ediv_iff_mul_le hR, add_mul]
  have hs := elapsed_mul_le hR s
  have ht := elapsed_mul_le hR t
  linarith

/-- A refill never adds to what the bucket can give out. -/
theorem refill_allowance (hR : 0 < R) (h : b.Ready cap now) :
    (b.refill cap R now).allowance R m ≤ b.allowance R m := by
  have hpast := h.past
  have hsplit := elapsed_split hR (now - b.refilledAt) (m - now)
  have hsum : now - b.refilledAt + (m - now) = m - b.refilledAt := by ring
  rw [hsum] at hsplit
  unfold refill allowance
  split_ifs with hroom hnew hcap
  · simp only
    linarith
  · simp only
    have hshift : m - (b.refilledAt + (now - b.refilledAt) / R * R) =
        m - b.refilledAt + -((now - b.refilledAt) / R) * R := by ring
    rw [hshift, Int.add_mul_ediv_right _ _ (by omega : R ≠ 0)]
    linarith
  · exact le_refl _
  · simp only
    have helapsed := elapsed_nonneg hR (by linarith : 0 ≤ now - b.refilledAt)
    linarith

/-- Right after a refill less than one interval is pending. -/
theorem refill_pending (hR : 0 < R) (h : b.Ready cap now) :
    now - (b.refill cap R now).refilledAt < R := by
  have hlt : now - b.refilledAt < ((now - b.refilledAt) / R + 1) * R :=
    Int.lt_ediv_add_one_mul_self _ hR
  unfold refill
  split_ifs with hroom hnew hcap
  · simp only
    linarith
  · simp only
    linarith
  · have hzero : (now - b.refilledAt) / R = 0 := by
      have helapsed := elapsed_nonneg hR (by linarith [h.past] : 0 ≤ now - b.refilledAt)
      omega
    rw [hzero] at hlt
    linarith
  · simp only
    linarith

/-- From a refill on, a bucket gives out no more than its capacity and one token for
every interval begun. -/
theorem refill_bound (hR : 0 < R) (h : b.Ready cap now) :
    (b.refill cap R now).allowance R m ≤ cap + (m - now + (R - 1)) / R := by
  have hcap := (refill_ready hR h).le_cap
  have hpending := refill_pending hR h
  have hmono : (m - (b.refill cap R now).refilledAt) / R ≤ (m - now + (R - 1)) / R :=
    Int.ediv_le_ediv hR (by linarith)
  unfold allowance
  linarith

end Bucket

end Moab
