import Mathlib.Algebra.Order.Ring.Nat

namespace Moab

/-- The low w bytes of a number, the most significant one first. -/
def bigEndian : Nat → Nat → List (Fin 256)
  | 0, _ => []
  | w + 1, n => bigEndian w (n / 256) ++ [Fin.ofNat 256 n]

@[simp] theorem length_bigEndian (w n : Nat) : (bigEndian w n).length = w := by
  induction w generalizing n with
  | zero => rfl
  | succ w ih => simp [bigEndian, ih]

theorem bigEndian_inj {w m n : Nat} (hm : m < 256 ^ w) (hn : n < 256 ^ w)
    (h : bigEndian w m = bigEndian w n) : m = n := by
  induction w generalizing m n with
  | zero =>
    rw [Nat.pow_zero] at hm hn
    omega
  | succ w ih =>
    obtain ⟨hhigh, hlow⟩ := List.append_inj' h rfl
    have hquot : m / 256 = n / 256 := by
      apply ih _ _ hhigh
      · rw [Nat.div_lt_iff_lt_mul (by decide), ← Nat.pow_succ]
        exact hm
      · rw [Nat.div_lt_iff_lt_mul (by decide), ← Nat.pow_succ]
        exact hn
    have hrem : m % 256 = n % 256 := congrArg Fin.val (List.cons.inj hlow).1
    omega

/-- A number of fixed width is read back from the front of a key. -/
theorem bigEndian_append_inj {w m n : Nat} {a b : List (Fin 256)} (hm : m < 256 ^ w)
    (hn : n < 256 ^ w) (h : bigEndian w m ++ a = bigEndian w n ++ b) : m = n ∧ a = b := by
  obtain ⟨hhead, htail⟩ := List.append_inj h (by simp)
  exact ⟨bigEndian_inj hm hn hhead, htail⟩

/-- Lists are compared at the end of their first parts if these have one length. -/
theorem append_lt_append_iff {α : Type} [LT α] {x y a b : List α}
    (hirrefl : ∀ c : α, ¬c < c) (hxy : x.length = y.length) :
    x ++ a < y ++ b ↔ x < y ∨ x = y ∧ a < b := by
  induction x generalizing y with
  | nil =>
    obtain rfl := List.eq_nil_of_length_eq_zero hxy.symm
    simp
  | cons c x ih =>
    cases y with
    | nil => exact absurd hxy (by simp)
    | cons d y =>
      rw [List.cons_append, List.cons_append, List.cons_lt_cons_iff, List.cons_lt_cons_iff,
        ih (by simpa using hxy), List.cons.injEq]
      by_cases hcd : c = d
      · subst hcd
        simp [hirrefl c]
      · simp [hcd]

/-- The bytes of two numbers of one width are in the order of the numbers. -/
theorem bigEndian_lt_iff {w m n : Nat} (hm : m < 256 ^ w) (hn : n < 256 ^ w) :
    bigEndian w m < bigEndian w n ↔ m < n := by
  induction w generalizing m n with
  | zero =>
    rw [Nat.pow_zero] at hm hn
    have hmn : m = n := by omega
    simp [hmn, bigEndian]
  | succ w ih =>
    have hm' : m / 256 < 256 ^ w := by
      rw [Nat.div_lt_iff_lt_mul (by decide), ← Nat.pow_succ]
      exact hm
    have hn' : n / 256 < 256 ^ w := by
      rw [Nat.div_lt_iff_lt_mul (by decide), ← Nat.pow_succ]
      exact hn
    have hhigh : bigEndian w (m / 256) = bigEndian w (n / 256) ↔ m / 256 = n / 256 :=
      ⟨bigEndian_inj hm' hn', fun h => by rw [h]⟩
    have hlow : [Fin.ofNat 256 m] < [Fin.ofNat 256 n] ↔ m % 256 < n % 256 := by
      simp [List.cons_lt_cons_iff, Fin.lt_def]
    rw [bigEndian, bigEndian, append_lt_append_iff (fun c => Nat.lt_irrefl c.val) (by simp),
      ih hm' hn', hhigh, hlow]
    omega

/-- A number of fixed width decides the order of two keys that begin with it. -/
theorem bigEndian_append_lt_iff {w m n : Nat} {a b : List (Fin 256)} (hm : m < 256 ^ w)
    (hn : n < 256 ^ w) :
    bigEndian w m ++ a < bigEndian w n ++ b ↔ m < n ∨ m = n ∧ a < b := by
  rw [append_lt_append_iff (fun c => Nat.lt_irrefl c.val) (by simp), bigEndian_lt_iff hm hn]
  constructor
  · intro h
    exact h.imp_right (fun he => ⟨bigEndian_inj hm hn he.1, he.2⟩)
  · intro h
    exact h.imp_right (fun he => ⟨by rw [he.1], he.2⟩)

/-- The number that some bytes stand for, the most significant one first. -/
def ofBigEndian (bytes : List (Fin 256)) : Nat := bytes.foldl (fun n b => n * 256 + b.val) 0

theorem ofBigEndian_bigEndian {w n : Nat} (hn : n < 256 ^ w) : ofBigEndian (bigEndian w n) = n := by
  induction w generalizing n with
  | zero =>
    rw [Nat.pow_zero] at hn
    simp only [bigEndian, ofBigEndian, List.foldl_nil]
    omega
  | succ w ih =>
    have hn' : n / 256 < 256 ^ w := by
      rw [Nat.div_lt_iff_lt_mul (by decide), ← Nat.pow_succ]
      exact hn
    have hquot := ih hn'
    rw [ofBigEndian] at hquot
    rw [bigEndian, ofBigEndian, List.foldl_append, hquot]
    simp only [List.foldl_cons, List.foldl_nil, Fin.val_ofNat]
    omega

end Moab
