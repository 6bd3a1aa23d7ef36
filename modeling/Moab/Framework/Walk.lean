import Mathlib.Order.Bounds.Basic
import Mathlib.Data.List.Nodup

namespace Moab

variable {α : Type} [LinearOrder α]

/-- The points of a set that come after a given one. -/
def pointsAfter (T : Set α) (a : α) : Set α := {x | x ∈ T ∧ a < x}

/-- Later starts leave fewer points. -/
theorem isLeast_advance {T : Set α} {a b c : α} (h : IsLeast (pointsAfter T a) c) (hab : a ≤ b)
    (hb : b < c) : IsLeast (pointsAfter T b) c := by
  refine ⟨⟨h.1.1, hb⟩, ?_⟩
  intro x hx
  exact h.2 ⟨hx.1, lt_of_le_of_lt hab hx.2⟩

/-- A walk over the points of a set up to a bound: where it starts, the points
it visits, the start among them, and the first one it finds beyond the bound. -/
inductive Walk (T : Set α) (bound : α) : α → List α → α → Prop where
  | stop {a : α} (h : bound < a) : Walk T bound a [] a
  | step {a b c : α} {l : List α} (h : a ≤ bound) (next : IsLeast (pointsAfter T a) b)
    (k : Walk T bound b l c) : Walk T bound a (a :: l) c

namespace Walk

variable {T : Set α} {bound a c x : α} {l : List α}

theorem beyond (h : Walk T bound a l c) : bound < c := by
  induction h with
  | stop h => exact h
  | step _ _ _ ih => exact ih

theorem start_le (h : Walk T bound a l c) : a ≤ c := by
  induction h with
  | stop h => exact le_refl _
  | step _ next _ ih => exact le_of_lt (lt_of_lt_of_le next.1.2 ih)

/-- The walk misses no point up to its bound. -/
theorem mem_iff (h : Walk T bound a l c) : x ∈ l ↔ x ≤ bound ∧ (x = a ∨ x ∈ pointsAfter T a) := by
  induction h with
  | @stop a h =>
    have hnot : ¬(x ≤ bound ∧ (x = a ∨ x ∈ pointsAfter T a)) := by
      rintro ⟨hx, rfl | hx'⟩
      · exact absurd hx (not_le.mpr h)
      · exact absurd (lt_of_le_of_lt hx h) (not_lt.mpr (le_of_lt hx'.2))
    simpa using hnot
  | @step a b c l h next k ih =>
    rw [List.mem_cons, ih]
    constructor
    · rintro (rfl | ⟨hx, rfl | hx'⟩)
      · exact ⟨h, Or.inl rfl⟩
      · exact ⟨hx, Or.inr next.1⟩
      · exact ⟨hx, Or.inr ⟨hx'.1, next.1.2.trans hx'.2⟩⟩
    · rintro ⟨hx, rfl | hx'⟩
      · exact Or.inl rfl
      · rcases eq_or_lt_of_le (next.2 hx') with he | hlt
        · exact Or.inr ⟨hx, Or.inl he.symm⟩
        · exact Or.inr ⟨hx, Or.inr ⟨hx'.1, hlt⟩⟩

theorem sorted (h : Walk T bound a l c) : l.Pairwise (· < ·) := by
  induction h with
  | stop h => exact List.Pairwise.nil
  | step _ next k ih =>
    refine List.Pairwise.cons ?_ ih
    intro x hx
    rcases (k.mem_iff.mp hx).2 with rfl | hx'
    · exact next.1.2
    · exact next.1.2.trans hx'.2

/-- A walk that visits anything ends at the first point beyond its bound. -/
theorem least (h : Walk T bound a l c) (ha : a ≤ bound) : IsLeast (pointsAfter T bound) c := by
  induction h with
  | stop h => exact absurd ha (not_le.mpr h)
  | @step a b c l _ next k ih =>
    cases k with
    | stop hb => exact isLeast_advance next ha hb
    | step hb next' k' => exact ih hb

/-- A walk from a point ends at a point. -/
theorem end_mem (h : Walk T bound a l c) (ha : a ∈ T) : c ∈ T := by
  induction h with
  | stop h => exact ha
  | step _ next _ ih => exact ih next.1.1

end Walk

/-- A list of the points from a on that come before f and not before first, each
of them once. The start counts as a point. -/
structure Covers (T : Set α) (a first f : α) (l : List α) : Prop where
  nodup : l.Nodup
  mem_iff : ∀ t, t ∈ l ↔ (t = a ∨ t ∈ pointsAfter T a) ∧ t < f ∧ first ≤ t

namespace Covers

variable {T : Set α} {a first f f' bound now : α} {l l' : List α}

theorem nil : Covers T a first a [] := by
  refine ⟨List.nodup_nil, ?_⟩
  intro t
  have hnot : ¬((t = a ∨ t ∈ pointsAfter T a) ∧ t < a ∧ first ≤ t) := by
    rintro ⟨rfl | hafter, hlt, _⟩
    · exact lt_irrefl _ hlt
    · exact lt_asymm hlt hafter.2
  simpa using hnot

/-- A walk from where the list ends extends it, if the points that it skips come
before the first one wanted. -/
theorem extend (h : Covers T a first f l) (hf : f = a ∨ f ∈ pointsAfter T a)
    (hw : Walk T bound f l' f') (hfirst : first ≤ now) (hskip : first = now ∨ now ≤ f) :
    Covers T a first f' (l ++ l'.filter (fun t => now ≤ t)) := by
  have hstart : a ≤ f := by
    rcases hf with rfl | hafter
    · exact le_refl _
    · exact le_of_lt hafter.2
  have hfrom : ∀ t ∈ l', f ≤ t := by
    intro t ht
    rcases (hw.mem_iff.mp ht).2 with rfl | hafter
    · exact le_refl _
    · exact le_of_lt hafter.2
  refine ⟨?_, ?_⟩
  · refine List.Nodup.append h.nodup ((hw.sorted.imp (fun hlt => ne_of_lt hlt)).filter _) ?_
    intro t ht ht'
    have hlt := ((h.mem_iff t).mp ht).2.1
    exact absurd hlt (not_lt.mpr (hfrom t (List.mem_of_mem_filter ht')))
  · intro t
    rw [List.mem_append, h.mem_iff, List.mem_filter, decide_eq_true_eq, hw.mem_iff]
    constructor
    · rintro (⟨hpoint, hlt, hle⟩ | ⟨⟨hbound, hpoint⟩, hnow⟩)
      · exact ⟨hpoint, lt_of_lt_of_le hlt hw.start_le, hle⟩
      · refine ⟨?_, lt_of_le_of_lt hbound hw.beyond, le_trans hfirst hnow⟩
        rcases hpoint with rfl | hafter
        · exact hf
        · exact Or.inr ⟨hafter.1, lt_of_le_of_lt hstart hafter.2⟩
    · rintro ⟨hpoint, hlt, hle⟩
      by_cases hold : t < f
      · exact Or.inl ⟨hpoint, hold, hle⟩
      have hft : f ≤ t := not_lt.mp hold
      have hnow : now ≤ t := by
        rcases hskip with rfl | hskip
        · exact hle
        · exact le_trans hskip hft
      have hpoint' : t = f ∨ t ∈ pointsAfter T f := by
        rcases eq_or_lt_of_le hft with he | hlt'
        · exact Or.inl he.symm
        · rcases hpoint with rfl | hafter
          · exact absurd hlt' (not_lt.mpr hstart)
          · exact Or.inr ⟨hafter.1, hlt'⟩
      refine Or.inr ⟨⟨?_, hpoint'⟩, hnow⟩
      -- a point beyond the bound is where the walk ends or later
      by_contra hbound
      have hbound := not_le.mp hbound
      rcases le_or_gt f bound with hfb | hfb
      · rcases hpoint' with rfl | hafter
        · exact absurd hbound (not_lt.mpr hfb)
        · exact absurd hlt (not_lt.mpr ((hw.least hfb).2 ⟨hafter.1, hbound⟩))
      · cases hw with
        | stop _ => exact absurd hlt (not_lt.mpr hft)
        | step hfb' _ _ => exact absurd hfb' (not_le.mpr hfb)

end Covers

end Moab
