import Mathlib.Logic.Basic

namespace Moab

/-- Two computations that fail with the same error or return related values. -/
def Related {ε α β : Type} (R : α → β → Prop) : Except ε α → Except ε β → Prop
  | .ok a, .ok b => R a b
  | .error e, .error f => e = f
  | .ok _, .error _ => False
  | .error _, .ok _ => False

namespace Related

variable {ε α β γ δ σ τ : Type} {R : α → β → Prop} {x : Except ε α} {y : Except ε β}

theorem ok {a : α} {b : β} (h : R a b) : Related R (.ok a : Except ε α) (.ok b) := h

theorem error (e : ε) : Related R (.error e) (.error e) := rfl

theorem mono {S : α → β → Prop} (h : Related R x y) (hS : ∀ a b, R a b → S a b) :
    Related S x y := by
  cases x <;> cases y
  · exact h
  · exact h
  · exact h
  · exact hS _ _ h

theorem of_ok {b : β} (h : Related R x (.ok b)) : ∃ a, x = .ok a ∧ R a b := by
  cases x with
  | error e => exact False.elim h
  | ok a => exact ⟨a, rfl, h⟩

/-- Two relations between the same computations, the second one seen from the other side. -/
theorem both {S : β → α → Prop} (h : Related R x y) (k : Related S y x) :
    Related (fun a b => R a b ∧ S b a) x y := by
  cases x <;> cases y
  · exact h
  · exact h
  · exact h
  · exact ⟨h, k⟩

/-- One computation, whose result the continuations share. -/
theorem same (x : Except ε α) : Related (fun a b => a = b ∧ x = .ok a) x x := by
  cases x
  · exact error _
  · exact ok ⟨rfl, rfl⟩

theorem bind {f : α → Except ε γ} {g : β → Except ε δ} {S : γ → δ → Prop} (h : Related R x y)
    (hfg : ∀ a b, R a b → Related S (f a) (g b)) : Related S (x >>= f) (y >>= g) := by
  cases x <;> cases y
  · exact h
  · exact False.elim h
  · exact False.elim h
  · exact hfg _ _ h

/-- A first part that is the same on both sides. -/
theorem bind_same {f : α → Except ε γ} {g : α → Except ε δ} {S : γ → δ → Prop} {x' : Except ε α}
    (h : x = x') (hfg : ∀ a, x' = .ok a → Related S (f a) (g a)) :
    Related S (x >>= f) (x' >>= g) := by
  subst h
  refine (same x).bind ?_
  rintro a _ ⟨rfl, ha⟩
  exact hfg a ha

theorem map {f : α → γ} {g : β → δ} {S : γ → δ → Prop}
    (h : Related (fun a b => S (f a) (g b)) x y) : Related S (x.map f) (y.map g) := by
  cases x <;> cases y <;> exact h

theorem map_right {g : β → δ} {S : α → δ → Prop} (h : Related (fun a b => S a (g b)) x y) :
    Related S x (y.map g) := by
  cases x <;> cases y <;> exact h

theorem ite {c : Prop} [Decidable c] {x' : Except ε α} {y' : Except ε β} (h : c → Related R x y)
    (h' : ¬c → Related R x' y') : Related R (if c then x else x') (if c then y else y') := by
  by_cases hc : c
  · rw [if_pos hc, if_pos hc]
    exact h hc
  · rw [if_neg hc, if_neg hc]
    exact h' hc

/-- Loop rule: both sides process the same list. -/
theorem foldlM {R : σ → τ → Prop} {f : σ → α → Except ε σ} {g : τ → α → Except ε τ} {l : List α}
    (step : ∀ a ∈ l, ∀ s t, R s t → Related R (f s a) (g t a)) {s : σ} {t : τ} (h : R s t) :
    Related R (l.foldlM f s) (l.foldlM g t) := by
  induction l generalizing s t with
  | nil => exact h
  | cons a l ih =>
    rw [List.foldlM_cons, List.foldlM_cons]
    refine (step a List.mem_cons_self s t h).bind ?_
    intro s' t' h'
    exact ih (fun b hb => step b (List.mem_cons_of_mem _ hb)) h'

/-- Loop rule for a loop that cannot fail. -/
theorem foldl {R : σ → τ → Prop} {f : σ → α → σ} {g : τ → α → τ} {l : List α}
    (step : ∀ a ∈ l, ∀ s t, R s t → R (f s a) (g t a)) {s : σ} {t : τ} (h : R s t) :
    R (l.foldl f s) (l.foldl g t) := by
  induction l generalizing s t with
  | nil => exact h
  | cons a l ih =>
    exact ih (fun b hb => step b (List.mem_cons_of_mem _ hb)) (step a List.mem_cons_self s t h)

end Related

/-- Mapping a list depends on the mapped elements only. -/
theorem mapM_congr {ε α β : Type} {f g : α → Except ε β} {l : List α} (h : ∀ a ∈ l, f a = g a) :
    l.mapM f = l.mapM g := by
  induction l with
  | nil => rfl
  | cons a l ih =>
    rw [List.mapM_cons, List.mapM_cons, h a List.mem_cons_self,
      ih (fun b hb => h b (List.mem_cons_of_mem _ hb))]

end Moab
