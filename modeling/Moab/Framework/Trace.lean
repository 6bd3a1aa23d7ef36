import Mathlib.Algebra.BigOperators.Group.List.Basic

namespace Moab

variable {σ ℓ : Type}

/-- A labelled path of a transition relation. -/
inductive Trace (step : σ → ℓ → σ → Prop) : σ → List ℓ → σ → Prop where
  | nil (s : σ) : Trace step s [] s
  | cons {s t u : σ} {l : ℓ} {ls : List ℓ} (h : step s l t) (k : Trace step t ls u) :
    Trace step s (l :: ls) u

namespace Trace

variable {step : σ → ℓ → σ → Prop} {s t u : σ} {l : ℓ} {ls ls' : List ℓ}

theorem single (h : step s l t) : Trace step s [l] t := .cons h (.nil t)

theorem append (h : Trace step s ls t) (k : Trace step t ls' u) : Trace step s (ls ++ ls') u := by
  induction h with
  | nil => exact k
  | cons hs _ ih => exact .cons hs (ih k)

theorem split (h : Trace step s (ls ++ ls') u) : ∃ t, Trace step s ls t ∧ Trace step t ls' u := by
  induction ls generalizing s with
  | nil => exact ⟨s, .nil s, h⟩
  | cons l ls ih =>
    cases h with
    | cons hl hk =>
      obtain ⟨t, ht, hu⟩ := ih hk
      exact ⟨t, .cons hl ht, hu⟩

/-- What every step with a label of the path preserves, the path preserves. -/
theorem invariant_of {I : σ → Prop} (h : Trace step s ls t)
    (hI : ∀ l ∈ ls, ∀ s t, I s → step s l t → I t) (hs : I s) : I t := by
  induction h with
  | nil => exact hs
  | cons hl _ ih =>
    exact ih (fun l hm => hI l (List.mem_cons_of_mem _ hm)) (hI _ List.mem_cons_self _ _ hs hl)

/-- What every step preserves, every path preserves. -/
theorem invariant {I : σ → Prop} (hI : ∀ s l t, I s → step s l t → I t) (h : Trace step s ls t)
    (hs : I s) : I t :=
  h.invariant_of (fun l _ s t hi hl => hI s l t hi hl) hs

/-- A quantity that each step changes by an amount its label tells. -/
theorem total {α : Type} [AddMonoid α] (f : σ → α) (d : ℓ → α) (h : Trace step s ls t)
    (hd : ∀ l ∈ ls, ∀ s t, step s l t → f t = f s + d l) : f t = f s + (ls.map d).sum := by
  induction h with
  | nil => simp
  | cons hl _ ih =>
    rw [ih (fun l hm => hd l (List.mem_cons_of_mem _ hm)), hd _ List.mem_cons_self _ _ hl,
      List.map_cons, List.sum_cons, add_assoc]

end Trace

section Along

variable {ε α : Type} {step : σ → α → Except ε σ} {P Q : σ → α → Prop} {s t : σ}
    {a : α} {l : List α}

/-- A condition on every element of a list, in the state it is processed in.
Nothing is asked of what follows a failure. -/
def Along (step : σ → α → Except ε σ) (P : σ → α → Prop) : σ → List α → Prop
  | _, [] => True
  | s, a :: l => P s a ∧ match step s a with
    | .ok t => Along step P t l
    | .error _ => True

instance decidableAlong [∀ s a, Decidable (P s a)] : ∀ s l, Decidable (Along step P s l)
  | _, [] => .isTrue trivial
  | s, a :: l =>
    letI : Decidable (match step s a with
        | .ok t => Along step P t l
        | .error _ => True) :=
      match step s a with
      | .ok t => decidableAlong t l
      | .error _ => .isTrue trivial
    inferInstanceAs (Decidable (P s a ∧ _))

theorem Along.tail (h : Along step P s (a :: l)) (hs : step s a = .ok t) : Along step P t l := by
  have h2 := h.2
  rw [hs] at h2
  exact h2

theorem Along.cons (h : P s a) (k : ∀ t, step s a = .ok t → Along step P t l) :
    Along step P s (a :: l) := by
  refine ⟨h, ?_⟩
  cases hs : step s a with
  | ok t => exact k t hs
  | error e => trivial

theorem Along.imp (h : Along step P s l) (hpq : ∀ s a, P s a → Q s a) : Along step Q s l := by
  induction l generalizing s with
  | nil => trivial
  | cons a l ih => exact .cons (hpq s a h.1) (fun t hs => ih (h.tail hs))

theorem Along.and (h : Along step P s l) (k : Along step Q s l) :
    Along step (fun s a => P s a ∧ Q s a) s l := by
  induction l generalizing s with
  | nil => trivial
  | cons a l ih => exact .cons ⟨h.1, k.1⟩ (fun t hs => ih (h.tail hs) (k.tail hs))

theorem Along.of_mem {R : α → Prop} (h : ∀ a ∈ l, R a) : Along step (fun _ a => R a) s l := by
  induction l generalizing s with
  | nil => trivial
  | cons a l ih =>
    exact .cons (h a List.mem_cons_self)
      (fun t _ => ih (fun b hb => h b (List.mem_cons_of_mem _ hb)))

/-- A condition on the elements alone adds to one that depends on the state. -/
theorem Along.and_forall {R : α → Prop} (h : Along step P s l) (hr : ∀ a ∈ l, R a) :
    Along step (fun s a => P s a ∧ R a) s l := h.and (.of_mem hr)

/-- Where no step fails, a condition on the elements alone holds of all of them. -/
theorem Along.forall_mem {R : α → Prop} (h : Along step (fun _ a => R a) s l)
    (total : ∀ s a, ∃ t, step s a = .ok t) : ∀ a ∈ l, R a := by
  induction l generalizing s with
  | nil => simp
  | cons a l ih =>
    obtain ⟨t, ht⟩ := total s a
    exact List.forall_mem_cons.mpr ⟨h.1, ih (h.tail ht)⟩

/-- A step that never fails. -/
def total (f : σ → α → σ) (s : σ) (a : α) : Except Empty σ := .ok (f s a)

/-- Run rule: what every element keeps that meets P in the state it is processed
in, a run over such elements keeps. -/
theorem Along.foldl {f : σ → α → σ} {I : σ → Prop} (h : Along (total f) P s l)
    (hI : ∀ s a, I s → P s a → I (f s a)) (hs : I s) : I (l.foldl f s) := by
  induction l generalizing s with
  | nil => exact hs
  | cons a l ih => exact ih (h.tail rfl) (hI s a hs h.1)

/-- A condition along a run is one along what follows its first elements. -/
theorem Along.of_append {f : σ → α → σ} {k : List α} (h : Along (total f) P s (k ++ l)) :
    Along (total f) P (k.foldl f s) l := by
  induction k generalizing s with
  | nil => exact h
  | cons a k ih => exact ih (Along.tail h rfl)

end Along

end Moab
