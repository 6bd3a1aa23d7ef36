import Mathlib.Data.List.Forall2

namespace Moab

/-- A computation that returns a value returns one satisfying P, and one that
fails does so only when E holds. E is False for a proof of totality and True for
one of partial correctness, so one rule serves both. -/
def Ensures {ε α : Type} (E : Prop) (x : Except ε α) (P : α → Prop) : Prop :=
  match x with
  | .ok a => P a
  | .error _ => E

instance {ε α : Type} {E : Prop} {P : α → Prop} [Decidable E] [∀ a, Decidable (P a)]
    (x : Except ε α) : Decidable (Ensures E x P) :=
  match x with
  | .ok a => inferInstanceAs (Decidable (P a))
  | .error _ => inferInstanceAs (Decidable E)

namespace Ensures

variable {ε α β σ : Type} {E : Prop} {P Q : α → Prop}

theorem ok {a : α} (h : P a) : Ensures E (Except.ok a : Except ε α) P := h

theorem pure {a : α} (h : P a) : Ensures E (Pure.pure a : Except ε α) P := h

theorem error {e : ε} (h : E) : Ensures E (Except.error e : Except ε α) P := h

theorem mono {x : Except ε α} (h : Ensures E x P) (hp : ∀ a, P a → Q a) : Ensures E x Q := by
  cases x with
  | ok a => exact hp a h
  | error e => exact h

/-- Allowing more failures. -/
theorem weaken {F : Prop} {x : Except ε α} (h : Ensures E x P) (hE : E → F) : Ensures F x P := by
  cases x with
  | ok a => exact h
  | error e => exact hE h

theorem and {x : Except ε α} (h : Ensures E x P) (k : Ensures E x Q) :
    Ensures E x (fun a => P a ∧ Q a) := by
  cases x with
  | ok a => exact ⟨h, k⟩
  | error e => exact h

/-- A partial result adds to one that also says when the computation may fail. -/
theorem both {x : Except ε α} (h : Ensures E x P) (k : Ensures True x Q) :
    Ensures E x (fun a => P a ∧ Q a) := by
  cases x with
  | ok a => exact ⟨h, k⟩
  | error e => exact h

theorem bind {x : Except ε α} {f : α → Except ε β} {R : β → Prop} (h : Ensures E x P)
    (hf : ∀ a, P a → Ensures E (f a) R) : Ensures E (x >>= f) R := by
  cases x with
  | ok a => exact hf a h
  | error e => exact h

/-- A first part of which nothing is needed. -/
theorem bind_any {x : Except ε α} {f : α → Except ε β} {R : β → Prop}
    (hf : ∀ a, Ensures True (f a) R) : Ensures True (x >>= f) R := by
  cases x with
  | ok a => exact hf a
  | error e => exact trivial

/-- What follows a computation may be exchanged where its results allow it. -/
theorem bind_congr {x : Except ε α} {f g : α → Except ε β} (h : Ensures E x P)
    (hfg : ∀ a, P a → f a = g a) : x >>= f = x >>= g := by
  cases x with
  | ok a => exact hfg a h
  | error e => rfl

theorem ite {c : Prop} [Decidable c] {x y : Except ε α} (hx : c → Ensures E x P)
    (hy : ¬c → Ensures E y P) : Ensures E (if c then x else y) P := by
  by_cases h : c
  · rw [if_pos h]
    exact hx h
  · rw [if_neg h]
    exact hy h

theorem map {x : Except ε α} {f : α → β} {R : β → Prop}
    (h : Ensures E x (fun a => R (f a))) : Ensures E (x.map f) R := by
  cases x with
  | ok a => exact h
  | error e => exact h

theorem of_map {x : Except ε α} {f : α → β} {R : β → Prop} (h : Ensures E (x.map f) R) :
    Ensures E x (fun a => R (f a)) := by
  cases x with
  | ok a => exact h
  | error e => exact h

/-- The facts about one computation that do not mention how it was reached. -/
theorem of_eq {x : Except ε α} (h : ∀ a, x = .ok a → P a) (he : ∀ e, x = .error e → E) :
    Ensures E x P := by
  cases x with
  | ok a => exact h a rfl
  | error e => exact he e rfl

/-- A result may be remembered by the computation it came from. -/
theorem self {x : Except ε α} (h : Ensures E x P) : Ensures E x (fun a => x = .ok a ∧ P a) := by
  cases x with
  | ok a => exact ⟨rfl, h⟩
  | error e => exact h

theorem elim {x : Except ε α} {a : α} (h : Ensures E x P) (hx : x = .ok a) : P a := by
  subst hx; exact h

/-- A computation that may not fail returns. -/
theorem returns {x : Except ε α} (h : Ensures False x P) : ∃ a, x = .ok a ∧ P a := by
  cases x with
  | ok a => exact ⟨a, rfl, h⟩
  | error e => exact False.elim h

/-- Loop rule. The invariant may mention what is still to be processed. -/
theorem foldlM {f : σ → α → Except ε σ} (I : List α → σ → Prop)
    (step : ∀ a l s, I (a :: l) s → Ensures E (f s a) (I l)) (l : List α) (s : σ) (h : I l s) :
    Ensures E (l.foldlM f s) (I []) := by
  induction l generalizing s with
  | nil => exact h
  | cons a l ih =>
    rw [List.foldlM_cons]
    exact (step a l s h).bind (fun s' hs => ih s' hs)

end Ensures

/-- A loop whose every step is a plain one. -/
theorem foldlM_eq_ok {ε α σ : Type} {f : σ → α → Except ε σ} {g : σ → α → σ} {l : List α}
    (h : ∀ a ∈ l, ∀ s, f s a = .ok (g s a)) (s : σ) : l.foldlM f s = .ok (l.foldl g s) := by
  induction l generalizing s with
  | nil => rfl
  | cons a l ih =>
    rw [List.foldlM_cons, h a List.mem_cons_self, List.foldl_cons]
    exact ih (fun b hb => h b (List.mem_cons_of_mem _ hb)) (g s a)

/-- A loop does not depend on the order of its list if two steps that follow each other
can be exchanged, wherever the invariant holds. -/
theorem foldlM_perm {ε α σ : Type} {f : σ → α → Except ε σ} {I : σ → Prop} {R : α → α → Prop}
    (symm : ∀ {a b}, R a b → R b a) (keeps : ∀ s a, I s → Ensures True (f s a) I)
    (swap : ∀ s a b s₁ w, I s → R a b → f s a = .ok s₁ → f s₁ b = .ok w →
      ∃ s₂, f s b = .ok s₂ ∧ f s₂ a = .ok w)
    {l l' : List α} (hp : l.Perm l') (hR : l.Pairwise R) {s w : σ} (hs : I s)
    (h : l.foldlM f s = .ok w) : l'.foldlM f s = .ok w := by
  induction hp generalizing s with
  | nil => exact h
  | cons a _ ih =>
    rw [List.foldlM_cons] at h ⊢
    cases ha : f s a with
    | error e => rw [ha] at h; cases h
    | ok s₁ =>
      rw [ha] at h
      exact ih (List.pairwise_cons.mp hR).2 ((keeps s a hs).elim ha) h
  | swap a b l =>
    simp only [List.foldlM_cons] at h ⊢
    cases hb : f s b with
    | error e => rw [hb] at h; cases h
    | ok s₁ =>
      rw [hb] at h
      cases ha : f s₁ a with
      | error e => simp [ha, bind, Except.bind] at h
      | ok s₂ =>
        have hba : R b a := (List.pairwise_cons.mp hR).1 a List.mem_cons_self
        obtain ⟨s₃, ha', hb'⟩ := swap s b a s₁ s₂ hs hba hb ha
        simp only [ha, ha', hb', bind, Except.bind] at h ⊢
        exact h
  | trans hp _ ih₁ ih₂ => exact ih₂ ((hp.pairwise_iff symm).mp hR) hs (ih₁ hR hs h)

/-- A list that is mapped without an error has its results in order. -/
theorem forall₂_of_mapM_ok {ε α β : Type} {f : α → Except ε β} {xs : List α} {ys : List β}
    (h : xs.mapM f = .ok ys) : List.Forall₂ (fun x y => f x = .ok y) xs ys := by
  induction xs generalizing ys with
  | nil =>
    obtain rfl := Except.ok.inj h
    exact .nil
  | cons a xs ih =>
    rw [List.mapM_cons] at h
    cases ha : f a with
    | error e => simp [ha, bind, Except.bind] at h
    | ok b =>
      cases hrest : xs.mapM f with
      | error e => simp [ha, hrest, bind, Except.bind] at h
      | ok bs =>
        simp only [ha, hrest, bind, Except.bind, pure, Except.pure, Except.ok.injEq] at h
        obtain rfl := h
        exact .cons ha (ih hrest)

theorem exists_of_mem_left {α β : Type} {R : α → β → Prop} {xs : List α} {ys : List β}
    (h : List.Forall₂ R xs ys) {x : α} (hx : x ∈ xs) : ∃ y ∈ ys, R x y := by
  induction h with
  | nil => simp at hx
  | @cons a b xs ys hab _ ih =>
    rcases List.mem_cons.mp hx with rfl | hx
    · exact ⟨b, List.mem_cons_self, hab⟩
    · obtain ⟨y, hy, hr⟩ := ih hx
      exact ⟨y, List.mem_cons_of_mem _ hy, hr⟩

theorem exists_of_mem_right {α β : Type} {R : α → β → Prop} {xs : List α} {ys : List β}
    (h : List.Forall₂ R xs ys) {y : β} (hy : y ∈ ys) : ∃ x ∈ xs, R x y :=
  exists_of_mem_left h.flip hy

/-- What related elements have or lack together, their lists do. -/
theorem forall_mem_iff_of_forall₂ {α β : Type} {R : α → β → Prop} {P : α → Prop} {Q : β → Prop}
    {xs : List α} {ys : List β} (h : List.Forall₂ R xs ys)
    (hpq : ∀ x ∈ xs, ∀ y, R x y → (Q y ↔ P x)) : (∀ y ∈ ys, Q y) ↔ ∀ x ∈ xs, P x := by
  constructor
  · intro hq x hx
    obtain ⟨y, hy, hr⟩ := exists_of_mem_left h hx
    exact (hpq x hx y hr).mp (hq y hy)
  · intro hp y hy
    obtain ⟨x, hx, hr⟩ := exists_of_mem_right h hy
    exact (hpq x hx y hr).mpr (hp x hx)

/-- A list can be mapped if and only if each of its elements can. -/
theorem exists_mapM_ok_iff {ε α β : Type} {f : α → Except ε β} {xs : List α} :
    (∃ ys, xs.mapM f = .ok ys) ↔ ∀ x ∈ xs, ∃ y, f x = .ok y := by
  constructor
  · rintro ⟨ys, hys⟩ x hx
    obtain ⟨y, _, hy⟩ := exists_of_mem_left (forall₂_of_mapM_ok hys) hx
    exact ⟨y, hy⟩
  · intro h
    induction xs with
    | nil => exact ⟨[], rfl⟩
    | cons a xs ih =>
      obtain ⟨b, hb⟩ := h a List.mem_cons_self
      obtain ⟨bs, hbs⟩ := ih (fun x hx => h x (List.mem_cons_of_mem _ hx))
      refine ⟨b :: bs, ?_⟩
      rw [List.mapM_cons, hb, hbs]
      rfl

end Moab
