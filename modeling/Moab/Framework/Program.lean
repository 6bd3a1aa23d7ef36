import Mathlib.Data.List.Basic
import Moab.Framework.Trace

namespace Moab

/-- A program over an interface: it is done, or it performs an operation of the
interface and goes on with the answer. -/
inductive Program (E : Type) (R : E → Type) (α : Type) where
  | done (a : α)
  | perform (e : E) (next : R e → Program E R α)

namespace Program

variable {E : Type} {R : E → Type} {α β : Type}

def bind : Program E R α → (α → Program E R β) → Program E R β
  | .done a, f => f a
  | .perform e next, f => .perform e (fun r => (next r).bind f)

instance : Monad (Program E R) where
  pure := .done
  bind := .bind

/-- One operation. -/
def operation (e : E) : Program E R (R e) := .perform e .done

/-- An operation with the answer it got. -/
structure Event (E : Type) (R : E → Type) where
  effect : E
  answer : R effect

/-- The program gets the answers of the events, in their order, and returns b. Any
behaviour of the other side of the interface is one of these runs. -/
def Runs : Program E R α → List (Event E R) → α → Prop
  | .done a, es, b => es = [] ∧ a = b
  | .perform e next, es, b => ∃ r rest, es = ⟨e, r⟩ :: rest ∧ (next r).Runs rest b

theorem runs_bind {p : Program E R α} {f : α → Program E R β} {es : List (Event E R)} {b : β} :
    (p >>= f).Runs es b ↔ ∃ es₁ es₂ a, es = es₁ ++ es₂ ∧ p.Runs es₁ a ∧ (f a).Runs es₂ b := by
  induction p generalizing es with
  | done a =>
    constructor
    · intro h
      exact ⟨[], es, a, rfl, ⟨rfl, rfl⟩, h⟩
    · intro h
      obtain ⟨es₁, es₂, c, rfl, ⟨rfl, rfl⟩, h⟩ := h
      exact h
  | perform e next ih =>
    constructor
    · intro h
      obtain ⟨r, rest, rfl, h⟩ := h
      obtain ⟨es₁, es₂, a, rfl, hp, hf⟩ := (ih r).mp h
      exact ⟨⟨e, r⟩ :: es₁, es₂, a, rfl, ⟨r, es₁, rfl, hp⟩, hf⟩
    · intro h
      obtain ⟨es₁, es₂, a, rfl, ⟨r, rest, rfl, hp⟩, hf⟩ := h
      exact ⟨r, rest ++ es₂, rfl, (ih r).mpr ⟨rest, es₂, a, rfl, hp, hf⟩⟩

/-- In every run whose answers all meet A, the operations meet P and the result Q. -/
def Obeys (A : Event E R → Prop) (P : E → Prop) (Q : α → Prop) (p : Program E R α) : Prop :=
  ∀ es a, p.Runs es a → (∀ e ∈ es, A e) → (∀ e ∈ es, P e.effect) ∧ Q a

section Obeys

variable {A : Event E R → Prop} {P : E → Prop} {Q : α → Prop} {S : β → Prop}

theorem Obeys.pure {a : α} (h : Q a) : Obeys A P Q (Pure.pure a : Program E R α) := by
  intro es b hruns _
  obtain ⟨rfl, rfl⟩ := hruns
  exact ⟨by simp, h⟩

theorem Obeys.bind {p : Program E R α} {f : α → Program E R β} (hp : Obeys A P Q p)
    (hf : ∀ a, Q a → Obeys A P S (f a)) : Obeys A P S (p >>= f) := by
  intro es b hruns hes
  obtain ⟨es₁, es₂, a, rfl, hfirst, hsecond⟩ := runs_bind.mp hruns
  rw [List.forall_mem_append] at hes
  obtain ⟨hp, hq⟩ := hp es₁ a hfirst hes.1
  obtain ⟨hrest, hs⟩ := hf a hq es₂ b hsecond hes.2
  exact ⟨List.forall_mem_append.mpr ⟨hp, hrest⟩, hs⟩

theorem Obeys.operation {e : E} (h : P e) :
    Obeys A P (fun r => A ⟨e, r⟩) (operation e : Program E R (R e)) := by
  intro es r hruns hes
  obtain ⟨r', rest, rfl, rfl, rfl⟩ := hruns
  exact ⟨by simpa using h, hes _ List.mem_cons_self⟩

theorem Obeys.mono {p : Program E R α} {Q' : α → Prop} (h : Obeys A P Q p) (hq : ∀ a, Q a → Q' a) :
    Obeys A P Q' p := by
  intro es a hruns hes
  obtain ⟨hp, ha⟩ := h es a hruns hes
  exact ⟨hp, hq a ha⟩

end Obeys

/-- An answer for every operation in every state. -/
def Server (σ : Type) (R : E → Type) := σ → (e : E) → σ × R e

/-- The program against a server, with the events it goes through. -/
def serve {σ : Type} (server : Server σ R) : Program E R α → σ → σ × List (Event E R) × α
  | .done a, s => (s, [], a)
  | .perform e next, s =>
    let r := server s e
    let rest := (next r.2).serve server r.1
    (rest.1, ⟨e, r.2⟩ :: rest.2.1, rest.2.2)

/-- Against any server the program goes through one of its runs. -/
theorem runs_serve {σ : Type} (server : Server σ R) (p : Program E R α) (s : σ) :
    p.Runs (p.serve server s).2.1 (p.serve server s).2.2 := by
  induction p generalizing s with
  | done a => exact ⟨rfl, rfl⟩
  | perform e next ih => exact ⟨_, _, rfl, ih _ _⟩

/-- A server whose every answer is a step of a relation takes a path of it. -/
theorem trace_serve {σ : Type} {server : Server σ R} {step : σ → Event E R → σ → Prop}
    (h : ∀ s e, step s ⟨e, (server s e).2⟩ (server s e).1) (p : Program E R α) (s : σ) :
    Trace step s (p.serve server s).2.1 (p.serve server s).1 := by
  induction p generalizing s with
  | done a => exact .nil s
  | perform e next ih => exact .cons (h s e) (ih _ _)

end Program

end Moab
