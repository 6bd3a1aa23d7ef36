import Moab.Tasks.Areas

namespace Moab

open OrderedStore

variable [OrderedStore] {A B : Area} {s s' u : State}

/-- Whatever the state has in the area, the area is closed under following it. -/
def Area.ProperIn (A : Area) (s : State) : Prop :=
  ∀ a v, A.Owns a → s.value a = some v → A.Proper a v

theorem Area.ProperIn.alike (h : A.ProperIn s) (hsame : ∀ a, A.Owns a → s.value a = u.value a) :
    Alike A s s u := ⟨hsame, fun _ _ _ => rfl, h⟩

theorem Area.ProperIn.congr (h : A.ProperIn s) (hsame : ∀ a, A.Owns a → s.value a = u.value a) :
    A.ProperIn u := by
  intro a v ha hv
  rw [← hsame a ha] at hv
  exact h a v ha hv

/-- A counter is read and written back. -/
def bump (q : QueueId) (f : TasksCounter → TasksCounter) (x : Table QueueId TasksCounter) :
    Table QueueId TasksCounter := x.set q (f ((x.get q).getD .zero))

theorem bump_comm {f g : TasksCounter → TasksCounter} (hfg : ∀ c, f (g c) = g (f c)) (p q : QueueId)
    (x : Table QueueId TasksCounter) : bump p f (bump q g x) = bump q g (bump p f x) := by
  refine Table.ext (fun k => ?_)
  unfold bump
  by_cases hpq : p = q
  · subst hpq
    simp only [Table.get_set]
    split_ifs
    · simp [hfg]
    · rfl
  · simp only [Table.get_set, if_neg hpq, if_neg (Ne.symm hpq)]
    by_cases hp : k = p
    · simp [hp, hpq]
    · simp [hp]

/-- The computation f stays in the area, looks at no counter, and does to the counters
what F does. -/
structure Errand (A : Area) (F : Table QueueId TasksCounter → Table QueueId TasksCounter)
    (f : State → Except CoreError State) : Prop where
  blind : ∀ q, ¬A.counter q
  confined : ∀ s₀ s u, Alike A s₀ s u → Related (Alike A s₀) (f s) (f u)
  books : ∀ s, Ensures True (f s) (fun s' => s'.counters = F s.counters)

namespace Errand

variable {F G : Table QueueId TasksCounter → Table QueueId TasksCounter}
  {f g : State → Except CoreError State}

theorem frame (hf : Errand A F f) (hA : A.ProperIn s) (hs : f s = .ok s') {a : Address}
    (ha : ¬A.Owns a) (hc : ∀ q, a ≠ .counter q) : s'.value a = s.value a := by
  have hrun := hf.confined s s s (hA.alike (fun _ _ => rfl))
  rw [hs] at hrun
  refine hrun.frame a ha (fun ht => ?_)
  cases a with
  | counter q => exact hc q rfl
  | _ => exact ht

theorem not_counter (hf : Errand A F f) {a : Address} (ha : A.Owns a) (q : QueueId) :
    a ≠ .counter q := by
  intro he
  subst he
  exact hf.blind q ha

/-- Two errands in disjoint areas can be run in either order. -/
theorem commute (hf : Errand A F f) (hg : Errand B G g) (hFG : ∀ x, F (G x) = G (F x))
    (hAB : ∀ a, A.Owns a → ¬B.Owns a) (hA : A.ProperIn s) (hB : B.ProperIn s) {w : State}
    (h1 : f s = .ok s') (h2 : g s' = .ok w) : ∃ s₂, g s = .ok s₂ ∧ f s₂ = .ok w := by
  -- g finds its area as f does not touch it, and so the other way round
  have hsameB : ∀ a, B.Owns a → s.value a = s'.value a := fun a ha =>
    (hf.frame hA h1 (fun hAa => hAB a hAa ha) (hg.not_counter ha)).symm
  have hrunB := hg.confined s s s' (hB.alike hsameB)
  rw [h2] at hrunB
  obtain ⟨s₂, hs₂, hB2⟩ := hrunB.of_ok
  have hsameA : ∀ a, A.Owns a → s.value a = s₂.value a := fun a ha =>
    (hg.frame hB hs₂ (hAB a ha) (hf.not_counter ha)).symm
  have hrunA := hf.confined s₂ s₂ s ((hA.congr hsameA).alike (fun a ha => (hsameA a ha).symm))
  rw [h1] at hrunA
  obtain ⟨w', hw', hA2⟩ := hrunA.of_ok
  refine ⟨s₂, hs₂, ?_⟩
  rw [hw']
  congr 1
  refine State.ext_value (fun a => ?_)
  by_cases ha : A.Owns a
  · rw [hA2.same a ha, hg.frame (hB.congr hsameB) h2 (hAB a ha) (hf.not_counter ha)]
  by_cases hb : B.Owns a
  · rw [hf.frame (hA.congr hsameA) hw' ha (hg.not_counter hb), hB2.same a hb]
  by_cases hc : ∃ q, a = .counter q
  · obtain ⟨q, rfl⟩ := hc
    have hone : w.counters = G (F s.counters) := by
      rw [(hg.books s').elim h2, (hf.books s).elim h1]
    have htwo : w'.counters = F (G s.counters) := by
      rw [(hf.books s₂).elim hw', (hg.books s).elim hs₂]
    have hsame : w'.counters = w.counters := by rw [hone, htwo, hFG]
    exact congrArg (fun x : Table QueueId TasksCounter => x.get q) hsame
  · have hc' : ∀ q, a ≠ .counter q := fun q he => hc ⟨q, he⟩
    rw [hf.frame (hA.congr hsameA) hw' ha hc', hg.frame hB hs₂ hb hc',
      hg.frame (hB.congr hsameB) h2 hb hc', hf.frame hA h1 ha hc']

end Errand

end Moab
