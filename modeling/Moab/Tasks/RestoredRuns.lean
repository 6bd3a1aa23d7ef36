import Moab.Tasks.Restored
import Moab.Tasks.Unthreaded

namespace Moab

open OrderedStore

section Acts

variable [OrderedStore] {owns : QueueId → Bool} {s s' : State}

/-- A core is called, or replaced by one restored from its own snapshot. -/
inductive Act where
  | call (c : Call)
  | restore
  deriving DecidableEq

def actStep (owns : QueueId → Bool) (s : State) : Act → Except CoreError State
  | .call c => .ok (commit s c.now c.op)
  | .restore => restore owns [snapshot s]

def runActs (owns : QueueId → Bool) (acts : List Act) : Except CoreError State :=
  acts.foldlM (actStep owns) State.empty

/-- No task is being worked. -/
def Unworked (s : State) : Prop := ∀ e ∈ s.tasks.entries, e.2.state ≠ .inProgress

instance (s : State) : Decidable (Unworked s) := by
  unfold Unworked
  infer_instance

def Act.threaded : Act → Prop
  | .call c => c.op.threaded
  | .restore => False

/-- The core is not restored while a task is being worked. -/
def Act.restoresUnworked (s : State) (a : Act) : Prop := a = .restore → Unworked s

instance (s : State) (a : Act) : Decidable (a.restoresUnworked s) := by
  unfold Act.restoresUnworked
  infer_instance

/-- Without a task in progress, the deadlines of all rows are those that wait. -/
theorem Indexed.deadlines {th : Prop} (h : Indexed th s.rows) (hf : Filed s.spine)
    (hidle : Unworked s) : Exact deadlineItems s.tasks s.expiration := by
  apply h.expiration.congr
  · exact fun _ _ => rfl
  · intro id t ht
    have hstate : t.state = .enqueued ∨ t.state = .dead := by
      have hvalid := (hf.row id t ht).2
      have hnot := hidle (id, t) (Table.mem_entries.mpr ht)
      cases hst : t.state <;> simp_all
    simp [expirationItems, deadlineItems, hstate]

/-- A core without threads that is restored while it is idle is the same core. -/
theorem Restored.eq_of_idle (h : Restored s s') (hs : Sound False False s) (hf : Filed s.spine)
    (hidle : Unworked s) : s' = s := by
  have hw := hs.wellFormed
  have hqueue := h.queue.ext (hw.queue.exact hf)
  have hmembers := h.members_eq hw.members (fun id t ht hth => absurd (hs.threadId_eq ht) hth)
  have hinProgress := h.inProgress.ext hs.indexed.inProgress
  have hdead := h.dead.ext hs.indexed.dead
  have hexpiration := h.expiration.ext (hs.indexed.deadlines hf hidle)
  have hdedupe := (h.dedupe ⟨_, hs.indexed.dedupe⟩).ext hs.indexed.dedupe
  have hall := (⟨h.tasks, h.threads, h.counters, h.queueState, h.rateLimiters, h.purgeGCRecords⟩ :
    _ ∧ _ ∧ _ ∧ _ ∧ _ ∧ _)
  cases s
  cases s'
  simp_all [State.rows]

theorem restore_idle (hs : Sound False False s) (hf : Filed s.spine) (hown : ∀ q, owns q = true)
    (hidle : Unworked s) : restore owns [snapshot s] = .ok s := by
  have hkept : ¬∃ id t, s.tasks.get id = some t ∧ t.threadId ≠ [] ∧
      s.threads.get t.threadKey = none := by
    intro he
    obtain ⟨id, t, ht, hth, _⟩ := he
    exact hth (hs.threadId_eq ht)
  obtain ⟨s', hs', h⟩ := ((restore_restored hf hown).weaken hkept).returns
  rw [hs', h.eq_of_idle hs hf hidle]

/-- One act of a run that is restored only while it is idle. -/
theorem actStep_sound {a : Act} (hs : Sound False False s ∧ Filed s.spine)
    (hown : ∀ q, owns q = true) (hth : ¬a.threaded) (hidle : a.restoresUnworked s) :
    Ensures False (actStep owns s a) (fun s' => Sound False False s' ∧ Filed s'.spine) := by
  cases a with
  | call c => exact Ensures.ok ⟨hs.1.commit hth, commit_filed hs.2 c.now c.op⟩
  | restore =>
    have hsame := restore_idle hs.1 hs.2 hown (hidle rfl)
    unfold actStep
    rw [hsame]
    exact Ensures.ok hs

/-- The whole run. -/
theorem runActs_sound {acts : List Act} (hown : ∀ q, owns q = true) (hth : ∀ a ∈ acts, ¬a.threaded)
    (hidle : Along (actStep owns) Act.restoresUnworked State.empty acts) :
    Ensures False (runActs owns acts) (Sound False False) := by
  have hrun : Ensures False (runActs owns acts) (fun s => (Sound False False s ∧ Filed s.spine) ∧
      Along (actStep owns) (fun s a => a.restoresUnworked s ∧ ¬a.threaded) s []) := by
    apply Ensures.foldlM (fun l s => (Sound False False s ∧ Filed s.spine) ∧
      Along (actStep owns) (fun s a => a.restoresUnworked s ∧ ¬a.threaded) s l)
    · intro a l s h
      have hstep := actStep_sound h.1 hown h.2.1.2 h.2.1.1
      apply hstep.self.mono
      intro s' hs'
      exact ⟨hs'.2, h.2.tail hs'.1⟩
    · exact ⟨⟨Sound.empty, Filed.empty⟩, hidle.and_forall hth⟩
  exact hrun.mono (fun _ h => h.1.1)

/-- The sweep leaves the tasks in progress alone. -/
theorem Indexed.sweep_keeps {th : Prop} (h : Indexed th s.rows) (now : Time)
    (req : RunTasksGarbageCollectionRequest) :
    Ensures th (runTasksGarbageCollection s now req) (fun s' => ∀ id t, s.tasks.get id = some t →
      t.state = .inProgress → s'.tasks.get id = some t) := by
  apply (runTasksGarbageCollection_makes h).mono
  intro s' hmade id t ht hst
  obtain ⟨es, hes, hsweeps⟩ := hmade
  refine Trace.invariant_of (I := fun r => r.tasks.get id = some t) hes ?_ ht
  intro e he r r' hrow hstep
  obtain ⟨u, rfl, hwaits, _⟩ := hsweeps e he
  have hne : (Event.deleted u .expired).task ≠ some id := by
    intro hu
    cases hstep with
    | delete row =>
      rw [Option.some.inj hu, hrow] at row
      rw [← Option.some.inj row, hst] at hwaits
      simp at hwaits
  rw [hstep.frame hne]
  exact hrow

/-- In every run without threads in which the core is restored only while no task
is being worked, no sweep deletes or changes a task that is. -/
theorem runActs_sweep_keeps (acts : List Act) (hown : ∀ q, owns q = true)
    (hth : ∀ a ∈ acts, ¬a.threaded)
    (h : Along (actStep owns) Act.restoresUnworked State.empty acts) (now : Time)
    (req : RunTasksGarbageCollectionRequest) :
    ∃ s s', runActs owns acts = .ok s ∧ runTasksGarbageCollection s now req = .ok s' ∧
      ∀ id t, s.tasks.get id = some t → t.state = .inProgress → s'.tasks.get id = some t := by
  obtain ⟨s, hs, hsound⟩ := (runActs_sound hown hth h).returns
  obtain ⟨s', hs', hkeeps⟩ := (hsound.indexed.sweep_keeps now req).returns
  exact ⟨s, s', hs, hs', hkeeps⟩

end Acts

section Runs

def enqueuePlain : Act := .call ⟨5, .enqueue ⟨plainQueue, [plainEntry 6 100 []]⟩⟩

def dequeuePlain : Act := .call ⟨8, .dequeue ⟨plainQueue, none, 1, none, 60⟩⟩

/-- The core is restored before the task is handed out. -/
theorem runActs_sweep_keeps_early : ∃ s s',
    runActs (fun _ => true) [enqueuePlain, .restore, dequeuePlain] = .ok s ∧
    runTasksGarbageCollection s 200 ⟨0, 0⟩ = .ok s' ∧
    ∀ id t, s.tasks.get id = some t → t.state = .inProgress → s'.tasks.get id = some t := by
  apply runActs_sweep_keeps _ (fun _ => rfl)
  · simp [enqueuePlain, dequeuePlain, Act.threaded, Op.threaded, plainEntry]
  · decide +kernel

/-- Restored while the task is being worked, its deadline is indexed again, and the
sweep deletes it. -/
theorem runActs_sweep_deletes : ∃ s s',
    runActs (fun _ => true) [enqueuePlain, dequeuePlain, .restore] = .ok s ∧
    runTasksGarbageCollection s 200 ⟨0, 0⟩ = .ok s' ∧
    (s.tasks.get (plainQueue.task 1)).any (fun t => t.state = .inProgress) ∧
    s'.tasks.get (plainQueue.task 1) = none := by
  have hrun : Ensures False (runActs (fun _ => true) [enqueuePlain, dequeuePlain, .restore])
      (fun s => Ensures False (runTasksGarbageCollection s 200 ⟨0, 0⟩) (fun s' =>
        (s.tasks.get (plainQueue.task 1)).any (fun t => t.state = .inProgress) ∧
        s'.tasks.get (plainQueue.task 1) = none)) := by decide +kernel
  obtain ⟨s, hs, hsweep⟩ := hrun.returns
  obtain ⟨s', hs', hp⟩ := hsweep.returns
  exact ⟨s, s', hs, hs', hp⟩

end Runs

end Moab
