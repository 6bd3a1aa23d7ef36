import Moab.Tasks.Limiter
import Moab.Tasks.Numbered
import Moab.Tasks.Unthreaded

namespace Moab

section Runs

variable [OrderedStore] {q : QueueId} {s : State}

/-- The numbers of a queue that no one purges go on. -/
theorem run_continues {calls : List Call} (hcalls : ∀ c ∈ calls, c.op ≠ .purgeQueue q)
    (h : Numbered q s) (hmark : s.purgeGCRecords.get q = none) :
    (run s calls).purgeGCRecords.get q = none ∧ Continues q s (run s calls) := by
  refine run_keeps (I := fun u => u.purgeGCRecords.get q = none ∧ Continues q s u) ?_ calls s
    (Along.of_mem hcalls) ⟨hmark, Continues.refl h⟩
  intro u c hu hc
  obtain ⟨hunmarked, hcontinues⟩ := hu
  constructor
  · exact commit_keeps (I := fun u => u.purgeGCRecords.get q = none) hunmarked
      (exec_unmarked hunmarked hc)
  · exact hcontinues.trans (commit_continues hcontinues.numbered hunmarked c.now c.op)

/-- Where its queue is not purged, a task that is gone stays gone: no call writes its row again,
and no Dequeue hands it out. Numbers are Nat here: it is so in the source as long as a queue is
given fewer than 2^64 tasks, after which its uint64 sequence starts over. -/
theorem run_never_revives (id : TaskId) (before between after : List Call)
    (hcalls : ∀ c ∈ before ++ between ++ after, c.op ≠ .purgeQueue id.queue)
    (lived : (run State.empty before).tasks.get id ≠ none)
    (gone : (run State.empty (before ++ between)).tasks.get id = none) :
    (run State.empty (before ++ between ++ after)).tasks.get id = none ∧
    ∀ now req s' ts,
      dequeue (run State.empty (before ++ between ++ after)) now req = .ok (s', .ok ts) →
        ∀ t ∈ ts, t.id ≠ id := by
  simp only [List.forall_mem_append] at hcalls
  rw [run_append] at gone
  rw [run_append, run_append]
  obtain ⟨hmark₁, hnumbers₁⟩ := run_continues hcalls.1.1 Numbered.empty (by simp [State.empty])
  obtain ⟨hmark₂, hnumbers₂⟩ := run_continues hcalls.1.2 hnumbers₁.numbered hmark₁
  obtain ⟨hmark₃, hnumbers₃⟩ := run_continues hcalls.2 hnumbers₂.numbered hmark₂
  obtain ⟨t, ht⟩ := Option.ne_none_iff_exists'.mp lived
  have hnumber := Nat.le_trans ((hnumbers₁.numbered id t ht).2 rfl) hnumbers₂.grows
  have hgone := hnumbers₃.gone id rfl hnumber gone
  refine ⟨hgone, ?_⟩
  intro now req s' ts hdequeue t ht hid
  have hexec : exec _ now (.dequeue req) = .ok (s', .dequeue (.ok ts)) :=
    congrArg (Except.map _) hdequeue
  have hadmits := ((Underway.exec hnumbers₃.numbered hmark₃ (by simp)).elim hexec).2 t ht
  rw [hid] at hadmits
  exact (hadmits rfl).2 (Nat.le_trans hnumber hnumbers₃.grows) hgone

end Runs

section Samples

/-- The reports on a deleted task and its restart come too late. -/
theorem run_never_revives_deleted : (run State.empty (lifeRun.take 1 ++
    [⟨7, .deleteTasks ⟨plainQueue, [1]⟩⟩] ++ lifeRun.drop 1)).tasks.get
      (plainQueue.task 1) = none :=
  (run_never_revives _ _ _ _ (by simp [lifeRun]) (by decide +kernel) (by decide +kernel)).1

end Samples

end Moab
