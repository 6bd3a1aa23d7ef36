import Moab.Tasks.Burials
import Moab.Tasks.Manned

namespace Moab

open OrderedStore

variable [OrderedStore] {s s' w : State} {t u : Task} {now : Time} {p q : QueueId}
  {dlqConfig : Option DeadLetterQueueConfig} {a b e : ReportStatusRequestEntry}

/-- What a report makes of the leased task it names. -/
inductive Turn where
  | keep
  | renew (keepalive : Time)
  | remove (reason : TaskDeletionReason)
  | retry
  | die (dlq : DeadLetterQueueConfig)

def Task.turn (t : Task) (now : Time) (dlqConfig : Option DeadLetterQueueConfig)
    (e : ReportStatusRequestEntry) : Turn :=
  if t.attempts ≠ e.attempt then .keep
  else
    match e.status with
    | .invalid => .keep
    | .inProgress => .renew e.keepaliveTimeoutInSeconds
    | .succeeded => .remove .succeeded
    | .failed =>
      if t.expiresAt < now then .remove .expired
      else if t.exhausted then
        match dlqConfig with
        | none => .remove .none
        | some dlq => if dlq.enable = false then .remove .none else .die dlq
      else .retry

namespace Turn

/-- The part of a report that is about the task itself. -/
def own (now : Time) (t : Task) : Turn → State → Except CoreError State
  | .keep, s => .ok s
  | .renew keepalive, s => heartbeatTask s t now keepalive
  | .remove reason, s => deleteTask s t reason
  | .retry, s => failTaskToRetry s t now
  | .die dlq, s => moveToDead s t now dlq

/-- The dead letter queue that a report sends its task to. -/
def kills : Turn → Option DeadLetterQueueConfig
  | .die dlq => some dlq
  | _ => none

/-- The dead tasks that a death drives out. -/
def spill (q : QueueId) (turn : Turn) (s : State) : List Task :=
  match turn.kills with
  | some dlq => s.spill q dlq.maxSize
  | none => []

omit [OrderedStore] in
theorem eq_die_of_kills {turn : Turn} {dlq : DeadLetterQueueConfig} (h : turn.kills = some dlq) :
    turn = .die dlq := by
  cases turn with
  | die c => rw [Option.some.inj h]
  | _ => exact absurd h (by simp [kills])

end Turn

/-- A report on a leased task, with the eviction told apart. -/
theorem reportStep_eq (h : Indexed True s.rows) (row : s.tasks.get e.taskId = some t)
    (state : t.state = .inProgress) :
    reportStep now dlqConfig s e = (t.turn now dlqConfig e).own now t s >>= fun s' =>
      .ok (s'.buryAll ((t.turn now dlqConfig e).spill t.id.queue s')) := by
  have hstate : ∀ (x : Except CoreError State) (r : ReportResult),
      (x >>= fun s' => Except.ok (s', r)).map Prod.fst = x := by
    intro x r
    cases x with
    | error e => rfl
    | ok s' => rfl
  have hplain : ∀ (x : Except CoreError State) (r : ReportResult),
      (x >>= fun s' => Except.ok (s', r)).map Prod.fst = x >>= fun s' => .ok (s'.buryAll []) :=
    fun x r => (hstate x r).trans (bind_pure x).symm
  have hdeath : ∀ dlq : DeadLetterQueueConfig, (moveToDead s t now dlq >>= fun s' =>
      evictExcessDeadTasks s' t.id.queue dlq.maxSize (s'.getCounter t.id.queue).deadTasksCount) =
        moveToDead s t now dlq >>= fun s' =>
        .ok (s'.buryAll (s'.spill t.id.queue dlq.maxSize)) := by
    intro dlq
    have hrows : Ensures True (moveToDead s t now dlq) _ :=
      (moveToDead_rows s t now dlq).weaken (fun _ => trivial)
    refine hrows.bind_congr (fun s' hs' => ?_)
    have hi : Indexed True s'.rows := by
      rw [hs']
      rw [← h.key _ t row] at row
      exact h.step (.die row state)
    exact evictExcessDeadTasks_eq hi _ _
  unfold reportStep reportStatus Task.turn
  rw [row]
  dsimp only
  rw [if_neg (not_not.mpr state)]
  by_cases hattempt : t.attempts ≠ e.attempt
  · rw [if_pos hattempt, if_pos hattempt]
    rfl
  · rw [if_neg hattempt, if_neg hattempt]
    cases e.status with
    | invalid => rfl
    | inProgress | succeeded => exact hplain _ _
    | failed =>
      dsimp only
      unfold handleTaskFailure
      by_cases hlate : t.expiresAt < now
      · rw [if_pos hlate, if_pos hlate]
        exact hplain _ _
      · rw [if_neg hlate, if_neg hlate]
        by_cases hspent : t.exhausted
        · rw [if_pos hspent, if_pos hspent]
          unfold failTaskToDead
          cases dlqConfig with
          | none => exact hplain _ _
          | some dlq =>
            dsimp only
            by_cases henable : dlq.enable = false
            · rw [if_pos henable, if_pos henable]
              exact hplain _ _
            · rw [if_neg henable, if_neg henable]
              exact (hstate _ _).trans (hdeath dlq)
        · rw [if_neg hspent, if_neg hspent]
          exact hplain _ _

section Tallies

omit [OrderedStore]

def TasksCounter.plus (c d : TasksCounter) : TasksCounter where
  enqueuedTasksCount := c.enqueuedTasksCount + d.enqueuedTasksCount
  inProgressTasksCount := c.inProgressTasksCount + d.inProgressTasksCount
  deadTasksCount := c.deadTasksCount + d.deadTasksCount
  processedTasksCount := c.processedTasksCount + d.processedTasksCount
  expiredTasksCount := c.expiredTasksCount + d.expiredTasksCount

theorem TasksCounter.plus_right_comm (c d e : TasksCounter) :
    (c.plus d).plus e = (c.plus e).plus d := by
  simp only [TasksCounter.plus, TasksCounter.mk.injEq]
  omega

/-- A change of a counter that does not depend on what it was. -/
def Shifts (f : TasksCounter → TasksCounter) : Prop := ∃ d, ∀ c, f c = TasksCounter.plus c d

theorem Shifts.comm {f g : TasksCounter → TasksCounter} (hf : Shifts f) (hg : Shifts g)
    (c : TasksCounter) : f (g c) = g (f c) := by
  obtain ⟨d, hd⟩ := hf
  obtain ⟨e, he⟩ := hg
  rw [hd, he, he, hd, TasksCounter.plus_right_comm]

namespace Turn

/-- What the counter of the queue is told. -/
def tally : Turn → TasksCounter → TasksCounter
  | .keep, c | .renew _, c => c
  | .remove reason, c => (c.countDeletion reason).addInProgress (-1)
  | .retry, c => (c.addInProgress (-1)).addEnqueued 1
  | .die _, c => (c.addInProgress (-1)).addDead 1

theorem shifts_addDead (n : Int) : Shifts (TasksCounter.addDead · n) :=
  ⟨⟨0, 0, n, 0, 0⟩, fun c => by simp [TasksCounter.addDead, TasksCounter.plus]⟩

theorem shifts_tally (turn : Turn) : Shifts turn.tally := by
  cases turn with
  | keep | renew keepalive => exact ⟨⟨0, 0, 0, 0, 0⟩, fun c => by simp [tally, TasksCounter.plus]⟩
  | remove reason =>
    cases reason with
    | none => exact ⟨⟨0, -1, 0, 0, 0⟩, fun c => by
        simp [tally, TasksCounter.countDeletion, TasksCounter.addInProgress, TasksCounter.plus]⟩
    | succeeded => exact ⟨⟨0, -1, 0, 1, 0⟩, fun c => by
        simp [tally, TasksCounter.countDeletion, TasksCounter.addInProgress, TasksCounter.plus]⟩
    | expired => exact ⟨⟨0, -1, 0, 0, 1⟩, fun c => by
        simp [tally, TasksCounter.countDeletion, TasksCounter.addInProgress, TasksCounter.plus]⟩
  | retry => exact ⟨⟨1, -1, 0, 0, 0⟩, fun c => by
      simp [tally, TasksCounter.addInProgress, TasksCounter.addEnqueued, TasksCounter.plus]⟩
  | die dlq => exact ⟨⟨0, -1, 1, 0, 0⟩, fun c => by
      simp [tally, TasksCounter.addInProgress, TasksCounter.addDead, TasksCounter.plus]⟩

end Turn

end Tallies

namespace Turn

/-- A report that changes no gauge leaves the counter alone. -/
def books (q : QueueId) : Turn → Table QueueId TasksCounter → Table QueueId TasksCounter
  | .keep, x | .renew _, x => x
  | turn, x => bump q turn.tally x

theorem books_eq (q : QueueId) (turn : Turn) :
    turn.books q = id ∨ turn.books q = bump q turn.tally := by
  cases turn with
  | keep | renew keepalive => exact Or.inl rfl
  | remove reason | retry | die dlq => exact Or.inr rfl

theorem bump_books {f : TasksCounter → TasksCounter} (hf : Shifts f) (p q : QueueId) (turn : Turn)
    (x : Table QueueId TasksCounter) : bump p f (turn.books q x) = turn.books q (bump p f x) := by
  rcases books_eq q turn with hb | hb
  · rw [hb]
    rfl
  · rw [hb]
    exact bump_comm (hf.comm turn.shifts_tally) p q x

theorem books_comm (p q : QueueId) (turn other : Turn) (x : Table QueueId TasksCounter) :
    turn.books p (other.books q x) = other.books q (turn.books p x) := by
  rcases books_eq p turn with hb | hb
  · rw [hb]
    rfl
  · rw [hb]
    exact bump_books turn.shifts_tally p q other x

theorem burialBooks_books (L : List Task) (q : QueueId) (turn : Turn)
    (x : Table QueueId TasksCounter) :
    burialBooks L (turn.books q x) = turn.books q (burialBooks L x) := by
  unfold burialBooks
  induction L generalizing x with
  | nil => rfl
  | cons t L ih => rw [List.foldl_cons, bump_books (shifts_addDead (-1)), ih, List.foldl_cons]

/-- How the part about the task rewrites the rows. -/
def Rewrites (now : Time) (t : Task) : Turn → Rows → Rows → Prop
  | .keep, r, r' => r' = r
  | .renew keepalive, r, r' => r' = r.renew t { t with visibleAt := plusSeconds now keepalive }
  | .remove reason, r, r' => r' = r.delete t reason
  | .retry, r, r' => ∃ interval, r' = r.retry t (t.retry now interval)
  | .die dlq, r, r' => r' = r.die t (t.die now dlq)

theorem own_rewrites (s : State) (turn : Turn) (hretry : turn = .retry → t.exhausted = false) :
    Ensures True (turn.own now t s) (fun s' => turn.Rewrites now t s.rows s'.rows) := by
  cases turn with
  | keep => exact Ensures.ok rfl
  | renew keepalive => exact (heartbeatTask_rows s t now keepalive).weaken (fun _ => trivial)
  | remove reason => exact (deleteTask_rows s t reason).weaken (fun _ => trivial)
  | die dlq => exact (moveToDead_rows s t now dlq).weaken (fun _ => trivial)
  | retry =>
    refine ((failTaskToRetry_rows s t now (hretry rfl)).weaken (fun _ => trivial)).mono ?_
    intro s' hs'
    obtain ⟨interval, _, hrows⟩ := hs'
    exact ⟨interval, hrows⟩

namespace Rewrites

variable {turn : Turn} {r r' : Rows}

theorem indexed (h : turn.Rewrites now t r r') (hi : Indexed True r)
    (row : r.tasks.get t.id = some t) (state : t.state = .inProgress) : Indexed True r' := by
  cases turn with
  | keep =>
    obtain rfl : r' = r := h
    exact hi
  | renew keepalive =>
    obtain rfl : r' = _ := h
    exact hi.step (.renew row state)
  | remove reason =>
    obtain rfl : r' = _ := h
    exact hi.step (.delete row)
  | retry =>
    obtain ⟨interval, rfl⟩ := h
    exact hi.step (.retry row state)
  | die dlq =>
    obtain rfl : r' = _ := h
    exact hi.step (.die row state)

theorem frame (h : turn.Rewrites now t r r') {id : TaskId} (hid : id ≠ t.id) :
    r'.tasks.get id = r.tasks.get id := by
  cases turn with
  | keep =>
    obtain rfl : r' = r := h
    rfl
  | renew keepalive | die dlq =>
    obtain rfl : r' = _ := h
    exact Table.get_set_ne _ _ hid
  | remove reason =>
    obtain rfl : r' = _ := h
    exact Table.get_delete_ne _ hid
  | retry =>
    obtain ⟨interval, rfl⟩ := h
    exact Table.get_set_ne _ _ hid

theorem counters (h : turn.Rewrites now t r r') (state : t.state = .inProgress) :
    r'.counters = turn.books t.id.queue r.counters := by
  cases turn with
  | keep =>
    obtain rfl : r' = r := h
    rfl
  | renew keepalive =>
    obtain rfl : r' = _ := h
    rfl
  | remove reason =>
    obtain rfl : r' = _ := h
    change r.counters.set _ (Rows.leave _ t.state) = _
    rw [state]
    rfl
  | retry =>
    obtain ⟨interval, rfl⟩ := h
    rfl
  | die dlq =>
    obtain rfl : r' = _ := h
    rfl

/-- Only a death adds to the dead tasks, and only to those of its queue. -/
theorem deadItems (h : turn.Rewrites now t r r') (state : t.state = .inProgress) {q : QueueId}
    (hq : q ≠ t.id.queue ∨ turn.kills = none) :
    r'.deadTasksIndex.items q = r.deadTasksIndex.items q := by
  cases turn with
  | keep =>
    obtain rfl : r' = r := h
    rfl
  | renew keepalive =>
    obtain rfl : r' = _ := h
    rfl
  | remove reason =>
    obtain rfl : r' = _ := h
    change (if t.state = .dead then _ else r.deadTasksIndex).items q = _
    rw [if_neg (by simp [state])]
  | retry =>
    obtain ⟨interval, rfl⟩ := h
    rfl
  | die dlq =>
    obtain rfl : r' = _ := h
    have hother : q ≠ t.id.queue := hq.resolve_right (by simp [kills])
    refine Index.items_ext (fun i => ?_)
    simp [Rows.die, hother]

end Rewrites

section DeadLetters

/-- The turn does not add to the dead tasks of a queue. -/
def Spares (turn : Turn) (t : Task) (q : QueueId) : Prop :=
  q ≠ t.id.queue ∨ turn.kills = none

theorem Spares.deadCount {turn : Turn} (h : turn.Spares t q) (x : Table QueueId TasksCounter) :
    (((turn.books t.id.queue x).get q).getD .zero).deadTasksCount =
      ((x.get q).getD .zero).deadTasksCount := by
  rcases books_eq t.id.queue turn with hb | hb
  · rw [hb]
    rfl
  · rw [hb, bump, Table.get_set]
    by_cases hq : q = t.id.queue
    · subst hq
      rw [if_pos rfl]
      cases turn with
      | keep => rfl
      | renew keepalive => rfl
      | remove reason => cases reason <;> rfl
      | retry => rfl
      | die dlq => exact absurd (h.resolve_left (fun hne => hne rfl)) (by simp [kills])
    · rw [if_neg hq]

variable {turn other : Turn}

/-- A dead task is not the leased one. -/
theorem ne_of_deadItem (hi : Indexed True s.rows) (row : s.tasks.get t.id = some t)
    (state : t.state = .inProgress) {i : IndexItem} (hdead : i ∈ s.deadTasksIndex.items q) :
    q.task i.taskId ≠ t.id := by
  intro he
  obtain ⟨u, rowu, _, dead, _⟩ := hi.dead_row hdead
  rw [he, row] at rowu
  rw [← Option.some.inj rowu, state] at dead
  exact absurd dead (by simp)

theorem Rewrites.spill_eq (h : turn.Rewrites now t s.rows w.rows) (hi : Indexed True s.rows)
    (row : s.tasks.get t.id = some t) (state : t.state = .inProgress) (hq : turn.Spares t q)
    (maxSize : Int) : w.spill q maxSize = s.spill q maxSize := by
  refine spill_congr ?_ ?_ ?_ maxSize
  · exact h.deadItems state hq
  · change ((w.rows.counters.get q).getD .zero).deadTasksCount = _
    rw [h.counters state]
    exact hq.deadCount _
  · intro i hdead
    exact h.frame (ne_of_deadItem hi row state hdead)

theorem Rewrites.joins {dlq : DeadLetterQueueConfig}
    (h : (Turn.die dlq).Rewrites now t s.rows w.rows) (hi : Indexed True s.rows)
    (row : s.tasks.get t.id = some t) (state : t.state = .inProgress) : Joins t.id.queue s w where
  one := by
    have hdead : w.deadTasksIndex =
        s.deadTasksIndex.add t.id.queue (t.die now dlq).deadTasksIndexItem :=
          congrArg Rows.deadTasksIndex h
    have hfresh : (t.die now dlq).deadTasksIndexItem ∉ s.deadTasksIndex.items t.id.queue :=
      fun hmem => ne_of_deadItem hi row state hmem rfl
    refine ⟨(t.die now dlq).deadTasksIndexItem, ?_, ?_⟩
    · rw [hdead, Index.mem_add]
      exact Or.inl ⟨rfl, rfl⟩
    · refine Index.items_eq ((w.deadTasksIndex.items_sorted _).filter _) (fun i => ?_)
      rw [List.mem_filter, hdead, Index.mem_add, decide_eq_true_eq]
      constructor
      · intro hmem
        exact ⟨Or.inr hmem, fun he => hfresh (he ▸ hmem)⟩
      · intro hmem
        exact hmem.1.resolve_left (fun he => hmem.2 he.2)
  count := by
    change ((w.rows.counters.get _).getD .zero).deadTasksCount = _
    rw [h.counters state]
    change (((bump t.id.queue (Turn.die dlq).tally s.counters).get _).getD .zero).deadTasksCount = _
    rw [bump, Table.get_set_self]
    rfl
  rows i hdead := (h.frame (ne_of_deadItem hi row state hdead)).symm

/-- What goes after two reports, by the state after both. -/
def spills (turn : Turn) (p : QueueId) (other : Turn) (q : QueueId) (w : State) : List Task :=
  if p = q ∧ turn.kills.isSome ∧ other.kills.isSome then turn.spill p w
  else turn.spill p w ++ other.spill q w

/-- The turns of one call have one dead letter queue. -/
def Agree (turn other : Turn) : Prop :=
  ∀ c d, turn.kills = some c → other.kills = some d → c = d

theorem spills_comm (h : turn.Agree other) (p q : QueueId) (w : State) :
    (spills turn p other q w).Perm (spills other q turn p w) := by
  unfold spills
  by_cases hboth : p = q ∧ turn.kills.isSome ∧ other.kills.isSome
  · obtain ⟨hpq, hturn, hother⟩ := hboth
    obtain ⟨c, hc⟩ := Option.isSome_iff_exists.mp hturn
    obtain ⟨d, hd⟩ := Option.isSome_iff_exists.mp hother
    obtain rfl := h c d hc hd
    rw [if_pos ⟨hpq, hturn, hother⟩, if_pos ⟨hpq.symm, hother, hturn⟩, spill, spill, hc, hd, hpq]
  · rw [if_neg hboth, if_neg (fun hb => hboth ⟨hb.1.symm, hb.2.2, hb.2.1⟩)]
    exact List.perm_append_comm

/-- The dead tasks that go when one report is handled in s, and another, about t, after it.
The state after the part of the latter that is about t is w. -/
theorem Rewrites.spill_after (h : other.Rewrites now t s.rows w.rows) (hi : Indexed True s.rows)
    (row : s.tasks.get t.id = some t) (state : t.state = .inProgress) (turn : Turn) (p : QueueId)
    (hagree : turn.Agree other) :
    (turn.spill p s ++ other.spill t.id.queue (w.buryAll (turn.spill p s))).Perm
      (spills turn p other t.id.queue w) := by
  unfold spills spill
  cases hc : turn.kills with
  | none => simp [State.buryAll]
  | some c =>
    cases hd : other.kills with
    | none => simp [h.spill_eq hi row state (Or.inr hd)]
    | some d =>
      obtain rfl := hagree c d hc hd
      by_cases hp : p = t.id.queue
      · subst hp
        obtain rfl := eq_die_of_kills hd
        rw [if_pos ⟨rfl, rfl, rfl⟩]
        exact (h.joins hi row state).spill hi (h.indexed hi row state) _
      · have hfirst := h.spill_eq hi row state (Or.inl hp) c.maxSize
        rw [if_neg (fun hb => hp hb.1)]
        dsimp only
        rw [spill_buryAll_ne (fun u hu => (hi.buriable hu).queue) hp, hfirst]

end DeadLetters

end Turn

end Moab
