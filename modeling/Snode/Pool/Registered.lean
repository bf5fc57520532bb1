import Snode.Pool.Shutdown

/-!
# Registered threads

Whenever `stop` is called, and whatever it throws: it clears the pool only when every
thread has left its loop.  So a thread that is in its loop can be scheduled to.
-/

namespace Snode.Pool.Threadpool

variable {τ : Type} {pool : Threadpool τ} {event : Event τ} {size : ℕ} {thread : ThreadId}

/-- The thread has left its loop. -/
def Ended (pool : Threadpool τ) (thread : ThreadId) : Prop :=
  ∃ worker, pool.workers thread = some worker ∧ worker.exited = true

/-- The thread is in its loop. -/
def Looping (pool : Threadpool τ) (thread : ThreadId) : Prop :=
  ∃ worker, pool.workers thread = some worker ∧ worker.exited = false

theorem Looping.not_ended (looping : pool.Looping thread) : ¬pool.Ended thread := by
  rintro ⟨worker, present, exited⟩
  rcases looping with ⟨other, same, goesOn⟩
  rcases (Option.some.inj (present.symm.trans same) : worker = other) with rfl
  simp [exited] at goesOn

/-- Each thread has left its loop, but for those that the call of `stop` has still to join. -/
def Joins (pool : Threadpool τ) : Stopping → Prop
  | .loop threads => ∀ thread < pool.size, thread ∈ threads ∨ pool.Ended thread
  | .joining current threads =>
      ∀ thread < pool.size, thread = current ∨ thread ∈ threads ∨ pool.Ended thread
  | _ => True

theorem Joins.mono {next : Threadpool τ} {stopping : Stopping} (joins : pool.Joins stopping)
    (sameSize : next.size = pool.size)
    (kept : ∀ thread, pool.Ended thread → next.Ended thread) : next.Joins stopping := by
  cases stopping with
  | loop threads =>
      intro thread inside
      exact (joins thread (sameSize ▸ inside)).imp_right (kept thread)
  | joining current threads =>
      intro thread inside
      exact (joins thread (sameSize ▸ inside)).imp_right (Or.imp_right (kept thread))
  | _ => trivial

/-- The invariant of a pool that is used in any way. -/
structure Indexed (pool : Threadpool τ) : Prop where
  inside : ∀ thread, (pool.workers thread).isSome = true → thread < pool.size
  listed : pool.threads = List.range pool.size ∨ ∀ thread < pool.size, pool.Ended thread
  indexed : ∀ thread, (pool.workers thread).isSome = true →
    thread ∈ pool.queuesIndex ∨ ∀ other < pool.size, pool.Ended other
  started : ∀ thread ∈ pool.queuesIndex, (pool.workers thread).isSome = true
  joins : pool.Joins pool.stopping

theorem indexed_new : (new size : Threadpool τ).Indexed where
  inside thread present := by simp [new] at present
  listed := .inl rfl
  indexed thread present := by simp [new] at present
  started thread present := by simp [new] at present
  joins := trivial

/-- A pool with the same workers and threads at another place of `stop`. -/
theorem Indexed.moved (indexed : pool.Indexed) {stopping : Stopping} (joins : pool.Joins stopping)
    (joined : List ThreadId) : { pool with stopping := stopping, joined := joined }.Indexed where
  inside := indexed.inside
  listed := indexed.listed
  indexed := indexed.indexed
  started := indexed.started
  joins := by cases stopping <;> exact joins

section Updates

variable {update : Worker τ → Worker τ}

theorem Ended.updateWorker {other : ThreadId} (ended : pool.Ended other)
    (stillExited : ∀ worker, worker.exited = true → (update worker).exited = true) :
    (pool.updateWorker thread update).Ended other := by
  rcases ended with ⟨worker, present, exited⟩
  by_cases same : other = thread
  · subst same
    refine ⟨update worker, ?_, stillExited worker exited⟩
    rw [updateWorker_workers, if_pos rfl, present, Option.map_some]
  · refine ⟨worker, ?_, exited⟩
    rw [updateWorker_workers, if_neg same, present]

theorem Indexed.updateWorker (indexed : pool.Indexed)
    (stillExited : ∀ worker, worker.exited = true → (update worker).exited = true) :
    (pool.updateWorker thread update).Indexed := by
  have kept {other : ThreadId} (ended : pool.Ended other) :
      (pool.updateWorker thread update).Ended other :=
    ended.updateWorker stillExited
  have present (other : ThreadId) :
      ((pool.updateWorker thread update).workers other).isSome = (pool.workers other).isSome :=
    isSome_updateWorker thread other update
  rw [updateWorker_eq] at kept present ⊢
  constructor
  · intro other started
    rw [present] at started
    exact indexed.inside other started
  · apply indexed.listed.imp_right
    intro ended other inside
    exact kept (ended other inside)
  · intro other started
    rw [present] at started
    apply (indexed.indexed other started).imp_right
    intro ended other inside
    exact kept (ended other inside)
  · intro other listed
    rw [present]
    exact indexed.started other listed
  · exact indexed.joins.mono rfl fun _ => kept

end Updates

@[simp]
theorem startThread_workers (pool : Threadpool τ) (thread other : ThreadId) :
    (pool.startThread thread).workers other =
      if other = thread then some Worker.new else pool.workers other :=
  rfl

theorem Indexed.startThread (indexed : pool.Indexed) (listed : thread < pool.size)
    (fresh : pool.workers thread = none) : (pool.startThread thread).Indexed := by
  have kept {other : ThreadId} (ended : pool.Ended other) :
      (pool.startThread thread).Ended other := by
    rcases ended with ⟨worker, present, exited⟩
    have different : other ≠ thread := by
      rintro rfl
      simp [fresh] at present
    exact ⟨worker, (if_neg different).trans present, exited⟩
  have unended : ¬∀ other < pool.size, pool.Ended other := by
    intro ended
    rcases ended thread listed with ⟨worker, present, -⟩
    simp [fresh] at present
  constructor
  · intro other started
    by_cases same : other = thread
    · rwa [same]
    · apply indexed.inside other
      rwa [startThread_workers, if_neg same] at started
  · exact .inl (indexed.listed.resolve_right unended)
  · intro other started
    left
    by_cases same : other = thread
    · rw [same]
      exact List.mem_append_right _ List.mem_cons_self
    · rw [startThread_workers, if_neg same] at started
      exact List.mem_append_left _ ((indexed.indexed other started).resolve_right unended)
  · intro other listed
    rw [startThread_workers]
    split
    · rfl
    · next different =>
        rcases List.mem_append.mp listed with before | here
        · exact indexed.started other before
        · exact absurd (List.mem_singleton.mp here) different
  · exact indexed.joins.mono rfl fun _ => kept

theorem Indexed.schedule {next : Threadpool τ} {op : Op τ} (indexed : pool.Indexed)
    (scheduled : pool.schedule op thread = .ok next) :
    next.Indexed ∧ next.stopping = pool.stopping := by
  rw [Threadpool.schedule] at scheduled
  split at scheduled
  · rcases Except.ok.inj scheduled with rfl
    refine ⟨indexed.updateWorker fun worker exited => exited, ?_⟩
    rw [updateWorker_eq]
  · cases scheduled

theorem Indexed.exec_stop (indexed : pool.Indexed) : (pool.exec .stop).Indexed := by
  rw [Threadpool.exec, stop]
  split
  · have returns : pool.Joins .returned := trivial
    exact indexed.moved returns pool.joined
  · apply indexed.moved
    intro thread inside
    rcases indexed.listed with listed | ended
    · left
      rwa [listed, List.mem_range]
    · exact .inr (ended thread inside)

/-- `stop` goes on to the next thread when the one before has ended. -/
theorem Indexed.exec_stopGoes (indexed : pool.Indexed) (legal : pool.Legal .stopGoes) :
    (pool.exec .stopGoes).Indexed := by
  have joins := indexed.joins
  rw [Threadpool.exec, stopGoes]
  split
  · next reached =>
      rw [reached] at joins
      have ended : ∀ thread < pool.size, pool.Ended thread := fun thread inside =>
        (joins thread inside).resolve_left List.not_mem_nil
      exact ⟨indexed.inside, .inr ended, fun _ _ => .inr ended, List.forall_mem_nil _, trivial⟩
  · next thread threads reached =>
      rw [reached] at joins
      split
      · next next scheduled =>
          rcases indexed.schedule scheduled with ⟨moved, stopping⟩
          have rest := moved.joins
          rw [stopping, reached] at rest
          apply moved.moved
          intro other inside
          rw [← or_assoc, ← List.mem_cons]
          exact rest other inside
      · next what _ =>
          have throws : pool.Joins (.threw what) := trivial
          exact indexed.moved throws pool.joined
  · next thread threads reached =>
      rw [reached] at joins
      have ended : pool.Ended thread := by
        rcases legal with ⟨threads, loop⟩ | ⟨current, threads, worker, joining, present⟩
        · simp [reached] at loop
        · rcases Stopping.joining.inj (reached.symm.trans joining) with ⟨rfl, -⟩
          exact ⟨worker, present⟩
      apply indexed.moved
      intro other inside
      rcases joins other inside with rfl | later | done
      · exact .inr ended
      · exact .inl later
      · exact .inr done
  · exact indexed

theorem Indexed.exec (indexed : pool.Indexed) (legal : pool.Legal event) :
    (pool.exec event).Indexed := by
  cases event with
  | startThread thread => exact indexed.startThread legal.1 legal.2
  | schedule task thread =>
      rw [Threadpool.exec, scheduleTask]
      split
      · next scheduled => exact (indexed.schedule scheduled).1
      · split
        · exact ⟨indexed.inside, indexed.listed, indexed.indexed, indexed.started, indexed.joins⟩
        · exact indexed
  | dequeue thread =>
      exact indexed.updateWorker fun worker exited => by rwa [Worker.exited_dequeue]
  | run thread => exact indexed.updateWorker fun worker exited => Worker.exited_run worker exited
  | stop => exact indexed.exec_stop
  | stopGoes => exact indexed.exec_stopGoes legal

theorem indexed_of_reachable (reachable : (system τ).Reachable (new size) pool) :
    pool.Indexed :=
  reachable.invariant Indexed indexed_new fun _ _ _ indexed step =>
    step.2 ▸ indexed.exec step.1

theorem size_of_reachable (reachable : (system τ).Reachable (new size) pool) :
    pool.size = size :=
  reachable.invariant (fun pool => pool.size = size) rfl fun pool event _ same step =>
    step.2 ▸ (size_exec pool event).trans same

theorem Looping.started (looping : pool.Looping thread) :
    (pool.workers thread).isSome = true := by
  rcases looping with ⟨worker, present, -⟩
  exact Option.isSome_iff_exists.mpr ⟨worker, present⟩

theorem Looping.registered (looping : pool.Looping thread) (indexed : pool.Indexed) :
    thread ∈ pool.queuesIndex := by
  rcases indexed.indexed thread looping.started with listed | ended
  · exact listed
  · exact absurd (ended thread (indexed.inside thread looping.started)) looping.not_ended

/-- A thread in its loop is scheduled to. -/
theorem Indexed.schedule_eq (indexed : pool.Indexed) (looping : pool.Looping thread) (op : Op τ) :
    pool.schedule op thread = .ok (pool.updateWorker thread (·.enqueue op)) :=
  if_pos (looping.registered indexed)

end Snode.Pool.Threadpool
