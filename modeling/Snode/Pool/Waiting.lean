import Snode.Pool.Registered

/-!
# What a thread has run and what waits for it

Of all steps of a pool only two matter to the tasks of a thread: one is scheduled behind
those that wait, or the first of these is run.
-/

namespace Snode.Pool

variable {τ : Type}

/-- The tasks that were scheduled on a thread and not run yet. -/
def Worker.waiting (worker : Worker τ) : List τ :=
  Op.tasks (worker.running.toList ++ worker.queue)

namespace Threadpool

variable {pool : Threadpool τ} {thread : ThreadId}

/-- What a thread has run. -/
def ran (pool : Threadpool τ) (thread : ThreadId) : List τ :=
  (pool.workers thread).elim [] Worker.ran

def waiting (pool : Threadpool τ) (thread : ThreadId) : List τ :=
  (pool.workers thread).elim [] Worker.waiting

/-- Schedules tasks one after the other. -/
def scheduleAll (pool : Threadpool τ) : List τ → ThreadId → Threadpool τ
  | [], _ => pool
  | task :: tasks, thread => (pool.scheduleTask task thread).scheduleAll tasks thread

/-- Two pools whose threads have run the same and have the same before them. -/
structure SameTasks (pool next : Threadpool τ) : Prop where
  ran : next.ran = pool.ran
  waiting : next.waiting = pool.waiting

theorem SameTasks.refl (pool : Threadpool τ) : pool.SameTasks pool :=
  ⟨rfl, rfl⟩

theorem SameTasks.of_workers {next : Threadpool τ} (same : next.workers = pool.workers) :
    pool.SameTasks next := by
  constructor <;> funext thread <;> simp only [Threadpool.ran, Threadpool.waiting, same]

/-- An update of a worker that leaves alone what it has run and what waits for it. -/
theorem SameTasks.updateWorker {update : Worker τ → Worker τ}
    (same : ∀ worker, pool.workers thread = some worker →
      (update worker).ran = worker.ran ∧ (update worker).waiting = worker.waiting) :
    pool.SameTasks (pool.updateWorker thread update) := by
  constructor <;> funext other <;>
    simp only [Threadpool.ran, Threadpool.waiting, updateWorker_workers]
  all_goals
    split
    · next here =>
        rcases present : pool.workers thread with _ | worker
        · rw [here, present, Option.map_none]
        · rw [here, present, Option.map_some]
          simp [same worker present]
    · rfl

theorem sameTasks_startThread (fresh : pool.workers thread = none) :
    pool.SameTasks (pool.startThread thread) := by
  constructor <;> funext other <;>
    simp only [Threadpool.ran, Threadpool.waiting, startThread_workers]
  all_goals
    split
    · next here =>
        rw [here, fresh]
        rfl
    · rfl

theorem sameTasks_dequeue (legal : pool.Legal (.dequeue thread)) :
    pool.SameTasks (pool.updateWorker thread Worker.dequeue) := by
  apply SameTasks.updateWorker
  intro worker present
  rcases legal with ⟨other, same, -, ready, -⟩
  rcases (Option.some.inj (present.symm.trans same) : worker = other) with rfl
  have none : worker.running = none := Option.isNone_iff_eq_none.mp ready
  rw [Worker.dequeue]
  split
  · exact ⟨rfl, rfl⟩
  · next result queue ahead =>
      refine ⟨rfl, ?_⟩
      simp [Worker.waiting, none, ahead]

theorem sameTasks_stop (pool : Threadpool τ) : pool.SameTasks pool.stop := by
  apply SameTasks.of_workers
  rw [stop]
  split <;> rfl

theorem Op.tasks_cancel (waiting : List (Op τ)) :
    Op.tasks (waiting ++ [.cancel]) = Op.tasks waiting := by
  rw [Op.tasks_append]
  exact List.append_nil _

theorem sameTasks_stopGoes (pool : Threadpool τ) : pool.SameTasks pool.stopGoes := by
  rw [stopGoes]
  split
  · exact .of_workers rfl
  · next thread _ _ =>
    split
    · next next scheduled =>
        rw [stopThread, schedule] at scheduled
        split at scheduled
        · rcases Except.ok.inj scheduled with rfl
          have same : pool.SameTasks (pool.updateWorker thread (·.enqueue .cancel)) := by
            apply SameTasks.updateWorker
            intro worker _
            refine ⟨rfl, ?_⟩
            rw [Worker.waiting, Worker.enqueue, ← List.append_assoc, Op.tasks_cancel]
            rfl
          exact ⟨same.ran, same.waiting⟩
        · cases scheduled
    · exact .of_workers rfl
  · exact .of_workers rfl
  · exact .refl pool

/-- A task for a thread that does not get it. -/
theorem sameTasks_scheduleTask {task : τ} {what : String}
    (refused : pool.schedule (.task task) thread = .error what) :
    pool.SameTasks (pool.scheduleTask task thread) := by
  apply SameTasks.of_workers
  simp only [scheduleTask, refused]
  split <;> rfl

theorem scheduleTask_eq {task : τ} {next : Threadpool τ}
    (scheduled : pool.schedule (.task task) thread = .ok next) :
    pool.scheduleTask task thread = next := by
  rw [scheduleTask, scheduled]

/-- Scheduling a task registers no thread, and stops none. -/
theorem scheduleTask_kept (pool : Threadpool τ) (task : τ) (thread : ThreadId) :
    (pool.scheduleTask task thread).queuesIndex = pool.queuesIndex ∧
      (pool.scheduleTask task thread).stopping = pool.stopping := by
  rw [scheduleTask, schedule]
  by_cases listed : thread ∈ pool.queuesIndex
  · rw [if_pos listed, updateWorker_eq]
    exact ⟨rfl, rfl⟩
  · rw [if_neg listed]
    simp only
    split <;> exact ⟨rfl, rfl⟩

theorem scheduleAll_kept (pool : Threadpool τ) (tasks : List τ) (thread : ThreadId) :
    (pool.scheduleAll tasks thread).queuesIndex = pool.queuesIndex ∧
      (pool.scheduleAll tasks thread).stopping = pool.stopping := by
  induction tasks generalizing pool with
  | nil => exact ⟨rfl, rfl⟩
  | cons task tasks ih =>
      rcases ih (pool.scheduleTask task thread) with ⟨queuesIndex, stopping⟩
      rcases scheduleTask_kept pool task thread with ⟨sameIndex, sameStopping⟩
      exact ⟨queuesIndex.trans sameIndex, stopping.trans sameStopping⟩

/-- A call of `stop` under way does not end by not having begun. -/
theorem stopGoes_not_idle (legal : pool.Legal .stopGoes) : pool.stopGoes.stopping ≠ .idle := by
  rcases legal with ⟨threads, loop⟩ | ⟨thread, threads, worker, joining, -⟩
  · rcases threads with _ | ⟨thread, threads⟩
    · simp [stopGoes, loop]
    · simp only [stopGoes, loop]
      split <;> simp
  · simp [stopGoes, joining]

/-- Before `stop` is called, the threads that have started are registered. -/
theorem registered_exec {event : Event τ} (legal : pool.Legal event)
    (idle : (pool.exec event).stopping = .idle) :
    pool.stopping = .idle ∧ ∀ thread, thread ∈ (pool.exec event).queuesIndex ↔
      thread ∈ pool.queuesIndex ∨ event = .startThread thread := by
  have same (isOther : ∀ thread, event ≠ .startThread thread)
      (kept : (pool.exec event).queuesIndex = pool.queuesIndex ∧
        (pool.exec event).stopping = pool.stopping) :
      pool.stopping = .idle ∧ ∀ thread, thread ∈ (pool.exec event).queuesIndex ↔
        thread ∈ pool.queuesIndex ∨ event = .startThread thread := by
    refine ⟨kept.2.symm.trans idle, fun thread => ?_⟩
    rw [kept.1, or_iff_left (isOther thread)]
  cases event with
  | startThread started =>
      refine ⟨idle, fun thread => ?_⟩
      rw [exec, startThread, List.mem_append, List.mem_singleton, Event.startThread.injEq, eq_comm]
  | schedule task thread => exact same (by simp) (scheduleTask_kept pool task thread)
  | dequeue thread =>
      apply same (by simp)
      rw [exec, updateWorker_eq]
      exact ⟨rfl, rfl⟩
  | run thread =>
      apply same (by simp)
      rw [exec, updateWorker_eq]
      exact ⟨rfl, rfl⟩
  | stop =>
      rw [exec, stop] at idle
      split at idle <;> cases idle
  | stopGoes => exact absurd idle (stopGoes_not_idle legal)

/-- A task for a thread that gets it. -/
theorem tasks_schedule {task : τ} {next : Threadpool τ}
    (started : (pool.workers thread).isSome = true)
    (scheduled : pool.schedule (.task task) thread = .ok next) :
    next.ran = pool.ran ∧ ∀ other, next.waiting other =
      if other = thread then pool.waiting thread ++ [task] else pool.waiting other := by
  rcases Option.isSome_iff_exists.mp started with ⟨worker, present⟩
  constructor
  · funext other
    rw [Threadpool.ran, schedule_workers scheduled]
    split
    · next here =>
        rw [here, present, Threadpool.ran, present]
        rfl
    · rfl
  · intro other
    rw [waiting, schedule_workers scheduled]
    split
    · rw [present, waiting, present]
      simp only [Option.map_some, Option.elim_some, Worker.waiting, Worker.enqueue,
        ← List.append_assoc, Op.tasks_append]
      rfl
    · rfl

/-- A thread runs what is not a task. -/
theorem sameTasks_run
    (other : ∀ task, (pool.workers thread).bind Worker.running ≠ some (.task task)) :
    pool.SameTasks (pool.updateWorker thread Worker.run) := by
  apply SameTasks.updateWorker
  intro worker present
  rw [Worker.run]
  split
  · exact ⟨rfl, rfl⟩
  · next task running =>
      rw [present, Option.bind_some] at other
      exact absurd running (other task)
  · next running =>
      refine ⟨rfl, ?_⟩
      rw [Worker.waiting, Worker.waiting, running]
      rfl

/-- A thread runs a task: it was the first to wait. -/
theorem tasks_run {task : τ}
    (running : (pool.workers thread).bind Worker.running = some (.task task)) (other : ThreadId) :
    (pool.updateWorker thread Worker.run).ran other =
        (if other = thread then pool.ran thread ++ [task] else pool.ran other) ∧
      pool.waiting other = (if other = thread then
        task :: (pool.updateWorker thread Worker.run).waiting thread
        else (pool.updateWorker thread Worker.run).waiting other) := by
  rcases Option.bind_eq_some_iff.mp running with ⟨worker, present, running⟩
  have ran : worker.run = { worker with running := none, ran := worker.ran ++ [task] } := by
    rw [Worker.run, running]
  simp only [Threadpool.ran, waiting, updateWorker_workers, if_true, present, Option.map_some,
    Option.elim_some, ran]
  split
  · next here =>
      rw [here, present]
      refine ⟨rfl, ?_⟩
      simp only [Option.elim_some, Worker.waiting, running]
      rfl
  · exact ⟨rfl, rfl⟩

/-- A thread that runs a task stays in its loop. -/
theorem looping_run {size : ℕ} (reachable : (system τ).Reachable (new size) pool) {task : τ}
    (running : (pool.workers thread).bind Worker.running = some (.task task)) :
    (pool.updateWorker thread Worker.run).Looping thread := by
  rcases Option.bind_eq_some_iff.mp running with ⟨worker, present, running⟩
  have goesOn := (inOrder_of_reachable reachable present).goesOn running
  refine ⟨worker.run, ?_, ?_⟩
  · rw [updateWorker_workers, if_pos rfl, present, Option.map_some]
  · rw [Worker.run, running, goesOn]

theorem Looping.scheduleTask (looping : pool.Looping thread) (indexed : pool.Indexed) (task : τ) :
    (pool.scheduleTask task thread).Looping thread := by
  rcases looping with ⟨worker, present, goesOn⟩
  refine ⟨worker.enqueue (.task task), ?_, goesOn⟩
  rw [scheduleTask_eq (indexed.schedule_eq ⟨worker, present, goesOn⟩ (.task task)),
    updateWorker_workers, if_pos rfl, present]
  rfl

/-- Tasks that are scheduled one after the other on a thread in its loop. -/
theorem tasks_scheduleAll (indexed : pool.Indexed) (looping : pool.Looping thread)
    (tasks : List τ) :
    (system τ).Reachable pool (pool.scheduleAll tasks thread) ∧
      (pool.scheduleAll tasks thread).ran = pool.ran ∧
      ∀ other, (pool.scheduleAll tasks thread).waiting other =
        if other = thread then pool.waiting thread ++ tasks else pool.waiting other := by
  induction tasks generalizing pool with
  | nil =>
      refine ⟨.refl pool, rfl, fun other => ?_⟩
      rw [scheduleAll, List.append_nil]
      split
      · next here => rw [here]
      · rfl
  | cons task tasks ih =>
      have started := looping.started
      have legal : pool.Legal (.schedule task thread) := indexed.inside thread started
      have scheduled := indexed.schedule_eq looping (.task task)
      have entered := scheduleTask_eq scheduled
      rcases tasks_schedule started scheduled with ⟨ran, waiting⟩
      have kept : (pool.scheduleTask task thread).Indexed := indexed.exec legal
      rcases ih kept (looping.scheduleTask indexed task) with ⟨reachable, laterRan, later⟩
      rw [← entered] at ran waiting
      refine ⟨.head ⟨legal, rfl⟩ reachable, laterRan.trans ran, fun other => ?_⟩
      rw [scheduleAll, later, waiting, waiting]
      split
      · next here => rw [if_pos rfl, List.append_assoc, List.singleton_append]
      · rfl

/-! ### After stopping -/

/-- No thread does anything with tasks any more: all have left their loops, or none ever had a
task. -/
def Over (pool : Threadpool τ) : Prop :=
  (∀ thread < pool.size, pool.Ended thread) ∨
    ∀ thread, pool.ran thread = [] ∧ pool.waiting thread = []

/-- `stop` returns at once when all threads have ended, or none has started. -/
theorem Indexed.over_of_empty (indexed : pool.Indexed)
    (empty : pool.threads = [] ∨ pool.queuesIndex = []) : pool.Over := by
  by_cases ended : ∀ thread < pool.size, pool.Ended thread
  · exact .inl ended
  · have none (thread : ThreadId) : pool.workers thread = none := by
      apply Option.not_isSome_iff_eq_none.mp
      intro started
      rcases empty with threads | queuesIndex
      · have range := indexed.listed.resolve_right ended
        rw [threads, eq_comm, List.range_eq_nil] at range
        exact absurd (indexed.inside thread started) (range ▸ Nat.not_lt_zero thread)
      · have listed := (indexed.indexed thread started).resolve_right ended
        simp [queuesIndex] at listed
    right
    intro thread
    rw [ran, waiting, none]
    exact ⟨rfl, rfl⟩

/-- When `stop` returns. -/
theorem Indexed.over {event : Event τ} (indexed : pool.Indexed) (goesOn : pool.stopping ≠ .returned)
    (returned : (pool.exec event).stopping = .returned) : (pool.exec event).Over := by
  cases event with
  | startThread thread => exact absurd returned goesOn
  | schedule task thread => exact absurd ((scheduleTask_kept ..).2.symm.trans returned) goesOn
  | dequeue thread =>
      rw [Threadpool.exec, updateWorker_eq] at returned
      exact absurd returned goesOn
  | run thread =>
      rw [Threadpool.exec, updateWorker_eq] at returned
      exact absurd returned goesOn
  | stop =>
      rw [Threadpool.exec, stop] at returned ⊢
      split at returned
      · next empty =>
          rw [if_pos empty]
          rw [Bool.or_eq_true, List.isEmpty_iff, List.isEmpty_iff] at empty
          exact indexed.over_of_empty empty
      · cases returned
  | stopGoes =>
      rw [Threadpool.exec, stopGoes] at returned ⊢
      split at returned
      · next loop =>
          have joins := indexed.joins
          rw [loop] at joins
          left
          intro thread inside
          exact (joins thread inside).resolve_left List.not_mem_nil
      · next thread threads loop =>
          split at returned
          · cases returned
          · cases returned
      · cases returned
      · exact absurd returned goesOn

/-- When all threads have ended, and `stop` has returned, there is nothing left to do. -/
theorem legal_of_ended {size : ℕ} (reachable : (system τ).Reachable (new size) pool)
    (returned : pool.stopping = .returned) (ended : ∀ thread < pool.size, pool.Ended thread)
    {event : Event τ} (legal : pool.Legal event) :
    event = .stop ∨ ∃ task thread, event = .schedule task thread := by
  have indexed := indexed_of_reachable reachable
  have stays {thread : ThreadId} {worker : Worker τ} (present : pool.workers thread = some worker) :
      worker.exited = true := by
    rcases ended thread (indexed.inside thread (by rw [present]; rfl)) with ⟨other, same, exited⟩
    rcases (Option.some.inj (present.symm.trans same) : worker = other) with rfl
    exact exited
  cases event with
  | startThread thread =>
      rcases ended thread legal.1 with ⟨worker, present, -⟩
      simp [legal.2] at present
  | schedule task thread => exact .inr ⟨task, thread, rfl⟩
  | dequeue thread =>
      rcases legal with ⟨worker, present, goesOn, -⟩
      simp [stays present] at goesOn
  | run thread =>
      rcases legal with ⟨worker, present, running⟩
      have idle := (inOrder_of_reachable reachable present).exited (stays present)
      simp [idle] at running
  | stop => exact .inl rfl
  | stopGoes =>
      rcases legal with ⟨threads, loop⟩ | ⟨thread, threads, worker, joining, -⟩
      · simp [returned] at loop
      · simp [returned] at joining

end Threadpool

end Snode.Pool
