import Mathlib.Data.List.TakeWhile
import Snode.Pool.StopReturns
import Snode.Pool.Waiting

/-!
# How far a thread has got

The tasks that were scheduled on a thread before it was cancelled are what it will have run when
it exits.  Until then it can go on, and no step of others sets it back.
-/

namespace Snode.Pool

variable {τ : Type}

namespace Worker

/-- The tasks in front of the first cancel task, of all that was enqueued. -/
def promised (worker : Worker τ) : List τ :=
  Op.tasks (worker.channel.stored.takeWhile fun entry => !entry.isCancel)

variable {worker next : Worker τ}

theorem promised_of_prefix (more : worker.channel.stored <+: next.channel.stored) :
    worker.promised <+: next.promised := by
  apply List.IsPrefix.filterMap
  rcases more with ⟨rest, stored⟩
  rw [← stored, List.takeWhile_append]
  split
  · next whole =>
      have same := (List.takeWhile_prefix _).eq_of_length whole
      rw [same]
      exact List.prefix_append _ _
  · exact List.prefix_rfl

theorem stored_step (step : worker.Step next) : worker.channel.stored <+: next.channel.stored := by
  cases step with
  | same => exact List.prefix_rfl
  | enqueue entry => exact List.prefix_append _ _
  | dequeue =>
      rw [dequeue]
      split
      · exact List.prefix_rfl
      · exact List.prefix_rfl
  | run =>
      rw [run]
      split
      · exact List.prefix_rfl
      · exact List.prefix_rfl
      · exact List.prefix_rfl

theorem promised_tasks (values : List τ) (rest : List (Op τ)) :
    Op.tasks ((values.map Op.task ++ rest).takeWhile fun entry => !entry.isCancel) =
      values ++ Op.tasks (rest.takeWhile fun entry => !entry.isCancel) := by
  have tasks : ∀ entry ∈ values.map Op.task, (!Op.isCancel entry) = true := by
    intro entry present
    rcases List.mem_map.mp present with ⟨value, -, rfl⟩
    rfl
  rw [List.takeWhile_append_of_pos tasks, Op.tasks_append, Op.tasks_map_task]

namespace InOrder

theorem ran_promised (inOrder : worker.InOrder) : worker.ran <+: worker.promised := by
  rcases inOrder.ran_prefix with ⟨rest, stored⟩
  rw [promised, ← stored, promised_tasks]
  exact List.prefix_append _ _

/-- A thread at its cancel task has run what was promised. -/
theorem promised_of_cancel (cancelled : worker.ran.map .task ++ [.cancel] <+:
    worker.channel.stored) : worker.promised = worker.ran := by
  rcases cancelled with ⟨rest, stored⟩
  rw [promised, ← stored, List.append_assoc, promised_tasks]
  exact List.append_nil _

/-- As long as a thread has not run what was promised, it is about to run a task, or it has
something to dequeue. -/
theorem goes (inOrder : worker.InOrder) (behind : worker.ran.length < worker.promised.length) :
    worker.exited = false ∧ ((∃ task, worker.running = some (.task task)) ∨
      worker.running = none ∧ worker.queue ≠ []) := by
  have notDone : worker.promised ≠ worker.ran := by
    intro same
    rw [same] at behind
    exact lt_irrefl _ behind
  have goesOn : worker.exited = false := by
    apply Bool.eq_false_iff.mpr
    intro exited
    exact notDone (promised_of_cancel (inOrder.ran_of_exited exited))
  refine ⟨goesOn, ?_⟩
  have removed := inOrder.removed
  have history := worker.channel.removed_append_unread
  rw [taken, goesOn] at removed
  rcases running : worker.running with _ | task | _
  · right
    refine ⟨rfl, fun empty => notDone ?_⟩
    rw [removed, running, ← inOrder.queue, empty] at history
    rw [promised, ← history, if_neg Bool.false_ne_true, Option.toList_none, List.append_nil,
      promised_tasks]
    exact List.append_nil _
  · exact .inl ⟨task, rfl⟩
  · refine (notDone (promised_of_cancel ?_)).elim
    rw [running] at removed
    rw [← history, removed]
    exact List.prefix_append _ _

/-- Where no cancel task was posted, all that waits was promised. -/
theorem promised_of_waiting (inOrder : worker.InOrder) (none : .cancel ∉ worker.channel.stored) :
    worker.promised = worker.ran ++ worker.waiting := by
  have goesOn : worker.exited = false := by
    apply Bool.eq_false_iff.mpr
    intro exited
    exact none ((inOrder.ran_of_exited exited).subset (by simp))
  have history := worker.channel.removed_append_unread
  rw [inOrder.removed, taken, goesOn, if_neg Bool.false_ne_true, ← inOrder.queue,
    List.append_assoc] at history
  have whole : (worker.running.toList ++ worker.queue).takeWhile (fun entry => !entry.isCancel) =
      worker.running.toList ++ worker.queue := by
    rw [List.takeWhile_eq_self_iff]
    intro entry present
    cases entry with
    | task value => rfl
    | cancel => exact (none (history ▸ List.mem_append_right _ present)).elim
  rw [promised, ← history, promised_tasks, whole]
  rfl

end InOrder

end Worker

namespace Threadpool

variable {pool next : Threadpool τ} {event : Event τ} {thread : ThreadId} {worker : Worker τ}

/-- What a step of the pool does to its threads. -/
inductive MovesWorkers (pool : Threadpool τ) :
    Event τ → (ThreadId → Option (Worker τ)) → Prop where
  | same (event : Event τ) : MovesWorkers pool event pool.workers
  | started (thread : ThreadId) (fresh : pool.workers thread = none) :
      MovesWorkers pool (.startThread thread) (pool.startThread thread).workers
  | scheduled (task : τ) (thread : ThreadId) :
      MovesWorkers pool (.schedule task thread)
        (pool.updateWorker thread (·.enqueue (.task task))).workers
  | cancelled (thread : ThreadId) :
      MovesWorkers pool .stopGoes (pool.updateWorker thread (·.enqueue .cancel)).workers
  | dequeued (thread : ThreadId) (legal : pool.Legal (.dequeue thread)) :
      MovesWorkers pool (.dequeue thread) (pool.updateWorker thread Worker.dequeue).workers
  | ran (thread : ThreadId) :
      MovesWorkers pool (.run thread) (pool.updateWorker thread Worker.run).workers

theorem workers_schedule {op : Op τ} {target : ThreadId}
    (scheduled : pool.schedule op target = .ok next) :
    next.workers = (pool.updateWorker target (·.enqueue op)).workers :=
  funext fun other => (schedule_workers scheduled other).trans (updateWorker_workers ..).symm

theorem movesWorkers_exec (legal : pool.Legal event) :
    pool.MovesWorkers event (pool.exec event).workers := by
  cases event with
  | startThread thread => exact .started thread legal.2
  | schedule task thread =>
      rw [exec, scheduleTask]
      split
      · next scheduled =>
          rw [workers_schedule scheduled]
          exact .scheduled task thread
      · split
        · exact .same _
        · exact .same _
  | dequeue thread => exact .dequeued thread legal
  | run thread => exact .ran thread
  | stop =>
      rw [exec, stop]
      split
      · exact .same _
      · exact .same _
  | stopGoes =>
      rw [exec, stopGoes]
      split
      · exact .same _
      · next thread _ _ =>
          split
          · next cancelled scheduled =>
              have workers := workers_schedule scheduled
              rw [workers]
              exact .cancelled thread
          · exact .same _
      · exact .same _
      · exact .same _

/-- What a step of the pool does to a thread that has started. -/
theorem worker_goes (legal : pool.Legal event) (present : pool.workers thread = some worker) :
    ∃ later, (pool.exec event).workers thread = some later ∧ worker.Step later := by
  have updated {target : ThreadId} {update : Worker τ → Worker τ}
      (step : target = thread → worker.Step (update worker)) :
      ∃ later, (pool.updateWorker target update).workers thread = some later ∧
        worker.Step later := by
    rw [updateWorker_workers]
    split
    · next here =>
        subst here
        exact ⟨update worker, by rw [present, Option.map_some], step rfl⟩
    · exact ⟨worker, present, .same⟩
  have moves := movesWorkers_exec legal
  generalize (pool.exec event).workers = workers at moves ⊢
  cases moves with
  | same => exact ⟨worker, present, .same⟩
  | started started fresh =>
      have other : thread ≠ started := by
        rintro rfl
        rw [fresh] at present
        cases present
      exact ⟨worker, (startThread_workers ..).trans ((if_neg other).trans present), .same⟩
  | scheduled task target => exact updated fun _ => .enqueue _
  | cancelled target => exact updated fun _ => .enqueue _
  | dequeued target ready =>
      apply updated
      rintro rfl
      rcases ready with ⟨other, same, goesOn, ready, nonempty⟩
      rcases Option.some.inj (present.symm.trans same) with rfl
      exact .dequeue goesOn (Option.isNone_iff_eq_none.mp ready) nonempty
  | ran target => exact updated fun _ => .run

/-! ### What was promised -/

def promised (pool : Threadpool τ) (thread : ThreadId) : List τ :=
  (pool.workers thread).elim [] Worker.promised

theorem promised_exec (legal : pool.Legal event) (thread : ThreadId) :
    pool.promised thread <+: (pool.exec event).promised thread := by
  rcases present : pool.workers thread with _ | worker
  · rw [promised, present]
    exact List.nil_prefix
  · rcases worker_goes legal present with ⟨later, stays, step⟩
    rw [promised, promised, present, stays]
    exact Worker.promised_of_prefix (Worker.stored_step step)

theorem promised_of_reachable (reachable : (system τ).Reachable pool next) (thread : ThreadId) :
    pool.promised thread <+: next.promised thread :=
  reachable.invariant (fun next => pool.promised thread <+: next.promised thread)
    List.prefix_rfl fun _ _ _ before step => before.trans (step.2 ▸ promised_exec step.1 thread)

theorem ran_promised {size : ℕ} (reachable : (system τ).Reachable (new size) pool)
    (thread : ThreadId) : pool.ran thread <+: pool.promised thread := by
  rcases present : pool.workers thread with _ | worker
  · rw [ran, present]
    exact List.nil_prefix
  · rw [ran, promised, present]
    exact (inOrder_of_reachable reachable present).ran_promised

/-- No thread was cancelled. -/
def Uncancelled (pool : Threadpool τ) : Prop :=
  ∀ thread worker, pool.workers thread = some worker → .cancel ∉ worker.channel.stored

theorem Uncancelled.updateWorker (uncancelled : pool.Uncancelled) (thread : ThreadId)
    {update : Worker τ → Worker τ}
    (kept : ∀ worker : Worker τ, .cancel ∉ worker.channel.stored →
      .cancel ∉ (update worker).channel.stored) :
    (pool.updateWorker thread update).Uncancelled := by
  intro other worker present
  rw [updateWorker_workers] at present
  rcases updated_cases present with ⟨-, present⟩ | ⟨before, -, found, rfl⟩
  · exact uncancelled other worker present
  · exact kept before (uncancelled thread before found)

theorem Uncancelled.exec (uncancelled : pool.Uncancelled)
    (idle : (pool.exec event).stopping = .idle) (legal : pool.Legal event) :
    (pool.exec event).Uncancelled := by
  intro thread worker present
  have moves := movesWorkers_exec legal
  generalize (pool.exec event).workers = workers at moves present
  cases moves with
  | same => exact uncancelled thread worker present
  | started started =>
      rw [startThread_workers] at present
      split at present
      · rcases Option.some.inj present with rfl
        exact List.not_mem_nil
      · exact uncancelled thread worker present
  | scheduled task target =>
      refine uncancelled.updateWorker target (fun worker none => ?_) thread worker present
      simpa [Worker.enqueue, Channel.push] using none
  | cancelled => exact (stopGoes_not_idle legal idle).elim
  | dequeued target =>
      refine uncancelled.updateWorker target (fun worker none => ?_) thread worker present
      rw [Worker.dequeue]
      split
      · exact none
      · exact none
  | ran target =>
      refine uncancelled.updateWorker target (fun worker none => ?_) thread worker present
      rw [Worker.run]
      split
      · exact none
      · exact none
      · exact none

/-- Before `stop` is called, all that a thread has run and all that waits for it was promised. -/
theorem promised_of_idle {size : ℕ} (reachable : (system τ).Reachable (new size) pool)
    (idle : pool.stopping = .idle) (thread : ThreadId) :
    pool.promised thread = pool.ran thread ++ pool.waiting thread := by
  have uncancelled := reachable.invariant (fun pool => pool.stopping = .idle → pool.Uncancelled)
    (by simp [new, Uncancelled]) ?_
  · rcases present : pool.workers thread with _ | worker
    · rw [promised, ran, waiting, present]
      rfl
    · rw [promised, ran, waiting, present]
      exact (inOrder_of_reachable reachable present).promised_of_waiting
        (uncancelled idle thread worker present)
  · rintro before event after uncancelled ⟨legal, rfl⟩ idle
    exact (uncancelled (registered_exec legal idle).1).exec idle legal

/-! ### Who goes on -/

/-- What a thread has run, and what it is about to run. -/
def activity (pool : Threadpool τ) (thread : ThreadId) : Option (List τ × Option (Op τ)) :=
  (pool.workers thread).map fun worker => (worker.ran, worker.running)

/-- How many steps a thread takes until it has run so many tasks. -/
def due (pool : Threadpool τ) (thread : ThreadId) (count : ℕ) : ℕ :=
  (pool.activity thread).elim 0 fun activity =>
    2 * (count - activity.1.length) - activity.2.toList.length

theorem activity_updateWorker {update : Worker τ → Worker τ} {target : ThreadId}
    (same : target = thread → ∀ worker : Worker τ,
      (update worker).ran = worker.ran ∧ (update worker).running = worker.running) :
    (pool.updateWorker target update).activity thread = pool.activity thread := by
  rw [activity, activity, updateWorker_workers]
  split
  · next here =>
      subst here
      rw [Option.map_map]
      congr
      funext worker
      exact Prod.ext (same rfl worker).1 (same rfl worker).2
  · rfl

theorem activity_schedule {op : Op τ} {target : ThreadId}
    (scheduled : pool.schedule op target = .ok next) : next.activity = pool.activity := by
  rw [schedule] at scheduled
  split at scheduled
  · rcases Except.ok.inj scheduled with rfl
    funext thread
    exact activity_updateWorker fun _ _ => ⟨rfl, rfl⟩
  · cases scheduled

theorem activity_scheduleTask (pool : Threadpool τ) (task : τ) (target : ThreadId) :
    (pool.scheduleTask task target).activity = pool.activity := by
  rw [scheduleTask]
  split
  · next scheduled => exact activity_schedule scheduled
  · split
    · rfl
    · rfl

theorem activity_scheduleAll (pool : Threadpool τ) (tasks : List τ) (target : ThreadId) :
    (pool.scheduleAll tasks target).activity = pool.activity := by
  induction tasks generalizing pool with
  | nil => rfl
  | cons task tasks ih => exact (ih _).trans (activity_scheduleTask pool task target)

/-- A thread that has started does not notice the steps of others. -/
theorem activity_exec (legal : pool.Legal event) (started : (pool.workers thread).isSome = true)
    (notDequeue : event ≠ .dequeue thread) (notRun : event ≠ .run thread) :
    (pool.exec event).activity thread = pool.activity thread := by
  have moves := movesWorkers_exec legal
  rw [activity]
  generalize (pool.exec event).workers = workers at moves ⊢
  cases moves with
  | same => rfl
  | started other fresh =>
      have different : thread ≠ other := by
        rintro rfl
        simp [fresh] at started
      exact congrArg _ ((startThread_workers ..).trans (if_neg different))
  | scheduled task target => exact activity_updateWorker fun _ _ => ⟨rfl, rfl⟩
  | cancelled target => exact activity_updateWorker fun _ _ => ⟨rfl, rfl⟩
  | dequeued target =>
      apply activity_updateWorker
      rintro rfl
      exact (notDequeue rfl).elim
  | ran target =>
      apply activity_updateWorker
      rintro rfl
      exact (notRun rfl).elim

theorem due_eq (present : pool.workers thread = some worker) (count : ℕ) :
    pool.due thread count = 2 * (count - worker.ran.length) - worker.running.toList.length := by
  rw [due, activity, present]
  rfl

theorem ran_of_workers (present : pool.workers thread = some worker) :
    pool.ran thread = worker.ran := by
  rw [ran, present]
  rfl

section Going

variable {count : ℕ} (behind : (pool.ran thread).length < count)
include behind

theorem due_dequeue (legal : pool.Legal (.dequeue thread)) :
    (pool.exec (.dequeue thread)).ran thread = pool.ran thread ∧
      (pool.exec (.dequeue thread)).due thread count < pool.due thread count := by
  rcases legal with ⟨worker, present, -, ready, nonempty⟩
  rcases queue : worker.queue with _ | ⟨entry, rest⟩
  · exact (nonempty queue).elim
  have none : worker.running = none := Option.isNone_iff_eq_none.mp ready
  have dequeued : worker.dequeue.ran = worker.ran ∧ worker.dequeue.running = some entry := by
    rw [Worker.dequeue, queue]
    exact ⟨rfl, rfl⟩
  have after : (pool.exec (.dequeue thread)).workers thread = some worker.dequeue := by
    rw [exec, updateWorker_workers, if_pos rfl, present, Option.map_some]
  rw [ran_of_workers present] at behind
  rw [ran_of_workers after, ran_of_workers present, due_eq after, due_eq present, dequeued.1,
    dequeued.2, none]
  refine ⟨rfl, ?_⟩
  rw [Option.toList_some, Option.toList_none, List.length_singleton, List.length_nil]
  omega

theorem due_run {task : τ}
    (running : (pool.workers thread).bind Worker.running = some (.task task)) :
    (pool.exec (.run thread)).ran thread = pool.ran thread ++ [task] ∧
      (pool.exec (.run thread)).due thread count < pool.due thread count := by
  rcases Option.bind_eq_some_iff.mp running with ⟨worker, present, running⟩
  have ran : worker.run = { worker with running := none, ran := worker.ran ++ [task] } := by
    rw [Worker.run, running]
  have after : (pool.exec (.run thread)).workers thread = some worker.run := by
    rw [exec, updateWorker_workers, if_pos rfl, present, Option.map_some]
  rw [ran_of_workers present] at behind
  rw [ran_of_workers after, ran_of_workers present, due_eq after, due_eq present, ran, running]
  refine ⟨rfl, ?_⟩
  rw [Option.toList_some, Option.toList_none, List.length_singleton, List.length_nil,
    List.length_append, List.length_singleton]
  omega

end Going

/-! ### Tasks that are scheduled while `stop` is under way -/

theorem started_of_reachable (reachable : (system τ).Reachable pool next)
    (started : (pool.workers thread).isSome = true) : (next.workers thread).isSome = true := by
  apply reachable.invariant (fun next => (next.workers thread).isSome = true) started
  rintro before event after started ⟨legal, rfl⟩
  rcases Option.isSome_iff_exists.mp started with ⟨worker, present⟩
  rcases worker_goes legal present with ⟨later, stays, -⟩
  exact Option.isSome_iff_exists.mpr ⟨later, stays⟩

theorem Sound.scheduleAll (sound : pool.Sound) (indexed : pool.Indexed)
    (looping : pool.Looping thread) (tasks : List τ) :
    (pool.scheduleAll tasks thread).Sound := by
  induction tasks generalizing pool with
  | nil => exact sound
  | cons task tasks ih =>
      have legal : pool.Legal (.schedule task thread) := indexed.inside thread looping.started
      exact ih (sound.scheduleTask task looping.started) (indexed.exec legal)
        (looping.scheduleTask indexed task)

theorem Going.not_returned (going : pool.Going) : pool.stopping ≠ .returned := by
  rcases going.busy with ⟨threads, loop⟩ | ⟨thread, threads, joining⟩
  · simp [loop]
  · simp [joining]

/-- A pool, whatever was refused so far; refusals matter to nobody. -/
def forgiven (pool : Threadpool τ) : Threadpool τ :=
  { pool with refused := [] }

theorem legal_forgiven : pool.forgiven.Legal event ↔ pool.Legal event := by
  cases event <;> rfl

theorem Indexed.forgiven (indexed : pool.Indexed) : pool.forgiven.Indexed :=
  ⟨indexed.inside, indexed.listed, indexed.indexed, indexed.started, indexed.joins⟩

theorem forgiven_updateWorker (pool : Threadpool τ) (thread : ThreadId)
    (update : Worker τ → Worker τ) :
    (pool.updateWorker thread update).forgiven = pool.forgiven.updateWorker thread update := by
  have workers : (pool.updateWorker thread update).workers =
      (pool.forgiven.updateWorker thread update).workers := by
    funext other
    rw [updateWorker_workers, updateWorker_workers]
    rfl
  rw [updateWorker_eq, updateWorker_eq pool.forgiven, workers]
  rfl

theorem forgiven_scheduleTask {task : τ} (listed : thread ∈ pool.queuesIndex) :
    (pool.scheduleTask task thread).forgiven = pool.forgiven.scheduleTask task thread := by
  have same : pool.forgiven.schedule (.task task) thread =
      .ok (pool.forgiven.updateWorker thread (·.enqueue (.task task))) := if_pos listed
  rw [scheduleTask_eq same, scheduleTask_eq (if_pos listed), forgiven_updateWorker]

theorem forgiven_refused {task : τ} (missing : thread ∉ pool.queuesIndex) :
    (pool.scheduleTask task thread).forgiven = pool.forgiven := by
  rw [scheduleTask, schedule, if_neg missing]
  simp only
  split
  · rfl
  · rfl

theorem forgiven_stopGoes (pool : Threadpool τ) :
    pool.stopGoes.forgiven = pool.forgiven.stopGoes := by
  have sameStopping : pool.forgiven.stopping = pool.stopping := rfl
  rw [stopGoes, stopGoes, sameStopping]
  rcases pool.stopping with _ | ⟨_ | ⟨thread, threads⟩⟩ | ⟨thread, threads⟩ | _ | what
  case loop.cons =>
    simp only [stopThread, schedule]
    have sameIndex : pool.forgiven.queuesIndex = pool.queuesIndex := rfl
    rw [sameIndex]
    by_cases listed : thread ∈ pool.queuesIndex
    · rw [if_pos listed, if_pos listed, ← forgiven_updateWorker]
      rfl
    · rw [if_neg listed, if_neg listed]
      rfl
  all_goals rfl

/-- What a step does to a pool does not depend on refusals. -/
theorem forgiven_exec (isOther : ∀ task thread, event ≠ .schedule task thread) :
    (pool.exec event).forgiven = pool.forgiven.exec event := by
  cases event with
  | startThread thread => rfl
  | schedule task thread => exact absurd rfl (isOther task thread)
  | dequeue thread => exact forgiven_updateWorker ..
  | run thread => exact forgiven_updateWorker ..
  | stop =>
      have sameStop : pool.forgiven.stop =
        if pool.threads.isEmpty || pool.queuesIndex.isEmpty then
          { pool.forgiven with stopping := .returned }
        else { pool.forgiven with stopping := .loop pool.threads } := rfl
      rw [exec, exec, sameStop, stop]
      split
      · rfl
      · rfl
  | stopGoes => exact forgiven_stopGoes pool

theorem forgiven_scheduleAll (listed : thread ∈ pool.queuesIndex) (tasks : List τ) :
    (pool.scheduleAll tasks thread).forgiven = pool.forgiven.scheduleAll tasks thread := by
  induction tasks generalizing pool with
  | nil => rfl
  | cons task tasks ih =>
      rw [scheduleAll, scheduleAll, ← forgiven_scheduleTask listed]
      apply ih
      rwa [(scheduleTask_kept pool task thread).1]

theorem Sound.forgiven_scheduleTask (sound : pool.forgiven.Sound) (indexed : pool.Indexed)
    (task : τ) (thread : ThreadId) : (pool.scheduleTask task thread).forgiven.Sound := by
  by_cases listed : thread ∈ pool.queuesIndex
  · rw [Threadpool.forgiven_scheduleTask listed]
    exact sound.scheduleTask task (indexed.started thread listed)
  · rwa [forgiven_refused listed]

/-- `stop` is closer to its end, or as far from it and waits for the same. -/
def Advances (pool next : Threadpool τ) : Prop :=
  next.rank < pool.rank ∨ next.rank = pool.rank ∧ next.charge = pool.charge

theorem Advances.rank_lt {middle : Threadpool τ} (advances : middle.Advances next)
    (lower : middle.rank < pool.rank) : next.rank < pool.rank := by
  rcases advances with evenLower | ⟨same, -⟩
  · exact evenLower.trans lower
  · exact same.trans_lt lower

/-- Nobody sets `stop` back by scheduling tasks. -/
theorem Going.scheduleAll (going : pool.Going) (indexed : pool.Indexed)
    (looping : pool.Looping thread) (tasks : List τ) :
    (pool.scheduleAll tasks thread).Going ∧ pool.Advances (pool.scheduleAll tasks thread) := by
  induction tasks generalizing pool with
  | nil => exact ⟨going, .inr ⟨rfl, rfl⟩⟩
  | cons task tasks ih =>
      have legal : pool.Legal (.schedule task thread) := indexed.inside thread looping.started
      have later := looping.scheduleTask indexed task
      rcases going.exec legal looping.started with ⟨returned, -⟩ | ⟨goes, first⟩
      · have kept := (scheduleTask_kept pool task thread).2
        exact absurd (kept.symm.trans returned) going.not_returned
      · rcases ih goes (indexed.exec legal) later with ⟨stillGoes, rest⟩
        refine ⟨stillGoes, ?_⟩
        rcases first with lower | ⟨sameRank, sameCharge, -⟩
        · exact .inl (rest.rank_lt lower)
        · rcases rest with lower | ⟨restRank, restCharge⟩
          · exact .inl (lower.trans_eq sameRank)
          · exact .inr ⟨restRank.trans sameRank, restCharge.trans sameCharge⟩

end Threadpool

end Snode.Pool
