import Snode.Pool.Threadpool

/-!
# The order of tasks

What a worker took out of its queue is what it has run, then what it is about to
run, or the cancel task it left its loop at.  The queue is a channel, so this is a
prefix of what was enqueued, in the order in which it was.
-/

namespace Snode.Pool

variable {τ : Type}

namespace Op

theorem tasks_append (first second : List (Op τ)) :
    tasks (first ++ second) = tasks first ++ tasks second :=
  List.filterMap_append

theorem tasks_map_task (values : List τ) : tasks (values.map task) = values := by
  rw [tasks, List.filterMap_map]
  exact List.filterMap_some

/-- Some tasks in front of entries with a cancel task are in front of the cancel task. -/
theorem prefix_of_map_task_prefix {values : List τ} {before after : List (Op τ)}
    (isStart : values.map task <+: before ++ cancel :: after) : values.map task <+: before := by
  rcases isStart with ⟨rest, same⟩
  rcases List.append_eq_append_iff.mp same with ⟨more, rfl, -⟩ | ⟨more, same, rest⟩
  · exact List.prefix_append _ _
  · cases more with
    | nil =>
        have whole : values.map task = before := by rw [same, List.append_nil]
        exact whole ▸ List.prefix_refl _
    | cons entry more =>
        obtain rfl : cancel = entry := (List.cons_eq_cons.mp rest).1
        have present : cancel ∈ values.map task := by simp [same]
        simp at present

end Op

namespace Worker

/-- What was taken out of the queue. -/
def taken (worker : Worker τ) : List (Op τ) :=
  worker.ran.map .task ++ if worker.exited then [.cancel] else worker.running.toList

/-- The invariant of a worker. -/
structure InOrder (worker : Worker τ) : Prop where
  queue : worker.queue = worker.channel.unread
  removed : worker.channel.removed = worker.taken
  exited : worker.exited = true → worker.running = none

theorem inOrder_new : (new : Worker τ).InOrder where
  queue := rfl
  removed := rfl
  exited _ := rfl

/-- What a step of the pool does to a worker. -/
inductive Step (worker : Worker τ) : Worker τ → Prop where
  | same : Step worker worker
  | enqueue (entry : Op τ) : Step worker (worker.enqueue entry)
  | dequeue (goesOn : worker.exited = false) (ready : worker.running = none)
      (nonempty : worker.queue ≠ []) : Step worker worker.dequeue
  | run : Step worker worker.run

theorem InOrder.goesOn {worker : Worker τ} (inOrder : worker.InOrder) {entry : Op τ}
    (running : worker.running = some entry) : worker.exited = false := by
  cases exited : worker.exited with
  | false => rfl
  | true => simp [inOrder.exited exited] at running

theorem InOrder.step {worker next : Worker τ} (inOrder : worker.InOrder)
    (step : worker.Step next) : next.InOrder := by
  cases step with
  | same => exact inOrder
  | enqueue entry =>
      refine ⟨?_, inOrder.removed, inOrder.exited⟩
      rw [enqueue, Channel.unread_push, inOrder.queue]
  | dequeue goesOn ready nonempty =>
      rcases queue : worker.queue with _ | ⟨result, rest⟩
      · exact (nonempty queue).elim
      have unread : worker.channel.unread = result :: rest := by rw [← inOrder.queue, queue]
      simp only [Worker.dequeue, queue]
      refine ⟨?_, ?_, ?_⟩
      · simp [unread]
      · have removed := inOrder.removed
        simp only [taken, goesOn, ready, Bool.false_eq_true, if_false, Option.toList_none,
          List.append_nil] at removed
        simp [Channel.pop, unread, removed, taken, goesOn]
      · intro exited
        simp [goesOn] at exited
  | run =>
      have removed := inOrder.removed
      rw [Worker.run]
      rcases running : worker.running with _ | task | _
      · exact inOrder
      · refine ⟨inOrder.queue, ?_, fun _ => rfl⟩
        simpa [taken, inOrder.goesOn running, running] using removed
      · refine ⟨inOrder.queue, ?_, fun _ => rfl⟩
        simpa [taken, inOrder.goesOn running, running] using removed

theorem InOrder.ran_prefix {worker : Worker τ} (inOrder : worker.InOrder) :
    worker.ran.map .task <+: worker.channel.stored := by
  have isStart : worker.ran.map .task <+: worker.taken := List.prefix_append _ _
  rw [← inOrder.removed] at isStart
  exact isStart.trans worker.channel.removed_prefix

/-- A worker that left its loop ran what was enqueued before a cancel task. -/
theorem InOrder.ran_of_exited {worker : Worker τ} (inOrder : worker.InOrder)
    (exited : worker.exited = true) :
    worker.ran.map .task ++ [.cancel] <+: worker.channel.stored := by
  have removed := inOrder.removed
  rw [taken, if_pos exited] at removed
  rw [← removed]
  exact worker.channel.removed_prefix

end Worker

namespace Threadpool

variable {pool next : Threadpool τ} {event : Event τ}

theorem schedule_workers {op : Op τ} {thread : ThreadId}
    (scheduled : pool.schedule op thread = .ok next) (other : ThreadId) :
    next.workers other =
      if other = thread then (pool.workers thread).map (·.enqueue op)
      else pool.workers other := by
  rw [schedule] at scheduled
  split at scheduled
  · obtain rfl : pool.updateWorker thread (·.enqueue op) = next := by simpa using scheduled
    exact updateWorker_workers ..
  · simp at scheduled

/-- A worker in the state after an update was there before, or is the one updated. -/
theorem updated_cases {thread other : ThreadId} {update : Worker τ → Worker τ}
    {worker : Worker τ}
    (present : (if other = thread then (pool.workers thread).map update
      else pool.workers other) = some worker) :
    (other ≠ thread ∧ pool.workers other = some worker) ∨
      ∃ before, other = thread ∧ pool.workers thread = some before ∧ worker = update before := by
  split at present
  · next same =>
      rw [Option.map_eq_some_iff] at present
      rcases present with ⟨before, present, rfl⟩
      exact .inr ⟨before, same, present, rfl⟩
  · next different => exact .inl ⟨different, present⟩

/-- Where a worker in the state after a step comes from. -/
theorem worker_step (legal : pool.Legal event) {thread : ThreadId} {worker : Worker τ}
    (present : (pool.exec event).workers thread = some worker) :
    worker = Worker.new ∨ ∃ before, pool.workers thread = some before ∧ before.Step worker := by
  have kept (present : pool.workers thread = some worker) :
      worker = Worker.new ∨ ∃ before, pool.workers thread = some before ∧ before.Step worker :=
    .inr ⟨worker, present, .same⟩
  have enqueued {op : Op τ} {target : ThreadId} {next : Threadpool τ}
      (scheduled : pool.schedule op target = .ok next)
      (present : next.workers thread = some worker) :
      worker = Worker.new ∨
        ∃ before, pool.workers thread = some before ∧ before.Step worker := by
    rw [schedule_workers scheduled] at present
    rcases updated_cases present with ⟨-, present⟩ | ⟨before, rfl, found, rfl⟩
    · exact kept present
    · exact .inr ⟨before, found, .enqueue op⟩
  cases event with
  | startThread started =>
      change (if thread = started then some Worker.new else pool.workers thread) = _ at present
      split at present
      · exact .inl (Option.some.inj present).symm
      · exact kept present
  | schedule task target =>
      rw [exec, scheduleTask] at present
      split at present
      · next scheduled => exact enqueued scheduled present
      · split at present <;> exact kept present
  | dequeue target =>
      rw [exec, updateWorker_workers] at present
      rcases updated_cases present with ⟨-, present⟩ | ⟨before, rfl, found, rfl⟩
      · exact kept present
      · rcases legal with ⟨other, same, goesOn, ready, nonempty⟩
        obtain rfl : before = other := Option.some.inj (found.symm.trans same)
        exact .inr ⟨before, found,
          .dequeue goesOn (Option.isNone_iff_eq_none.mp ready) nonempty⟩
  | run target =>
      rw [exec, updateWorker_workers] at present
      rcases updated_cases present with ⟨-, present⟩ | ⟨before, rfl, found, rfl⟩
      · exact kept present
      · exact .inr ⟨before, found, .run⟩
  | stop =>
      rw [exec, stop] at present
      split at present <;> exact kept present
  | stopGoes =>
      rw [exec, stopGoes] at present
      split at present
      · exact kept present
      · split at present
        · next scheduled => exact enqueued scheduled present
        · exact kept present
      · exact kept present
      · exact kept present

theorem inOrder_of_reachable {size : ℕ} (reachable : (system τ).Reachable (new size) pool)
    {thread : ThreadId} {worker : Worker τ} (present : pool.workers thread = some worker) :
    worker.InOrder := by
  have all : ∀ thread worker, pool.workers thread = some worker → worker.InOrder := by
    apply reachable.invariant fun pool =>
      ∀ thread worker, pool.workers thread = some worker → worker.InOrder
    · intro thread worker present
      simp [new] at present
    · rintro pool event - before ⟨legal, rfl⟩ thread worker present
      rcases worker_step legal present with rfl | ⟨other, present, step⟩
      · exact Worker.inOrder_new
      · exact (before thread other present).step step
  exact all thread worker present

/-- A worker runs the tasks enqueued to it in their order, each of them once; the cancel
task separates those it runs before it exits from those it never runs. -/
theorem tasks_in_order {size : ℕ} (reachable : (system τ).Reachable (new size) pool)
    {thread : ThreadId} {worker : Worker τ} (registered : pool.workers thread = some worker) :
    worker.ran <+: Op.tasks worker.channel.stored ∧
      (worker.exited = true → .cancel ∈ worker.channel.stored) ∧
      ∀ before after, worker.channel.stored = before ++ .cancel :: after → .cancel ∉ before →
        worker.ran <+: Op.tasks before ∧
          (worker.exited = true → worker.ran = Op.tasks before) := by
  have inOrder := inOrder_of_reachable reachable registered
  refine ⟨?_, ?_, ?_⟩
  · rcases inOrder.ran_prefix with ⟨rest, stored⟩
    rw [← stored, Op.tasks_append, Op.tasks_map_task]
    exact List.prefix_append _ _
  · intro exited
    exact (inOrder.ran_of_exited exited).subset (by simp)
  · intro before after stored first
    have isStart := inOrder.ran_prefix
    rw [stored] at isStart
    rcases Op.prefix_of_map_task_prefix isStart with ⟨rest, rfl⟩
    rw [Op.tasks_append, Op.tasks_map_task]
    refine ⟨List.prefix_append _ _, fun exited => ?_⟩
    have ended := inOrder.ran_of_exited exited
    rw [stored, List.append_assoc, List.prefix_append_right_inj] at ended
    cases rest with
    | nil => simp [Op.tasks]
    | cons entry rest =>
        obtain rfl : Op.cancel = entry := (List.cons_prefix_cons.mp ended).1
        simp at first

/-- Task `8` is scheduled behind the cancel task. -/
theorem tasks_in_order_one_thread :
    ∃ (pool : Threadpool ℕ) (worker : Worker ℕ), pool.workers 0 = some worker ∧
      worker.channel.stored = [.task 7, .cancel, .task 8] ∧ worker.ran = [7] ∧
      Op.tasks worker.channel.stored = [7, 8] ∧
      worker.ran <+: Op.tasks worker.channel.stored := by
  let events : List (Event ℕ) := [.startThread 0, .schedule 7 0, .stop, .stopGoes,
    .schedule 8 0, .dequeue 0, .run 0, .dequeue 0, .run 0]
  have follows : (system ℕ).Follows exec (new 1) events := by
    refine ⟨⟨⟨by decide, rfl⟩, rfl⟩, ⟨Nat.one_pos, rfl⟩, ⟨.inl rfl, rfl⟩, ⟨.inl ⟨_, rfl⟩, rfl⟩,
      ⟨Nat.one_pos, rfl⟩, ⟨⟨_, rfl, rfl, rfl, List.cons_ne_nil _ _⟩, rfl⟩, ⟨⟨_, rfl, rfl⟩, rfl⟩,
      ⟨⟨_, rfl, rfl, rfl, List.cons_ne_nil _ _⟩, rfl⟩, ⟨⟨_, rfl, rfl⟩, rfl⟩, trivial⟩
  refine ⟨events.foldl exec (new 1), _, rfl, rfl, rfl, rfl, ?_⟩
  exact (@tasks_in_order ℕ _ 1 follows.reachable 0 _ rfl).1

end Threadpool

end Snode.Pool
