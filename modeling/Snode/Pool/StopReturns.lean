import Snode.Pool.Shutdown

/-!
# `stop` returns

While `stop` is under way, one thread is in charge: the one that is joined, until it
has exited, and else the one that called `stop`.  What the joined thread has to do
before it exits is what is queued in front of the cancel task, and nobody adds to
that.  So in a fair execution the loop comes to its end.
-/

namespace Snode.Pool

variable {τ : Type}

/-- Who takes a step of the pool. -/
inductive Actor where
  | worker (thread : ThreadId)
  | stopper

/-- Calls of `schedule` and `stop` are up to the users of the pool. -/
def Event.actor : Event τ → Option Actor
  | .startThread thread | .dequeue thread | .run thread => some (.worker thread)
  | .stopGoes => some .stopper
  | .schedule _ _ | .stop => none

namespace Worker

/-- How many steps the thread takes until it has run the first cancel task of its queue. -/
def pending (worker : Worker τ) : ℕ :=
  if worker.exited then 0
  else
    match worker.running with
    | some .cancel => 1
    | some (.task _) => 2 * (worker.queue.findIdx Op.isCancel + 1) + 1
    | none => 2 * (worker.queue.findIdx Op.isCancel + 1)

theorem countP_map_task (values : List τ) :
    (values.map Op.task).countP Op.isCancel = 0 := by
  rw [List.countP_eq_zero]
  intro entry present
  rcases List.mem_map.mp present with ⟨value, -, rfl⟩
  simp [Op.isCancel]

/-- A cancel task that was posted is still there, as long as the thread has not exited. -/
theorem InOrder.cancel_pending {worker : Worker τ} (inOrder : worker.InOrder)
    (goesOn : worker.exited = false) (posted : 0 < worker.cancels) :
    worker.running = some .cancel ∨ ∃ entry ∈ worker.queue, Op.isCancel entry = true := by
  have history := worker.channel.removed_append_unread
  rw [cancels, ← history, List.countP_append, inOrder.removed, ← inOrder.queue, taken, goesOn,
    List.countP_append, countP_map_task] at posted
  rcases running : worker.running with _ | task | _
  · right
    simpa [running, List.countP_pos_iff] using posted
  · right
    simpa [running, List.countP_pos_iff, Op.isCancel] using posted
  · exact .inl rfl

theorem pending_enqueue {worker : Worker τ} (inOrder : worker.InOrder)
    (posted : 0 < worker.cancels) (entry : Op τ) :
    (worker.enqueue entry).pending = worker.pending := by
  cases goesOn : worker.exited with
  | true => simp [pending, enqueue, goesOn]
  | false =>
      rcases inOrder.cancel_pending goesOn posted with running | present
      · simp [pending, enqueue, goesOn, running]
      · have found := List.findIdx_lt_length.mpr present
        simp only [pending, enqueue, List.findIdx_append, if_pos found]

theorem pending_dequeue {worker : Worker τ} (goesOn : worker.exited = false)
    (ready : worker.running = none) (nonempty : worker.queue ≠ []) :
    worker.dequeue.pending < worker.pending := by
  rcases queue : worker.queue with _ | ⟨task | _, rest⟩
  · exact (nonempty queue).elim
  · simp only [pending, dequeue, goesOn, ready, queue, List.findIdx_cons, Op.isCancel,
      Bool.false_eq_true, if_false, cond_false]
    omega
  · simp only [pending, dequeue, goesOn, ready, queue, List.findIdx_cons, Op.isCancel,
      Bool.false_eq_true, if_false, cond_true]
    omega

theorem pending_run {worker : Worker τ} (inOrder : worker.InOrder)
    (running : worker.running.isSome = true) : worker.run.pending < worker.pending := by
  rcases runs : worker.running with _ | task | _
  · simp [runs] at running
  · simp [pending, run, inOrder.goesOn runs, runs]
  · simp [pending, run, inOrder.goesOn runs, runs]

end Worker

namespace Threadpool

variable {pool next : Threadpool τ} {event : Event τ} {size : ℕ}

/-- Who has to go on for `stop` to go on. -/
def charge (pool : Threadpool τ) : Actor :=
  match pool.stopping with
  | .joining thread _ =>
      if (pool.workers thread).any (·.exited) then .stopper else .worker thread
  | _ => .stopper

/-- What is left to do before `stop` returns. -/
def rank (pool : Threadpool τ) : ℕ ×ₗ ℕ :=
  match pool.stopping with
  | .loop threads => toLex (2 * threads.length + 1, 0)
  | .joining thread threads =>
      toLex (2 * threads.length + 2, ((pool.workers thread).map Worker.pending).getD 0)
  | _ => toLex (0, 0)

/-- `stop` is under way in a pool that is used in time. -/
structure Going (pool : Threadpool τ) : Prop where
  sound : pool.Sound
  inOrder : ∀ thread worker, pool.workers thread = some worker → worker.InOrder
  busy : (∃ threads, pool.stopping = .loop threads) ∨
    ∃ thread threads, pool.stopping = .joining thread threads

theorem Going.joined_worker (going : pool.Going) {thread : ThreadId} {threads : List ThreadId}
    (joining : pool.stopping = .joining thread threads) :
    ∃ worker, pool.workers thread = some worker ∧ 0 < worker.cancels := by
  have started := going.sound.started thread (by simp [joining, Stopping.current])
  rcases Option.isSome_iff_exists.mp started with ⟨worker, present⟩
  refine ⟨worker, present, ?_⟩
  have once := going.sound.cancels thread worker present
  have nodup := going.sound.nodup
  rw [joining] at once nodup
  have fresh : thread ∉ threads := fun again =>
    (List.disjoint_of_nodup_append nodup)
      (List.mem_append_right _ (List.mem_singleton.mpr rfl)) again
  rw [Stopping.remaining, List.count_eq_zero_of_not_mem fresh] at once
  omega

theorem Going.enabled (going : pool.Going) :
    (system τ).Enabled Event.actor pool.charge pool := by
  rcases going.busy with ⟨threads, loop⟩ | ⟨thread, threads, joining⟩
  · exact ⟨.stopGoes, _, by simp [Event.actor, charge, loop], .inl ⟨threads, loop⟩, rfl⟩
  · rcases going.joined_worker joining with ⟨worker, present, posted⟩
    cases goesOn : worker.exited with
    | true =>
        exact ⟨.stopGoes, _, by simp [Event.actor, charge, joining, present, goesOn],
          .inr ⟨thread, threads, worker, joining, present, goesOn⟩, rfl⟩
    | false =>
        rcases running : worker.running with _ | entry
        · have queued : worker.queue ≠ [] := by
            rcases (going.inOrder thread worker present).cancel_pending goesOn posted with
              cancel | ⟨entry, queued, -⟩
            · simp [running] at cancel
            · exact List.ne_nil_of_mem queued
          exact ⟨.dequeue thread, _, by simp [Event.actor, charge, joining, present, goesOn],
            ⟨worker, present, goesOn, by simp [running], queued⟩, rfl⟩
        · exact ⟨.run thread, _, by simp [Event.actor, charge, joining, present, goesOn],
            ⟨worker, present, by simp [running]⟩, rfl⟩

theorem stopping_exec (pool : Threadpool τ) (event : Event τ) :
    event = .stop ∨ event = .stopGoes ∨
      (pool.exec event).stopping = pool.stopping ∧ event.actor ≠ some .stopper := by
  have updated (thread : ThreadId) (update : Worker τ → Worker τ) :
      (pool.updateWorker thread update).stopping = pool.stopping := by rw [updateWorker_eq]
  cases event with
  | stop => exact .inl rfl
  | stopGoes => exact .inr (.inl rfl)
  | startThread thread => exact .inr (.inr ⟨rfl, by simp [Event.actor]⟩)
  | dequeue thread => exact .inr (.inr ⟨updated thread _, by simp [Event.actor]⟩)
  | run thread => exact .inr (.inr ⟨updated thread _, by simp [Event.actor]⟩)
  | schedule task thread =>
      refine .inr (.inr ⟨?_, by simp [Event.actor]⟩)
      by_cases indexed : thread ∈ pool.queuesIndex
      · rw [exec, scheduleTask, schedule, if_pos indexed]
        exact updated thread _
      · rw [exec, scheduleTask, schedule, if_neg indexed]
        by_cases listed : thread ∈ pool.threads <;> simp [listed]

/-- What others and the joined thread itself do to the joined thread. -/
theorem joined_step {thread : ThreadId} {worker : Worker τ}
    (present : pool.workers thread = some worker) (inOrder : worker.InOrder)
    (posted : 0 < worker.cancels) (legal : pool.Legal event) (notStop : event ≠ .stop)
    (notStopGoes : event ≠ .stopGoes) :
    ∃ later, (pool.exec event).workers thread = some later ∧
      (later.pending < worker.pending ∨ later.pending = worker.pending ∧
        later.exited = worker.exited ∧ event.actor ≠ some (.worker thread)) := by
  cases event with
  | stop => exact (notStop rfl).elim
  | stopGoes => exact (notStopGoes rfl).elim
  | startThread started =>
      have different : thread ≠ started := by
        rintro rfl
        have fresh := legal.2
        simp [present] at fresh
      refine ⟨worker, ?_, .inr ⟨rfl, rfl, ?_⟩⟩
      · change (if thread = started then some Worker.new else pool.workers thread) = _
        rw [if_neg different, present]
      · simpa [Event.actor] using different.symm
  | schedule task target =>
      by_cases indexed : target ∈ pool.queuesIndex
      · rw [exec, scheduleTask, schedule, if_pos indexed]
        by_cases same : thread = target
        · subst same
          refine ⟨worker.enqueue (.task task), ?_, .inr ⟨?_, rfl, by simp [Event.actor]⟩⟩
          · simp [present]
          · exact Worker.pending_enqueue inOrder posted _
        · refine ⟨worker, ?_, .inr ⟨rfl, rfl, by simp [Event.actor]⟩⟩
          simp [same, present]
      · rw [exec, scheduleTask, schedule, if_neg indexed]
        refine ⟨worker, ?_, .inr ⟨rfl, rfl, by simp [Event.actor]⟩⟩
        by_cases listed : target ∈ pool.threads <;> simp [listed, present]
  | dequeue target =>
      rw [exec, updateWorker_workers]
      by_cases same : thread = target
      · subst same
        rcases legal with ⟨other, found, goesOn, ready, nonempty⟩
        obtain rfl : worker = other := Option.some.inj (present.symm.trans found)
        refine ⟨worker.dequeue, by simp [present], .inl ?_⟩
        exact Worker.pending_dequeue goesOn (Option.isNone_iff_eq_none.mp ready) nonempty
      · refine ⟨worker, by simp [same, present], .inr ⟨rfl, rfl, ?_⟩⟩
        simpa [Event.actor] using Ne.symm same
  | run target =>
      rw [exec, updateWorker_workers]
      by_cases same : thread = target
      · subst same
        rcases legal with ⟨other, found, running⟩
        obtain rfl : worker = other := Option.some.inj (present.symm.trans found)
        exact ⟨worker.run, by simp [present], .inl (Worker.pending_run inOrder running)⟩
      · refine ⟨worker, by simp [same, present], .inr ⟨rfl, rfl, ?_⟩⟩
        simpa [Event.actor] using Ne.symm same

/-- The step lemma: `stop` returns, or is closer to it, or someone else did something. -/
theorem Going.exec (going : pool.Going) (legal : pool.Legal event) (inTime : pool.InTime event) :
    ((pool.exec event).stopping = .returned ∧ (pool.exec event).Kept) ∨
      (pool.exec event).Going ∧ ((pool.exec event).rank < pool.rank ∨
        (pool.exec event).rank = pool.rank ∧ (pool.exec event).charge = pool.charge ∧
          event.actor ≠ some pool.charge) := by
  have sound := going.sound.exec legal inTime
  have inOrder : ∀ thread worker, (pool.exec event).workers thread = some worker →
      worker.InOrder := by
    intro thread worker present
    rcases worker_step legal present with rfl | ⟨before, present, step⟩
    · exact Worker.inOrder_new
    · exact (going.inOrder thread before present).step step
  have notStop : event ≠ .stop := by
    rintro rfl
    rcases going.busy with ⟨threads, loop⟩ | ⟨thread, threads, joining⟩
    · simp [Legal, loop] at legal
    · simp [Legal, joining] at legal
  rcases stopping_exec pool event with isStop | rfl | ⟨same, notStopper⟩
  · exact (notStop isStop).elim
  · rcases going.busy with ⟨_ | ⟨thread, threads⟩, loop⟩ | ⟨thread, threads, joining⟩
    · have returned : (pool.exec .stopGoes).stopping = .returned := by
        simp [Threadpool.exec, stopGoes, loop]
      exact .inl ⟨returned, sound.kept⟩
    · have reached := (going.sound.stopThread loop (inTime thread threads loop)).1
      have joins : (pool.exec .stopGoes).stopping = .joining thread threads := by
        rw [Threadpool.exec, reached]
      refine .inr ⟨⟨sound, inOrder, .inr ⟨thread, threads, joins⟩⟩, .inl ?_⟩
      simp only [rank, loop, joins]
      exact Prod.Lex.toLex_lt_toLex.mpr (.inl (by simp; omega))
    · have loops : (pool.exec .stopGoes).stopping = .loop threads := by
        simp [Threadpool.exec, stopGoes, joining]
      refine .inr ⟨⟨sound, inOrder, .inl ⟨threads, loops⟩⟩, .inl ?_⟩
      simp only [rank, loops, joining]
      exact Prod.Lex.toLex_lt_toLex.mpr (.inl (by simp))
  · have notStopGoes : event ≠ .stopGoes := by
      rintro rfl
      exact notStopper rfl
    refine .inr ⟨⟨sound, inOrder, by rw [same]; exact going.busy⟩, ?_⟩
    rcases going.busy with ⟨threads, loop⟩ | ⟨thread, threads, joining⟩
    · refine .inr ⟨?_, ?_, ?_⟩
      · simp only [rank, same, loop]
      · simp only [charge, same, loop]
      · simpa [charge, loop] using notStopper
    · rcases going.joined_worker joining with ⟨worker, present, posted⟩
      rcases joined_step present (going.inOrder thread worker present) posted legal notStop
        notStopGoes with ⟨later, found, lower | ⟨samePending, sameExited, notWorker⟩⟩
      · left
        simp only [rank, same, joining, found, present, Option.map_some, Option.getD_some]
        exact Prod.Lex.toLex_lt_toLex.mpr (.inr ⟨rfl, lower⟩)
      · right
        simp only [rank, charge, same, joining, found, present, Option.map_some,
          Option.getD_some, samePending, Option.any_some, sameExited, true_and]
        split
        · exact notStopper
        · exact notWorker

/-- In a fair execution whose events come in time, a call of `stop` returns. -/
theorem stop_returns {execution : (system τ).Execution} (fair : execution.Fair Event.actor)
    (begins : execution.state 0 = new size)
    (inTime : ∀ time event, execution.label time = some event →
      (execution.state time).InTime event)
    (start : ℕ) (called : (execution.state start).stopping ≠ .idle) :
    ∃ time, start ≤ time ∧ (execution.state time).stopping = .returned ∧
      (execution.state time).Kept := by
  have sound : ∀ time, (execution.state time).Sound := by
    intro time
    induction time with
    | zero =>
        rw [begins]
        exact sound_new
    | succ time ih =>
        rcases execution.follows time with ⟨-, same⟩ | ⟨event, label, legal, next⟩
        · rwa [same]
        · rw [next]
          exact ih.exec legal (inTime time event label)
  rcases stopping : (execution.state start).stopping with
    _ | threads | ⟨thread, threads⟩ | _ | what
  case idle => exact (called stopping).elim
  case returned => exact ⟨start, le_rfl, stopping, (sound start).kept⟩
  case threw => exact ((sound start).threw what stopping).elim
  all_goals
    have inOrder : ∀ thread worker, (execution.state start).workers thread = some worker →
        worker.InOrder := by
      have reachable := execution.reachable start
      rw [begins] at reachable
      exact fun thread worker present => inOrder_of_reachable reachable present
    apply Lts.Execution.eventually fair rank charge Going
      (fun pool => pool.stopping = .returned ∧ pool.Kept) (fun time going => going.enabled)
    · intro time event going label
      rcases execution.follows time with ⟨none, -⟩ | ⟨other, same, legal, next⟩
      · simp [none] at label
      · obtain rfl : event = other := Option.some.inj (label.symm.trans same)
        rw [next]
        exact going.exec legal (inTime time event label)
  · exact ⟨sound start, inOrder, .inl ⟨threads, stopping⟩⟩
  · exact ⟨sound start, inOrder, .inr ⟨thread, threads, stopping⟩⟩

/-- Threads are scheduled to and stopped as they should exactly in the runs whose events come
in time, and then `stop` returns. -/
theorem kept_iff_inTime (τ : Type) (size : ℕ) (positive : 0 < size) :
    (∀ events : List (Event τ), (system τ).Follows exec (new size) events →
      ((∀ before, before <+: events → (before.foldl exec (new size)).Kept) ↔
        (new size).RunInTime events)) ∧
      ∀ execution : (system τ).Execution, execution.Fair Event.actor →
        execution.state 0 = new size →
        (∀ time event, execution.label time = some event →
          (execution.state time).InTime event) →
        ∀ start, (execution.state start).stopping ≠ .idle →
          ∃ time, start ≤ time ∧ (execution.state time).stopping = .returned ∧
            (execution.state time).Kept := by
  refine ⟨fun events follows => ⟨?_, ?_⟩, fun execution fair begins inTime start called => ?_⟩
  · intro kept
    exact runInTime_of_kept sound_new positive follows kept
  · rintro inTime before ⟨after, rfl⟩
    exact (inTime.append.sound sound_new (Lts.follows_append.mp follows).1).kept
  · exact stop_returns fair begins inTime start called

/-- A task scheduled before the thread registered is refused, and a call of `stop` that comes
before returns with the thread neither cancelled nor joined. -/
theorem not_kept_before_start :
    ((system ℕ).Follows exec (new 1) [.schedule 7 0] ∧
        ¬([Event.schedule 7 0].foldl exec (new 1)).Kept) ∧
      (system ℕ).Follows exec (new 1) [.stop] ∧
        ¬([Event.stop].foldl exec (new 1 : Threadpool ℕ)).Kept := by
  refine ⟨⟨⟨⟨Nat.one_pos, rfl⟩, trivial⟩, ?_⟩, ⟨⟨.inl rfl, rfl⟩, trivial⟩, ?_⟩
  · intro kept
    have refused := kept.refused
    simp [exec, scheduleTask, schedule, new] at refused
  · intro kept
    rcases kept.returned rfl 0 Nat.one_pos with ⟨worker, present, -⟩
    have absent : none = some worker := present
    simp at absent

/-- One thread registers, runs a task and is stopped. -/
theorem kept_iff_inTime_one_thread :
    ([.startThread 0, .schedule 7 0, .stop, .stopGoes, .dequeue 0, .run 0, .dequeue 0, .run 0,
      .stopGoes, .stopGoes].foldl exec (new 1 : Threadpool ℕ)).Kept := by
  let events : List (Event ℕ) := [.startThread 0, .schedule 7 0, .stop, .stopGoes, .dequeue 0,
    .run 0, .dequeue 0, .run 0, .stopGoes, .stopGoes]
  have follows : (system ℕ).Follows exec (new 1) events := by
    refine ⟨⟨⟨by decide, rfl⟩, rfl⟩, ⟨Nat.one_pos, rfl⟩, ⟨.inl rfl, rfl⟩, ⟨.inl ⟨_, rfl⟩, rfl⟩,
      ⟨⟨_, rfl, rfl, rfl, List.cons_ne_nil _ _⟩, rfl⟩, ⟨⟨_, rfl, rfl⟩, rfl⟩,
      ⟨⟨_, rfl, rfl, rfl, List.cons_ne_nil _ _⟩, rfl⟩, ⟨⟨_, rfl, rfl⟩, rfl⟩,
      ⟨.inr ⟨_, _, _, rfl, rfl, rfl⟩, rfl⟩, ⟨.inl ⟨_, rfl⟩, rfl⟩, trivial⟩
  have inTime : (new 1).RunInTime events := by
    simp only [events, runInTime_cons]
    refine ⟨trivial, rfl, ⟨0, rfl⟩, ?_, trivial, trivial, trivial, trivial, ?_, ?_, ?_⟩
    · intro thread threads reached
      have same : Stopping.loop [0] = .loop (thread :: threads) := reached
      obtain ⟨rfl, -⟩ : 0 = thread ∧ [] = threads := by simpa using same
      rfl
    · intro thread threads reached
      have same : Stopping.joining 0 [] = .loop (thread :: threads) := reached
      simp at same
    · intro thread threads reached
      have same : Stopping.loop [] = .loop (thread :: threads) := reached
      simp at same
    · intro before event after split
      simp at split
  exact ((kept_iff_inTime ℕ 1 Nat.one_pos).1 events follows).mpr inTime events List.prefix_rfl

end Threadpool

end Snode.Pool
