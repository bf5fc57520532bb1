import Mathlib.Tactic.IntervalCases
import Snode.Core.Accepting
import Snode.Core.Liveness

/-!
# `snode_core::stop` returns

The call of `stop` waits for one thread after the other, while connections go on scheduling tasks
on the threads.  They do not hold it up: it returns, if it was called when all threads had started.
-/

namespace Snode.Core

open Http Pool

/-- Who goes on: a thread of the pool, or the call of `stop`. -/
def ServerEvent.poolActor (event : ServerEvent) : Option Pool.Actor :=
  event.pool.bind Pool.Event.actor

namespace Server

variable {server next : Server} {size : ℕ} {getReqHandler : Bytes → Option ℕ}
  {event : ServerEvent}

/-- A server whose pool is used in time, but for sockets that are refused. -/
structure Stoppable (size : ℕ) (server : Server) : Prop where
  sound : server.Sound size
  pool : server.pool.forgiven.Sound
  started : server.pool.stopping ≠ .idle →
    ∀ thread < size, (server.pool.workers thread).isSome = true

/-- To the pool, `accept` is a call of `schedule`. -/
theorem accept_exec {acceptor : ℕ} {socket : SocketId} {result : Except String Unit}
    (accept : server.accept acceptor socket = some (result, next)) :
    ∃ task thread, next.pool = server.pool.scheduleTask task thread := by
  rw [Server.accept] at accept
  split at accept
  · next listener factory _ =>
      rcases Prod.mk.inj (Option.some.inj accept) with ⟨rfl, rfl⟩
      exact ⟨_, listener.threadId, rfl⟩
  · cases accept

theorem handleAccept_exec {index : ℕ} (done : server.handleAccept index false = some next) :
    ∃ task thread, next.pool = server.pool.scheduleTask task thread := by
  rcases Option.bind_eq_some_iff.mp done with ⟨acceptor, -, done⟩
  rcases Option.bind_eq_some_iff.mp done with ⟨socket, -, done⟩
  simp only [Bool.false_eq_true, if_false] at done
  rcases Option.bind_eq_some_iff.mp done with ⟨service, -, done⟩
  rcases Option.bind_eq_some_iff.mp done with ⟨⟨result, after⟩, accept, done⟩
  have scheduled := accept_exec accept
  simp only at done
  split at done
  · rcases Option.some.inj done with rfl
    exact scheduled
  · rcases Option.some.inj done with rfl
    exact scheduled

theorem ServerEvent.not_schedule {poolEvent : Pool.Event ServerTask}
    (ofPool : event.pool = some poolEvent) (task : ServerTask) (thread : ThreadId) :
    poolEvent ≠ .schedule task thread := by
  rintro rfl
  cases event <;> cases ofPool

/-- `stop` is under way only after it was called. -/
theorem Effect.stops (effect : Effect getReqHandler size server event next)
    (running : next.pool.stopping ≠ .idle) : server.pool.stopping ≠ .idle ∨ event = .stop := by
  cases effect with
  | pool _ poolEvent core ofPool legal =>
      rcases Threadpool.stopping_exec server.pool poolEvent with rfl | rfl | ⟨same, -⟩
      · cases event with
        | stop => exact .inr rfl
        | _ => cases ofPool
      · left
        rcases legal with ⟨threads, loop⟩ | ⟨thread, threads, worker, joining, -⟩
        · simp [loop]
        · simp [joining]
      · left
        rwa [← same]
  | accepted index acceptor socket result next found accepting accepted =>
      left
      rwa [← accepted.stopping]
  | acceptFailed => exact .inl running
  | made thread =>
      left
      rwa [← (run_kept server.pool thread).2]
  | ranTask thread socket task connection =>
      left
      rw [(updated_kept ..).2] at running
      rwa [← (run_kept server.pool thread).2]
  | connection =>
      left
      rwa [(updated_kept ..).2] at running

theorem Stoppable.inTime (stoppable : server.Stoppable size) (positive : 0 < size)
    {poolEvent : Pool.Event ServerTask} (ofPool : event.pool = some poolEvent)
    (prompt : event = .stop → ∀ thread < size, (server.pool.workers thread).isSome = true) :
    server.pool.forgiven.InTime poolEvent := by
  cases event with
  | startThread | dequeue | run =>
      cases ofPool
      trivial
  | stop =>
      cases ofPool
      exact ⟨0, prompt rfl 0 positive⟩
  | stopGoes =>
      cases ofPool
      intro thread threads loop
      have inside : thread ∈ List.range server.pool.size := by
        have order := stoppable.pool.order
        rw [loop] at order
        change thread ∈ List.range server.pool.forgiven.size
        rw [← order]
        simp [Stopping.remaining]
      rw [List.mem_range, Threadpool.size_of_reachable stoppable.sound.valid.pool] at inside
      refine stoppable.started (fun idle => ?_) thread inside
      cases idle.symm.trans loop
  | accepted | acceptFailed | connection => cases ofPool

theorem Stoppable.pool_step (stoppable : server.Stoppable size) (positive : 0 < size)
    (step : (system getReqHandler).step server event next)
    (prompt : event = .stop → ∀ thread < size, (server.pool.workers thread).isSome = true) :
    next.pool.forgiven.Sound := by
  have valid := stoppable.sound.valid
  have done := step.2.2
  cases stoppable.sound.step step with
  | pool _ poolEvent core ofPool legal =>
      rw [Threadpool.forgiven_exec (ServerEvent.not_schedule ofPool)]
      exact stoppable.pool.exec (Threadpool.legal_forgiven.mpr legal)
        (stoppable.inTime positive ofPool prompt)
  | accepted index =>
      rcases handleAccept_exec done with ⟨task, thread, pool⟩
      rw [pool]
      exact stoppable.pool.forgiven_scheduleTask valid.indexed task thread
  | acceptFailed => exact stoppable.pool
  | made thread listener socket legal running =>
      change (server.pool.exec (.run thread)).forgiven.Sound
      rw [Threadpool.forgiven_exec (by simp)]
      exact stoppable.pool.exec legal trivial
  | ranTask thread socket task connection legal running present worker =>
      subst worker
      have looping : (server.pool.exec (.run connection.workerId)).Looping connection.workerId :=
        Threadpool.looping_run valid.pool running
      have indexed : (server.pool.exec (.run connection.workerId)).Indexed :=
        valid.indexed.exec legal
      rw [updated_pool, Threadpool.forgiven_scheduleAll (looping.registered indexed)]
      refine Threadpool.Sound.scheduleAll ?_ indexed.forgiven looping _
      rw [Threadpool.forgiven_exec (by simp)]
      exact stoppable.pool.exec legal trivial
  | connection socket event connection isOther present legal looping =>
      rw [updated_pool, Threadpool.forgiven_scheduleAll (looping.registered valid.indexed)]
      exact stoppable.pool.scheduleAll valid.indexed.forgiven looping _

theorem Stoppable.step (stoppable : server.Stoppable size) (positive : 0 < size)
    (step : (system getReqHandler).step server event next)
    (prompt : event = .stop → ∀ thread < size, (server.pool.workers thread).isSome = true) :
    next.Stoppable size := by
  have effect := stoppable.sound.step step
  refine ⟨effect.sound stoppable.sound, stoppable.pool_step positive step prompt, ?_⟩
  intro running thread inside
  apply Threadpool.started_of_reachable (effect.poolReachable stoppable.sound)
  rcases effect.stops running with already | stops
  · exact stoppable.started already thread inside
  · exact prompt stops thread inside

/-! ### The call of `stop` -/

/-- The one that `stop` waits for can go on. -/
theorem enabled_of_going (running : server.Running) (sound : server.Sound size)
    (going : server.pool.forgiven.Going) :
    (system getReqHandler).Enabled ServerEvent.poolActor server.pool.forgiven.charge server := by
  rcases going.enabled with ⟨event, -, acts, legal, -⟩
  have legal := Threadpool.legal_forgiven.mp legal
  have found (goes : ServerEvent) (ofPool : goes.pool = some event) (legal : server.Legal goes) :
      (system getReqHandler).Enabled ServerEvent.poolActor server.pool.forgiven.charge server := by
    rcases sound.exec getReqHandler legal with ⟨next, done, -⟩
    refine ⟨goes, next, ?_, running, legal, done⟩
    rw [ServerEvent.poolActor, ofPool]
    exact acts
  cases event with
  | startThread thread => exact found (.startThread thread) rfl legal
  | dequeue thread => exact found (.dequeue thread) rfl legal
  | run thread => exact found (.run thread) rfl legal
  | stopGoes => exact found .stopGoes rfl legal
  | schedule | stop => cases acts

/-- While `stop` is under way, each step of the server brings it closer to its end, or is not
of the one that it waits for. -/
theorem Stoppable.going_step (stoppable : server.Stoppable size) (positive : 0 < size)
    (going : server.pool.forgiven.Going) (step : (system getReqHandler).step server event next) :
    next.pool.stopping = .returned ∨ next.pool.forgiven.Going ∧
      (next.pool.forgiven.rank < server.pool.forgiven.rank ∨
        next.pool.forgiven.rank = server.pool.forgiven.rank ∧
          next.pool.forgiven.charge = server.pool.forgiven.charge ∧
            event.poolActor ≠ some server.pool.forgiven.charge) := by
  have valid := stoppable.sound.valid
  have busy : server.pool.stopping ≠ .idle := by
    intro idle
    rcases going.busy with ⟨threads, loop⟩ | ⟨thread, threads, joining⟩
    · cases idle.symm.trans loop
    · cases idle.symm.trans joining
  cases stoppable.sound.step step with
  | pool _ poolEvent core ofPool legal =>
      have prompt (stops : event = .stop) :
          ∀ thread < size, (server.pool.workers thread).isSome = true := by
        rcases stops with rfl
        exact absurd step.2.1 busy
      have same : (server.pool.exec poolEvent).forgiven = server.pool.forgiven.exec poolEvent :=
        Threadpool.forgiven_exec (ServerEvent.not_schedule ofPool)
      have goes := going.exec (Threadpool.legal_forgiven.mpr legal)
        (stoppable.inTime positive ofPool prompt)
      rw [ServerEvent.poolActor, ofPool]
      rw [← same] at goes
      exact goes.imp_left And.left
  | accepted => exact absurd step.2.1.1 busy
  | acceptFailed => exact absurd step.2.1.1 busy
  | made thread listener socket legal running =>
      have legal : server.pool.forgiven.Legal (.run thread) := legal
      have goes := going.exec legal trivial
      rw [← Threadpool.forgiven_exec (by simp)] at goes
      exact goes.imp_left And.left
  | ranTask thread socket task connection legal running present worker =>
      subst worker
      right
      have looping : (server.pool.exec (.run connection.workerId)).Looping connection.workerId :=
        Threadpool.looping_run valid.pool running
      have indexed : (server.pool.exec (.run connection.workerId)).Indexed :=
        valid.indexed.exec legal
      rw [updated_pool, Threadpool.forgiven_scheduleAll (looping.registered indexed)]
      have legal : server.pool.forgiven.Legal (.run connection.workerId) := legal
      have goes := going.exec legal trivial
      rw [← Threadpool.forgiven_exec (by simp)] at goes
      rcases goes with ⟨returned, -⟩ | ⟨goes, first⟩
      · exact absurd ((run_kept ..).2.symm.trans returned) going.not_returned
      · rcases goes.scheduleAll indexed.forgiven looping
          ((connection.state.runTask task).tasks.map (.connection socket)) with ⟨stillGoes, rest⟩
        refine ⟨stillGoes, ?_⟩
        rcases first with lower | ⟨sameRank, sameCharge, isOther⟩
        · exact .inl (rest.rank_lt lower)
        · rcases rest with lower | ⟨restRank, restCharge⟩
          · exact .inl (lower.trans_eq sameRank)
          · exact .inr ⟨restRank.trans sameRank, restCharge.trans sameCharge, isOther⟩
  | connection socket event connection isOther present legal looping =>
      right
      rw [updated_pool, Threadpool.forgiven_scheduleAll (looping.registered valid.indexed)]
      rcases going.scheduleAll valid.indexed.forgiven looping _ with
        ⟨stillGoes, lower | ⟨rank, charge⟩⟩
      · exact ⟨stillGoes, .inl lower⟩
      · exact ⟨stillGoes, .inr ⟨rank, charge, by simp [ServerEvent.poolActor, ServerEvent.pool]⟩⟩

section Executions

variable {execution : (system getReqHandler).Execution} {start : ℕ} {network : Network}
  {configs : List NetServiceConfig} {core : SnodeCore}

theorem stoppable_of_prompt (starts : SnodeCore.init network configs = .ok core)
    (served : core.Served) (positive : 0 < size) (begins : execution.state 0 = new core size)
    (prompt : ∀ time, execution.label time = some .stop →
      ∀ thread < size, ((execution.state time).pool.workers thread).isSome = true) (time : ℕ) :
    (execution.state time).Stoppable size := by
  induction time with
  | zero =>
      rw [begins]
      have reachable := execution.reachable 0
      rw [begins] at reachable
      refine ⟨sound_of_init starts served (.inr positive) reachable, Threadpool.sound_new, ?_⟩
      intro running
      exact absurd rfl running
  | succ time ih =>
      rcases execution.follows time with ⟨-, same⟩ | ⟨event, label, step⟩
      · rwa [same]
      · refine ih.step positive step ?_
        rintro rfl
        exact prompt time label

/-- If `stop` is called when all threads have started, and no exception ends the process, it
returns, whatever connections schedule meanwhile, and every thread was cancelled once and
joined. -/
theorem called_stop_returns (starts : SnodeCore.init network configs = .ok core)
    (served : core.Served) (positive : 0 < size) (fair : execution.Fair ServerEvent.poolActor)
    (runs : ∀ time, (execution.state time).Running) (begins : execution.state 0 = new core size)
    (prompt : ∀ time, execution.label time = some .stop →
      ∀ thread < size, ((execution.state time).pool.workers thread).isSome = true)
    (called : (execution.state start).pool.stopping ≠ .idle) :
    ∃ time, start ≤ time ∧ (execution.state time).pool.stopping = .returned ∧
      ∀ thread < size, ∃ worker, (execution.state time).pool.workers thread = some worker ∧
        worker.cancels = 1 ∧ worker.exited = true ∧
          (execution.state time).pool.joined.count thread = 1 := by
  have stoppable (time : ℕ) : (execution.state time).Stoppable size :=
    stoppable_of_prompt starts served positive begins prompt time
  suffices ends : ∃ time, start ≤ time ∧ (execution.state time).pool.stopping = .returned by
    rcases ends with ⟨time, after, returned⟩
    refine ⟨time, after, returned, fun thread inside => ?_⟩
    have sameSize := Threadpool.size_of_reachable (stoppable time).sound.valid.pool
    exact (stoppable time).pool.kept.returned returned thread (inside.trans_eq sameSize.symm)
  have pool := (stoppable start).pool
  have under (busy : (∃ threads, (execution.state start).pool.stopping = .loop threads) ∨
      ∃ thread threads, (execution.state start).pool.stopping = .joining thread threads) :
      ∃ time, start ≤ time ∧ (execution.state time).pool.stopping = .returned := by
    have going : (execution.state start).pool.forgiven.Going :=
      ⟨pool, fun thread worker present =>
        Threadpool.inOrder_of_reachable (stoppable start).sound.valid.pool present, busy⟩
    apply Lts.Execution.eventually fair (fun server => server.pool.forgiven.rank)
      (fun server => server.pool.forgiven.charge) (fun server => server.pool.forgiven.Going)
      (fun server => server.pool.stopping = .returned)
      (fun time going => enabled_of_going (runs time) (stoppable time).sound going) _ start going
    intro time event going label
    rcases execution.follows time with ⟨none, -⟩ | ⟨other, same, step⟩
    · rw [none] at label
      cases label
    · rcases Option.some.inj (label.symm.trans same) with rfl
      exact (stoppable time).going_step positive going step
  rcases stopping : (execution.state start).pool.stopping with
    _ | threads | ⟨thread, threads⟩ | _ | what
  case idle => exact absurd stopping called
  case loop => exact under (.inl ⟨threads, stopping⟩)
  case joining => exact under (.inr ⟨thread, threads, stopping⟩)
  case returned => exact ⟨start, le_rfl, stopping⟩
  case threw => exact absurd stopping (pool.threw what)

/-- What happens to a server that is stopped when it has started. -/
def stoppedLabels : List ServerEvent :=
  [.startThread 0, .stop, .stopGoes, .dequeue 0, .run 0, .stopGoes, .stopGoes]

def stoppedAt : ℕ → Server
  | 0 => new (.httpOn 8080) 1
  | time + 1 =>
      (stoppedLabels[time]?.bind fun event => (stoppedAt time).exec (fun _ => none) event).getD
        (stoppedAt time)

theorem stoppedAt_of_le {time : ℕ} (after : 7 ≤ time) : stoppedAt time = stoppedAt 7 := by
  induction time, after using Nat.le_induction with
  | base => rfl
  | succ time after ih =>
      have none : stoppedLabels[time]? = none := List.getElem?_eq_none after
      rw [stoppedAt, none]
      exact ih

theorem stoppedAt_follows (time : ℕ) :
    (stoppedLabels[time]? = none ∧ stoppedAt (time + 1) = stoppedAt time) ∨
      ∃ event, stoppedLabels[time]? = some event ∧
        (system fun _ => none).step (stoppedAt time) event (stoppedAt (time + 1)) := by
  rcases Nat.lt_or_ge time 7 with early | late
  · right
    interval_cases time
    · exact ⟨_, rfl, running_of_none rfl, ⟨by decide, rfl⟩, rfl⟩
    · exact ⟨_, rfl, running_of_none rfl, rfl, rfl⟩
    · exact ⟨_, rfl, running_of_none rfl, .inl ⟨_, rfl⟩, rfl⟩
    · exact ⟨_, rfl, running_of_none rfl, ⟨_, rfl, rfl, rfl, List.cons_ne_nil _ _⟩, rfl⟩
    · exact ⟨_, rfl, running_of_none rfl, ⟨_, rfl, rfl⟩, rfl⟩
    · exact ⟨_, rfl, running_of_none rfl, .inr ⟨0, [], _, rfl, rfl, rfl⟩, rfl⟩
    · exact ⟨_, rfl, running_of_none rfl, .inl ⟨_, rfl⟩, rfl⟩
  · left
    refine ⟨List.getElem?_eq_none late, ?_⟩
    rw [stoppedAt_of_le late, stoppedAt_of_le (late.trans (Nat.le_succ time))]

theorem stoppedAt_reachable (time : ℕ) :
    (system fun _ => none).Reachable (new (.httpOn 8080) 1) (stoppedAt time) := by
  induction time with
  | zero => exact .refl _
  | succ time ih =>
      rcases stoppedAt_follows time with ⟨-, same⟩ | ⟨event, -, step⟩
      · rwa [same]
      · exact ih.tail step

theorem stoppedAt_rests (who : Pool.Actor) :
    ¬(system fun _ => none).Enabled ServerEvent.poolActor who (stoppedAt 7) := by
  have sound := sound_of_init (@SnodeCore.init_httpOn 8080 (by decide))
    (SnodeCore.served_httpOn 8080) (.inr Nat.one_pos) (stoppedAt_reachable 7)
  have ended (thread : ThreadId) (worker : Worker ServerTask)
      (present : (stoppedAt 7).pool.workers thread = some worker) :
      worker.exited = true ∧ worker.running = none := by
    have inside := sound.valid.indexed.inside thread (by rw [present]; rfl)
    rw [Threadpool.size_of_reachable sound.valid.pool] at inside
    rcases Nat.lt_one_iff.mp inside with rfl
    rcases Option.some.inj present with rfl
    exact ⟨rfl, rfl⟩
  rintro ⟨event, next, acts, -, legal, -⟩
  cases event with
  | startThread thread =>
      rcases legal with ⟨inside, fresh⟩
      rcases Nat.lt_one_iff.mp inside with rfl
      cases fresh
  | dequeue thread =>
      rcases legal with ⟨worker, present, goesOn, -⟩
      rw [(ended thread worker present).1] at goesOn
      cases goesOn
  | run thread =>
      rcases legal with ⟨worker, present, running⟩
      rw [(ended thread worker present).2] at running
      cases running
  | stopGoes =>
      rcases legal with ⟨threads, loop⟩ | ⟨thread, threads, worker, joining, -⟩
      · cases loop
      · cases joining
  | accepted | acceptFailed | stop | connection => cases acts

theorem called_stop_returns_started : ∃ time, (stoppedAt time).pool.stopping = .returned ∧
    ∀ thread < 1, ∃ worker, (stoppedAt time).pool.workers thread = some worker ∧
      worker.cancels = 1 ∧ worker.exited = true ∧
        (stoppedAt time).pool.joined.count thread = 1 := by
  let execution : (system fun _ => none).Execution :=
    ⟨stoppedAt, fun time => stoppedLabels[time]?, stoppedAt_follows⟩
  have fair : execution.Fair ServerEvent.poolActor := by
    apply Lts.Execution.fair_of_stuck
    intro who start
    refine ⟨max 7 start, Nat.le_max_right 7 start, ?_⟩
    change ¬Lts.Enabled _ _ _ (stoppedAt _)
    rw [stoppedAt_of_le (Nat.le_max_left 7 start)]
    exact stoppedAt_rests who
  have runs (time : ℕ) : (execution.state time).Running := by
    apply running_of_later (Nat.le_max_left time 7)
    change Running (stoppedAt (max time 7))
    rw [stoppedAt_of_le (Nat.le_max_right time 7)]
    exact running_of_none rfl
  have prompt (time : ℕ) (stops : execution.label time = some .stop) :
      ∀ thread < 1, ((execution.state time).pool.workers thread).isSome = true := by
    change stoppedLabels[time]? = some .stop at stops
    have second : time = 1 := by
      rcases Nat.lt_or_ge time 7 with early | late
      · interval_cases time <;> simp [stoppedLabels] at stops ⊢
      · rw [List.getElem?_eq_none late] at stops
        cases stops
    rcases second with rfl
    intro thread inside
    rcases Nat.lt_one_iff.mp inside with rfl
    rfl
  have called : (execution.state 2).pool.stopping ≠ .idle := by
    intro idle
    cases idle
  rcases called_stop_returns (@SnodeCore.init_httpOn 8080 (by decide))
    (SnodeCore.served_httpOn 8080) Nat.one_pos fair runs rfl prompt called with
    ⟨time, -, returned, joined⟩
  exact ⟨time, returned, joined⟩

end Executions

end Server

end Snode.Core
