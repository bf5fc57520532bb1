import Snode.Core.ServerRuns
import Snode.Pool.Progress

/-!
# What a server gets done

No thread of the pool waits forever for a step it can take.  Then all that was scheduled before
the server is stopped is run: every socket that was not refused gets its connection.
-/

namespace Snode.Core

open Http Pool

/-- Which thread of the pool goes on. -/
def ServerEvent.actor : ServerEvent → Option ThreadId
  | .dequeue thread | .run thread => some thread
  | _ => none

theorem ServerEvent.actor_of_pool {event : ServerEvent} {poolEvent : Pool.Event ServerTask}
    {thread : ThreadId} (ofPool : event.pool = some poolEvent)
    (goes : poolEvent = .dequeue thread ∨ poolEvent = .run thread) :
    event.actor = some thread := by
  cases event with
  | dequeue other =>
      rcases Option.some.inj ofPool with rfl
      rcases goes with same | same
      · rcases Pool.Event.dequeue.inj same with rfl
        rfl
      · cases same
  | run other =>
      rcases Option.some.inj ofPool with rfl
      rcases goes with same | same
      · cases same
      · rcases Pool.Event.run.inj same with rfl
        rfl
  | accepted | acceptFailed | connection => cases ofPool
  | startThread | stop | stopGoes =>
      rcases Option.some.inj ofPool with rfl
      rcases goes with same | same
      · cases same
      · cases same

namespace Server

variable {server next : Server} {size : ℕ} {getReqHandler : Bytes → Option ℕ}
  {event : ServerEvent}

/-! ### The pool in a step of the server -/

theorem Effect.poolReachable (effect : Effect getReqHandler size server event next)
    (sound : server.Sound size) :
    (Threadpool.system ServerTask).Reachable server.pool next.pool := by
  have valid := sound.valid
  cases effect with
  | pool _ poolEvent core ofPool legal => exact (Lts.Reachable.refl _).tail ⟨legal, rfl⟩
  | accepted index acceptor socket result next found accepting accepted => exact accepted.pool
  | acceptFailed => exact .refl _
  | made thread listener socket legal running => exact (Lts.Reachable.refl _).tail ⟨legal, rfl⟩
  | ranTask thread socket task connection legal running present worker =>
      subst worker
      rw [updated_pool]
      have ran : (Threadpool.system ServerTask).Reachable server.pool
          (server.pool.exec (.run connection.workerId)) :=
        (Lts.Reachable.refl _).tail ⟨legal, rfl⟩
      have indexed := Threadpool.indexed_of_reachable (valid.pool.trans ran)
      exact ran.trans (Threadpool.tasks_scheduleAll indexed
        (Threadpool.looping_run valid.pool running) _).1
  | connection socket event connection isOther present legal looping =>
      rw [updated_pool]
      exact (Threadpool.tasks_scheduleAll valid.indexed looping _).1

/-- To the pool, `accept` does no more than to schedule. -/
theorem accept_pool {acceptor : ℕ} {socket : SocketId} {result : Except String Unit}
    (accept : server.accept acceptor socket = some (result, next)) :
    next.pool.activity = server.pool.activity := by
  rw [Server.accept] at accept
  split at accept
  · next listener factory _ =>
      rcases (Prod.mk.inj (Option.some.inj accept)).2 with rfl
      exact Threadpool.activity_scheduleTask _ _ _
  · cases accept

theorem handleAccept_pool {index : ℕ} {failed : Bool}
    (done : server.handleAccept index failed = some next) :
    next.pool.activity = server.pool.activity := by
  rcases Option.bind_eq_some_iff.mp done with ⟨acceptor, -, done⟩
  rcases Option.bind_eq_some_iff.mp done with ⟨socket, -, done⟩
  split at done
  · rcases Option.some.inj done with rfl
    rfl
  · rcases Option.bind_eq_some_iff.mp done with ⟨service, -, done⟩
    rcases Option.bind_eq_some_iff.mp done with ⟨⟨result, after⟩, accept, done⟩
    have same := accept_pool accept
    simp only at done
    split at done
    · rcases Option.some.inj done with rfl
      exact same
    · rcases Option.some.inj done with rfl
      exact same

/-- What other threads do, and what happens to sockets, a thread does not notice. -/
theorem activity_step (sound : server.Sound size)
    (step : (system getReqHandler).step server event next) {thread : ThreadId}
    (started : (server.pool.workers thread).isSome = true) (other : event.actor ≠ some thread) :
    next.pool.activity thread = server.pool.activity thread := by
  have done := step.2.2
  cases sound.step step with
  | pool _ poolEvent core ofPool legal =>
      apply Threadpool.activity_exec legal started
      · rintro rfl
        exact other (ServerEvent.actor_of_pool ofPool (.inl rfl))
      · rintro rfl
        exact other (ServerEvent.actor_of_pool ofPool (.inr rfl))
  | accepted index => exact congrFun (handleAccept_pool done) thread
  | acceptFailed index => rfl
  | made target listener socket legal running =>
      exact Threadpool.activity_exec legal started (by simp) fun same => other (by cases same; rfl)
  | ranTask target socket task connection legal running present worker =>
      rw [updated_pool, Threadpool.activity_scheduleAll]
      exact Threadpool.activity_exec legal started (by simp) fun same => other (by cases same; rfl)
  | connection socket event connection isOther present legal looping =>
      rw [updated_pool, Threadpool.activity_scheduleAll]

/-! ### A thread that is behind -/

/-- Of what it was promised, a thread has not run so many tasks yet. -/
structure Behind (size : ℕ) (thread : ThreadId) (tasks : List ServerTask) (server : Server) :
    Prop where
  sound : server.Sound size
  promised : tasks <+: server.pool.promised thread
  behind : (server.pool.ran thread).length < tasks.length

/-- A thread has run what it was promised. -/
def Done (thread : ThreadId) (tasks : List ServerTask) (server : Server) : Prop :=
  tasks <+: server.pool.ran thread

theorem done_of_length (reachable : (Threadpool.system ServerTask).Reachable
    (Threadpool.new size) server.pool) {thread : ThreadId} {tasks : List ServerTask}
    (promised : tasks <+: server.pool.promised thread)
    (length : tasks.length ≤ (server.pool.ran thread).length) : server.Done thread tasks := by
  have ran := Threadpool.ran_promised reachable thread
  exact List.prefix_of_prefix_length_le promised ran length

section Behind

variable {thread : ThreadId} {tasks : List ServerTask}

/-- What a thread that is behind can do next. -/
theorem Behind.goes (behind : server.Behind size thread tasks) :
    (server.pool.workers thread).isSome = true ∧
      ((∃ task, (server.pool.workers thread).bind Worker.running = some (.task task)) ∨
        server.pool.Legal (.dequeue thread)) := by
  have short := behind.behind
  have most := behind.promised.length_le
  rcases present : server.pool.workers thread with _ | worker
  · rw [Threadpool.promised, present] at most
    exact absurd (short.trans_le most) (Nat.not_lt_zero _)
  · rw [Threadpool.promised, present] at most
    rw [Threadpool.ran_of_workers present] at short
    have inOrder := Threadpool.inOrder_of_reachable behind.sound.valid.pool present
    rcases inOrder.goes (short.trans_le most) with ⟨goesOn, running | ⟨none, queue⟩⟩
    · exact ⟨rfl, .inl running⟩
    · refine ⟨rfl, .inr ⟨worker, present, goesOn, ?_, queue⟩⟩
      rw [none]
      rfl

theorem Behind.enabled (running : server.Running) (behind : server.Behind size thread tasks) :
    (system getReqHandler).Enabled ServerEvent.actor thread server := by
  rcases behind.goes with ⟨-, ⟨task, dequeued⟩ | legal⟩
  · rcases Option.bind_eq_some_iff.mp dequeued with ⟨worker, present, dequeued⟩
    have legal : server.Legal (.run thread) := ⟨worker, present, by rw [dequeued]; rfl⟩
    rcases behind.sound.exec getReqHandler legal with ⟨next, done, -⟩
    exact ⟨.run thread, next, rfl, running, legal, done⟩
  · have legal : server.Legal (.dequeue thread) := legal
    rcases behind.sound.exec getReqHandler legal with ⟨next, done, -⟩
    exact ⟨.dequeue thread, next, rfl, running, legal, done⟩

/-- The thread gets on when it goes on. -/
theorem Behind.acts (behind : server.Behind size thread tasks)
    (step : (system getReqHandler).step server event next) (acts : event.actor = some thread) :
    next.pool.due thread tasks.length < server.pool.due thread tasks.length := by
  have runs (legal : server.pool.Legal (.run thread)) :
      (server.pool.exec (.run thread)).due thread tasks.length <
        server.pool.due thread tasks.length := by
    rcases behind.goes with ⟨-, ⟨task, running⟩ | ⟨worker, present, -, none, -⟩⟩
    · exact (Threadpool.due_run behind.behind running).2
    · rcases legal with ⟨other, same, some⟩
      rcases (Option.some.inj (present.symm.trans same) : worker = other) with rfl
      rw [Option.isNone_iff_eq_none.mp none] at some
      cases some
  cases behind.sound.step step with
  | pool _ poolEvent core ofPool legal =>
      cases event with
      | dequeue target =>
          rcases Option.some.inj acts with rfl
          rcases Option.some.inj ofPool with rfl
          exact (Threadpool.due_dequeue behind.behind legal).2
      | run target =>
          rcases Option.some.inj acts with rfl
          rcases Option.some.inj ofPool with rfl
          exact runs legal
      | _ => cases acts
  | made target listener socket legal running =>
      rcases Option.some.inj acts with rfl
      exact runs legal
  | ranTask target socket task connection legal running present worker =>
      rcases Option.some.inj acts with rfl
      rw [updated_pool, Threadpool.due, Threadpool.activity_scheduleAll]
      exact runs legal
  | accepted => cases acts
  | acceptFailed => cases acts
  | connection => cases acts

/-- As long as a thread is behind, it gets on when it goes on, and nobody sets it back. -/
theorem Behind.step (behind : server.Behind size thread tasks)
    (step : (system getReqHandler).step server event next) :
    next.Done thread tasks ∨ next.Behind size thread tasks ∧
      (next.pool.due thread tasks.length < server.pool.due thread tasks.length ∨
        next.pool.due thread tasks.length = server.pool.due thread tasks.length ∧
          event.actor ≠ some thread) := by
  have effect := behind.sound.step step
  have sound := effect.sound behind.sound
  have promised := behind.promised.trans
    (Threadpool.promised_of_reachable (effect.poolReachable behind.sound) thread)
  by_cases reached : tasks.length ≤ (next.pool.ran thread).length
  · left
    exact done_of_length sound.valid.pool promised reached
  · right
    refine ⟨⟨sound, promised, Nat.lt_of_not_le reached⟩, ?_⟩
    by_cases acts : event.actor = some thread
    · exact .inl (behind.acts step acts)
    · have same := activity_step behind.sound step behind.goes.1 acts
      right
      refine ⟨?_, acts⟩
      rw [Threadpool.due, Threadpool.due, same]

end Behind

/-! ### Sockets -/

/-- To each socket that was given to a thread, its connection was promised. -/
def Promises (server : Server) : Prop :=
  ∀ turn ∈ server.turns, turn.refused = false →
    .onAccept turn.listener turn.socket ∈ server.pool.promised turn.listener.threadId

theorem Valid.promises (valid : server.Valid size) (idle : server.pool.stopping = .idle) :
    server.Promises := by
  intro turn present given
  have handed : (turn.listener, turn.socket) ∈ handedTo server.turns turn.listener.threadId :=
    mem_handedTo.mpr ⟨turn, present, given, rfl, rfl, rfl⟩
  rw [← valid.handed] at handed
  rw [Threadpool.promised_of_idle valid.pool idle]
  exact mem_handed.mp handed

/-- Sockets are accepted only before `stop` is called. -/
theorem turns_step (sound : server.Sound size)
    (step : (system getReqHandler).step server event next)
    (stopped : next.pool.stopping ≠ .idle) : next.turns = server.turns := by
  cases sound.step step with
  | accepted index acceptor socket result next found accepting accepted =>
      exact (stopped (accepted.stopping.trans step.2.1.1)).elim
  | pool => rfl
  | acceptFailed => rfl
  | made => rfl
  | ranTask => exact updated_turns ..
  | connection => exact updated_turns ..

theorem Promises.step (promises : server.Promises) (sound : server.Sound size)
    (step : (system getReqHandler).step server event next) : next.Promises := by
  have effect := sound.step step
  by_cases idle : next.pool.stopping = .idle
  · exact (effect.sound sound).valid.promises idle
  · intro turn present given
    rw [turns_step sound step idle] at present
    have more := Threadpool.promised_of_reachable (effect.poolReachable sound)
      turn.listener.threadId
    exact more.subset (promises turn present given)

/-! ### Fair executions -/

section Executions

variable {execution : (system getReqHandler).Execution} {start : ℕ}

/-- A thread gets to run what it was promised. -/
theorem eventually_done (fair : execution.Fair ServerEvent.actor)
    (runs : ∀ time, (execution.state time).Running)
    (sound : (execution.state start).Sound size) (thread : ThreadId) :
    ∃ time, start ≤ time ∧ (execution.state time).Done thread
      ((execution.state start).pool.promised thread) := by
  let tasks := (execution.state start).pool.promised thread
  by_cases reached : tasks.length ≤ ((execution.state start).pool.ran thread).length
  · exact ⟨start, le_rfl, done_of_length sound.valid.pool List.prefix_rfl reached⟩
  · have behind : (execution.state start).Behind size thread tasks :=
      ⟨sound, List.prefix_rfl, Nat.lt_of_not_le reached⟩
    apply Lts.Execution.eventually fair (fun server => server.pool.due thread tasks.length)
      (fun _ => thread) (Behind size thread tasks) (Done thread tasks)
      (fun time behind => behind.enabled (runs time)) _ start behind
    intro time event behind label
    rcases execution.follows time with ⟨none, -⟩ | ⟨other, same, step⟩
    · rw [none] at label
      cases label
    · rcases (Option.some.inj (label.symm.trans same) : event = other) with rfl
      rcases behind.step step with done | ⟨stays, lower | ⟨due, acts⟩⟩
      · exact .inl done
      · exact .inr ⟨stays, .inl lower⟩
      · exact .inr ⟨stays, .inr ⟨due, rfl, acts⟩⟩

/-- After an exception nothing happens, so a server that runs has always run. -/
theorem running_of_later {time later : ℕ} (after : time ≤ later)
    (runs : (execution.state later).Running) : (execution.state time).Running := by
  induction later, after using Nat.le_induction with
  | base => exact runs
  | succ later after ih =>
      apply ih
      rcases execution.follows later with ⟨-, same⟩ | ⟨event, -, running, -⟩
      · rwa [← same]
      · exact running

/-- A socket is accepted and its connection made; then nothing happens any more. -/
theorem execution_first : ∃ execution : (system fun _ => none).Execution,
    execution.Fair ServerEvent.actor ∧ (∀ time, (execution.state time).Running) ∧
      execution.state 0 = new (.httpOn 8080) 1 ∧
      ∃ start, (execution.state start).turns = [⟨0, 0, ⟨0, 0⟩, false⟩] ∧
        (execution.state start).pool.stopping = .idle := by
  let system := Server.system fun _ => none
  let started := ((new (.httpOn 8080) 1).exec (fun _ => none) (.startThread 0)).get rfl
  let accepted := (started.exec (fun _ => none) (.accepted 0)).get rfl
  let dequeued := (accepted.exec (fun _ => none) (.dequeue 0)).get rfl
  let made := (dequeued.exec (fun _ => none) (.run 0)).get rfl
  have starts : system.step (new (.httpOn 8080) 1) (.startThread 0) started :=
    ⟨running_of_none rfl, ⟨by decide, rfl⟩, rfl⟩
  have accepts : system.step started (.accepted 0) accepted :=
    ⟨running_of_none rfl, ⟨rfl, _, rfl, rfl⟩, rfl⟩
  have dequeues : system.step accepted (.dequeue 0) dequeued :=
    ⟨running_of_none rfl, ⟨_, rfl, rfl, rfl, List.cons_ne_nil _ _⟩, rfl⟩
  have makes : system.step dequeued (.run 0) made := ⟨running_of_none rfl, ⟨_, rfl, rfl⟩, rfl⟩
  have running : made.Running := by
    intro socket connection present
    have only : (if socket = 0 then some ⟨⟨0, 0⟩, 0, HttpConnection.new⟩ else none) =
        some connection := present
    split at only
    · rcases Option.some.inj only with rfl
      rfl
    · cases only
  have run := ((Lts.Run.single starts).snoc accepts |>.snoc dequeues).snoc makes
  have reachable : system.Reachable (new (.httpOn 8080) 1) made := ⟨_, run⟩
  have sound := sound_of_init (@SnodeCore.init_httpOn 8080 (by decide))
    (SnodeCore.served_httpOn 8080) (.inr Nat.one_pos) reachable
  have first (who : ThreadId) (worker : Worker ServerTask)
      (present : made.pool.workers who = some worker) :
      worker.queue = [] ∧ worker.running = none := by
    have inside := sound.valid.indexed.inside who (by rw [present]; rfl)
    rw [Threadpool.size_of_reachable sound.valid.pool] at inside
    rcases (Nat.lt_one_iff.mp inside : who = 0) with rfl
    rcases Option.some.inj present with rfl
    exact ⟨rfl, rfl⟩
  have rests (who : ThreadId) : ¬system.Enabled ServerEvent.actor who made := by
    rintro ⟨event, next, acts, -, legal, -⟩
    cases event with
    | dequeue thread =>
        rcases legal with ⟨worker, present, -, -, nonempty⟩
        exact nonempty (first thread worker present).1
    | run thread =>
        rcases legal with ⟨worker, present, running⟩
        rw [(first thread worker present).2] at running
        cases running
    | _ => cases acts
  rcases run.execution with ⟨execution, begins, ends⟩
  have stays : ∃ count, ∀ time, count ≤ time → execution.state time = made := ⟨_, ends⟩
  rcases stays with ⟨count, stays⟩
  refine ⟨execution, Lts.Execution.fair_of_stuck fun who start => ?_, fun time => ?_, begins,
    count, ?_⟩
  · refine ⟨max start count, Nat.le_max_left start count, ?_⟩
    rw [stays _ (Nat.le_max_right start count)]
    exact rests who
  · apply running_of_later (Nat.le_max_left time count)
    rw [stays _ (Nat.le_max_right time count)]
    exact running
  · rw [stays count le_rfl]
    exact ⟨rfl, rfl⟩

variable {network : Network} {configs : List NetServiceConfig} {core : SnodeCore}

/-- What waits on a thread before `stop` is called is run, in the order in which it waits, even
if the server is stopped in the meantime; but for exceptions, after which nothing is run. -/
theorem waiting_ran (starts : SnodeCore.init network configs = .ok core) (served : core.Served)
    (positive : 0 < size) (fair : execution.Fair ServerEvent.actor)
    (runs : ∀ time, (execution.state time).Running) (begins : execution.state 0 = new core size)
    (idle : (execution.state start).pool.stopping = .idle) (thread : ThreadId) :
    ∃ time, start ≤ time ∧ (execution.state start).pool.ran thread ++
      (execution.state start).pool.waiting thread <+: (execution.state time).pool.ran thread := by
  have reachable := execution.reachable start
  rw [begins] at reachable
  have sound := sound_of_init starts served (.inr positive) reachable
  rw [← Threadpool.promised_of_idle sound.valid.pool idle]
  exact eventually_done fair runs sound thread

theorem waiting_ran_first : ∃ (execution : (system fun _ => none).Execution) (time : ℕ),
    ServerTask.onAccept ⟨0, 0⟩ 0 ∈ (execution.state time).pool.ran 0 := by
  rcases execution_first with ⟨execution, fair, runs, begins, start, turns, idle⟩
  have initially := @SnodeCore.init_httpOn 8080 (by decide)
  rcases waiting_ran initially (SnodeCore.served_httpOn 8080) Nat.one_pos fair runs begins idle
    0 with ⟨time, -, ran⟩
  have reachable := execution.reachable start
  rw [begins] at reachable
  have valid := (sound_of_init initially (SnodeCore.served_httpOn 8080) (.inr Nat.one_pos)
    reachable).valid
  have promised := valid.promises idle ⟨0, 0, ⟨0, 0⟩, false⟩ (by simp [turns]) rfl
  rw [Threadpool.promised_of_idle valid.pool idle] at promised
  exact ⟨execution, time, ran.subset promised⟩

/-- Every socket that was accepted and not refused gets its connection, on the thread it was given
to, if no exception ends the process before. -/
theorem accepted_connected (starts : SnodeCore.init network configs = .ok core)
    (served : core.Served) (positive : 0 < size) (fair : execution.Fair ServerEvent.actor)
    (runs : ∀ time, (execution.state time).Running)
    (begins : execution.state 0 = new core size) {turn : Turn}
    (taken : turn ∈ (execution.state start).turns) (given : turn.refused = false) :
    ∃ time connection, start ≤ time ∧
      (execution.state time).connections turn.socket = some connection ∧
        connection.listener = turn.listener ∧ connection.workerId = turn.listener.threadId := by
  have sound (time : ℕ) : (execution.state time).Sound size := by
    have reachable := execution.reachable time
    rw [begins] at reachable
    exact sound_of_init starts served (.inr positive) reachable
  have promises : (execution.state start).Promises := by
    have both := (execution.reachable start).invariant
      (fun server => server.Sound size ∧ server.Promises) ⟨sound 0, ?_⟩ ?_
    · exact both.2
    · rw [begins]
      exact List.forall_mem_nil _
    · rintro server event next ⟨sound, promises⟩ step
      exact ⟨(sound.step step).sound sound, promises.step sound step⟩
  rcases eventually_done fair runs (sound start) turn.listener.threadId with ⟨time, after, done⟩
  have ran := done.subset (promises turn taken given)
  rcases ((sound time).valid.made _ _ _).mp ran with ⟨connection, made, listener, worker⟩
  exact ⟨time, connection, after, made, listener, worker⟩

theorem accepted_connected_first : ∃ (execution : (system fun _ => none).Execution)
    (time : ℕ) (connection : Connection),
    (execution.state time).connections 0 = some connection ∧ connection.workerId = 0 := by
  rcases execution_first with ⟨execution, fair, runs, begins, start, turns, -⟩
  have taken : ⟨0, 0, ⟨0, 0⟩, false⟩ ∈ (execution.state start).turns := by simp [turns]
  rcases accepted_connected (@SnodeCore.init_httpOn 8080 (by decide))
    (SnodeCore.served_httpOn 8080) Nat.one_pos fair runs begins taken rfl with
    ⟨time, connection, -, made, -, worker⟩
  exact ⟨execution, time, connection, made, worker⟩

end Executions

end Server

end Snode.Core
