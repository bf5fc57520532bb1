import Snode.Core.ServerRuns

/-!
# Accepting and stopping

Whether a socket is refused is decided by the order in which the threads start and sockets are
accepted.  An acceptor that gets a socket too early stops accepting.  When `stop` has
returned, nothing happens to connections any more.
-/

namespace Snode.Core

open Http Pool

/-- Whether a socket is accepted. -/
def ServerEvent.isAccepted : ServerEvent → Bool
  | .accepted _ => true
  | _ => false

theorem ServerEvent.pool_eq_startThread {event : ServerEvent} {poolEvent : Pool.Event ServerTask}
    (ofPool : event.pool = some poolEvent) {thread : ThreadId} :
    poolEvent = .startThread thread ↔ event = .startThread thread := by
  cases event <;> cases ofPool <;> simp

namespace Server

variable {server next : Server} {size : ℕ} {network : Network} {configs : List NetServiceConfig}
  {core : SnodeCore} {getReqHandler : Bytes → Option ℕ} {event : ServerEvent}

/-! ### Threads that have started -/

theorem updated_kept (server : Server) (socket : SocketId) (connection : Connection)
    (state : HttpConnection) :
    (server.updated socket connection state).pool.queuesIndex = server.pool.queuesIndex ∧
      (server.updated socket connection state).pool.stopping = server.pool.stopping := by
  rw [updated_pool]
  exact Threadpool.scheduleAll_kept _ _ _

theorem run_kept (pool : Threadpool ServerTask) (thread : ThreadId) :
    (pool.exec (.run thread)).queuesIndex = pool.queuesIndex ∧
      (pool.exec (.run thread)).stopping = pool.stopping := by
  rw [Threadpool.exec, Threadpool.updateWorker_eq]
  exact ⟨rfl, rfl⟩

/-- Before `stop` is called, the threads that have started are registered. -/
theorem Effect.registered (effect : Effect getReqHandler size server event next)
    (idle : next.pool.stopping = .idle) :
    server.pool.stopping = .idle ∧ ∀ thread, thread ∈ next.pool.queuesIndex ↔
      thread ∈ server.pool.queuesIndex ∨ event = .startThread thread := by
  have same (isOther : ∀ thread, event ≠ .startThread thread)
      (kept : next.pool.queuesIndex = server.pool.queuesIndex ∧
        next.pool.stopping = server.pool.stopping) :
      server.pool.stopping = .idle ∧ ∀ thread, thread ∈ next.pool.queuesIndex ↔
        thread ∈ server.pool.queuesIndex ∨ event = .startThread thread := by
    refine ⟨kept.2.symm.trans idle, fun thread => ?_⟩
    rw [kept.1, or_iff_left (isOther thread)]
  cases effect with
  | pool _ poolEvent core ofPool legal sameTasks cleared =>
      rcases Threadpool.registered_exec legal idle with ⟨wasIdle, registered⟩
      refine ⟨wasIdle, fun thread => (registered thread).trans ?_⟩
      rw [ServerEvent.pool_eq_startThread ofPool]
  | accepted index acceptor socket result next found accepting accepted =>
      exact same (by simp) ⟨accepted.queuesIndex, accepted.stopping⟩
  | acceptFailed => exact same (by simp) ⟨rfl, rfl⟩
  | made thread => exact same (by simp) (run_kept _ thread)
  | ranTask thread socket task connection =>
      apply same (by simp)
      rw [(updated_kept ..).1, (updated_kept ..).2]
      exact run_kept _ thread
  | connection => exact same (by simp) (updated_kept ..)

/-! ### What a step adds -/

/-- What a step means for the turns, and for the acceptors that have stopped. -/
structure Records (size : ℕ) (server : Server) (event : ServerEvent) (next : Server)
    (more : List Turn) : Prop where
  turns : next.turns = server.turns ++ more
  isOther : event.isAccepted = false → more = []
  accepted : ∀ index, event = .accepted index → ∃ socket refused,
    more = [server.nextTurn size index socket refused] ∧ server.pool.stopping = .idle ∧
      (refused = true ↔ server.nextThread size ∉ server.pool.queuesIndex)
  accepting : ∀ (index : ℕ) (acceptor : Acceptor), next.core.acceptors[index]? = some acceptor →
    ∃ before, server.core.acceptors[index]? = some before ∧
      (acceptor.accepting = none ↔ before.accepting = none ∨ event = .acceptFailed index ∨
        ∃ turn ∈ more, turn.acceptor = index ∧ turn.refused = true)

/-- An event that neither accepts a socket nor fails to. -/
theorem Records.nothing (notAccepted : ∀ index, event ≠ .accepted index)
    (notFailed : ∀ index, event ≠ .acceptFailed index) (turns : next.turns = server.turns)
    (core : next.core.acceptors = server.core.acceptors ∨ next.core.acceptors = []) :
    Records size server event next [] where
  turns := by rw [turns, List.append_nil]
  isOther _ := rfl
  accepted index same := absurd same (notAccepted index)
  accepting index acceptor found := by
    rcases core with same | none
    · refine ⟨acceptor, same ▸ found, ?_⟩
      simp [notFailed]
    · simp [none] at found

/-- An acceptor after one of them has started or ended an `async_accept`. -/
theorem setAccepting_cases {core : SnodeCore} {index other : ℕ} {accepting : Option SocketId}
    {acceptor : Acceptor}
    (found : (core.setAccepting index accepting).acceptors[other]? = some acceptor) :
    ∃ before, core.acceptors[other]? = some before ∧
      ((index = other ∧ acceptor.accepting = accepting) ∨ (index ≠ other ∧ acceptor = before)) := by
  rw [getElem?_setAccepting] at found
  split at found
  · next here =>
      rcases Option.map_eq_some_iff.mp found with ⟨before, was, rfl⟩
      exact ⟨before, was, .inl ⟨here, rfl⟩⟩
  · next elsewhere => exact ⟨acceptor, found, .inr ⟨elsewhere, rfl⟩⟩

theorem Effect.records (effect : Effect getReqHandler size server event next)
    (legal : server.Legal event) : ∃ more, Records size server event next more := by
  cases effect with
  | pool _ poolEvent core ofPool poolLegal sameTasks cleared =>
      refine ⟨[], .nothing ?_ ?_ rfl ?_⟩
      · rintro index rfl
        cases ofPool
      · rintro index rfl
        cases ofPool
      · rcases cleared with ⟨rfl, -⟩ | rfl
        · exact .inl rfl
        · exact .inr rfl
  | accepted index acceptor socket result next found accepting accepted =>
      refine ⟨[server.nextTurn size index socket !result.isOk], accepted.turns,
        fun uncounted => Bool.noConfusion uncounted, ?_, ?_⟩
      · intro other same
        rcases ServerEvent.accepted.inj same with rfl
        refine ⟨socket, _, rfl, legal.1, ?_⟩
        rw [← accepted.registered, Bool.not_eq_true', Bool.not_eq_true]
      · intro other candidate foundNext
        have goesOn : (server.core.setAccepting index
            (if result.isOk then some server.core.nextSocket else none)).acceptors[other]? =
              some candidate := by
          rw [← foundNext]
          cases result <;> rfl
        rcases setAccepting_cases goesOn with ⟨before, was, here | elsewhere⟩
        · rcases here with ⟨rfl, now⟩
          rcases (Option.some.inj (was.symm.trans found) : before = acceptor) with rfl
          refine ⟨before, was, ?_⟩
          rw [now, accepting]
          cases result <;> simp [nextTurn]
        · rcases elsewhere with ⟨different, rfl⟩
          refine ⟨candidate, was, ?_⟩
          simp [nextTurn, different]
  | acceptFailed index acceptor socket found accepting =>
      refine ⟨[], (List.append_nil _).symm, fun _ => rfl, by simp, ?_⟩
      intro other candidate foundNext
      rcases setAccepting_cases foundNext with ⟨before, was, ⟨rfl, now⟩ | ⟨different, rfl⟩⟩
      · refine ⟨before, was, ?_⟩
        simp [now]
      · refine ⟨candidate, was, ?_⟩
        simp [different]
  | made => exact ⟨[], .nothing (by simp) (by simp) rfl (.inl rfl)⟩
  | ranTask =>
      refine ⟨[], .nothing (by simp) (by simp) (updated_turns ..) (.inl ?_)⟩
      rw [updated_core]
  | connection =>
      refine ⟨[], .nothing (by simp) (by simp) (updated_turns ..) (.inl ?_)⟩
      rw [updated_core]

/-! ### Runs -/

/-- What the events of a run say about the server they lead to. -/
structure Recorded (size : ℕ) (events : List ServerEvent) (server : Server) : Prop where
  registered : server.pool.stopping = .idle →
    ∀ thread, thread ∈ server.pool.queuesIndex ↔ .startThread thread ∈ events
  count : server.turns.length = events.countP ServerEvent.isAccepted
  refused : ∀ before index after, events = before ++ .accepted index :: after →
    ∃ turn, server.turns[before.countP ServerEvent.isAccepted]? = some turn ∧
      turn.acceptor = index ∧
        turn.listener.threadId = before.countP ServerEvent.isAccepted % size ∧
          (turn.refused = true ↔ .startThread turn.listener.threadId ∉ before)
  accepting : ∀ (index : ℕ) (acceptor : Acceptor), server.core.acceptors[index]? = some acceptor →
    (acceptor.accepting = none ↔ .acceptFailed index ∈ events ∨
      ∃ turn ∈ server.turns, turn.acceptor = index ∧ turn.refused = true)

theorem recorded_new {ports : List (ℕ × ℕ)} (bound : SnodeCore.Bound ports core) :
    (new core size).Recorded size [] where
  registered _ thread := by simp [new, Threadpool.new]
  count := rfl
  refused before index after same := by simp at same
  accepting index acceptor found := by
    rw [bound.accepting index acceptor found]
    simp [new]

/-- A step of a run. -/
theorem Recorded.step {events : List ServerEvent} (recorded : server.Recorded size events)
    (effect : Effect getReqHandler size server event next) (legal : server.Legal event) :
    next.Recorded size (events ++ [event]) := by
  rcases effect.records legal with ⟨more, records⟩
  constructor
  · intro idle thread
    rcases effect.registered idle with ⟨wasIdle, registered⟩
    rw [registered, recorded.registered wasIdle]
    simp [eq_comm]
  · rw [records.turns, List.length_append, recorded.count, List.countP_append,
      List.countP_singleton]
    congr 1
    cases accepted : event.isAccepted with
    | false => rw [records.isOther accepted]; rfl
    | true =>
        cases event with
        | accepted index =>
            rcases records.accepted index rfl with ⟨socket, refused, rfl, -⟩
            rfl
        | _ => cases accepted
  · intro before index after same
    rcases List.eq_nil_or_concat after with rfl | ⟨earlier, last, rfl⟩
    · -- the step is the one that accepts the socket
      rcases List.append_inj' same rfl with ⟨rfl, here⟩
      rcases List.head_eq_of_cons_eq here with rfl
      rcases records.accepted index rfl with ⟨socket, refused, rfl, idle, because⟩
      refine ⟨server.nextTurn size index socket refused, ?_, rfl, ?_, ?_⟩
      · rw [records.turns, ← recorded.count, List.getElem?_append_right le_rfl, Nat.sub_self]
        rfl
      · rw [← recorded.count]
        rfl
      · change refused = true ↔ .startThread (server.nextThread size) ∉ events
        rw [because, recorded.registered idle]
    · have split : events ++ [event] = (before ++ .accepted index :: earlier) ++ [last] := by
        rw [same]
        simp
      rcases List.append_inj' split rfl with ⟨was, -⟩
      rcases recorded.refused before index earlier was with ⟨turn, taken, acceptor, thread, iff⟩
      refine ⟨turn, ?_, acceptor, thread, iff⟩
      rw [records.turns, List.getElem?_append_left (List.getElem?_eq_some_iff.mp taken).1, taken]
  · intro index acceptor found
    rcases records.accepting index acceptor found with ⟨before, was, stops⟩
    rw [stops, recorded.accepting index before was, records.turns]
    simp only [List.mem_append, List.mem_singleton, or_and_right, exists_or,
      eq_comm (a := event)]
    exact or_or_or_comm

/-- A socket is refused if and only if the thread whose turn it is starts only later.  An
acceptor accepts until `async_accept` fails or a socket of it is refused, and never again. -/
theorem turns_recorded (starts : SnodeCore.init network configs = .ok core) (served : core.Served)
    (positive : 0 < size) {events : List ServerEvent}
    (run : (system getReqHandler).Run (new core size) events server) :
    server.Recorded size events := by
  rcases SnodeCore.bound_of_init starts with ⟨ports, bound, -⟩
  have both := run.history (fun events server => server.Sound size ∧ server.Recorded size events)
    ⟨sound_new bound served (.inr positive), recorded_new bound⟩ ?_
  · exact both.2
  · rintro events server event next ⟨sound, recorded⟩ step
    have effect := sound.step step
    exact ⟨effect.sound sound, recorded.step effect step.2.1⟩

/-- Before its thread has started, a socket is refused and its acceptor stops. -/
theorem turns_recorded_refused : ∃ server : Server, server.Recorded 1 [.accepted 0] ∧
    ∃ turn ∈ server.turns, turn.acceptor = 0 ∧ turn.refused = true := by
  let system := Server.system fun _ => none
  let accepted := ((new (.httpOn 8080) 1).exec (fun _ => none) (.accepted 0)).get rfl
  have accepts : system.step (new (.httpOn 8080) 1) (.accepted 0) accepted :=
    ⟨running_of_none rfl, ⟨rfl, _, rfl, rfl⟩, rfl⟩
  have recorded := turns_recorded (@SnodeCore.init_httpOn 8080 (by decide))
    (SnodeCore.served_httpOn 8080) Nat.one_pos (.single accepts)
  exact ⟨accepted, recorded, ⟨0, 0, ⟨0, 0⟩, true⟩, List.mem_singleton_self _, rfl, rfl⟩

/-! ### After stopping -/

/-- The core has stopped. -/
structure Over (server : Server) : Prop where
  returned : server.pool.stopping = .returned
  acceptors : server.core.acceptors = []
  threads : server.pool.Over

/-- Nothing happens to the connections of a server, and no socket is accepted. -/
structure Unmoved (server next : Server) : Prop where
  connections : next.connections = server.connections
  tracked : next.tracked = server.tracked
  turns : next.turns = server.turns

theorem Effect.over (effect : Effect getReqHandler size server event next)
    (sound : server.Sound size) (goesOn : server.pool.stopping ≠ .returned)
    (returned : next.pool.stopping = .returned) : next.Over := by
  cases effect with
  | pool _ poolEvent core ofPool legal same cleared =>
      refine ⟨returned, ?_, sound.valid.indexed.over goesOn returned⟩
      rcases cleared with ⟨-, before⟩ | rfl
      · exact absurd (before returned) goesOn
      · rfl
  | accepted index acceptor socket result next found accepting accepted =>
      exact absurd (accepted.stopping.symm.trans returned) goesOn
  | acceptFailed => exact absurd returned goesOn
  | made thread => exact absurd ((run_kept _ thread).2.symm.trans returned) goesOn
  | ranTask thread =>
      rw [(updated_kept ..).2] at returned
      exact absurd ((run_kept _ thread).2.symm.trans returned) goesOn
  | connection => exact absurd ((updated_kept ..).2.symm.trans returned) goesOn

section Over

variable (isOver : server.Over) (sound : server.Sound size)

include isOver sound

/-- No task is run any more. -/
theorem Over.not_running {thread : ThreadId} {task : ServerTask}
    (legal : server.pool.Legal (.run thread))
    (running : (server.pool.workers thread).bind Worker.running = some (.task task)) : False := by
  rcases isOver.threads with ended | idle
  · rcases Threadpool.legal_of_ended sound.valid.pool isOver.returned ended legal with
      stop | ⟨task, thread, schedule⟩
    · cases stop
    · cases schedule
  · have waits := waits_of_running running
    simp [idle thread] at waits

/-- No connection has a thread that goes on. -/
theorem Over.not_looping {socket : SocketId} {connection : Connection}
    (present : server.connections socket = some connection)
    (looping : server.pool.Looping connection.workerId) : False := by
  rcases isOver.threads with ended | idle
  · rcases looping with ⟨worker, started, goesOn⟩
    have inside := sound.valid.indexed.inside connection.workerId (by rw [started]; rfl)
    exact Threadpool.Looping.not_ended ⟨worker, started, goesOn⟩ (ended _ inside)
  · have ran := (sound.valid.made socket _ _).mpr ⟨connection, present, rfl, rfl⟩
    simp [idle connection.workerId] at ran

theorem Over.step (legal : server.Legal event)
    (effect : Effect getReqHandler size server event next) :
    next.Over ∧ server.Unmoved next := by
  have notIdle : server.pool.stopping ≠ .idle := by simp [isOver.returned]
  cases effect with
  | pool _ poolEvent core ofPool poolLegal same cleared =>
      refine ⟨⟨?_, ?_, ?_⟩, rfl, rfl, rfl⟩
      · cases event with
        | startThread thread =>
            rcases Option.some.inj ofPool with rfl
            exact isOver.returned
        | dequeue thread =>
            rcases Option.some.inj ofPool with rfl
            simp only [Threadpool.exec]
            rw [Threadpool.updateWorker_eq]
            exact isOver.returned
        | run thread =>
            rcases Option.some.inj ofPool with rfl
            exact (run_kept _ thread).2.trans isOver.returned
        | stop => exact absurd legal notIdle
        | stopGoes =>
            rcases legal with ⟨threads, loop⟩ | ⟨thread, threads, worker, joining, -⟩
            · simp [isOver.returned] at loop
            · simp [isOver.returned] at joining
        | _ => cases ofPool
      · rcases cleared with ⟨rfl, -⟩ | rfl
        · exact isOver.acceptors
        · rfl
      · rcases isOver.threads with ended | idle
        · rcases Threadpool.legal_of_ended sound.valid.pool isOver.returned ended poolLegal with
            rfl | ⟨task, thread, rfl⟩
          · cases event with
            | stop => exact absurd legal notIdle
            | _ => cases ofPool
          · cases event <;> cases ofPool
        · right
          intro thread
          exact ⟨(congrFun same.ran thread).trans (idle thread).1,
            (congrFun same.waiting thread).trans (idle thread).2⟩
  | accepted => exact absurd legal.1 notIdle
  | acceptFailed => exact absurd legal.1 notIdle
  | made thread listener socket legal running => exact (isOver.not_running sound legal running).elim
  | ranTask thread socket task connection legal running =>
      exact (isOver.not_running sound legal running).elim
  | connection socket event connection isOther present legal looping =>
      exact (isOver.not_looping sound present looping).elim

end Over

/-- Once `stop` has returned, nothing happens to the connections any more, no task of one is
run, and no socket is accepted. -/
theorem stop_final (starts : SnodeCore.init network configs = .ok core) (served : core.Served)
    (positive : 0 < size) (reachable : (system getReqHandler).Reachable (new core size) server)
    (returned : server.pool.stopping = .returned)
    (later : (system getReqHandler).Reachable server next) :
    server.Unmoved next ∧ next.Over := by
  rcases SnodeCore.bound_of_init starts with ⟨ports, bound, -⟩
  have initially : (new core size).Sound size := sound_new bound served (.inr positive)
  have both := reachable.invariant
    (fun server => server.Sound size ∧ (server.pool.stopping = .returned → server.Over))
    ⟨initially, by simp [new, Threadpool.new]⟩ ?_
  · have kept := later.invariant
      (fun next => next.Sound size ∧ next.Over ∧ server.Unmoved next)
      ⟨both.1, both.2 returned, rfl, rfl, rfl⟩ ?_
    · exact ⟨kept.2.2, kept.2.1⟩
    · rintro before event after ⟨sound, isOver, unmoved⟩ step
      have effect := sound.step step
      rcases isOver.step sound step.2.1 effect with ⟨stillOver, still⟩
      exact ⟨effect.sound sound, stillOver, still.connections.trans unmoved.connections,
        still.tracked.trans unmoved.tracked, still.turns.trans unmoved.turns⟩
  · rintro before event after ⟨sound, isOver⟩ step
    have effect := sound.step step
    refine ⟨effect.sound sound, fun returned => ?_⟩
    by_cases already : before.pool.stopping = .returned
    · exact ((isOver already).step sound step.2.1 effect).1
    · exact effect.over sound already returned

/-- A thread has started when `stop` is called. -/
theorem stop_final_started : ∃ server : Server, server.pool.joined = [0] ∧
    ∀ next, (system fun _ => none).Reachable server next → server.Unmoved next ∧ next.Over := by
  let system := Server.system fun _ => none
  let exec (server : Server) (event : Pool.Event ServerTask) : Server :=
    { server with pool := server.pool.exec event }
  let started := exec (new (.httpOn 8080) 1) (.startThread 0)
  let stopping := exec started .stop
  let cancelling := exec stopping .stopGoes
  let dequeued := exec cancelling (.dequeue 0)
  let ended := exec dequeued (.run 0)
  let joined := exec ended .stopGoes
  let stopped := clearAcceptors (exec joined .stopGoes)
  have starts : system.step (new (.httpOn 8080) 1) (.startThread 0) started :=
    ⟨running_of_none rfl, ⟨by decide, rfl⟩, rfl⟩
  have stops : system.step started .stop stopping := ⟨running_of_none rfl, rfl, rfl⟩
  have cancels : system.step stopping .stopGoes cancelling :=
    ⟨running_of_none rfl, .inl ⟨_, rfl⟩, rfl⟩
  have dequeues : system.step cancelling (.dequeue 0) dequeued :=
    ⟨running_of_none rfl, ⟨_, rfl, rfl, rfl, List.cons_ne_nil _ _⟩, rfl⟩
  have ends : system.step dequeued (.run 0) ended := ⟨running_of_none rfl, ⟨_, rfl, rfl⟩, rfl⟩
  have joins : system.step ended .stopGoes joined :=
    ⟨running_of_none rfl, .inr ⟨0, [], _, rfl, rfl, rfl⟩, rfl⟩
  have returns : system.step joined .stopGoes stopped := ⟨running_of_none rfl, .inl ⟨_, rfl⟩, rfl⟩
  have reachable := (((((Lts.Reachable.refl _).tail starts |>.tail stops).tail cancels).tail
    dequeues).tail ends |>.tail joins).tail returns
  refine ⟨stopped, rfl, fun next later => ?_⟩
  exact stop_final (@SnodeCore.init_httpOn 8080 (by decide)) (SnodeCore.served_httpOn 8080)
    Nat.one_pos reachable rfl later

end Server

end Snode.Core
