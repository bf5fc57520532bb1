import Snode.Core.Placement

/-!
# Runs of the server

What a step of the server does, whatever state it was reached in, and what that keeps.
-/

namespace Snode.Core

open Http Pool

namespace Server

variable {server next : Server} {size : ℕ}

/-- The connections that a listener tracks are those it made whose sockets are open. -/
structure Tracked (server : Server) : Prop where
  nodup : ∀ address, (server.tracked address).Nodup
  mem : ∀ address socket, socket ∈ server.tracked address ↔
    ∃ connection, server.connections socket = some connection ∧
      connection.listener.address = address ∧ connection.state.socketOpen = true

/-- The invariant of a server. -/
structure Sound (size : ℕ) (server : Server) : Prop where
  valid : server.Valid size
  fresh : server.Fresh
  served : server.core.Served
  tracked : server.Tracked
  listens : server.core.acceptors = [] ∨ 0 < size

/-- There is a listener for what an acceptor accepts. -/
theorem Sound.positive (sound : server.Sound size) {index : ℕ} {acceptor : Acceptor}
    (found : server.core.acceptors[index]? = some acceptor) : 0 < size := by
  rcases sound.listens with none | positive
  · simp [none] at found
  · exact positive

/-- What a step does. -/
inductive Effect (getReqHandler : Bytes → Option ℕ) (size : ℕ) (server : Server) :
    ServerEvent → Server → Prop where
  | pool (event : ServerEvent) (poolEvent : Pool.Event ServerTask) (core : SnodeCore)
      (ofPool : event.pool = some poolEvent) (legal : server.pool.Legal poolEvent)
      (same : server.pool.SameTasks (server.pool.exec poolEvent))
      (cleared : (core = server.core ∧
          ((server.pool.exec poolEvent).stopping = .returned → server.pool.stopping = .returned)) ∨
        core = { server.core with acceptors := [] }) :
      Effect getReqHandler size server event
        { server with pool := server.pool.exec poolEvent, core := core }
  | accepted (index : ℕ) (acceptor : Acceptor) (socket : SocketId) (result : Except String Unit)
      (next : Server) (found : server.core.acceptors[index]? = some acceptor)
      (accepting : acceptor.accepting = some socket)
      (accepted : Accepted size index socket server result next) :
      Effect getReqHandler size server (.accepted index)
        { next with
          core := if result.isOk then server.core.acceptNext index
            else server.core.setAccepting index none }
  | acceptFailed (index : ℕ) (acceptor : Acceptor) (socket : SocketId)
      (found : server.core.acceptors[index]? = some acceptor)
      (accepting : acceptor.accepting = some socket) :
      Effect getReqHandler size server (.acceptFailed index)
        { server with core := server.core.setAccepting index none }
  | made (thread : ThreadId) (listener : NetServiceListener ThreadId) (socket : SocketId)
      (legal : server.pool.Legal (.run thread))
      (running : (server.pool.workers thread).bind Worker.running =
        some (.task (.onAccept listener socket))) :
      Effect getReqHandler size server (.run thread)
        (doAccept { server with pool := server.pool.exec (.run thread) } listener socket thread)
  | ranTask (thread : ThreadId) (socket : SocketId) (task : Http.Task) (connection : Connection)
      (legal : server.pool.Legal (.run thread))
      (running : (server.pool.workers thread).bind Worker.running =
        some (.task (.connection socket task)))
      (present : server.connections socket = some connection)
      (worker : connection.workerId = thread) :
      Effect getReqHandler size server (.run thread)
        (updated { server with pool := server.pool.exec (.run thread) } socket connection
          (connection.state.runTask task))
  | connection (socket : SocketId) (event : Http.Event) (connection : Connection)
      (isOther : event ≠ .runTask) (present : server.connections socket = some connection)
      (legal : connection.state.Legal event)
      (looping : server.pool.Looping connection.workerId) :
      Effect getReqHandler size server (.connection socket event)
        (server.updated socket connection
          (HttpConnection.exec getReqHandler connection.state event))

theorem clearAcceptors_eq (server : Server) :
    ∃ core, server.clearAcceptors = { server with core := core } ∧
      ((core = server.core ∧ server.pool.stopping ≠ .returned) ∨
        core = { server.core with acceptors := [] }) := by
  rw [clearAcceptors]
  split
  · exact ⟨_, rfl, .inr rfl⟩
  · next goesOn => exact ⟨_, rfl, .inl ⟨rfl, goesOn⟩⟩

/-- Every step that is legal for an acceptor finds its service and a listener. -/
theorem Sound.exec_accepted (sound : server.Sound size) (getReqHandler : Bytes → Option ℕ)
    {index : ℕ} (legal : server.Legal (.accepted index)) :
    ∃ next, server.exec getReqHandler (.accepted index) = some next ∧
      Effect getReqHandler size server (.accepted index) next := by
  rcases legal with ⟨-, acceptor, found, some⟩
  rcases Option.isSome_iff_exists.mp some with ⟨socket, accepting⟩
  rcases Option.isSome_iff_exists.mp (sound.served acceptor (List.mem_of_getElem? found)) with
    ⟨service, service_⟩
  rcases sound.valid.accept (sound.positive found) index socket with
    ⟨result, next, accept, accepted⟩
  refine ⟨_, ?_, .accepted index acceptor socket result next found accepting accepted⟩
  rw [Server.exec, handleAccept, found]
  simp only [Option.bind_eq_bind, Option.bind_some, accepting, service_, accept,
    Bool.false_eq_true, if_false, accepted.core]
  cases result <;> rfl

/-- What a thread runs is to make a connection, a task of one that there is, or to cancel it. -/
theorem Sound.exec_run (sound : server.Sound size) (getReqHandler : Bytes → Option ℕ)
    {thread : ThreadId} (legal : server.Legal (.run thread)) :
    ∃ next, server.exec getReqHandler (.run thread) = some next ∧
      Effect getReqHandler size server (.run thread) next := by
  have stillStops : (server.pool.exec (.run thread)).stopping = .returned →
      server.pool.stopping = .returned := by
    rw [Threadpool.exec, Threadpool.updateWorker_eq]
    exact id
  rcases running : (server.pool.workers thread).bind Worker.running with _ | task | _
  · refine ⟨_, ?_, .pool (.run thread) (.run thread) server.core rfl legal
      (Threadpool.sameTasks_run fun task => by simp [running]) (.inl ⟨rfl, stillStops⟩)⟩
    rw [Server.exec, runTask, running]
  · rcases task with ⟨listener, socket⟩ | ⟨socket, task⟩
    · refine ⟨_, ?_, .made thread listener socket legal running⟩
      rw [Server.exec, runTask, running]
    · rcases sound.valid.confined thread socket task (waits_of_running running) with
        ⟨connection, present, worker⟩
      refine ⟨_, ?_, .ranTask thread socket task connection legal running present worker⟩
      simp only [Server.exec, runTask, running, update, present, Option.map_some]
  · refine ⟨_, ?_, .pool (.run thread) (.run thread) server.core rfl legal
      (Threadpool.sameTasks_run fun task => by simp [running]) (.inl ⟨rfl, stillStops⟩)⟩
    rw [Server.exec, runTask, running]

/-- Each event that can happen has one of these effects, and none is undefined. -/
theorem Sound.exec (sound : server.Sound size)
    (getReqHandler : Bytes → Option ℕ) {event : ServerEvent} (legal : server.Legal event) :
    ∃ next, server.exec getReqHandler event = some next ∧
      Effect getReqHandler size server event next := by
  cases event with
  | accepted index => exact sound.exec_accepted getReqHandler legal
  | acceptFailed index =>
      rcases legal with ⟨-, acceptor, found, some⟩
      rcases Option.isSome_iff_exists.mp some with ⟨socket, accepting⟩
      refine ⟨_, ?_, .acceptFailed index acceptor socket found accepting⟩
      rw [Server.exec, handleAccept, found]
      simp only [Option.bind_eq_bind, Option.bind_some, accepting, if_true]
      rfl
  | startThread thread =>
      exact ⟨_, rfl, .pool _ _ server.core rfl legal (Threadpool.sameTasks_startThread legal.2)
        (.inl ⟨rfl, id⟩)⟩
  | dequeue thread =>
      refine ⟨_, rfl, .pool _ _ server.core rfl legal (Threadpool.sameTasks_dequeue legal)
        (.inl ⟨rfl, ?_⟩)⟩
      rw [Threadpool.exec, Threadpool.updateWorker_eq]
      exact id
  | run thread => exact sound.exec_run getReqHandler legal
  | stop =>
      rcases clearAcceptors_eq { server with pool := server.pool.exec .stop } with
        ⟨core, cleared, kept⟩
      refine ⟨_, rfl, ?_⟩
      rw [cleared]
      have stops : server.pool.Legal .stop := .inl legal
      exact .pool .stop .stop core rfl stops (Threadpool.sameTasks_stop _)
        (kept.imp_left (And.imp_right fun goesOn returned => absurd returned goesOn))
  | stopGoes =>
      rcases clearAcceptors_eq { server with pool := server.pool.exec .stopGoes } with
        ⟨core, cleared, kept⟩
      refine ⟨_, rfl, ?_⟩
      rw [cleared]
      exact .pool .stopGoes .stopGoes core rfl legal (Threadpool.sameTasks_stopGoes _)
        (kept.imp_left (And.imp_right fun goesOn returned => absurd returned goesOn))
  | connection socket event =>
      rcases legal with ⟨isOther, connection, present, legal, worker, registered, goesOn, -⟩
      refine ⟨_, ?_, .connection socket event connection isOther present legal
        ⟨worker, registered, goesOn⟩⟩
      rw [Server.exec, update, present, Option.map_some]

/-! ### Invariants -/

section Effects

variable {getReqHandler : Bytes → Option ℕ} {event : ServerEvent}

theorem Effect.valid (effect : Effect getReqHandler size server event next)
    (sound : server.Sound size) : next.Valid size := by
  have valid := sound.valid
  cases effect with
  | pool _ poolEvent core ofPool legal same _ => exact (valid.samePool legal same).withCore core
  | accepted index acceptor socket result next found accepting accepted =>
      apply Valid.withCore
      apply accepted.valid valid (sound.positive found)
      exact (sound.fresh.accepting index acceptor socket found accepting).2
  | acceptFailed => exact valid.withCore _
  | made thread listener socket legal running => exact valid.doAccept legal running
  | ranTask thread socket task connection legal running present worker =>
      subst worker
      have looping : (server.pool.exec (.run connection.workerId)).Looping connection.workerId :=
        Threadpool.looping_run valid.pool running
      exact (valid.ranTask legal running).updated present looping _
  | connection socket event connection isOther present legal looping =>
      exact valid.updated present looping _

theorem Fresh.of_same (fresh : server.Fresh) (core : next.core = server.core)
    (turns : next.turns = server.turns) : next.Fresh := by
  refine ⟨?_, ?_, ?_⟩
  · rw [core, turns]
    exact fresh.turns
  · rw [core, turns]
    exact fresh.accepting
  · rw [core]
    exact fresh.distinct

theorem acceptNext_setAccepting (core : SnodeCore) (index : ℕ) :
    (core.setAccepting index none).acceptNext index = core.acceptNext index := by
  simp only [SnodeCore.acceptNext, SnodeCore.setAccepting, List.modify_modify_eq]
  rfl

theorem Effect.fresh (effect : Effect getReqHandler size server event next)
    (fresh : server.Fresh) : next.Fresh := by
  cases effect with
  | pool _ poolEvent core ofPool legal same cleared =>
      rcases cleared with ⟨rfl, -⟩ | rfl
      · exact fresh.of_same rfl rfl
      · exact ⟨fresh.turns, by simp, by simp⟩
  | accepted index acceptor socket result next found accepting accepted =>
      have stopped : Fresh { server with
          core := server.core.setAccepting index none
          turns := next.turns } := by
        apply fresh.disarm found accepting
        intro turn present
        rw [accepted.turns] at present
        rcases List.mem_append.mp present with before | last
        · exact .inl before
        · right
          rw [List.mem_singleton.mp last]
          rfl
      split
      · have goesOn := stopped.acceptNext index
        rw [acceptNext_setAccepting] at goesOn
        exact goesOn.of_same rfl rfl
      · exact stopped.of_same rfl rfl
  | acceptFailed index acceptor socket found accepting =>
      exact fresh.disarm found accepting fun turn => .inl
  | made => exact fresh.of_same rfl rfl
  | ranTask => exact fresh.of_same (updated_core ..) (updated_turns ..)
  | connection => exact fresh.of_same (updated_core ..) (updated_turns ..)

theorem Effect.served (effect : Effect getReqHandler size server event next)
    (served : server.core.Served) : next.core.Served := by
  cases effect with
  | pool _ poolEvent core ofPool legal same cleared =>
      rcases cleared with ⟨rfl, -⟩ | rfl
      · exact served
      · exact List.forall_mem_nil _
  | accepted index =>
      simp only
      split
      · exact served_setAccepting served index (some server.core.nextSocket)
      · exact served_setAccepting served index none
  | acceptFailed index => exact served_setAccepting served index none
  | made => exact served
  | ranTask =>
      rw [updated_core]
      exact served
  | connection =>
      rw [updated_core]
      exact served

theorem updated_tracked (server : Server) (socket : SocketId) (connection : Connection)
    (state : HttpConnection) (address : ℕ) :
    (server.updated socket connection state).tracked address =
      if state.socketOpen = false ∧ address = connection.listener.address then
        (server.tracked address).erase socket
      else server.tracked address := by
  rw [updated]
  cases isOpen : state.socketOpen with
  | true => simp [post]
  | false =>
      by_cases here : address = connection.listener.address <;> simp [post, dropConnection, here]

/-- A connection that closes its socket is tracked no longer, and no other one is affected. -/
theorem Tracked.updated (tracked : server.Tracked) {socket : SocketId} {connection : Connection}
    (present : server.connections socket = some connection) {state : HttpConnection}
    (closed : connection.state.socketOpen = false → state.socketOpen = false) :
    (server.updated socket connection state).Tracked := by
  constructor
  · intro address
    rw [updated_tracked]
    split
    · exact (tracked.nodup address).erase socket
    · exact tracked.nodup address
  · intro address other
    rw [updated_tracked, updated_connections]
    have before := tracked.mem address other
    by_cases same : other = socket
    · subst same
      rw [present] at before
      simp only [Option.some.injEq, exists_eq_left'] at before
      simp only [if_true, Option.some.injEq, exists_eq_left']
      change _ ↔ connection.listener.address = address ∧ state.socketOpen = true
      cases isOpen : state.socketOpen with
      | false =>
          by_cases here : address = connection.listener.address
          · simp [here, (tracked.nodup _).mem_erase_iff]
          · rw [if_neg fun both => here both.2, before]
            simp [Ne.symm here]
      | true =>
          have wasOpen : connection.state.socketOpen = true := by
            by_contra notOpen
            rw [closed (Bool.not_eq_true _ ▸ notOpen)] at isOpen
            cases isOpen
          simp [before, wasOpen]
    · rw [if_neg same, ← before]
      split
      · exact List.mem_erase_of_ne same
      · rfl

theorem Tracked.doAccept (tracked : server.Tracked) {socket : SocketId}
    (none : server.connections socket = none) (listener : NetServiceListener ThreadId)
    (thread : ThreadId) : (server.doAccept listener socket thread).Tracked := by
  constructor
  · intro address
    simp only [Server.doAccept]
    split
    · exact (tracked.nodup address).insert
    · exact tracked.nodup address
  · intro address other
    have before := tracked.mem address other
    rw [doAccept_connections]
    simp only [Server.doAccept]
    by_cases same : other = socket
    · subst same
      simp only [none, reduceCtorEq, false_and, exists_false, iff_false] at before
      simp only [if_true, Option.some.injEq, exists_eq_left']
      split
      · next here => simp [here, HttpConnection.new, HttpConnection.startRequestResponse,
          HttpConnection.asyncRead]
      · next elsewhere => simp [before, Ne.symm elsewhere]
    · rw [if_neg same, ← before]
      split
      · simp [same]
      · rfl

theorem Effect.tracked (effect : Effect getReqHandler size server event next)
    (sound : server.Sound size) : next.Tracked := by
  have tracked := sound.tracked
  cases effect with
  | pool => exact ⟨tracked.nodup, tracked.mem⟩
  | accepted index acceptor socket result next found accepting accepted =>
      refine ⟨?_, ?_⟩
      · rw [accepted.tracked]
        exact tracked.nodup
      · rw [accepted.tracked, accepted.connections]
        exact tracked.mem
  | acceptFailed => exact ⟨tracked.nodup, tracked.mem⟩
  | made thread listener socket legal running =>
      have kept : Tracked { server with pool := server.pool.exec (.run thread) } :=
        ⟨tracked.nodup, tracked.mem⟩
      exact kept.doAccept (sound.valid.unmade (waits_of_running running)) listener thread
  | ranTask thread socket task connection legal running present worker =>
      have kept : Tracked { server with pool := server.pool.exec (.run thread) } :=
        ⟨tracked.nodup, tracked.mem⟩
      exact kept.updated present fun closed => HttpConnection.runTask_closed closed task
  | connection socket event connection isOther present legal looping =>
      apply tracked.updated present
      exact fun closed => HttpConnection.exec_closed closed getReqHandler isOther

theorem Effect.listens (effect : Effect getReqHandler size server event next)
    (listens : server.core.acceptors = [] ∨ 0 < size) :
    next.core.acceptors = [] ∨ 0 < size := by
  apply listens.imp_left
  intro none
  cases effect with
  | pool _ poolEvent core ofPool legal same cleared =>
      rcases cleared with ⟨rfl, -⟩ | rfl <;> simp [none]
  | accepted index acceptor socket result next found => simp [none] at found
  | acceptFailed index acceptor socket found => simp [none] at found
  | made => exact none
  | ranTask => rwa [updated_core]
  | connection => rwa [updated_core]

theorem Effect.sound (effect : Effect getReqHandler size server event next)
    (sound : server.Sound size) : next.Sound size where
  valid := effect.valid sound
  fresh := effect.fresh sound.fresh
  served := effect.served sound.served
  tracked := effect.tracked sound
  listens := effect.listens sound.listens

end Effects

/-! ### Reachable states -/

theorem sound_new {core : SnodeCore} {ports : List (ℕ × ℕ)} (bound : SnodeCore.Bound ports core)
    (served : core.Served) (listens : core.acceptors = [] ∨ 0 < size) :
    (new core size).Sound size where
  valid := by
    refine ⟨.refl _, NetServiceListenerFactory.valid_new _, ?_, ?_, List.nodup_nil, ?_, ?_, ?_, ?_⟩
    · exact Nat.zero_mod size
    · intro index turn taken
      simp [new] at taken
    · exact fun thread => rfl
    · intro socket listener thread
      simp [new, Threadpool.ran, Threadpool.new]
    · intro thread socket task waits
      simp [new, Threadpool.waiting, Threadpool.new] at waits
    · intro socket connection made
      simp [new] at made
  fresh := by
    refine ⟨List.forall_mem_nil _, ?_, ?_⟩
    · intro index acceptor socket found accepting
      rcases Option.some.inj ((bound.accepting index acceptor found).symm.trans accepting) with rfl
      refine ⟨?_, List.forall_mem_nil _⟩
      change index < core.nextSocket
      rw [bound.nextSocket]
      exact (List.getElem?_eq_some_iff.mp found).1
    · intro first second left right socket foundLeft foundRight acceptingLeft acceptingRight
      have firstIs := (bound.accepting first left foundLeft).symm.trans acceptingLeft
      have secondIs := (bound.accepting second right foundRight).symm.trans acceptingRight
      exact Option.some.inj (firstIs.trans secondIs.symm)
  served := served
  tracked := ⟨fun address => List.nodup_nil, fun address socket => by simp [new]⟩
  listens := listens

theorem Sound.step {getReqHandler : Bytes → Option ℕ} {event : ServerEvent}
    (sound : server.Sound size)
    (step : (system getReqHandler).step server event next) :
    Effect getReqHandler size server event next := by
  rcases sound.exec getReqHandler step.2.1 with ⟨other, done, effect⟩
  rcases Option.some.inj (done.symm.trans step.2.2) with rfl
  exact effect

theorem Sound.of_reachable {getReqHandler : Bytes → Option ℕ} (sound : server.Sound size)
    (reachable : (system getReqHandler).Reachable server next) : next.Sound size :=
  reachable.invariant (Sound size) sound fun _ _ _ before step => (before.step step).sound before

theorem sound_of_init {network : Network} {configs : List NetServiceConfig} {core : SnodeCore}
    {getReqHandler : Bytes → Option ℕ} (starts : SnodeCore.init network configs = .ok core)
    (served : core.Served) (listens : core.acceptors = [] ∨ 0 < size)
    (reachable : (system getReqHandler).Reachable (new core size) server) : server.Sound size := by
  rcases SnodeCore.bound_of_init starts with ⟨ports, bound, -⟩
  exact (sound_new bound served listens).of_reachable reachable

/-! ### A first connection -/

theorem running_of_none (none : server.connections = fun _ => none) : server.Running := by
  intro socket connection present
  simp [none] at present

/-- A thread starts, gets a socket and makes its connection. -/
theorem reachable_first : ∃ server,
    (system fun _ => none).Reachable (new (.httpOn 8080) 1) server ∧
      server.connections 0 = some ⟨⟨0, 0⟩, 0, HttpConnection.new⟩ := by
  let system := Server.system fun _ => none
  let started := ((new (.httpOn 8080) 1).exec (fun _ => none) (.startThread 0)).get rfl
  let accepted := (started.exec (fun _ => none) (.accepted 0)).get rfl
  let dequeued := (accepted.exec (fun _ => none) (.dequeue 0)).get rfl
  let made := (dequeued.exec (fun _ => none) (.run 0)).get rfl
  have starts : system.step (new (.httpOn 8080) 1) (.startThread 0) started :=
    ⟨running_of_none rfl, ⟨by decide, rfl⟩, rfl⟩
  have accepts : system.step started (.accepted 0) accepted :=
    ⟨running_of_none rfl, ⟨rfl, _, rfl, rfl⟩, rfl⟩
  have dequeues : system.step accepted (.dequeue 0) dequeued :=
    ⟨running_of_none rfl, ⟨_, rfl, rfl, rfl, List.cons_ne_nil _ _⟩, rfl⟩
  have makes : system.step dequeued (.run 0) made := ⟨running_of_none rfl, ⟨_, rfl, rfl⟩, rfl⟩
  exact ⟨made, (((Lts.Reachable.refl _).tail starts |>.tail accepts).tail dequeues).tail makes, rfl⟩

end Server

end Snode.Core
