import Snode.Core.Server
import Snode.Core.Startup

/-!
# Where sockets and tasks are

A socket that was accepted is given to one thread, by turns.  It waits there until the
thread makes its connection, and the tasks of that connection wait on the same thread only.
-/

namespace Snode.Core

open Http Pool

/-- The sockets that some tasks are to make connections for, with the listeners. -/
def handed (tasks : List ServerTask) : List (NetServiceListener ThreadId × SocketId) :=
  tasks.filterMap fun
    | .onAccept listener socket => some (listener, socket)
    | .connection _ _ => none

theorem handed_append (first second : List ServerTask) :
    handed (first ++ second) = handed first ++ handed second :=
  List.filterMap_append

theorem mem_handed {tasks : List ServerTask} {listener : NetServiceListener ThreadId}
    {socket : SocketId} :
    (listener, socket) ∈ handed tasks ↔ .onAccept listener socket ∈ tasks := by
  rw [handed, List.mem_filterMap]
  constructor
  · rintro ⟨task, present, same⟩
    cases task with
    | onAccept other handedSocket =>
        rcases Prod.mk.inj (Option.some.inj same) with ⟨rfl, rfl⟩
        exact present
    | connection other task => cases same
  · exact fun present => ⟨_, present, rfl⟩

/-- Tasks of connections make no connections. -/
theorem handed_connection (socket : SocketId) (tasks : List Http.Task) :
    handed (tasks.map (.connection socket)) = [] := by
  induction tasks with
  | nil => rfl
  | cons task tasks ih => exact ih

/-- The sockets given to a thread in some turns. -/
def handedTo (turns : List Turn) (thread : ThreadId) :
    List (NetServiceListener ThreadId × SocketId) :=
  (turns.filter fun turn => !turn.refused && turn.listener.threadId == thread).map fun turn =>
    (turn.listener, turn.socket)

theorem mem_handedTo {turns : List Turn} {thread : ThreadId}
    {listener : NetServiceListener ThreadId} {socket : SocketId} :
    (listener, socket) ∈ handedTo turns thread ↔
      ∃ turn ∈ turns, turn.refused = false ∧ turn.listener.threadId = thread ∧
        turn.listener = listener ∧ turn.socket = socket := by
  simp [handedTo, and_assoc]

theorem nodup_handedTo {turns : List Turn} (nodup : (turns.map Turn.socket).Nodup)
    (thread : ThreadId) : ((handedTo turns thread).map Prod.snd).Nodup := by
  rw [handedTo, List.map_map]
  exact (nodup.sublist (List.filter_sublist.map _))

namespace Server

variable {server : Server} {size : ℕ}

/-- What holds of a server with a pool of some size, in every state reached. -/
structure Valid (size : ℕ) (server : Server) : Prop where
  pool : (Threadpool.system ServerTask).Reachable (Threadpool.new size) server.pool
  factory : NetServiceListenerFactory.Valid (List.range size) server.factory
  cursor : server.factory.cursor size = server.turns.length % size
  listeners : ∀ (index : ℕ) (turn : Turn), server.turns[index]? = some turn →
    turn.listener = ⟨index % size, index % size⟩
  nodup : (server.turns.map Turn.socket).Nodup
  handed : ∀ thread, handed (server.pool.ran thread ++ server.pool.waiting thread) =
    handedTo server.turns thread
  made : ∀ socket listener thread, .onAccept listener socket ∈ server.pool.ran thread ↔
    ∃ connection, server.connections socket = some connection ∧
      connection.listener = listener ∧ connection.workerId = thread
  confined : ∀ thread socket task, .connection socket task ∈ server.pool.waiting thread →
    ∃ connection, server.connections socket = some connection ∧ connection.workerId = thread
  posted : ∀ socket connection, server.connections socket = some connection →
    connection.state.tasks = []

/-- The sockets with which acceptors accept are new ones, and no two the same. -/
structure Fresh (server : Server) : Prop where
  turns : ∀ turn ∈ server.turns, turn.socket < server.core.nextSocket
  accepting : ∀ (index : ℕ) (acceptor : Acceptor) (socket : SocketId),
    server.core.acceptors[index]? = some acceptor → acceptor.accepting = some socket →
      socket < server.core.nextSocket ∧ ∀ turn ∈ server.turns, turn.socket ≠ socket
  distinct : ∀ (first second : ℕ) (left right : Acceptor) (socket : SocketId),
    server.core.acceptors[first]? = some left → server.core.acceptors[second]? = some right →
      left.accepting = some socket → right.accepting = some socket → first = second

namespace Valid

theorem indexed (valid : server.Valid size) : server.pool.Indexed :=
  Threadpool.indexed_of_reachable valid.pool

/-- A step of the pool that runs and schedules no task. -/
theorem samePool (valid : server.Valid size) {event : Pool.Event ServerTask}
    (legal : server.pool.Legal event) (same : server.pool.SameTasks (server.pool.exec event)) :
    Valid size { server with pool := server.pool.exec event } where
  pool := valid.pool.tail ⟨legal, rfl⟩
  factory := valid.factory
  cursor := valid.cursor
  listeners := valid.listeners
  nodup := valid.nodup
  handed := by
    simp only [same.ran, same.waiting]
    exact valid.handed
  made := by
    simp only [same.ran]
    exact valid.made
  confined := by
    simp only [same.waiting]
    exact valid.confined
  posted := valid.posted

/-- The acceptors do not count. -/
theorem withCore (valid : server.Valid size) (core : SnodeCore) :
    Valid size { server with core := core } where
  pool := valid.pool
  factory := valid.factory
  cursor := valid.cursor
  listeners := valid.listeners
  nodup := valid.nodup
  handed := valid.handed
  made := valid.made
  confined := valid.confined
  posted := valid.posted

end Valid

/-! ### Member functions of connections -/

section Updated

variable (server : Server) (socket : SocketId) (connection : Connection) (state : HttpConnection)

@[simp]
theorem updated_core : (server.updated socket connection state).core = server.core := by
  rw [updated]
  split <;> rfl

@[simp]
theorem updated_factory : (server.updated socket connection state).factory = server.factory := by
  rw [updated]
  split <;> rfl

@[simp]
theorem updated_turns : (server.updated socket connection state).turns = server.turns := by
  rw [updated]
  split <;> rfl

@[simp]
theorem updated_pool : (server.updated socket connection state).pool =
    server.pool.scheduleAll (state.tasks.map (.connection socket)) connection.workerId := by
  rw [updated]
  split <;> rfl

@[simp]
theorem updated_connections (other : SocketId) :
    (server.updated socket connection state).connections other =
      if other = socket then some { connection with state := state.posted }
      else server.connections other := by
  rw [updated]
  split <;> rfl

end Updated

/-- A member function keeps the thread and the listener of its connection. -/
theorem exists_updated {connection : Connection} {socket : SocketId}
    (present : server.connections socket = some connection) (state : HttpConnection)
    (other : SocketId) (property : NetServiceListener ThreadId → ThreadId → Prop) :
    (∃ found, (server.updated socket connection state).connections other = some found ∧
        property found.listener found.workerId) ↔
      ∃ found, server.connections other = some found ∧
        property found.listener found.workerId := by
  rw [updated_connections]
  split
  · next same =>
      subst same
      simp [present]
  · rfl

/-- What a member function schedules waits on the thread of its connection. -/
theorem Valid.updated (valid : server.Valid size) {socket : SocketId} {connection : Connection}
    (present : server.connections socket = some connection)
    (looping : server.pool.Looping connection.workerId) (state : HttpConnection) :
    (server.updated socket connection state).Valid size := by
  have scheduled := Threadpool.tasks_scheduleAll valid.indexed looping
    (state.tasks.map (.connection socket))
  rcases scheduled with ⟨reachable, ran, waiting⟩
  have same := exists_updated present state
  constructor
  · rw [updated_pool]
    exact valid.pool.trans reachable
  · rw [updated_factory]
    exact valid.factory
  · rw [updated_factory, updated_turns]
    exact valid.cursor
  · rw [updated_turns]
    exact valid.listeners
  · rw [updated_turns]
    exact valid.nodup
  · intro thread
    rw [updated_pool, updated_turns, ran, waiting, ← valid.handed thread]
    split
    · next here =>
        rw [here, ← List.append_assoc, handed_append _ (List.map _ _), handed_connection,
          List.append_nil]
    · rfl
  · intro other listener thread
    rw [updated_pool, ran, valid.made]
    exact (same other fun left right => left = listener ∧ right = thread).symm
  · intro thread other task waits
    rw [updated_pool, waiting] at waits
    rw [same other fun _ right => right = thread]
    split at waits
    · next here =>
        rcases List.mem_append.mp waits with before | new
        · exact here ▸ valid.confined _ other task before
        · rcases List.mem_map.mp new with ⟨posted, -, made⟩
          rcases ServerTask.connection.inj made with ⟨rfl, -⟩
          exact ⟨connection, present, here.symm⟩
    · exact valid.confined thread other task waits
  · intro other found
    rw [updated_connections]
    split
    · intro made
      rcases Option.some.inj made with rfl
      rfl
    · exact valid.posted other found

/-! ### Making connections -/

/-- A socket that waits for its connection has none, and is not made one of elsewhere. -/
theorem Valid.not_ran (valid : server.Valid size) {listener other : NetServiceListener ThreadId}
    {socket : SocketId} {thread elsewhere : ThreadId}
    (waits : .onAccept listener socket ∈ server.pool.waiting thread) :
    .onAccept other socket ∉ server.pool.ran elsewhere := by
  intro ran
  have waitsHere := valid.handed thread
  have ranThere := valid.handed elsewhere
  rw [handed_append] at waitsHere ranThere
  have first : (listener, socket) ∈ handedTo server.turns thread := by
    rw [← waitsHere]
    exact List.mem_append_right _ (mem_handed.mpr waits)
  have second : (other, socket) ∈ handedTo server.turns elsewhere := by
    rw [← ranThere]
    exact List.mem_append_left _ (mem_handed.mpr ran)
  rcases mem_handedTo.mp first with ⟨turn, present, -, rfl, rfl, rfl⟩
  rcases mem_handedTo.mp second with ⟨again, presentAgain, -, rfl, rfl, sameSocket⟩
  rcases List.inj_on_of_nodup_map valid.nodup presentAgain present sameSocket with rfl
  have nodup := nodup_handedTo valid.nodup again.listener.threadId
  rw [← waitsHere, List.map_append] at nodup
  exact List.disjoint_of_nodup_append nodup
    (List.mem_map_of_mem (f := Prod.snd) (mem_handed.mpr ran))
    (List.mem_map_of_mem (f := Prod.snd) (mem_handed.mpr waits))

/-- The first task of a thread waits there before it is run. -/
theorem waits_of_running {thread : ThreadId} {task : ServerTask}
    (running : (server.pool.workers thread).bind Worker.running = some (.task task)) :
    task ∈ server.pool.waiting thread := by
  rw [(Threadpool.tasks_run running thread).2, if_pos rfl]
  exact List.mem_cons_self

@[simp]
theorem doAccept_connections (server : Server) (listener : NetServiceListener ThreadId)
    (socket : SocketId) (thread : ThreadId) (other : SocketId) :
    (server.doAccept listener socket thread).connections other =
      if other = socket then some ⟨listener, thread, HttpConnection.new⟩
      else server.connections other :=
  rfl

section Running

variable {thread : ThreadId}

theorem handed_run {task : ServerTask} (valid : server.Valid size)
    (running : (server.pool.workers thread).bind Worker.running = some (.task task))
    (other : ThreadId) :
    Core.handed ((server.pool.exec (.run thread)).ran other ++
      (server.pool.exec (.run thread)).waiting other) = handedTo server.turns other := by
  have moved := Threadpool.tasks_run running other
  rw [← valid.handed other, moved.2, Threadpool.exec, moved.1]
  split
  · next here => rw [here, List.append_assoc, List.singleton_append]
  · rfl

theorem Valid.unmade (valid : server.Valid size) {listener : NetServiceListener ThreadId}
    {socket : SocketId} (waits : .onAccept listener socket ∈ server.pool.waiting thread) :
    server.connections socket = none := by
  rcases found : server.connections socket with _ | connection
  · rfl
  · have ran := (valid.made socket _ _).mpr ⟨connection, found, rfl, rfl⟩
    exact absurd ran (valid.not_ran waits)

/-- The tasks that make connections, and those that were made, with the one on a new socket. -/
theorem Valid.made_doAccept (valid : server.Valid size) {listener : NetServiceListener ThreadId}
    {socket : SocketId}
    (running : (server.pool.workers thread).bind Worker.running =
      some (.task (.onAccept listener socket)))
    (other : SocketId) (candidate : NetServiceListener ThreadId) (place : ThreadId) :
    .onAccept candidate other ∈ (server.pool.exec (.run thread)).ran place ↔
      ∃ connection, (doAccept { server with pool := server.pool.exec (.run thread) } listener
        socket thread).connections other = some connection ∧
          connection.listener = candidate ∧ connection.workerId = place := by
  have unmade (other : NetServiceListener ThreadId) (elsewhere : ThreadId) :
      .onAccept other socket ∉ server.pool.ran elsewhere :=
    valid.not_ran (waits_of_running running)
  change _ ∈ (server.pool.updateWorker thread Worker.run).ran place ↔ _
  rw [(Threadpool.tasks_run running place).1, doAccept_connections]
  by_cases same : other = socket
  · subst same
    simp only [if_true, Option.some.injEq, exists_eq_left']
    constructor
    · intro ran
      split at ran
      · next here =>
          rcases List.mem_append.mp ran with before | now
          · exact absurd before (unmade _ _)
          · rcases ServerTask.onAccept.inj (List.mem_singleton.mp now) with ⟨rfl, -⟩
            exact ⟨rfl, here.symm⟩
      · exact absurd ran (unmade _ _)
    · rintro ⟨rfl, rfl⟩
      rw [if_pos rfl]
      exact List.mem_append_right _ List.mem_cons_self
  · simp only [if_neg same]
    rw [← valid.made]
    split
    · next here =>
        rw [here, List.mem_append]
        refine ⟨fun ran => ran.resolve_right fun now => same ?_, .inl⟩
        exact (ServerTask.onAccept.inj (List.mem_singleton.mp now)).2
    · rfl

/-- A thread makes the connection on a socket that was given to it. -/
theorem Valid.doAccept (valid : server.Valid size) (legal : server.pool.Legal (.run thread))
    {listener : NetServiceListener ThreadId} {socket : SocketId}
    (running : (server.pool.workers thread).bind Worker.running =
      some (.task (.onAccept listener socket))) :
    (doAccept { server with pool := server.pool.exec (.run thread) } listener socket thread).Valid
      size := by
  have none := valid.unmade (waits_of_running running)
  refine ⟨valid.pool.tail ⟨legal, rfl⟩, valid.factory, valid.cursor, valid.listeners, valid.nodup,
    handed_run valid running, valid.made_doAccept running, ?_, ?_⟩
  · intro place other task waits
    have waited : .connection other task ∈ server.pool.waiting place := by
      rw [(Threadpool.tasks_run running place).2]
      split
      · next here => exact List.mem_cons_of_mem _ (here ▸ waits)
      · exact waits
    rcases valid.confined place other task waited with ⟨connection, present, worker⟩
    have different : other ≠ socket := by
      rintro rfl
      simp [none] at present
    exact ⟨connection, (if_neg different).trans present, worker⟩
  · intro other connection
    rw [doAccept_connections]
    split
    · intro made
      rcases Option.some.inj made with rfl
      rfl
    · exact valid.posted other connection

/-- A thread runs a task of a connection. -/
theorem Valid.ranTask (valid : server.Valid size) (legal : server.pool.Legal (.run thread))
    {socket : SocketId} {task : Http.Task}
    (running : (server.pool.workers thread).bind Worker.running =
      some (.task (.connection socket task))) :
    Valid size { server with pool := server.pool.exec (.run thread) } := by
  have moved := Threadpool.tasks_run running
  refine ⟨valid.pool.tail ⟨legal, rfl⟩, valid.factory, valid.cursor, valid.listeners, valid.nodup,
    handed_run valid running, ?_, ?_, valid.posted⟩
  · intro other listener place
    change _ ∈ (server.pool.updateWorker thread Worker.run).ran place ↔ _
    rw [(moved place).1, ← valid.made]
    split
    · next here => simp [here]
    · rfl
  · intro place other posted waits
    apply valid.confined place other posted
    rw [(moved place).2]
    split
    · next here => exact List.mem_cons_of_mem _ (here ▸ waits)
    · exact waits

end Running

/-! ### Accepting -/

/-- The thread whose turn it is. -/
def nextThread (server : Server) (size : ℕ) : ThreadId :=
  server.turns.length % size

theorem Valid.getNextListener (valid : server.Valid size) (positive : 0 < size) :
    server.factory.getNextListener =
      some (some ⟨server.nextThread size, server.nextThread size⟩,
        ⟨server.nextThread size, server.factory.listeners⟩) := by
  have inside : server.nextThread size < size := Nat.mod_lt _ positive
  have nonempty : 0 < (List.range size).length := by rwa [List.length_range]
  have cursor : server.factory.cursor size = server.nextThread size := valid.cursor
  rw [valid.factory.getNextListener nonempty, List.length_range, cursor, pointerAt,
    List.getElem?_range inside, Option.map_some]

/-- The turn that a call of `accept` takes. -/
def nextTurn (server : Server) (size index : ℕ) (socket : SocketId) (refused : Bool) : Turn :=
  ⟨index, socket, ⟨server.nextThread size, server.nextThread size⟩, refused⟩

/-- What a call of `accept` does to a server: the socket waits on the thread whose turn it is,
unless that has not registered yet. -/
structure Accepted (size index : ℕ) (socket : SocketId) (server : Server)
    (result : Except String Unit) (next : Server) : Prop where
  core : next.core = server.core
  connections : next.connections = server.connections
  tracked : next.tracked = server.tracked
  ran : next.pool.ran = server.pool.ran
  waiting : ∀ thread, next.pool.waiting thread =
    if thread = server.nextThread size ∧ result.isOk = true then
      server.pool.waiting thread ++
        [.onAccept ⟨server.nextThread size, server.nextThread size⟩ socket]
    else server.pool.waiting thread
  stopping : next.pool.stopping = server.pool.stopping
  queuesIndex : next.pool.queuesIndex = server.pool.queuesIndex
  turns : next.turns = server.turns ++ [server.nextTurn size index socket !result.isOk]
  registered : result.isOk = true ↔ server.nextThread size ∈ server.pool.queuesIndex
  pool : (Threadpool.system ServerTask).Reachable server.pool next.pool
  factory : next.factory = ⟨server.nextThread size, server.factory.listeners⟩

theorem Valid.accept (valid : server.Valid size) (positive : 0 < size) (index : ℕ)
    (socket : SocketId) :
    ∃ result next, server.accept index socket = some (result, next) ∧
      Accepted size index socket server result next := by
  let thread := server.nextThread size
  let task : ServerTask := .onAccept ⟨thread, thread⟩ socket
  have legal : server.pool.Legal (.schedule task thread) := by
    rw [Threadpool.Legal, Threadpool.size_of_reachable valid.pool]
    exact Nat.mod_lt _ positive
  have pool : (Threadpool.system ServerTask).Reachable server.pool
      (server.pool.scheduleTask task thread) :=
    .tail (.refl _) ⟨legal, rfl⟩
  rw [Server.accept, valid.getNextListener positive]
  refine ⟨_, _, rfl, ?_⟩
  by_cases listed : thread ∈ server.pool.queuesIndex
  · have scheduled : server.pool.schedule (.task task) thread =
        .ok (server.pool.updateWorker thread (·.enqueue (.task task))) := by
      rw [Threadpool.schedule, if_pos listed]
    have moved := Threadpool.tasks_schedule (valid.indexed.started thread listed) scheduled
    rw [← Threadpool.scheduleTask_eq scheduled] at moved
    have succeeds : ((server.pool.schedule (.task task) thread).map fun _ => ()).isOk = true := by
      rw [scheduled]
      rfl
    refine ⟨rfl, rfl, rfl, moved.1, fun other => ?_, ?_, ?_, rfl, ?_, pool, rfl⟩
    · refine (moved.2 other).trans ?_
      by_cases here : other = thread
      · rw [if_pos here, if_pos ⟨here, succeeds⟩, here]
      · rw [if_neg here, if_neg fun both => here both.1]
    · exact (Threadpool.scheduleTask_kept server.pool task thread).2
    · exact (Threadpool.scheduleTask_kept server.pool task thread).1
    · exact ⟨fun _ => listed, fun _ => succeeds⟩
  · have refused : server.pool.schedule (.task task) thread = .error threadpoolMsg := by
      rw [Threadpool.schedule, if_neg listed]
    have same := Threadpool.sameTasks_scheduleTask refused
    have fails : ((server.pool.schedule (.task task) thread).map fun _ => ()).isOk = false := by
      rw [refused]
      rfl
    refine ⟨rfl, rfl, rfl, same.ran, fun other => ?_, ?_, ?_, rfl, ?_, pool, rfl⟩
    · rw [if_neg fun both => Bool.false_ne_true (fails.symm.trans both.2)]
      exact congrFun same.waiting other
    · exact (Threadpool.scheduleTask_kept server.pool task thread).2
    · exact (Threadpool.scheduleTask_kept server.pool task thread).1
    · exact ⟨fun succeeds => absurd (fails.symm.trans succeeds) Bool.false_ne_true,
        fun other => absurd other listed⟩

theorem handedTo_append (turns : List Turn) (turn : Turn) (thread : ThreadId) :
    handedTo (turns ++ [turn]) thread = handedTo turns thread ++
      if turn.refused = false ∧ turn.listener.threadId = thread then [(turn.listener, turn.socket)]
      else [] := by
  rw [handedTo, List.filter_append, List.map_append, List.filter_singleton]
  congr 1
  by_cases given : turn.refused = false ∧ turn.listener.threadId = thread
  · simp [given]
  · rw [if_neg given]
    simp only [not_and_or, Bool.not_eq_false] at given
    rcases given with refused | elsewhere
    · simp [refused]
    · have different : (turn.listener.threadId == thread) = false := beq_false_of_ne elsewhere
      simp [different]

theorem Accepted.valid {index : ℕ} {socket : SocketId} {result : Except String Unit} {next : Server}
    (accepted : Accepted size index socket server result next) (valid : server.Valid size)
    (positive : 0 < size) (fresh : ∀ turn ∈ server.turns, turn.socket ≠ socket) :
    next.Valid size := by
  have inside : server.nextThread size < size := Nat.mod_lt _ positive
  refine ⟨valid.pool.trans accepted.pool, ?_, ?_, ?_, ?_, ?_, ?_, ?_, ?_⟩
  · rw [accepted.factory]
    exact valid.factory.selected (by rwa [List.length_range])
  · rw [accepted.factory, accepted.turns, NetServiceListenerFactory.cursor_mk, nextThread,
      List.length_append, List.length_singleton, Nat.mod_add_mod]
  · intro place turn taken
    rw [accepted.turns, List.getElem?_append] at taken
    split at taken
    · exact valid.listeners place turn taken
    · next behind =>
        rw [List.getElem?_singleton] at taken
        split at taken
        · next last =>
            rcases Option.some.inj taken with rfl
            have here : place = server.turns.length := by omega
            rw [here]
            rfl
        · cases taken
  · rw [accepted.turns, List.map_append, List.map_singleton, List.nodup_append]
    refine ⟨valid.nodup, List.nodup_singleton _, ?_⟩
    intro before earlier now last
    rcases List.mem_map.mp earlier with ⟨turn, present, rfl⟩
    rw [List.mem_singleton.mp last]
    exact fresh turn present
  · intro thread
    rw [accepted.ran, accepted.waiting, accepted.turns, handedTo_append, ← valid.handed thread]
    by_cases given : thread = server.nextThread size ∧ result.isOk = true
    · rw [if_pos given, if_pos ⟨by simp [nextTurn, given.2], given.1.symm⟩, ← List.append_assoc,
        handed_append _ [_]]
      rfl
    · rw [if_neg given, if_neg, List.append_nil]
      rintro ⟨refused, here⟩
      exact given ⟨here.symm, by simpa [nextTurn] using refused⟩
  · intro other listener thread
    rw [accepted.ran, accepted.connections]
    exact valid.made other listener thread
  · intro thread other task waits
    rw [accepted.waiting] at waits
    rw [accepted.connections]
    split at waits
    · rcases List.mem_append.mp waits with before | new
      · exact valid.confined thread other task before
      · cases List.mem_singleton.mp new
    · exact valid.confined thread other task waits
  · rw [accepted.connections]
    exact valid.posted

/-! ### The sockets of acceptors -/

theorem getElem?_setAccepting (core : SnodeCore) (index other : ℕ) (accepting : Option SocketId) :
    (core.setAccepting index accepting).acceptors[other]? =
      if index = other then
        core.acceptors[other]?.map fun acceptor => { acceptor with accepting := accepting }
      else core.acceptors[other]? := by
  rw [SnodeCore.setAccepting, List.getElem?_modify]
  split <;> simp

theorem served_setAccepting (served : server.core.Served) (index : ℕ)
    (accepting : Option SocketId) : (server.core.setAccepting index accepting).Served := by
  intro acceptor present
  rcases List.mem_iff_getElem?.mp present with ⟨other, found⟩
  rw [getElem?_setAccepting] at found
  split at found
  · rcases Option.map_eq_some_iff.mp found with ⟨before, at_, rfl⟩
    exact served before (List.mem_of_getElem? at_)
  · exact served acceptor (List.mem_of_getElem? found)

/-- An acceptor stops accepting, with the socket of its last turn or one that is given up. -/
theorem Fresh.disarm (fresh : server.Fresh) {index : ℕ} {acceptor : Acceptor} {socket : SocketId}
    (found : server.core.acceptors[index]? = some acceptor)
    (accepting : acceptor.accepting = some socket) {turns : List Turn}
    (turn : ∀ turn ∈ turns, turn ∈ server.turns ∨ turn.socket = socket) :
    Fresh { server with core := server.core.setAccepting index none, turns := turns } := by
  constructor
  · intro taken present
    rcases turn taken present with before | last
    · exact fresh.turns taken before
    · rw [last]
      exact (fresh.accepting index acceptor socket found accepting).1
  · intro other candidate waiting foundOther acceptingOther
    rw [getElem?_setAccepting] at foundOther
    split at foundOther
    · rcases Option.map_eq_some_iff.mp foundOther with ⟨before, -, rfl⟩
      cases acceptingOther
    · next different =>
        have before := fresh.accepting other candidate waiting foundOther acceptingOther
        refine ⟨before.1, fun taken present => ?_⟩
        rcases turn taken present with earlier | last
        · exact before.2 taken earlier
        · rw [last]
          rintro rfl
          exact different
            (fresh.distinct index other acceptor candidate socket found foundOther accepting
              acceptingOther)
  · intro first second left right waiting foundLeft foundRight acceptingLeft acceptingRight
    rw [getElem?_setAccepting] at foundLeft foundRight
    split at foundLeft
    · rcases Option.map_eq_some_iff.mp foundLeft with ⟨before, -, rfl⟩
      cases acceptingLeft
    · split at foundRight
      · rcases Option.map_eq_some_iff.mp foundRight with ⟨before, -, rfl⟩
        cases acceptingRight
      · exact fresh.distinct first second left right waiting foundLeft foundRight acceptingLeft
          acceptingRight

/-- An acceptor that has stopped accepting goes on with a new socket. -/
theorem Fresh.acceptNext (fresh : server.Fresh) (index : ℕ) :
    Fresh { server with core := server.core.acceptNext index } := by
  have below {other : ℕ} {candidate : Acceptor} {waiting : SocketId}
      (found : server.core.acceptors[other]? = some candidate)
      (accepting : candidate.accepting = some waiting) : waiting < server.core.nextSocket :=
    (fresh.accepting other candidate waiting found accepting).1
  have cases_ {other : ℕ} {candidate : Acceptor} {waiting : SocketId}
      (found : (server.core.acceptNext index).acceptors[other]? = some candidate)
      (accepting : candidate.accepting = some waiting) :
      (index = other ∧ waiting = server.core.nextSocket) ∨
        server.core.acceptors[other]? = some candidate := by
    rw [SnodeCore.acceptNext, getElem?_setAccepting] at found
    split at found
    · next same =>
        rcases Option.map_eq_some_iff.mp found with ⟨before, -, rfl⟩
        exact .inl ⟨same, (Option.some.inj accepting).symm⟩
    · exact .inr found
  constructor
  · intro turn present
    exact Nat.lt_succ_of_lt (fresh.turns turn present)
  · intro other candidate waiting found accepting
    rcases cases_ found accepting with ⟨-, rfl⟩ | before
    · exact ⟨Nat.lt_succ_self _, fun turn present => (fresh.turns turn present).ne⟩
    · rcases fresh.accepting other candidate waiting before accepting with ⟨small, unused⟩
      exact ⟨Nat.lt_succ_of_lt small, unused⟩
  · intro first second left right waiting foundLeft foundRight acceptingLeft acceptingRight
    rcases cases_ foundLeft acceptingLeft with ⟨rfl, rfl⟩ | leftBefore
    · rcases cases_ foundRight acceptingRight with ⟨same, -⟩ | rightBefore
      · exact same
      · exact absurd (below rightBefore acceptingRight) (Nat.lt_irrefl _)
    · rcases cases_ foundRight acceptingRight with ⟨rfl, rfl⟩ | rightBefore
      · exact absurd (below leftBefore acceptingLeft) (Nat.lt_irrefl _)
      · exact fresh.distinct first second left right waiting leftBefore rightBefore acceptingLeft
          acceptingRight

end Server

end Snode.Core
