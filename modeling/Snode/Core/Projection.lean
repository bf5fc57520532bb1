import Snode.Core.ServerRuns

/-!
# What a connection sees of the server

Each connection of a server, with those of the tasks on its thread that are its own, runs as
a connection does that has a worker to itself.  A step of the server is a step of at most
one of them, and nothing to all others.
-/

namespace Snode.Core

open Http Pool

/-- The tasks of the connection on a socket, of those on a thread. -/
def tasksOf (socket : SocketId) (tasks : List ServerTask) : List Http.Task :=
  tasks.filterMap fun
    | .onAccept _ _ => none
    | .connection other task => if other = socket then some task else none

section Tasks

variable {socket other : SocketId}

theorem tasksOf_append (first second : List ServerTask) :
    tasksOf socket (first ++ second) = tasksOf socket first ++ tasksOf socket second :=
  List.filterMap_append

@[simp]
theorem tasksOf_nil : tasksOf socket [] = [] :=
  rfl

@[simp]
theorem tasksOf_onAccept (listener : NetServiceListener ThreadId) (accepted : SocketId)
    (tasks : List ServerTask) :
    tasksOf socket (.onAccept listener accepted :: tasks) = tasksOf socket tasks :=
  rfl

@[simp]
theorem tasksOf_self (task : Http.Task) (tasks : List ServerTask) :
    tasksOf socket (.connection socket task :: tasks) = task :: tasksOf socket tasks := by
  simp [tasksOf]

theorem tasksOf_other (different : other ≠ socket) (task : Http.Task) (tasks : List ServerTask) :
    tasksOf socket (.connection other task :: tasks) = tasksOf socket tasks := by
  simp [tasksOf, different]

theorem tasksOf_posted (tasks : List Http.Task) :
    tasksOf socket (tasks.map (.connection socket)) = tasks := by
  induction tasks with
  | nil => rfl
  | cons task tasks ih => rw [List.map_cons, tasksOf_self, ih]

theorem tasksOf_postedByOther (different : other ≠ socket) (tasks : List Http.Task) :
    tasksOf socket (tasks.map (.connection other)) = [] := by
  induction tasks with
  | nil => rfl
  | cons task tasks ih => rw [List.map_cons, tasksOf_other different, ih]

theorem mem_tasksOf {task : Http.Task} {tasks : List ServerTask} :
    task ∈ tasksOf socket tasks ↔ .connection socket task ∈ tasks := by
  rw [tasksOf, List.mem_filterMap]
  constructor
  · rintro ⟨serverTask, present, same⟩
    cases serverTask with
    | onAccept listener accepted => cases same
    | connection other posted =>
        change (if other = socket then some posted else none) = some task at same
        split at same
        · next here =>
            rcases Option.some.inj same with rfl
            exact here ▸ present
        · cases same
  · intro present
    exact ⟨_, present, by simp⟩

end Tasks

/-- What becomes of a connection in a step of the server. -/
inductive Moves (getReqHandler : Bytes → Option ℕ) :
    Option HttpConnection → Option HttpConnection → Prop where
  | same (conn : Option HttpConnection) : Moves getReqHandler conn conn
  | made : Moves getReqHandler none (some HttpConnection.new)
  | step (conn next : HttpConnection) (event : Http.Event)
      (step : (HttpConnection.system getReqHandler).step conn event next) :
      Moves getReqHandler (some conn) (some next)

theorem Moves.reachable {getReqHandler : Bytes → Option ℕ} {before after : Option HttpConnection}
    (moves : Moves getReqHandler before after)
    (reached : ∀ conn, before = some conn →
      (HttpConnection.system getReqHandler).Reachable HttpConnection.new conn) :
    ∀ conn, after = some conn →
      (HttpConnection.system getReqHandler).Reachable HttpConnection.new conn := by
  cases moves with
  | same => exact reached
  | made =>
      intro conn made
      rcases Option.some.inj made with rfl
      exact .refl _
  | step conn next event step =>
      intro other moved
      rcases Option.some.inj moved with rfl
      exact (reached conn rfl).tail step

namespace Server

variable {server next : Server} {size : ℕ}

/-- The connection on a socket, with its own tasks. -/
def view (server : Server) (socket : SocketId) : Option HttpConnection :=
  (server.connections socket).map fun connection =>
    connection.state.behind (tasksOf socket (server.pool.waiting connection.workerId))

theorem view_eq {socket : SocketId} {connection : Connection}
    (present : server.connections socket = some connection) :
    server.view socket =
      some (connection.state.behind
        (tasksOf socket (server.pool.waiting connection.workerId))) := by
  rw [view, present, Option.map_some]

/-- A connection whose own tasks are the same as before. -/
theorem view_congr {socket : SocketId}
    (connections : next.connections socket = server.connections socket)
    (waiting : ∀ connection, server.connections socket = some connection →
      tasksOf socket (next.pool.waiting connection.workerId) =
        tasksOf socket (server.pool.waiting connection.workerId)) :
    next.view socket = server.view socket := by
  rw [view, view, connections]
  rcases found : server.connections socket with _ | connection
  · rfl
  · rw [Option.map_some, Option.map_some, waiting connection found]

theorem Valid.posted_eq (valid : server.Valid size) {socket : SocketId} {connection : Connection}
    (present : server.connections socket = some connection) :
    connection.state.posted = connection.state := by
  have none := valid.posted socket connection present
  rw [HttpConnection.posted, ← none]

/-- What waits after a member function of a connection has run. -/
theorem waiting_updated (valid : server.Valid size) {socket : SocketId} {connection : Connection}
    (looping : server.pool.Looping connection.workerId) (state : HttpConnection)
    (thread : ThreadId) :
    (server.updated socket connection state).pool.waiting thread =
      if thread = connection.workerId then
        server.pool.waiting thread ++ state.tasks.map (.connection socket)
      else server.pool.waiting thread := by
  have scheduled := Threadpool.tasks_scheduleAll valid.indexed looping
    (state.tasks.map (.connection socket))
  rw [updated_pool, scheduled.2.2]
  split
  · next here => rw [here]
  · rfl

/-- Other connections see nothing of a member function of a connection. -/
theorem view_updated_other (valid : server.Valid size) {socket other : SocketId}
    (different : other ≠ socket) {connection : Connection}
    (looping : server.pool.Looping connection.workerId) (state : HttpConnection) :
    (server.updated socket connection state).view other = server.view other := by
  apply view_congr
  · rw [updated_connections, if_neg different]
  · intro found _
    rw [waiting_updated valid looping]
    split
    · rw [tasksOf_append, tasksOf_postedByOther (Ne.symm different), List.append_nil]
    · rfl

theorem view_updated_self (valid : server.Valid size) (socket : SocketId) {connection : Connection}
    (looping : server.pool.Looping connection.workerId) (state : HttpConnection) :
    (server.updated socket connection state).view socket =
      some (state.posted.behind
        (tasksOf socket (server.pool.waiting connection.workerId) ++ state.tasks)) := by
  have present : (server.updated socket connection state).connections socket =
      some { connection with state := state.posted } := by
    rw [updated_connections, if_pos rfl]
  rw [view_eq present, waiting_updated valid looping, if_pos rfl, tasksOf_append, tasksOf_posted]

/-- A connection is made with nothing to run. -/
theorem view_doAccept_self (valid : server.Valid size) {listener : NetServiceListener ThreadId}
    {socket : SocketId} {thread : ThreadId}
    (running : (server.pool.workers thread).bind Worker.running =
      some (.task (.onAccept listener socket))) :
    (doAccept { server with pool := server.pool.exec (.run thread) } listener socket thread).view
      socket = some HttpConnection.new := by
  have unmade := valid.unmade (waits_of_running running)
  have idle : tasksOf socket ((server.pool.exec (.run thread)).waiting thread) = [] := by
    apply List.eq_nil_iff_forall_not_mem.mpr
    intro task present
    have waits : .connection socket task ∈ server.pool.waiting thread := by
      rw [(Threadpool.tasks_run running thread).2, if_pos rfl]
      exact List.mem_cons_of_mem _ (mem_tasksOf.mp present)
    rcases valid.confined thread socket task waits with ⟨connection, made, -⟩
    simp [unmade] at made
  have present : (doAccept { server with pool := server.pool.exec (.run thread) } listener
      socket thread).connections socket = some ⟨listener, thread, HttpConnection.new⟩ := by
    rw [doAccept_connections, if_pos rfl]
  rw [view_eq present]
  change some (HttpConnection.new.behind (tasksOf socket
    ((server.pool.exec (.run thread)).waiting thread))) = _
  rw [idle]
  rfl

theorem view_doAccept_other {listener : NetServiceListener ThreadId} {socket other : SocketId}
    (different : other ≠ socket) {thread : ThreadId}
    (running : (server.pool.workers thread).bind Worker.running =
      some (.task (.onAccept listener socket))) :
    (doAccept { server with pool := server.pool.exec (.run thread) } listener socket thread).view
      other = server.view other := by
  apply view_congr
  · rw [doAccept_connections, if_neg different]
  · intro connection _
    rw [(Threadpool.tasks_run running connection.workerId).2]
    split
    · next here =>
        rw [here, tasksOf_onAccept]
        rfl
    · rfl

/-- Other connections see nothing of a task that is taken out of the queue. -/
theorem view_ran_other {socket other : SocketId} (different : other ≠ socket) {task : Http.Task}
    {thread : ThreadId}
    (running : (server.pool.workers thread).bind Worker.running =
      some (.task (.connection socket task))) :
    view { server with pool := server.pool.exec (.run thread) } other = server.view other := by
  apply view_congr
  · rfl
  · intro found _
    rw [(Threadpool.tasks_run running found.workerId).2]
    split
    · next here =>
        rw [here, tasksOf_other (Ne.symm different)]
        rfl
    · rfl

/-- A step of the server moves at most one connection, and that as the connection itself would. -/
theorem Effect.moves {getReqHandler : Bytes → Option ℕ} {event : ServerEvent}
    (effect : Effect getReqHandler size server event next) (valid : server.Valid size) :
    ∃ socket, Moves getReqHandler (server.view socket) (next.view socket) ∧
      ∀ other, other ≠ socket → next.view other = server.view other := by
  have unmoved (socket : SocketId) (same : ∀ other, next.view other = server.view other) :
      ∃ socket, Moves getReqHandler (server.view socket) (next.view socket) ∧
        ∀ other, other ≠ socket → next.view other = server.view other :=
    ⟨socket, same socket ▸ .same _, fun other _ => same other⟩
  cases effect with
  | pool _ poolEvent core ofPool legal same _ =>
      apply unmoved 0
      exact fun other => view_congr rfl fun connection _ => congrArg _ (congrFun same.waiting _)
  | accepted index acceptor socket result next found accepting accepted =>
      apply unmoved socket
      intro other
      apply view_congr
      · exact congrFun accepted.connections other
      · intro connection _
        refine congrArg _ (accepted.waiting connection.workerId) |>.trans ?_
        split
        · rw [tasksOf_append, tasksOf_onAccept, tasksOf_nil, List.append_nil]
        · rfl
  | acceptFailed index acceptor socket => exact unmoved socket fun other => rfl
  | made thread listener socket legal running =>
      refine ⟨socket, ?_, fun other different => view_doAccept_other different running⟩
      rw [view_doAccept_self valid running, view, valid.unmade (waits_of_running running)]
      exact .made
  | ranTask thread socket task connection legal running present worker =>
      subst worker
      have moved := (Threadpool.tasks_run running connection.workerId).2
      have kept := valid.ranTask legal running
      have looping : (server.pool.exec (.run connection.workerId)).Looping connection.workerId :=
        Threadpool.looping_run valid.pool running
      refine ⟨socket, ?_, fun other different => ?_⟩
      · rw [view_updated_self kept socket looping, view_eq present, moved, if_pos rfl, tasksOf_self,
          ← valid.posted_eq present]
        exact .step _ _ .runTask (HttpConnection.step_runTask connection.state task _)
      · rw [view_updated_other kept different looping]
        exact view_ran_other different running
  | connection socket event connection isOther present legal looping =>
      refine ⟨socket, ?_, fun other different => view_updated_other valid different looping _⟩
      rw [view_updated_self valid socket looping, view_eq present, ← valid.posted_eq present]
      refine .step _ _ event (HttpConnection.step_posted _ _ isOther ?_)
      rwa [valid.posted_eq present]

theorem view_reachable {network : Network} {configs : List NetServiceConfig} {core : SnodeCore}
    (starts : SnodeCore.init network configs = .ok core) (served : core.Served)
    (positive : 0 < size) {getReqHandler : Bytes → Option ℕ}
    (reachable : (system getReqHandler).Reachable (new core size) server) :
    server.Sound size ∧ ∀ socket conn, server.view socket = some conn →
      (HttpConnection.system getReqHandler).Reachable HttpConnection.new conn := by
  rcases SnodeCore.bound_of_init starts with ⟨ports, bound, -⟩
  have initially := sound_new bound served (.inr positive)
  refine reachable.invariant
    (fun server => server.Sound size ∧ ∀ socket conn, server.view socket = some conn →
      (HttpConnection.system getReqHandler).Reachable HttpConnection.new conn)
    ⟨initially, fun socket conn none => by simp [view, new] at none⟩ ?_
  rintro before event after ⟨sound, reached⟩ step
  have effect := sound.step step
  refine ⟨effect.sound sound, fun socket => ?_⟩
  rcases effect.moves sound.valid with ⟨moved, moves, others⟩
  by_cases here : socket = moved
  · rw [here]
    exact moves.reachable (reached moved)
  · rw [others socket here]
    exact reached socket

/-- Every connection of a server is in a state that a connection with a worker to itself reaches,
and each step of the server is a step of at most one of them. -/
theorem connections_run {network : Network} {configs : List NetServiceConfig} {core : SnodeCore}
    (starts : SnodeCore.init network configs = .ok core) (served : core.Served)
    (positive : 0 < size) {getReqHandler : Bytes → Option ℕ}
    (reachable : (system getReqHandler).Reachable (new core size) server) :
    (∀ socket conn, server.view socket = some conn →
      (HttpConnection.system getReqHandler).Reachable HttpConnection.new conn) ∧
    ∀ event next, (system getReqHandler).step server event next →
      ∃ socket, Moves getReqHandler (server.view socket) (next.view socket) ∧
        ∀ other, other ≠ socket → next.view other = server.view other := by
  rcases view_reachable starts served positive reachable with ⟨sound, reached⟩
  exact ⟨reached, fun event next step => (sound.step step).moves sound.valid⟩

/-- The connection that is made first. -/
theorem connections_run_first : ∃ (server : Server) (conn : HttpConnection),
    server.view 0 = some conn ∧
      (HttpConnection.system fun _ => none).Reachable HttpConnection.new conn := by
  rcases reachable_first with ⟨server, reachable, made⟩
  have runs := connections_run (@SnodeCore.init_httpOn 8080 (by decide))
    (SnodeCore.served_httpOn 8080) Nat.one_pos reachable
  exact ⟨server, _, view_eq made, runs.1 0 _ (view_eq made)⟩

end Server

end Snode.Core
