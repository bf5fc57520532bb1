import Snode.Core.SnodeCore
import Snode.Http.TaskFrame
import Snode.Pool.ListenerFactory
import Snode.Pool.Waiting

/-!
# The server

The core, the thread pool and the HTTP service as one system.  The thread of the core
accepts sockets and hands each to a listener, by a task for the listener's thread; that
thread makes the connection, and everything the connection does from then on happens on it.
The tasks of all connections of a thread are in its one queue.

A connection keeps its state here without its tasks; `Snode.Http.TaskFrame` says that
nothing gets lost by that.
-/

namespace Snode.Core

open Http Pool

/-- What is scheduled on the threads of the pool. -/
inductive ServerTask where
  /-- `on_accept` of a listener. -/
  | onAccept (listener : NetServiceListener ThreadId) (socket : SocketId)
  /-- A task of the connection on a socket. -/
  | connection (socket : SocketId) (task : Http.Task)

/-- What a connection is made with beside its socket, and its state. -/
structure Connection where
  /-- `p_listener_`. -/
  listener : NetServiceListener ThreadId
  /-- `worker_id_`. -/
  workerId : ThreadId
  state : HttpConnection

/-- A call of `http_service::accept`. -/
structure Turn where
  /-- The index of the acceptor. -/
  acceptor : ℕ
  socket : SocketId
  listener : NetServiceListener ThreadId
  /-- Whether `schedule` threw; then the socket was closed. -/
  refused : Bool
  deriving DecidableEq

structure Server where
  core : SnodeCore
  pool : Threadpool ServerTask
  /-- `listeners_factory_`. -/
  factory : NetServiceListenerFactory ThreadId
  connections : SocketId → Option Connection
  /-- `connections_` of the listener at an address. -/
  tracked : ℕ → List SocketId
  /-- The calls of `accept` so far. -/
  turns : List Turn

/-- What happens next to a server. -/
inductive ServerEvent where
  /-- An `async_accept` is complete. -/
  | accepted (index : ℕ)
  | acceptFailed (index : ℕ)
  | startThread (thread : ThreadId)
  /-- A thread takes a task out of its queue, and runs it. -/
  | dequeue (thread : ThreadId)
  | run (thread : ThreadId)
  /-- `stop` is called, and goes on. -/
  | stop
  | stopGoes
  /-- Something else happens to a connection: on its socket, or in the application. -/
  | connection (socket : SocketId) (event : Http.Event)

/-- The step of the pool that an event is, if it is one. -/
def ServerEvent.pool : ServerEvent → Option (Pool.Event ServerTask)
  | .startThread thread => some (.startThread thread)
  | .dequeue thread => some (.dequeue thread)
  | .run thread => some (.run thread)
  | .stop => some .stop
  | .stopGoes => some .stopGoes
  | _ => none

namespace Server

/-- A server after `init`. -/
def new (core : SnodeCore) (size : ℕ) : Server where
  core := core
  pool := Threadpool.new size
  factory := NetServiceListenerFactory.new (List.range size)
  connections := fun _ => none
  tracked := fun _ => []
  turns := []

/-! ### Connections -/

/-- `async_task::connect`, for tasks of a connection. -/
def post (server : Server) (thread : ThreadId) (socket : SocketId) (tasks : List Http.Task) :
    Server :=
  { server with pool := server.pool.scheduleAll (tasks.map (.connection socket)) thread }

/-- `drop_connection`, which a connection calls as it closes its socket. -/
def dropConnection (server : Server) (connection : Connection) (socket : SocketId) : Server :=
  { server with
    tracked := fun address =>
      if address = connection.listener.address then (server.tracked address).erase socket
      else server.tracked address }

/-- The server when a member function has left the connection on a socket in a state: what it
scheduled is in the queue of its thread, and if it closed its socket, it was dropped. -/
def updated (server : Server) (socket : SocketId) (connection : Connection)
    (state : HttpConnection) : Server :=
  let server :=
    { server with
      connections := fun other =>
        if other = socket then some { connection with state := state.posted }
        else server.connections other }
  let server := server.post connection.workerId socket state.tasks
  if state.socketOpen then server else server.dropConnection connection socket

/-- A member function of the connection runs; there has to be one. -/
def update (server : Server) (socket : SocketId) (change : HttpConnection → HttpConnection) :
    Option Server :=
  (server.connections socket).map fun connection =>
    server.updated socket connection (change connection.state)

/-- `do_accept` of a listener, on its thread. -/
def doAccept (server : Server) (listener : NetServiceListener ThreadId) (socket : SocketId)
    (thread : ThreadId) : Server :=
  { server with
    connections := fun other =>
      if other = socket then some ⟨listener, thread, HttpConnection.new⟩
      else server.connections other
    tracked := fun address =>
      if address = listener.address then (server.tracked address).insert socket
      else server.tracked address }

/-- A thread runs the task it dequeued. -/
def runTask (server : Server) (thread : ThreadId) : Option Server :=
  let ran := { server with pool := server.pool.exec (.run thread) }
  match (server.pool.workers thread).bind Worker.running with
  | some (.task (.onAccept listener socket)) => some (ran.doAccept listener socket thread)
  | some (.task (.connection socket task)) => ran.update socket fun conn => conn.runTask task
  | _ => some ran

/-! ### Accepting -/

/-- `http_service::accept`; there is no result where a null pointer is dereferenced. -/
def accept (server : Server) (acceptor : ℕ) (socket : SocketId) :
    Option (Except String Unit × Server) :=
  match server.factory.getNextListener with
  | some (some listener, factory) =>
      let task : ServerTask := .onAccept listener socket
      let result := (server.pool.schedule (.task task) listener.threadId).map fun _ => ()
      some (result,
        { server with
          factory := factory
          pool := server.pool.scheduleTask task listener.threadId
          turns := server.turns ++ [⟨acceptor, socket, listener, !result.isOk⟩] })
  | _ => none

/-- `handle_accept`, for the acceptor at an index; the service of its port is looked up, and a
null pointer if there is none. -/
def handleAccept (server : Server) (index : ℕ) (failed : Bool) : Option Server := do
  let acceptor ← server.core.acceptors[index]?
  let socket ← acceptor.accepting
  if failed then
    return { server with core := server.core.setAccepting index none }
  let _ ← server.core.services.find acceptor.port
  let (result, server) ← server.accept index socket
  match result with
  | .ok () => return { server with core := server.core.acceptNext index }
  | .error _ => return { server with core := server.core.setAccepting index none }

/-- The end of `snode_core::stop`. -/
def clearAcceptors (server : Server) : Server :=
  match server.pool.stopping with
  | .returned => { server with core := { server.core with acceptors := [] } }
  | _ => server

/-! ### Steps -/

/-- When an event can happen.  The thread of the core accepts until it is in `stop`, and a
connection does what it does on its own thread, between two tasks. -/
def Legal (server : Server) : ServerEvent → Prop
  | .accepted index | .acceptFailed index =>
      server.pool.stopping = .idle ∧
        ∃ acceptor, server.core.acceptors[index]? = some acceptor ∧ acceptor.accepting.isSome = true
  | .startThread thread => server.pool.Legal (.startThread thread)
  | .dequeue thread => server.pool.Legal (.dequeue thread)
  | .run thread => server.pool.Legal (.run thread)
  | .stop => server.pool.stopping = .idle
  | .stopGoes => server.pool.Legal .stopGoes
  | .connection socket event =>
      event ≠ .runTask ∧
        ∃ connection, server.connections socket = some connection ∧
          connection.state.Legal event ∧
            ∃ worker, server.pool.workers connection.workerId = some worker ∧
              worker.exited = false ∧ worker.running.isNone = true

/-- The server after an event, unless what the event does is undefined. -/
def exec (getReqHandler : Bytes → Option ℕ) (server : Server) : ServerEvent → Option Server
  | .accepted index => server.handleAccept index false
  | .acceptFailed index => server.handleAccept index true
  | .startThread thread => some { server with pool := server.pool.exec (.startThread thread) }
  | .dequeue thread => some { server with pool := server.pool.exec (.dequeue thread) }
  | .run thread => server.runTask thread
  | .stop => some (clearAcceptors { server with pool := server.pool.exec .stop })
  | .stopGoes => some (clearAcceptors { server with pool := server.pool.exec .stopGoes })
  | .connection socket event =>
      server.update socket fun conn => HttpConnection.exec getReqHandler conn event

/-- No exception has left a task or a handler of a connection.  `start_thread` throws one on, and
`run` of the core returns after one, so either way the process ends. -/
def Running (server : Server) : Prop :=
  ∀ socket connection, server.connections socket = some connection →
    connection.state.failed = false

/-- All interleavings of the core, the threads of the pool and what happens to connections, as
long as the process runs. -/
def system (getReqHandler : Bytes → Option ℕ) : Lts Server ServerEvent where
  step server event next :=
    server.Running ∧ server.Legal event ∧ server.exec getReqHandler event = some next

end Server

end Snode.Core
