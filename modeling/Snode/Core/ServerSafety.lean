import Snode.Core.Projection
import Snode.Http.Unhandled

/-!
# What the server guarantees

When nothing undefined happens, where every socket is that was accepted, which
connections a listener knows, and what becomes of a request.
-/

namespace Snode.Core

open Http Pool

namespace Server

variable {server : Server} {size : ℕ} {network : Network} {configs : List NetServiceConfig}
  {core : SnodeCore} {getReqHandler : Bytes → Option ℕ}

/-! ### Undefined behaviour -/

/-- No event that can happen, in any state reached, dereferences a null pointer. -/
def Defined (getReqHandler : Bytes → Option ℕ) (core : SnodeCore) (size : ℕ) : Prop :=
  ∀ server, (system getReqHandler).Reachable (new core size) server →
    ∀ event, server.Legal event → (server.exec getReqHandler event).isSome = true

/-- The first connection of an acceptor is undefined behaviour when its service is not found, or
there is no listener. -/
theorem exec_accepted_new {index : ℕ} {acceptor : Acceptor} {socket : SocketId}
    (found : core.acceptors[index]? = some acceptor) (accepting : acceptor.accepting = some socket)
    (lacks : core.services.find acceptor.port = none ∨ size = 0) :
    (new core size).Legal (.accepted index) ∧
      (new core size).exec getReqHandler (.accepted index) = none := by
  refine ⟨⟨rfl, acceptor, found, by rw [accepting]; rfl⟩, ?_⟩
  rw [exec, handleAccept, new, found]
  simp only [Option.bind_eq_bind, Option.bind_some, accepting, Bool.false_eq_true, if_false]
  rcases lacks with none | rfl
  · rw [none, Option.bind_none]
  · rcases core.services.find acceptor.port with _ | service
    · rfl
    · rfl

/-- Nothing undefined happens if and only if no port is listened on, or there is a thread and no
service is configured for port `0`. -/
theorem defined_iff (getReqHandler : Bytes → Option ℕ)
    (starts : SnodeCore.init network configs = .ok core) (size : ℕ) :
    Defined getReqHandler core size ↔
      (∀ config ∈ configs, config.name ≠ ascii "http") ∨
        0 < size ∧ ∀ config ∈ configs, config.name = ascii "http" →
          SnodeCore.endpointPort config.listenPort ≠ 0 := by
  rw [← SnodeCore.served_iff starts]
  rcases SnodeCore.bound_of_init starts with ⟨ports, bound, configured⟩
  have none_iff : core.acceptors = [] ↔ ∀ config ∈ configs, config.name ≠ ascii "http" := by
    have noPorts : core.acceptors = [] ↔ ports = [] := by
      rw [← List.map_eq_nil_iff (f := Acceptor.port), bound.acceptors, List.map_eq_nil_iff]
    rw [noPorts]
    constructor
    · rintro rfl config present known
      have listed :=
        (configured _).mpr ⟨config, present, (SnodeCore.known_iff config).mpr known, rfl⟩
      cases listed
    · intro unknown
      apply List.eq_nil_iff_forall_not_mem.mpr
      intro pair present
      rcases (configured pair.1).mp (List.mem_map_of_mem present) with ⟨config, listed, known, -⟩
      exact unknown config listed ((SnodeCore.known_iff config).mp known)
  rw [← none_iff]
  constructor
  · intro defined
    have fails {index : ℕ} {acceptor : Acceptor} (found : core.acceptors[index]? = some acceptor)
        (lacks : core.services.find acceptor.port = none ∨ size = 0) : False := by
      have stuck := @exec_accepted_new size core getReqHandler index acceptor index found
        (bound.accepting index acceptor found) lacks
      have works := defined _ (.refl _) _ stuck.1
      simp [stuck.2] at works
    by_cases none : core.acceptors = []
    · exact .inl none
    · right
      rcases List.exists_cons_of_ne_nil none with ⟨first, others, acceptors⟩
      have found : core.acceptors[0]? = some first := by rw [acceptors]; rfl
      refine ⟨Nat.pos_of_ne_zero fun zero => fails found (.inr zero), ?_⟩
      intro acceptor present
      rcases List.mem_iff_getElem?.mp present with ⟨index, found⟩
      by_contra lacks
      exact fails found (.inl (Option.not_isSome_iff_eq_none.mp lacks))
  · intro either server reachable event legal
    have served : core.Served := by
      rcases either with none | ⟨-, served⟩
      · rw [SnodeCore.Served, none]
        exact List.forall_mem_nil _
      · exact served
    have sound := sound_of_init starts served (either.imp_right And.left) reachable
    rcases sound.exec getReqHandler legal with ⟨next, done, -⟩
    rw [done]
    rfl

theorem defined_iff_httpOn :
    Defined (fun _ => none) (.httpOn 8080) 1 ↔
      (∀ config ∈ [NetServiceConfig.httpOn 8080], config.name ≠ ascii "http") ∨
        0 < 1 ∧ ∀ config ∈ [NetServiceConfig.httpOn 8080], config.name = ascii "http" →
          SnodeCore.endpointPort config.listenPort ≠ 0 :=
  defined_iff _ (@SnodeCore.init_httpOn 8080 (by decide)) 1

/-! ### Where sockets are -/

/-- How often a socket waits on a thread for its connection. -/
def awaits (server : Server) (thread : ThreadId) (socket : SocketId) : ℕ :=
  ((handed (server.pool.waiting thread)).map Prod.snd).count socket

/-- Where the socket of a turn is: it was refused, or waits on the thread of the turn, or that
has made its connection. -/
inductive Place (server : Server) (turn : Turn) : Prop where
  | refused (refused : turn.refused = true) (unmade : server.connections turn.socket = none)
      (nowhere : ∀ thread, server.awaits thread turn.socket = 0)
  | waiting (given : turn.refused = false) (unmade : server.connections turn.socket = none)
      (once : ∀ thread, server.awaits thread turn.socket =
        if turn.listener.threadId = thread then 1 else 0)
  | connected (given : turn.refused = false) (connection : Connection)
      (made : server.connections turn.socket = some connection)
      (listener : connection.listener = turn.listener)
      (worker : connection.workerId = turn.listener.threadId)
      (nowhere : ∀ thread, server.awaits thread turn.socket = 0)

/-- Each socket that was accepted is in its place, and there are no others. -/
structure Placed (size : ℕ) (server : Server) : Prop where
  nodup : (server.turns.map Turn.socket).Nodup
  byTurns : ∀ (index : ℕ) (turn : Turn), server.turns[index]? = some turn →
    turn.listener.threadId = index % size
  place : ∀ turn ∈ server.turns, server.Place turn
  accepted : ∀ socket,
    (server.connections socket).isSome = true ∨ (∃ thread, 0 < server.awaits thread socket) →
      ∃ turn ∈ server.turns, turn.refused = false ∧ turn.socket = socket

section Places

variable {turn : Turn}

/-- How often the connection on a socket was made, on a thread. -/
def madeOn (server : Server) (thread : ThreadId) (socket : SocketId) : ℕ :=
  ((handed (server.pool.ran thread)).map Prod.snd).count socket

/-- A turn gives its socket to one thread, once, unless it is refused. -/
theorem Valid.madeOn_add_awaits (valid : server.Valid size) (present : turn ∈ server.turns)
    (thread : ThreadId) :
    server.madeOn thread turn.socket + server.awaits thread turn.socket =
      if turn.refused = false ∧ turn.listener.threadId = thread then 1 else 0 := by
  rw [madeOn, awaits, ← List.count_append, ← List.map_append, ← handed_append, valid.handed,
    (nodup_handedTo valid.nodup thread).count]
  congr 1
  rw [eq_iff_iff, List.mem_map]
  constructor
  · rintro ⟨⟨listener, socket⟩, listed, rfl⟩
    rcases mem_handedTo.mp listed with ⟨other, otherPresent, given, here, -, same⟩
    rcases (List.inj_on_of_nodup_map valid.nodup otherPresent present same : other = turn) with rfl
    exact ⟨given, here⟩
  · rintro ⟨given, here⟩
    have handed := mem_handedTo.mpr ⟨turn, present, given, here, rfl, rfl⟩
    exact ⟨(turn.listener, turn.socket), handed, rfl⟩

theorem Valid.madeOn_pos (valid : server.Valid size) {thread : ThreadId} {socket : SocketId} :
    0 < server.madeOn thread socket ↔
      ∃ connection, server.connections socket = some connection ∧ connection.workerId = thread := by
  rw [madeOn, List.count_pos_iff, List.mem_map]
  constructor
  · rintro ⟨⟨listener, other⟩, ran, rfl⟩
    have made := valid.made other listener thread
    rcases made.mp (mem_handed.mp ran) with ⟨connection, made, -, here⟩
    exact ⟨connection, made, here⟩
  · rintro ⟨connection, made, here⟩
    have ran := (valid.made socket connection.listener thread).mpr ⟨connection, made, rfl, here⟩
    exact ⟨(connection.listener, socket), mem_handed.mpr ran, rfl⟩

/-- A connection was made for the listener of its turn. -/
theorem Valid.turn_of_made (valid : server.Valid size) {socket : SocketId} {connection : Connection}
    (made : server.connections socket = some connection) :
    ∃ turn ∈ server.turns, turn.refused = false ∧ turn.socket = socket ∧
      turn.listener = connection.listener ∧ turn.listener.threadId = connection.workerId := by
  have ran := (valid.made socket _ _).mpr ⟨connection, made, rfl, rfl⟩
  have listed : (connection.listener, socket) ∈ handedTo server.turns connection.workerId := by
    rw [← valid.handed, handed_append]
    exact List.mem_append_left _ (mem_handed.mpr ran)
  rcases mem_handedTo.mp listed with ⟨turn, present, given, here, listener, same⟩
  exact ⟨turn, present, given, same, listener, here⟩

theorem Valid.place (valid : server.Valid size) (present : turn ∈ server.turns) :
    server.Place turn := by
  have counts := valid.madeOn_add_awaits present
  rcases made : server.connections turn.socket with _ | connection
  · have unmade (thread : ThreadId) : server.madeOn thread turn.socket = 0 := by
      apply Nat.eq_zero_of_not_pos
      rw [valid.madeOn_pos]
      rintro ⟨connection, found, -⟩
      simp [made] at found
    simp only [unmade, Nat.zero_add] at counts
    cases refused : turn.refused with
    | true => exact .refused refused made fun thread => by simpa [refused] using counts thread
    | false => exact .waiting refused made fun thread => by simpa [refused] using counts thread
  · rcases valid.turn_of_made made with ⟨other, otherPresent, given, same, listener, here⟩
    rcases (List.inj_on_of_nodup_map valid.nodup otherPresent present same : other = turn) with rfl
    refine .connected given connection made listener.symm here.symm fun thread => ?_
    have count := counts thread
    by_cases on : other.listener.threadId = thread
    · have once := valid.madeOn_pos.mpr ⟨connection, made, here.symm.trans on⟩
      rw [if_pos ⟨given, on⟩] at count
      omega
    · rw [if_neg fun both => on both.2] at count
      omega

end Places

/-- Every socket that was accepted is given to one thread, by turns: there it waits once, until
its one connection is made.  Only the sockets that the pool refused are lost. -/
theorem sockets_placed (starts : SnodeCore.init network configs = .ok core) (served : core.Served)
    (positive : 0 < size) (reachable : (system getReqHandler).Reachable (new core size) server) :
    server.Placed size := by
  have valid := (sound_of_init starts served (.inr positive) reachable).valid
  refine ⟨valid.nodup, fun index turn taken => ?_, fun turn => valid.place, fun socket => ?_⟩
  · rw [valid.listeners index turn taken]
  · rintro (made | ⟨thread, waits⟩)
    · rcases Option.isSome_iff_exists.mp made with ⟨connection, made⟩
      rcases valid.turn_of_made made with ⟨turn, present, given, same, -⟩
      exact ⟨turn, present, given, same⟩
    · rcases List.mem_map.mp (List.count_pos_iff.mp waits) with ⟨⟨listener, other⟩, queued, rfl⟩
      have listed : (listener, other) ∈ handedTo server.turns thread := by
        rw [← valid.handed, handed_append]
        exact List.mem_append_right _ queued
      rcases mem_handedTo.mp listed with ⟨turn, present, given, -, -, same⟩
      exact ⟨turn, present, given, same⟩

theorem sockets_placed_first : ∃ server : Server,
    server.Placed 1 ∧ (server.connections 0).isSome = true := by
  rcases reachable_first with ⟨server, reachable, made⟩
  have placed := sockets_placed (@SnodeCore.init_httpOn 8080 (by decide))
    (SnodeCore.served_httpOn 8080) Nat.one_pos reachable
  exact ⟨server, placed, by rw [made]; rfl⟩

/-! ### Where connections are -/

/-- A connection lives on the thread of its listener: nothing of it is scheduled elsewhere, and
the listener knows it as long as its socket is open. -/
structure Confined (size : ℕ) (server : Server) : Prop where
  inside : ∀ socket connection, server.connections socket = some connection →
    connection.workerId < size
  listener : ∀ socket connection, server.connections socket = some connection →
    connection.listener = ⟨connection.workerId, connection.workerId⟩
  tasks : ∀ thread socket task, .connection socket task ∈ server.pool.waiting thread →
    ∃ connection, server.connections socket = some connection ∧ connection.workerId = thread
  nodup : ∀ thread, (server.tracked thread).Nodup
  tracked : ∀ thread socket, socket ∈ server.tracked thread ↔
    ∃ connection, server.connections socket = some connection ∧
      connection.workerId = thread ∧ connection.state.socketOpen = true

/-- The connections that a listener tracks are the open ones that its thread has made, and no
other thread ever runs a task of one. -/
theorem connections_confined (starts : SnodeCore.init network configs = .ok core)
    (served : core.Served) (positive : 0 < size)
    (reachable : (system getReqHandler).Reachable (new core size) server) :
    server.Confined size := by
  have sound := sound_of_init starts served (.inr positive) reachable
  have listener (socket : SocketId) (connection : Connection)
      (made : server.connections socket = some connection) :
      connection.workerId < size ∧
        connection.listener = ⟨connection.workerId, connection.workerId⟩ := by
    rcases sound.valid.turn_of_made made with ⟨turn, present, -, -, same, here⟩
    rcases List.mem_iff_getElem?.mp present with ⟨index, taken⟩
    have position := sound.valid.listeners index turn taken
    rw [← same, ← here, position]
    exact ⟨Nat.mod_lt _ positive, rfl⟩
  refine ⟨fun socket connection made => (listener socket connection made).1,
    fun socket connection made => (listener socket connection made).2, sound.valid.confined,
    sound.tracked.nodup, fun thread socket => ?_⟩
  rw [sound.tracked.mem]
  apply exists_congr
  intro connection
  constructor
  · rintro ⟨made, address, isOpen⟩
    rw [(listener socket connection made).2] at address
    exact ⟨made, address, isOpen⟩
  · rintro ⟨made, thread, isOpen⟩
    rw [(listener socket connection made).2]
    exact ⟨made, thread, isOpen⟩

theorem connections_confined_first : ∃ server : Server,
    server.Confined 1 ∧ 0 ∈ server.tracked 0 := by
  rcases reachable_first with ⟨server, reachable, made⟩
  have confined := connections_confined (@SnodeCore.init_httpOn 8080 (by decide))
    (SnodeCore.served_httpOn 8080) Nat.one_pos reachable
  exact ⟨server, confined, (confined.tracked 0 0).mpr ⟨_, made, rfl, rfl⟩⟩

/-! ### Requests -/

/-- Where the streams on a body are made, the server answers no request with anything but a
`400`.  A client that sends a well-formed request gets nothing, and its connection is kept open
for good. -/
theorem requests_unanswered (starts : SnodeCore.init network configs = .ok core)
    (served : core.Served) (positive : 0 < size)
    (reachable : (system HttpService.getReqHandler).Reachable (new core size) server) :
    ∀ socket connection, server.connections socket = some connection →
      connection.state.Unanswered := by
  intro socket connection made
  have viewed := view_eq made
  have runs := (view_reachable starts served positive reachable).2 socket _ viewed
  have unanswered := (HttpConnection.unhandled_of_reachable runs).unanswered
  exact ⟨unanswered.handled, unanswered.outcome⟩

theorem requests_unanswered_first : ∃ (server : Server) (connection : Connection),
    server.connections 0 = some connection ∧ connection.state.Unanswered := by
  rcases reachable_first with ⟨server, reachable, made⟩
  have unanswered := requests_unanswered (@SnodeCore.init_httpOn 8080 (by decide))
    (SnodeCore.served_httpOn 8080) Nat.one_pos reachable
  exact ⟨server, _, made, unanswered 0 _ made⟩

end Server

end Snode.Core
