import Snode.Core.Config

/-!
# The core

`snode_core`: `init` makes an acceptor for each service of the configuration that the
service factory knows, and the core accepts connections for the service of the port.

The network decides which ports are free.  An acceptor is bound to any address: what
`from_string` makes of the host is not used, but it throws if that is none.
-/

namespace Snode.Core

open Http

/-- A socket, by the order in which the core makes them. -/
abbrev SocketId := ℕ

structure Acceptor where
  /-- The port of `local_endpoint`. -/
  port : ℕ
  /-- The socket of the `async_accept` under way. -/
  accepting : Option SocketId
  deriving DecidableEq

/-- The services that are registered; there is one object of each. -/
inductive NetService where
  | http
  deriving DecidableEq

/-- What `init` throws. -/
inductive InitError where
  | invalidAddress
  | addressInUse
  deriving DecidableEq

/-- What the system decides when an acceptor is bound. -/
structure Network where
  isAddress : Bytes → Bool
  /-- The ports that others listen on. -/
  taken : ℕ → Bool
  /-- The port for port `0`, when some are bound already. -/
  ephemeral : List ℕ → ℕ
  ephemeral_ne_zero : ∀ bound, ephemeral bound ≠ 0
  ephemeral_free : ∀ bound, ephemeral bound ∉ bound

structure SnodeCore where
  /-- `acceptors_`. -/
  acceptors : List Acceptor
  /-- `services_`. -/
  services : OrderedMap (id : ℕ → ℕ) NetService
  nextSocket : SocketId

namespace SnodeCore

def new : SnodeCore where
  acceptors := []
  services := .empty
  nextSocket := 0

/-- `service_factory`, as the program registers the services. -/
def serviceFactory : RegFactory NetService :=
  RegFactory.registrate OrderedMap.empty (ascii "http") .http

/-- The port of `tcp::endpoint(address, listen_port)`: an `unsigned short`. -/
def endpointPort (listenPort : Fin (2 ^ 32)) : ℕ :=
  listenPort.val % 2 ^ 16

def bind (network : Network) (bound : List ℕ) (port : ℕ) : Except InitError ℕ :=
  if port = 0 then .ok (network.ephemeral bound)
  else if network.taken port = true ∨ port ∈ bound then .error .addressInUse
  else .ok port

/-- A turn of the loop of `init`. -/
def initService (network : Network) (core : SnodeCore) (config : NetServiceConfig) :
    Except InitError SnodeCore :=
  match serviceFactory.createInstance config.name with
  | none => .ok core
  | some service => do
      if !config.host.isEmpty && !network.isAddress config.host then
        throw .invalidAddress
      let port ← bind network (core.acceptors.map Acceptor.port) (endpointPort config.listenPort)
      return {
        acceptors := core.acceptors ++ [⟨port, some core.nextSocket⟩]
        services := core.services.assign (endpointPort config.listenPort) service
        nextSocket := core.nextSocket + 1 }

/-- `init`, once a configuration without an error was read. -/
def init (network : Network) (services : List NetServiceConfig) : Except InitError SnodeCore :=
  services.foldlM (initService network) new

/-- The acceptor at an index starts or ends an `async_accept`. -/
def setAccepting (core : SnodeCore) (index : ℕ) (accepting : Option SocketId) : SnodeCore :=
  { core with
    acceptors :=
      core.acceptors.modify index fun acceptor => { acceptor with accepting := accepting } }

/-- Where `handle_accept` goes on accepting, with a new socket. -/
def acceptNext (core : SnodeCore) (index : ℕ) : SnodeCore :=
  { core.setAccepting index (some core.nextSocket) with nextSocket := core.nextSocket + 1 }

end SnodeCore

end Snode.Core
