import Snode.Core.SnodeCore

/-!
# Starting up

`init` finds the service of each connection by the port of its acceptor.  That is the port
of the configuration, but for port `0`: there the system chooses one, and the service is
kept under `0`.
-/

namespace Snode.Core

open Http

namespace RegFactory

variable {φ : Type}

/-- The first function for a name stays. -/
theorem createInstance_registrate (registry : RegFactory φ) (name other : Bytes) (func : φ) :
    (registry.registrate name func).createInstance other =
      if other = name ∧ registry.createInstance name = none then some func
      else registry.createInstance other := by
  have same : stringRank other = stringRank name ↔ other = name :=
    stringRank_injective.eq_iff
  rw [registrate]
  rcases found : registry.find name with _ | entry
  · have unknown : registry.createInstance name = none := by rw [createInstance, found]; rfl
    rw [if_pos Option.isNone_none, createInstance, OrderedMap.assign, OrderedMap.find_alter, found]
    by_cases here : other = name
    · rw [if_pos (same.mpr here), if_pos ⟨here, unknown⟩]
      rfl
    · rw [if_neg (same.not.mpr here), if_neg fun both => here both.1]
      rfl
  · have known : registry.createInstance name ≠ none := by rw [createInstance, found]; simp
    rw [if_neg (by simp), if_neg fun both => known both.2]

end RegFactory

namespace SnodeCore

variable {network : Network} {core next : SnodeCore}

/-- There is a service for the name of a configuration. -/
def Known (config : NetServiceConfig) : Prop :=
  (serviceFactory.createInstance config.name).isSome = true

theorem known_iff (config : NetServiceConfig) : Known config ↔ config.name = ascii "http" := by
  rw [Known, serviceFactory, RegFactory.createInstance_registrate]
  by_cases same : config.name = ascii "http"
  · simp [same, RegFactory.createInstance]
  · simp [same, RegFactory.createInstance]

/-- Each acceptor has a service for its port. -/
def Served (core : SnodeCore) : Prop :=
  ∀ acceptor ∈ core.acceptors, (core.services.find acceptor.port).isSome = true

/-- What `init` has made of the configured ports, in pairs with those the acceptors got. -/
structure Bound (ports : List (ℕ × ℕ)) (core : SnodeCore) : Prop where
  acceptors : core.acceptors.map Acceptor.port = ports.map Prod.snd
  services : ∀ port, (core.services.find port).isSome = true ↔ port ∈ ports.map Prod.fst
  distinct : (ports.map Prod.snd).Nodup
  same : ∀ pair ∈ ports, pair.1 ≠ 0 → pair.2 = pair.1
  nonzero : ∀ pair ∈ ports, pair.2 ≠ 0
  nextSocket : core.nextSocket = core.acceptors.length
  accepting : ∀ (index : ℕ) (acceptor : Acceptor), core.acceptors[index]? = some acceptor →
    acceptor.accepting = some index

theorem bound_new : Bound [] new where
  acceptors := rfl
  services port := by simp [new]
  distinct := List.nodup_nil
  same := List.forall_mem_nil _
  nonzero := List.forall_mem_nil _
  nextSocket := rfl
  accepting index acceptor found := by simp [new] at found

/-- A port that an acceptor was bound to. -/
theorem bind_ok {bound : List ℕ} {configured port : ℕ}
    (binds : bind network bound configured = .ok port) :
    port ∉ bound ∧ port ≠ 0 ∧ (configured ≠ 0 → port = configured) := by
  rw [bind] at binds
  split at binds
  · next zero =>
      rcases Except.ok.inj binds with rfl
      exact ⟨network.ephemeral_free bound, network.ephemeral_ne_zero bound,
        fun nonzero => absurd zero nonzero⟩
  · next nonzero =>
      split at binds
      · cases binds
      · next free =>
          rcases Except.ok.inj binds with rfl
          exact ⟨fun present => free (.inr present), nonzero, fun _ => rfl⟩

/-- A turn of the loop: either there is no such service, or one more acceptor. -/
theorem initService_ok {config : NetServiceConfig}
    (makes : initService network core config = .ok next) :
    (¬Known config ∧ next = core) ∨
      ∃ service port, Known config ∧
        bind network (core.acceptors.map Acceptor.port) (endpointPort config.listenPort) =
          .ok port ∧
        next = {
          acceptors := core.acceptors ++ [⟨port, some core.nextSocket⟩]
          services := core.services.assign (endpointPort config.listenPort) service
          nextSocket := core.nextSocket + 1 } := by
  rw [initService] at makes
  rcases found : serviceFactory.createInstance config.name with _ | service
  · rw [found] at makes
    left
    exact ⟨by simp [Known, found], (Except.ok.inj makes).symm⟩
  · rw [found] at makes
    right
    simp only [bind_pure_comp] at makes
    split at makes
    · cases makes
    · rcases binds : bind network (core.acceptors.map Acceptor.port)
        (endpointPort config.listenPort) with what | port
      · rw [binds] at makes
        cases makes
      · rw [binds] at makes
        exact ⟨service, port, by simp [Known, found], rfl, (Except.ok.inj makes).symm⟩

/-- One more acceptor, for a port that no other one has. -/
theorem Bound.add {ports : List (ℕ × ℕ)} (bound : Bound ports core) {configured port : ℕ}
    (binds : bind network (core.acceptors.map Acceptor.port) configured = .ok port)
    (service : NetService) :
    Bound (ports ++ [(configured, port)]) {
      acceptors := core.acceptors ++ [⟨port, some core.nextSocket⟩]
      services := core.services.assign configured service
      nextSocket := core.nextSocket + 1 } := by
  rcases bind_ok binds with ⟨free, nonzero, same⟩
  rw [bound.acceptors] at free
  constructor
  · rw [List.map_append, List.map_append, bound.acceptors]
    rfl
  · intro other
    rw [OrderedMap.assign, OrderedMap.find_alter, List.map_append, List.mem_append,
      ← bound.services other]
    by_cases here : other = configured
    · simp [here]
    · simp [here]
  · rw [List.map_append, List.nodup_append]
    refine ⟨bound.distinct, List.nodup_singleton _, ?_⟩
    rintro earlier before last now rfl
    rw [List.map_singleton, List.mem_singleton] at now
    have here : earlier = port := now
    exact free (here ▸ before)
  · intro pair present
    rcases List.mem_append.mp present with before | now
    · exact bound.same pair before
    · rw [List.mem_singleton.mp now]
      exact same
  · intro pair present
    rcases List.mem_append.mp present with before | now
    · exact bound.nonzero pair before
    · rw [List.mem_singleton.mp now]
      exact nonzero
  · simp [bound.nextSocket]
  · intro index acceptor found
    rw [List.getElem?_append] at found
    split at found
    · exact bound.accepting index acceptor found
    · rw [List.getElem?_singleton] at found
      split at found
      · rcases Option.some.inj found with rfl
        have here : index = core.acceptors.length := by omega
        rw [here, ← bound.nextSocket]
      · cases found

/-- The loop of `init`. -/
theorem Bound.foldlM {ports : List (ℕ × ℕ)} (bound : Bound ports core)
    {configs : List NetServiceConfig}
    (makes : configs.foldlM (initService network) core = .ok next) :
    ∃ more, Bound (ports ++ more) next ∧ ∀ port, port ∈ more.map Prod.fst ↔
      ∃ config ∈ configs, Known config ∧ endpointPort config.listenPort = port := by
  induction configs generalizing core ports with
  | nil =>
      rcases Except.ok.inj makes with rfl
      exact ⟨[], by rwa [List.append_nil], by simp⟩
  | cons config configs ih =>
      rw [List.foldlM_cons] at makes
      rcases first : initService network core config with what | middle
      · rw [first] at makes
        cases makes
      · rw [first] at makes
        rcases initService_ok first with ⟨unknown, rfl⟩ | ⟨service, port, known, binds, rfl⟩
        · rcases ih bound makes with ⟨more, later, configured⟩
          refine ⟨more, later, fun port => ?_⟩
          rw [configured]
          simp [unknown]
        · rcases ih (bound.add binds service) makes with ⟨more, later, configured⟩
          refine ⟨(endpointPort config.listenPort, port) :: more, ?_, fun other => ?_⟩
          · rw [List.append_assoc] at later
            exact later
          · rw [List.map_cons, List.mem_cons, configured]
            simp [known, eq_comm]

theorem bound_of_init {configs : List NetServiceConfig} (starts : init network configs = .ok core) :
    ∃ ports, Bound ports core ∧ ∀ port, port ∈ ports.map Prod.fst ↔
      ∃ config ∈ configs, Known config ∧ endpointPort config.listenPort = port := by
  rcases bound_new.foldlM starts with ⟨ports, bound, configured⟩
  exact ⟨ports, bound, configured⟩

/-- Each connection finds its service if and only if no service is configured for port `0`, or a
port that is one as an `unsigned short`. -/
theorem served_iff {configs : List NetServiceConfig} (starts : init network configs = .ok core) :
    core.Served ↔ ∀ config ∈ configs, config.name = ascii "http" →
      endpointPort config.listenPort ≠ 0 := by
  rcases bound_of_init starts with ⟨ports, bound, configured⟩
  have acceptors (port : ℕ) : (∃ acceptor ∈ core.acceptors, acceptor.port = port) ↔
      ∃ pair ∈ ports, pair.2 = port := by
    have same := congrArg (port ∈ ·) bound.acceptors
    simpa using same
  constructor
  · intro served config present known zero
    have listed : (0 : ℕ) ∈ ports.map Prod.fst :=
      (configured 0).mpr ⟨config, present, (known_iff config).mpr known, zero⟩
    rcases List.mem_map.mp listed with ⟨⟨first, port⟩, pair, rfl⟩
    rcases (acceptors port).mpr ⟨_, pair, rfl⟩ with ⟨acceptor, accepts, rfl⟩
    have found := (bound.services acceptor.port).mp (served acceptor accepts)
    rcases List.mem_map.mp found with ⟨⟨other, actual⟩, otherPair, rfl⟩
    -- the acceptor that is configured for the port of this one would share it
    have shared : actual = acceptor.port :=
      bound.same _ otherPair (bound.nonzero _ pair)
    have pairs := List.inj_on_of_nodup_map bound.distinct pair otherPair shared.symm
    exact bound.nonzero _ pair (congrArg Prod.fst pairs).symm
  · intro nonzero acceptor accepts
    rcases (acceptors acceptor.port).mp ⟨acceptor, accepts, rfl⟩ with ⟨pair, present, port⟩
    have configuredPort := (configured pair.1).mp (List.mem_map_of_mem present)
    rcases configuredPort with ⟨config, listed, known, endpoint⟩
    have other : pair.1 ≠ 0 := endpoint ▸ nonzero config listed ((known_iff config).mp known)
    rw [← port, bound.same pair present other, bound.services]
    exact List.mem_map_of_mem present

end SnodeCore

/-! ### One port -/

/-- A machine on which nothing else listens, and every string is an address. -/
def Network.quiet : Network where
  isAddress _ := true
  taken _ := false
  ephemeral bound := bound.foldr max 0 + 1
  ephemeral_ne_zero _ := Nat.succ_ne_zero _
  ephemeral_free bound present := by
    have le {port : ℕ} {ports : List ℕ} (listed : port ∈ ports) : port ≤ ports.foldr max 0 := by
      induction ports with
      | nil => cases listed
      | cons first ports ih =>
          rcases List.mem_cons.mp listed with rfl | later
          · exact Nat.le_max_left _ _
          · exact (ih later).trans (Nat.le_max_right _ _)
    exact Nat.not_succ_le_self _ (le present)

/-- The HTTP service on a port, with no options. -/
def NetServiceConfig.httpOn (listenPort : Fin (2 ^ 32)) : NetServiceConfig where
  name := ascii "http"
  host := []
  listenPort := listenPort
  options := .empty

/-- A core that accepts on one port. -/
def SnodeCore.httpOn (port : ℕ) : SnodeCore where
  acceptors := [⟨port, some 0⟩]
  services := OrderedMap.empty.assign port .http
  nextSocket := 1

theorem SnodeCore.init_httpOn {listenPort : Fin (2 ^ 32)} (nonzero : endpointPort listenPort ≠ 0) :
    init .quiet [.httpOn listenPort] = .ok (.httpOn (endpointPort listenPort)) := by
  have known : serviceFactory.createInstance (ascii "http") = some .http := by
    rw [serviceFactory, RegFactory.createInstance_registrate]
    simp [RegFactory.createInstance]
  have binds : bind .quiet [] (endpointPort listenPort) = .ok (endpointPort listenPort) := by
    rw [bind, if_neg nonzero]
    simp [Network.quiet]
  rw [init, List.foldlM_cons, initService, NetServiceConfig.httpOn, known]
  simp only [List.isEmpty_nil, Bool.not_true, Bool.false_and, Bool.false_eq_true, if_false]
  change (bind .quiet [] (endpointPort listenPort) >>= _ >>= _) = _
  rw [binds]
  rfl

theorem SnodeCore.served_httpOn (port : ℕ) : (httpOn port).Served := by
  intro acceptor present
  rcases List.mem_singleton.mp present with rfl
  rw [httpOn, OrderedMap.assign, OrderedMap.find_alter, if_pos rfl]
  rfl

theorem SnodeCore.served_iff_httpOn :
    (SnodeCore.httpOn 8080).Served ↔ ∀ config ∈ [NetServiceConfig.httpOn 8080],
      config.name = ascii "http" → endpointPort config.listenPort ≠ 0 :=
  served_iff (@init_httpOn 8080 (by decide))

end Snode.Core
