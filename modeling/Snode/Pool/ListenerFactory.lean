import Snode.Lib.RoundRobin
import Snode.Pool.Threadpool

/-!
# The listener factory

`net_service_listener_factory`: one listener for each thread of the pool, which are handed
out by the id of their thread or one after the other.  `last_used_` is the key of the
listener that was handed out last; both operations move it.

The threads of the pool are those it lists when an operation asks for them.  An index of
them is an `int`, and there are fewer threads than that has values.
-/

namespace Snode.Pool

/-- A listener, which is known by where `make_shared` put it. -/
structure NetServiceListener (ι : Type) where
  address : ℕ
  threadId : ι
deriving DecidableEq

/-- `std::map<int, net_service_listener_base_ptr>`, in map order.  A pointer may be null; an
iterator is the list of the entries from it on, and `end()` the empty one. -/
abbrev ListenerMap (ι : Type) := List (Int × Option (NetServiceListener ι))

namespace ListenerMap

variable {ι : Type}

def find (map : ListenerMap ι) (key : Int) : ListenerMap ι :=
  map.dropWhile fun entry => entry.1 != key

/-- `map[key]`, which creates an entry with a null pointer if there is none. -/
def subscript : ListenerMap ι → Int → Option (NetServiceListener ι) × ListenerMap ι
  | [], key => (none, [(key, none)])
  | (other, pointer) :: rest, key =>
      if key < other then (none, (key, none) :: (other, pointer) :: rest)
      else if other < key then
        let (found, rest) := subscript rest key
        (found, (other, pointer) :: rest)
      else (pointer, (other, pointer) :: rest)

/-- `map[key] = pointer`. -/
def assign : ListenerMap ι → Int → Option (NetServiceListener ι) → ListenerMap ι
  | [], key, pointer => [(key, pointer)]
  | (other, current) :: rest, key, pointer =>
      if key < other then (key, pointer) :: (other, current) :: rest
      else if other < key then (other, current) :: assign rest key pointer
      else (other, pointer) :: rest

end ListenerMap

/-- `net_service_listener_factory`. -/
structure NetServiceListenerFactory (ι : Type) where
  /-- `last_used_`. -/
  lastUsed : Int
  listeners : ListenerMap ι

/-- `s_listener_factory_msg`. -/
def listenerFactoryMsg : String := "invalid thread id"

/-- A call of a user of the factory; `threads` are the ids of the threads that the pool lists
when `get_listener` is called. -/
inductive FactoryCall (ι : Type) where
  | getListener (threads : List ι) (id : ι)
  | getNextListener

/-- The core makes its pool once, and that lists no more threads than it was made with. -/
def FactoryCall.Possible {ι : Type} (size : ℕ) : FactoryCall ι → Prop
  | getListener threads _ => threads.length ≤ size
  | getNextListener => True

namespace NetServiceListenerFactory

variable {ι : Type}

/-- The loop of the constructor, from an index on. -/
def addListeners (map : ListenerMap ι) : ℕ → List ι → ListenerMap ι
  | _, [] => map
  | index, id :: ids => addListeners (map.assign index (some ⟨index, id⟩)) (index + 1) ids

/-- The constructor. -/
def new (threads : List ι) : NetServiceListenerFactory ι where
  lastUsed := -1
  listeners := addListeners [] 0 threads

/-- `last_used_ = key; return listeners_[last_used_]`. -/
def select (factory : NetServiceListenerFactory ι) (key : Int) :
    Option (NetServiceListener ι) × NetServiceListenerFactory ι :=
  let (pointer, listeners) := factory.listeners.subscript key
  (pointer, ⟨key, listeners⟩)

/-- `get_listener`, for the first thread with the id. -/
def getListener [DecidableEq ι] (factory : NetServiceListenerFactory ι) (threads : List ι)
    (id : ι) : Except String (Option (NetServiceListener ι)) × NetServiceListenerFactory ι :=
  match threads.findIdx? fun thread => thread = id with
  | some index =>
      let (pointer, next) := factory.select index
      (.ok pointer, next)
  | none => (.error listenerFactoryMsg, factory)

/-- `get_next_listener`; there is no result where the behaviour is undefined, which is when
`end()` is incremented. -/
def getNextListener (factory : NetServiceListenerFactory ι) :
    Option (Option (NetServiceListener ι) × NetServiceListenerFactory ι) :=
  if factory.lastUsed < 0 then
    some (factory.select 0)
  else
    match factory.listeners.find factory.lastUsed with
    | [] => none
    | _ :: (key, _) :: _ => some (factory.select key)
    | [_] => factory.listeners.head?.map fun first => factory.select first.1

/-- What some calls of `get_next_listener` in a row return, and the factory after them. -/
def nextListeners (factory : NetServiceListenerFactory ι) :
    ℕ → Option (List (Option (NetServiceListener ι)) × NetServiceListenerFactory ι)
  | 0 => some ([], factory)
  | count + 1 => do
      let (pointer, next) ← factory.getNextListener
      let (pointers, last) ← next.nextListeners count
      return (pointer :: pointers, last)

/-- The factory after a call. -/
def exec [DecidableEq ι] (factory : NetServiceListenerFactory ι) :
    FactoryCall ι → Option (NetServiceListenerFactory ι)
  | .getListener threads id => some (factory.getListener threads id).2
  | .getNextListener => factory.getNextListener.map Prod.snd

/-- All runs of a factory of some size. -/
def system (ι : Type) [DecidableEq ι] (size : ℕ) :
    Lts (NetServiceListenerFactory ι) (FactoryCall ι) where
  step factory call next := call.Possible size ∧ factory.exec call = some next

end NetServiceListenerFactory

/-! ### The threads of the pool -/

theorem Threadpool.schedule_threads {τ : Type} {pool next : Threadpool τ} {op : Op τ}
    {thread : ThreadId} (scheduled : pool.schedule op thread = .ok next) :
    next.threads = pool.threads := by
  rw [schedule] at scheduled
  split at scheduled
  · obtain rfl := Except.ok.inj scheduled
    rw [updateWorker_eq]
  · cases scheduled

/-- `threads_` does not change until `stop` clears it. -/
theorem Threadpool.exec_threads {τ : Type} (pool : Threadpool τ) (event : Event τ) :
    (pool.exec event).threads = pool.threads ∨ (pool.exec event).threads = [] := by
  cases event with
  | startThread thread => exact .inl rfl
  | schedule task thread =>
      left
      rw [exec, scheduleTask]
      split
      · next scheduled => exact schedule_threads scheduled
      · split <;> rfl
  | dequeue thread =>
      left
      rw [exec, updateWorker_eq]
  | run thread =>
      left
      rw [exec, updateWorker_eq]
  | stop =>
      left
      rw [exec, stop]
      split <;> rfl
  | stopGoes =>
      rw [exec, stopGoes]
      split
      · exact .inr rfl
      · left
        split
        · next scheduled =>
            rw [stopThread] at scheduled
            have kept := schedule_threads scheduled
            exact kept
        · rfl
      · exact .inl rfl
      · exact .inl rfl

/-- What a pool of some size lists is possible. -/
theorem FactoryCall.possible_of_reachable {τ ι : Type} {size : ℕ} {pool : Threadpool τ}
    (reachable : (Threadpool.system τ).Reachable (Threadpool.new size) pool) {threads : List ι}
    (listed : threads.length = pool.threads.length) (id : ι) :
    (FactoryCall.getListener threads id).Possible size := by
  have fewer : pool.threads.length ≤ size := by
    apply reachable.invariant fun pool => pool.threads.length ≤ size
    · exact Nat.le_of_eq List.length_range
    · rintro pool event _ fewer ⟨-, rfl⟩
      rcases pool.exec_threads event with same | cleared
      · rwa [same]
      · rw [cleared]
        exact Nat.zero_le size
  rw [Possible, listed]
  exact fewer

/-! ### The map -/

/-- The entry of a thread. -/
def pointerAt {ι : Type} (threads : List ι) (index : ℕ) : Option (NetServiceListener ι) :=
  threads[index]?.map fun id => ⟨index, id⟩

/-- No two of them are at one address. -/
theorem pointerAt_injective {ι : Type} {threads : List ι} :
    ∀ first < threads.length, ∀ second < threads.length,
      pointerAt threads first = pointerAt threads second → first = second := by
  intro first firstIn second secondIn same
  rw [pointerAt, pointerAt, List.getElem?_eq_getElem firstIn,
    List.getElem?_eq_getElem secondIn] at same
  exact congrArg NetServiceListener.address (Option.some.inj same)

namespace ListenerMap

variable {ι : Type}

/-- The entries for some threads, from an index on. -/
def entries : ℕ → List ι → ListenerMap ι
  | _, [] => []
  | index, id :: ids => (index, some ⟨index, id⟩) :: entries (index + 1) ids

theorem assign_append {map : ListenerMap ι} {key : Int} (greater : ∀ entry ∈ map, entry.1 < key)
    (pointer : Option (NetServiceListener ι)) :
    map.assign key pointer = map ++ [(key, pointer)] := by
  induction map with
  | nil => rfl
  | cons entry rest ih =>
      rcases entry with ⟨other, current⟩
      have below : other < key := greater _ List.mem_cons_self
      rw [assign, if_neg (by omega), if_pos below,
        ih fun entry present => greater entry (List.mem_cons_of_mem _ present)]
      rfl

theorem addListeners_eq {map : ListenerMap ι} {index : ℕ}
    (greater : ∀ entry ∈ map, entry.1 < index) (ids : List ι) :
    NetServiceListenerFactory.addListeners map index ids = map ++ entries index ids := by
  induction ids generalizing map index with
  | nil => exact (List.append_nil map).symm
  | cons id ids ih =>
      rw [NetServiceListenerFactory.addListeners, assign_append greater, ih, List.append_assoc]
      · rfl
      · intro entry present
        rcases List.mem_append.mp present with before | last
        · have below := greater entry before
          omega
        · obtain rfl := List.mem_singleton.mp last
          simp only
          omega

/-- The iterator to an entry. -/
theorem find_entries (start index : ℕ) (ids : List ι) :
    (entries start ids).find (start + index : ℕ) = entries (start + index) (ids.drop index) := by
  induction index generalizing start ids with
  | zero =>
      cases ids with
      | nil => rfl
      | cons id ids => simp [find, entries]
  | succ index ih =>
      cases ids with
      | nil => rfl
      | cons id ids =>
          have different : ((start : Int) != (start + (index + 1) : ℕ)) = true := by
            rw [bne_iff_ne]
            omega
          have next : start + (index + 1) = start + 1 + index := by omega
          rw [find, entries, List.dropWhile_cons, if_pos different, List.drop_succ_cons, next]
          exact ih (start + 1) ids

/-- An entry that is there is read, and the map stays as it is. -/
theorem subscript_entries (start : ℕ) {index : ℕ} {ids : List ι} (inside : index < ids.length) :
    (entries start ids).subscript (start + index : ℕ) =
      (ids[index]?.map fun id => ⟨start + index, id⟩, entries start ids) := by
  induction ids generalizing start index with
  | nil => exact absurd inside (Nat.not_lt_zero index)
  | cons id ids ih =>
      cases index with
      | zero => simp [entries, subscript]
      | succ index =>
          have next : start + (index + 1) = start + 1 + index := by omega
          have later := ih (start + 1) (Nat.lt_of_succ_lt_succ inside)
          rw [entries, subscript, if_neg (by omega), if_pos (by omega), next, later]
          rfl

theorem mem_entries (start : ℕ) (ids : List ι) (pointer : Option (NetServiceListener ι)) :
    pointer ∈ (entries start ids).map Prod.snd ↔
      ∃ index < ids.length, (ids[index]?.map fun id => ⟨start + index, id⟩) = pointer := by
  induction ids generalizing start with
  | nil => simp [entries]
  | cons id ids ih =>
      rw [entries, List.map_cons, List.mem_cons, ih, List.length_cons, Nat.exists_lt_succ_left]
      simp [Nat.add_assoc, Nat.add_comm 1, eq_comm]

end ListenerMap

namespace NetServiceListenerFactory

variable {ι : Type} {threads : List ι} {factory : NetServiceListenerFactory ι}

/-- What holds of a factory for some threads in every state reached. -/
structure Valid (threads : List ι) (factory : NetServiceListenerFactory ι) : Prop where
  listeners : factory.listeners = ListenerMap.entries 0 threads
  lastUsed : factory.lastUsed = -1 ∨ ∃ index < threads.length, factory.lastUsed = index

/-- The index that `get_next_listener` goes to. -/
def cursor (factory : NetServiceListenerFactory ι) (size : ℕ) : ℕ :=
  (factory.lastUsed + 1).toNat % size

theorem cursor_lt (factory : NetServiceListenerFactory ι) {size : ℕ} (nonempty : 0 < size) :
    factory.cursor size < size :=
  Nat.mod_lt _ nonempty

/-- The cursor of the next call. -/
theorem cursor_mk (index size : ℕ) (listeners : ListenerMap ι) :
    cursor ⟨index, listeners⟩ size = (index + 1) % size :=
  rfl

theorem valid_new (threads : List ι) : Valid threads (new threads) where
  listeners := ListenerMap.addListeners_eq (List.forall_mem_nil _) threads
  lastUsed := .inl rfl

theorem Valid.select_eq (valid : Valid threads factory) {index : ℕ}
    (inside : index < threads.length) :
    factory.select index = (pointerAt threads index, ⟨index, factory.listeners⟩) := by
  have entry := ListenerMap.subscript_entries 0 inside
  simp only [Nat.zero_add] at entry
  rw [select, valid.listeners, entry]
  rfl

theorem Valid.selected (valid : Valid threads factory) {index : ℕ}
    (inside : index < threads.length) : Valid threads ⟨index, factory.listeners⟩ where
  listeners := valid.listeners
  lastUsed := .inr ⟨index, inside, rfl⟩

/-- A thread that the pool lists has an index with a listener; with no such thread nothing
changes. -/
theorem Valid.getListener [DecidableEq ι] (valid : Valid threads factory) {listed : List ι}
    (fewer : listed.length ≤ threads.length) (id : ι) :
    Valid threads (factory.getListener listed id).2 := by
  rw [NetServiceListenerFactory.getListener]
  rcases found : listed.findIdx? fun thread => thread = id with _ | index
  · exact valid
  · have inside := (List.findIdx?_eq_some_iff_findIdx_eq.mp found).1
    simp only [valid.select_eq (Nat.lt_of_lt_of_le inside fewer)]
    exact valid.selected (Nat.lt_of_lt_of_le inside fewer)

/-- The next listener is the one at the cursor, which is never outside. -/
theorem Valid.getNextListener (valid : Valid threads factory) (nonempty : 0 < threads.length) :
    factory.getNextListener = some (pointerAt threads (factory.cursor threads.length),
      ⟨factory.cursor threads.length, factory.listeners⟩) := by
  rcases valid.lastUsed with none | ⟨index, inside, last⟩
  · have cursor : factory.cursor threads.length = 0 := by
      rw [NetServiceListenerFactory.cursor, none]
      exact Nat.zero_mod _
    rw [NetServiceListenerFactory.getNextListener, none, if_pos (by decide), cursor,
      ← valid.select_eq nonempty]
    rfl
  · have next : factory.cursor threads.length = (index + 1) % threads.length := by
      rw [NetServiceListenerFactory.cursor, last]
      rfl
    have iter := ListenerMap.find_entries 0 index threads
    rw [Nat.zero_add, List.drop_eq_getElem_cons inside, ListenerMap.entries] at iter
    rw [NetServiceListenerFactory.getNextListener, last, if_neg (by omega), valid.listeners, iter]
    by_cases more : index + 1 < threads.length
    · rw [List.drop_eq_getElem_cons more, ListenerMap.entries]
      rw [next, Nat.mod_eq_of_lt more, ← valid.listeners, ← valid.select_eq more]
    · have wraps : index + 1 = threads.length := by omega
      rw [next, wraps, Nat.mod_self, ← valid.listeners, ← valid.select_eq nonempty,
        List.drop_length]
      have first : factory.listeners.head? = some (0, some ⟨0, threads[0]⟩) := by
        rw [valid.listeners]
        rcases threads with _ | ⟨id, ids⟩
        · exact absurd nonempty (Nat.lt_irrefl 0)
        · rfl
      simp only [ListenerMap.entries, first]
      rfl

/-- A call that throws has looked in vain and moves nothing. -/
theorem getListener_error [DecidableEq ι] {listed : List ι} {id : ι} {what : String}
    (throws : (factory.getListener listed id).1 = .error what) :
    (factory.getListener listed id).2 = factory ∧ what = listenerFactoryMsg ∧ id ∉ listed := by
  rw [NetServiceListenerFactory.getListener] at throws ⊢
  rcases found : listed.findIdx? fun thread => thread = id with _ | index
  · rw [found] at throws
    refine ⟨rfl, (Except.error.inj throws).symm, fun present => ?_⟩
    have vain := List.findIdx?_eq_none_iff.mp found id present
    simp at vain
  · rw [found] at throws
    cases throws

/-! ### Runs -/

theorem Valid.step [DecidableEq ι] (valid : Valid threads factory) (nonempty : 0 < threads.length)
    {call : FactoryCall ι} {next : NetServiceListenerFactory ι}
    (step : (system ι threads.length).step factory call next) : Valid threads next := by
  rcases step with ⟨possible, moved⟩
  cases call with
  | getListener listed id =>
      obtain rfl := Option.some.inj moved
      exact valid.getListener possible id
  | getNextListener =>
      rw [exec, valid.getNextListener nonempty] at moved
      obtain rfl := Option.some.inj moved
      exact valid.selected (factory.cursor_lt nonempty)

theorem valid_of_reachable [DecidableEq ι] (nonempty : 0 < threads.length)
    (reachable : (system ι threads.length).Reachable (new threads) factory) :
    Valid threads factory :=
  reachable.invariant (Valid threads) (valid_new threads) fun _ _ _ valid step =>
    valid.step nonempty step

/-- The run lemma: the listeners take turns, from the cursor on. -/
theorem Valid.nextListeners (valid : Valid threads factory) (nonempty : 0 < threads.length)
    (count : ℕ) :
    ∃ last, factory.nextListeners count =
      some (List.turns (pointerAt threads) threads.length (factory.cursor threads.length) count,
        last) := by
  induction count generalizing factory with
  | zero => exact ⟨factory, rfl⟩
  | succ count ih =>
      have inside := factory.cursor_lt nonempty
      rcases ih (valid.selected inside) with ⟨last, others⟩
      rw [cursor_mk, List.turns_mod] at others
      refine ⟨last, ?_⟩
      rw [NetServiceListenerFactory.nextListeners, valid.getNextListener nonempty, List.turns_succ,
        Nat.mod_eq_of_lt inside]
      simp only [Option.bind_eq_bind, Option.bind_some, others]
      rfl

/-- The listeners that the constructor makes. -/
theorem mem_listeners (threads : List ι) (pointer : Option (NetServiceListener ι)) :
    pointer ∈ (new threads).listeners.map Prod.snd ↔
      ∃ index < threads.length, pointerAt threads index = pointer := by
  have entries := ListenerMap.mem_entries 0 threads pointer
  simp only [Nat.zero_add] at entries
  rw [(valid_new threads).listeners]
  exact entries

/-- Whatever was asked for before, the cursor is at a listener or before the first one, the
listeners of a round are all different, and no listener gets ahead of another one by more than
one call. -/
theorem getNextListener_fair [DecidableEq ι] (nonempty : 0 < threads.length)
    (reachable : (system ι threads.length).Reachable (new threads) factory) :
    (factory.lastUsed = -1 ∨ 0 ≤ factory.lastUsed ∧ factory.lastUsed < threads.length) ∧
      (∃ pointers last, factory.nextListeners threads.length = some (pointers, last) ∧
        pointers.length = threads.length ∧ pointers.Nodup ∧
        pointers ⊆ (new threads).listeners.map Prod.snd) ∧
      ∀ count, ∃ pointers last, factory.nextListeners count = some (pointers, last) ∧
        pointers.length = count ∧
        ∀ first ∈ (new threads).listeners.map Prod.snd,
          ∀ second ∈ (new threads).listeners.map Prod.snd,
            pointers.count first ≤ pointers.count second + 1 := by
  have valid := valid_of_reachable nonempty reachable
  refine ⟨?_, ?_, ?_⟩
  · rcases valid.lastUsed with before | ⟨index, inside, last⟩
    · exact .inl before
    · right
      omega
  · rcases valid.nextListeners nonempty threads.length with ⟨last, round⟩
    refine ⟨_, last, round, List.length_turns _ _ _ _,
      List.nodup_turns pointerAt_injective _ (Nat.le_refl _), ?_⟩
    intro pointer present
    rw [mem_listeners]
    exact List.mem_turns nonempty present
  · intro count
    rcases valid.nextListeners nonempty count with ⟨last, round⟩
    refine ⟨_, last, round, List.length_turns _ _ _ _, ?_⟩
    intro first firstIn second secondIn
    rcases (mem_listeners threads first).mp firstIn with ⟨index, inside, rfl⟩
    rcases (mem_listeners threads second).mp secondIn with ⟨other, otherInside, rfl⟩
    exact List.count_turns_le pointerAt_injective _ _ inside otherInside

/-- A round of three after one listener was asked for by an id, another one in vain, and one by
turns. -/
theorem getNextListener_fair_three :
    let factory : NetServiceListenerFactory ℕ := new [5, 8, 9]
    ∃ pointers last, nextListeners ⟨2, factory.listeners⟩ 3 = some (pointers, last) ∧
      pointers.length = 3 ∧ pointers.Nodup ∧ pointers ⊆ factory.listeners.map Prod.snd := by
  intro factory
  have found : (system ℕ 3).step factory (.getListener [5, 8, 9] 8) ⟨1, factory.listeners⟩ :=
    ⟨Nat.le_refl 3, rfl⟩
  have vain : (system ℕ 3).step ⟨1, factory.listeners⟩ (.getListener [] 5)
      ⟨1, factory.listeners⟩ := ⟨Nat.zero_le 3, rfl⟩
  have turn : (system ℕ 3).step ⟨1, factory.listeners⟩ .getNextListener
      ⟨2, factory.listeners⟩ := ⟨trivial, rfl⟩
  have reachable := (((Lts.Reachable.refl factory).tail found).tail vain).tail turn
  have nonempty : 0 < [5, 8, 9].length := Nat.zero_lt_succ 2
  exact (getNextListener_fair nonempty reachable).2.1

end NetServiceListenerFactory

end Snode.Pool
