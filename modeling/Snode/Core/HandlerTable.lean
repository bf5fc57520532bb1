import Mathlib.Data.List.Induction
import Mathlib.Data.List.Pairwise
import Snode.Core.Startup
import Snode.Pool.Threadpool

/-!
# The table of request handlers

The constructor of `http_service` creates a handler of each registered class for each thread,
and enters it for the paths that no handler of the thread has yet.  Every entry is a
`shared_ptr` made of the bare pointer, so an object is deleted once for each of its entries.
-/

namespace Snode.Core

open Http Pool

/-! ### Registries -/

namespace RegFactory

variable {φ : Type}

/-- The registry after some classes were registered. -/
def ofRegistrations (registrations : List (Bytes × φ)) : RegFactory φ :=
  registrations.foldl (fun factory entry => factory.registrate entry.1 entry.2) OrderedMap.empty

theorem createInstance_ofRegistrations (registrations : List (Bytes × φ)) (name : Bytes) :
    (ofRegistrations registrations).createInstance name =
      (registrations.find? fun entry => entry.1 = name).map Prod.snd := by
  have all (factory : RegFactory φ) :
      (registrations.foldl (fun factory entry => factory.registrate entry.1 entry.2)
          factory).createInstance name =
        (factory.createInstance name).or
          ((registrations.find? fun entry => entry.1 = name).map Prod.snd) := by
    induction registrations generalizing factory with
    | nil => simp
    | cons first registrations ih =>
        rw [List.foldl_cons, ih, createInstance_registrate, List.find?_cons]
        by_cases same : first.1 = name
        · subst same
          rcases factory.createInstance first.1 with _ | func <;> simp
        · simp [same, Ne.symm same]
  rw [ofRegistrations, all]
  rfl

theorem isSome_lookup_iff {β : Type} {map : OrderedMap stringRank β} {name : Bytes} :
    (map.lookup name).isSome = true ↔ ∃ entry ∈ map.entries, entry.1 = name := by
  rw [Option.isSome_iff_exists]
  simp only [OrderedMap.lookup_eq_some_iff, stringRank_injective.eq_iff]
  constructor
  · rintro ⟨_, entry, present, same, -⟩
    exact ⟨entry, present, same⟩
  · rintro ⟨entry, present, same⟩
    exact ⟨entry.2, entry, present, same, rfl⟩

theorem mem_strings_iff {set : StringSet} {name : Bytes} :
    name ∈ set.strings ↔ (set.lookup name).isSome = true := by
  rw [StringSet.strings, List.mem_map, isSome_lookup_iff]

theorem pairwise_strings (set : StringSet) :
    set.strings.Pairwise fun first second => stringRank first < stringRank second :=
  List.pairwise_map.mpr set.sorted

/-- The list of a registry is that of the names there are. -/
theorem mem_getRegList_iff (registry : RegFactory φ) (name : Bytes) :
    name ∈ registry.getRegList.strings ↔ (registry.createInstance name).isSome = true := by
  have all (entries : List (Bytes × φ)) (outlist : StringSet) :
      ((entries.foldl (fun outlist entry => outlist.assign entry.1 ()) outlist).lookup
        name).isSome = true ↔
          (outlist.lookup name).isSome = true ∨ ∃ entry ∈ entries, entry.1 = name := by
    induction entries generalizing outlist with
    | nil => simp
    | cons first entries ih =>
        rw [List.foldl_cons, ih, OrderedMap.lookup_assign]
        simp only [stringRank_injective.eq_iff]
        by_cases same : first.1 = name
        · simp [same]
        · simp [same, Ne.symm same]
  change _ ↔ (registry.lookup name).isSome = true
  rw [mem_strings_iff, getRegList, all, OrderedMap.lookup_empty, isSome_lookup_iff]
  simp

end RegFactory

/-- `http_req_handler`; the objects are numbered as they are created. -/
structure ReqHandler where
  object : ℕ
  name : Bytes
  deriving DecidableEq

/-- The handlers of a thread, by path. -/
abbrev HandlersMap := OrderedMap stringRank ReqHandler

namespace HandlersMap

/-- A turn of the loop for a thread that has handlers. -/
def insertNew (reqHandler : ReqHandler) (handlersMap : HandlersMap) (urlPath : Bytes) :
    HandlersMap :=
  if (handlersMap.find urlPath).isNone then handlersMap.assign urlPath reqHandler else handlersMap

/-- A turn of the loop for a thread that has none. -/
def put (reqHandler : ReqHandler) (handlersMap : HandlersMap) (urlPath : Bytes) : HandlersMap :=
  handlersMap.assign urlPath reqHandler

end HandlersMap

/-- What the constructor works on. -/
structure HandlerTable where
  /-- `handlers_`. -/
  handlers : OrderedMap (id : ThreadId → ℕ) HandlersMap
  /-- How many objects were created. -/
  created : ℕ

namespace HandlerTable

def empty : HandlerTable :=
  ⟨.empty, 0⟩

/-- `create_instance` of a name that is registered. -/
def createInstance (table : HandlerTable) (name : Bytes) : ReqHandler × HandlerTable :=
  (⟨table.created, name⟩, { table with created := table.created + 1 })

/-- A handler is entered for a thread. -/
def enter (table : HandlerTable) (reqHandler : ReqHandler) (paths : List Bytes)
    (thread : ThreadId) : HandlerTable :=
  let handlersMap :=
    match table.handlers.find thread with
    | some entry => paths.foldl (HandlersMap.insertNew reqHandler) entry.2
    | none => paths.foldl (HandlersMap.put reqHandler) .empty
  { table with handlers := table.handlers.assign thread handlersMap }

/-- A turn of the loop over the threads, with `req_handler` at its start and its end. -/
def setThread (name : Bytes) (paths : List Bytes) (state : Option ReqHandler × HandlerTable)
    (thread : ThreadId) : Option ReqHandler × HandlerTable :=
  let (reqHandler, table) :=
    match state.1 with
    | some reqHandler => (reqHandler, state.2)
    | none => state.2.createInstance name
  (none, table.enter reqHandler paths thread)

/-- A turn of the loop over the names. -/
def setName (paths : Bytes → List Bytes) (threads : List ThreadId) (table : HandlerTable)
    (name : Bytes) : HandlerTable :=
  let (reqHandler, table) := table.createInstance name
  if (paths name).isEmpty then table
  else (threads.foldl (setThread name (paths name)) (some reqHandler, table)).2

section Constructor

variable {φ : Type} (factory : RegFactory φ) (urlPath : φ → StringSet)

/-- The paths that the objects of a name give. -/
def pathsOf (name : Bytes) : List Bytes :=
  ((factory.createInstance name).map fun func => (urlPath func).strings).getD []

/-- The constructor of `http_service`. -/
def httpService (threads : List ThreadId) : HandlerTable :=
  factory.getRegList.strings.foldl (setName (pathsOf factory urlPath) threads) empty

end Constructor

/-- The handler of a thread for a path. -/
def handler (table : HandlerTable) (thread : ThreadId) (path : Bytes) : Option ReqHandler :=
  (table.handlers.lookup thread).bind fun handlersMap => handlersMap.lookup path

/-- The objects that are deleted with the table, as often as they are. -/
def deleted (table : HandlerTable) : List ℕ :=
  table.handlers.entries.flatMap fun entry => entry.2.entries.map fun entry => entry.2.object

/-! ### The loop over the paths -/

theorem lookup_put (reqHandler : ReqHandler) (handlersMap : HandlersMap)
    (path other : Bytes) :
    (handlersMap.put reqHandler path).lookup other =
      if other = path then some reqHandler else handlersMap.lookup other := by
  rw [HandlersMap.put, OrderedMap.lookup_assign]
  simp only [stringRank_injective.eq_iff]

theorem lookup_insertNew (reqHandler : ReqHandler) (handlersMap : HandlersMap)
    (path other : Bytes) :
    (handlersMap.insertNew reqHandler path).lookup other =
      (handlersMap.lookup other).or (if other = path then some reqHandler else none) := by
  have put := lookup_put reqHandler handlersMap path other
  rw [HandlersMap.put] at put
  rw [HandlersMap.insertNew]
  by_cases same : other = path
  · subst same
    rw [if_pos rfl]
    rcases found : handlersMap.find other with _ | entry
    · rw [if_pos Option.isNone_none, put, if_pos rfl, OrderedMap.lookup, found]
      rfl
    · rw [if_neg (by simp), OrderedMap.lookup, found]
      rfl
  · rw [if_neg same, Option.or_none]
    split
    · rw [put, if_neg same]
    · rfl

theorem lookup_foldl_insertNew (reqHandler : ReqHandler) (handlersMap : HandlersMap)
    (paths : List Bytes) (path : Bytes) :
    (paths.foldl (HandlersMap.insertNew reqHandler) handlersMap).lookup path =
      (handlersMap.lookup path).or (if path ∈ paths then some reqHandler else none) := by
  induction paths generalizing handlersMap with
  | nil => simp
  | cons first paths ih =>
      rw [List.foldl_cons, ih, lookup_insertNew, Option.or_assoc]
      by_cases same : path = first
      · simp [same]
      · simp [same]

theorem lookup_foldl_put (reqHandler : ReqHandler) (handlersMap : HandlersMap)
    (paths : List Bytes) (path : Bytes) :
    (paths.foldl (HandlersMap.put reqHandler) handlersMap).lookup path =
      if path ∈ paths then some reqHandler else handlersMap.lookup path := by
  induction paths generalizing handlersMap with
  | nil => simp
  | cons first paths ih =>
      rw [List.foldl_cons, ih, lookup_put]
      by_cases later : path ∈ paths
      · simp [later]
      · simp [later]

/-! ### The loop over the threads -/

theorem handler_enter (table : HandlerTable) (reqHandler : ReqHandler) (paths : List Bytes)
    (thread other : ThreadId) (path : Bytes) :
    (table.enter reqHandler paths thread).handler other path =
      if other = thread then
        (table.handler thread path).or (if path ∈ paths then some reqHandler else none)
      else table.handler other path := by
  rw [handler, enter, OrderedMap.lookup_assign]
  by_cases same : other = thread
  · have here : id other = id thread := same
    rw [if_pos here, if_pos same, handler, OrderedMap.lookup, Option.bind_some]
    rcases table.handlers.find thread with _ | entry
    · rw [lookup_foldl_put, OrderedMap.lookup_empty]
      rfl
    · rw [lookup_foldl_insertNew]
      rfl
  · have different : ¬id other = id thread := same
    rw [if_neg different, if_neg same]
    rfl

/-- Each thread gets an object of its own. -/
theorem handler_setThreads (name : Bytes) (paths : List Bytes) {threads : List ThreadId}
    (distinct : threads.Nodup) (table : HandlerTable) :
    let next := (threads.foldl (setThread name paths) (none, table)).2
    next.created = table.created + threads.length ∧
      ∀ thread path, next.handler thread path =
        (table.handler thread path).or
          (if thread ∈ threads ∧ path ∈ paths then
            some ⟨table.created + threads.idxOf thread, name⟩
          else none) := by
  induction threads generalizing table with
  | nil => simp
  | cons first threads ih =>
      rcases List.nodup_cons.mp distinct with ⟨new, others⟩
      let entered : HandlerTable :=
        enter ⟨table.handlers, table.created + 1⟩ ⟨table.created, name⟩ paths first
      rcases ih others entered with ⟨created, handlers⟩
      have counts : entered.created = table.created + 1 := rfl
      refine ⟨?_, fun thread path => ?_⟩
      · change (threads.foldl (setThread name paths) (none, entered)).2.created = _
        rw [created, counts, List.length_cons]
        omega
      · change (threads.foldl (setThread name paths) (none, entered)).2.handler thread path = _
        rw [handlers, handler_enter]
        by_cases same : thread = first
        · subst same
          simp only [new, false_and, if_false, Option.or_none, if_true, List.mem_cons_self,
            true_and, List.idxOf_cons_self, Nat.add_zero]
          rfl
        · have position : (first :: threads).idxOf thread = threads.idxOf thread + 1 :=
            List.idxOf_cons_ne _ (Ne.symm same)
          simp only [same, if_false, List.mem_cons, false_or, position, counts]
          rw [Nat.add_right_comm, Nat.add_assoc]
          rfl

/-! ### The loop over the names -/

section Names

variable (paths : Bytes → List Bytes) {threads : List ThreadId}

theorem handler_setName (distinct : threads.Nodup) (table : HandlerTable) (name : Bytes) :
    let next := setName paths threads table name
    table.created ≤ next.created ∧
      (∀ thread path, thread ∈ threads → path ∈ paths name →
        table.created + threads.idxOf thread < next.created) ∧
      ∀ thread path, next.handler thread path =
        (table.handler thread path).or
          (if thread ∈ threads ∧ path ∈ paths name then
            some ⟨table.created + threads.idxOf thread, name⟩
          else none) := by
  rcases none : paths name with _ | ⟨firstPath, others⟩
  · simp only [setName, none, List.isEmpty_nil, if_true, List.not_mem_nil, and_false, if_false,
      Option.or_none]
    exact ⟨Nat.le_succ _, fun _ _ _ path => path.elim, fun _ _ => rfl⟩
  · rcases threads with _ | ⟨first, threads⟩
    · simp only [setName, none, List.isEmpty_cons, Bool.false_eq_true, if_false, List.foldl_nil,
        List.not_mem_nil, false_and, Option.or_none]
      exact ⟨Nat.le_succ _, fun _ _ thread => thread.elim, fun _ _ => rfl⟩
    · rcases handler_setThreads name (paths name) distinct table with ⟨created, handlers⟩
      have first : setName paths (first :: threads) table name =
          ((first :: threads).foldl (setThread name (paths name)) (Option.none, table)).2 := by
        simp only [setName, none, List.isEmpty_cons, Bool.false_eq_true, if_false]
        rfl
      rw [← none]
      simp only [first]
      refine ⟨?_, fun thread path given _ => ?_, handlers⟩
      · rw [created]
        exact Nat.le_add_right _ _
      · rw [created]
        exact Nat.add_lt_add_left (List.idxOf_lt_length_of_mem given) _

/-- What the table is when some names have been dealt with. -/
structure Built (threads : List ThreadId) (names : List Bytes) (table : HandlerTable) :
    Prop where
  name : ∀ thread path, (table.handler thread path).map ReqHandler.name =
    if thread ∈ threads then names.find? fun name => path ∈ paths name else none
  known : ∀ thread path reqHandler, table.handler thread path = some reqHandler →
    reqHandler.object < table.created
  same : ∀ thread path reqHandler other otherPath otherHandler,
    table.handler thread path = some reqHandler →
      table.handler other otherPath = some otherHandler →
        (reqHandler.object = otherHandler.object ↔
          thread = other ∧ reqHandler.name = otherHandler.name)

theorem built_empty : Built paths threads [] empty where
  name := by simp [handler, empty]
  known := by simp [handler, empty]
  same := by simp [handler, empty]

variable {paths}

theorem Built.entered {names : List Bytes} {table : HandlerTable}
    (built : Built paths threads names table) {thread : ThreadId} {path : Bytes}
    {reqHandler : ReqHandler} (found : table.handler thread path = some reqHandler) :
    thread ∈ threads ∧ reqHandler.name ∈ names := by
  have name := built.name thread path
  rw [found, Option.map_some] at name
  split at name
  · next given => exact ⟨given, List.mem_of_find?_eq_some name.symm⟩
  · cases name

theorem Built.setName (distinct : threads.Nodup) {names : List Bytes} {table : HandlerTable}
    (built : Built paths threads names table) {name : Bytes} (new : name ∉ names) :
    Built paths threads (names ++ [name]) (setName paths threads table name) := by
  rcases handler_setName paths distinct table name with ⟨grows, fresh, handlers⟩
  have cases {thread : ThreadId} {path : Bytes} {reqHandler : ReqHandler}
      (found : (HandlerTable.setName paths threads table name).handler thread path =
        some reqHandler) :
      table.handler thread path = some reqHandler ∨
        thread ∈ threads ∧ path ∈ paths name ∧
          reqHandler = ⟨table.created + threads.idxOf thread, name⟩ := by
    rw [handlers, Option.or_eq_some_iff] at found
    rcases found with before | ⟨-, now⟩
    · exact .inl before
    · split at now
      · next both => exact .inr ⟨both.1, both.2, (Option.some.inj now).symm⟩
      · cases now
  have apart {thread other : ThreadId} {path : Bytes} {old : ReqHandler}
      (found : table.handler thread path = some old) :
      old.object ≠ table.created + threads.idxOf other ∧ old.name ≠ name := by
    have below := built.known _ _ _ found
    refine ⟨by omega, fun same => new ?_⟩
    rw [← same]
    exact (built.entered found).2
  refine ⟨fun thread path => ?_, fun thread path reqHandler found => ?_, ?_⟩
  · have before := built.name thread path
    rw [handlers, Option.map_or, before, List.find?_append]
    by_cases given : thread ∈ threads
    · by_cases serves : path ∈ paths name
      · simp [given, serves]
      · simp [given, serves]
    · simp [given]
  · rcases cases found with before | ⟨given, serves, rfl⟩
    · exact (built.known _ _ _ before).trans_le grows
    · exact fresh thread path given serves
  · intro thread path reqHandler other otherPath otherHandler found otherFound
    rcases cases found with before | ⟨given, -, rfl⟩
    · rcases cases otherFound with otherBefore | ⟨-, -, rfl⟩
      · exact built.same _ _ _ _ _ _ before otherBefore
      · rcases apart before with ⟨object, different⟩
        exact iff_of_false object fun both => different both.2
    · rcases cases otherFound with otherBefore | ⟨otherGiven, -, rfl⟩
      · rcases apart otherBefore with ⟨object, different⟩
        exact iff_of_false (Ne.symm object) fun both => different both.2.symm
      · rw [Nat.add_left_cancel_iff, List.idxOf_inj given, and_iff_left rfl]

theorem built_foldl (distinct : threads.Nodup) {names : List Bytes} (nodup : names.Nodup) :
    Built paths threads names (names.foldl (HandlerTable.setName paths threads) empty) := by
  induction names using List.reverseRecOn with
  | nil => exact built_empty paths
  | append_singleton names name ih =>
      rw [List.nodup_append] at nodup
      rw [List.foldl_append]
      refine (ih nodup.1).setName distinct fun present => ?_
      exact nodup.2.2 name present name (List.mem_singleton_self name) rfl

end Names

/-! ### What is deleted -/

theorem handler_eq_some_iff {table : HandlerTable} {thread : ThreadId} {path : Bytes}
    {reqHandler : ReqHandler} :
    table.handler thread path = some reqHandler ↔ ∃ entry ∈ table.handlers.entries,
      entry.1 = thread ∧ (path, reqHandler) ∈ entry.2.entries := by
  rw [handler, Option.bind_eq_some_iff]
  simp only [OrderedMap.lookup_eq_some_iff, stringRank_injective.eq_iff, id]
  constructor
  · rintro ⟨handlersMap, ⟨entry, present, here, rfl⟩, ⟨_, _⟩, inside, rfl, rfl⟩
    exact ⟨entry, present, here, inside⟩
  · rintro ⟨entry, present, here, inside⟩
    exact ⟨entry.2, ⟨entry, present, here, rfl⟩, _, inside, rfl, rfl⟩

/-- No object is deleted twice if no two entries have the same. -/
theorem nodup_deleted_iff {table : HandlerTable} :
    table.deleted.Nodup ↔ ∀ thread path reqHandler other otherPath otherHandler,
      table.handler thread path = some reqHandler →
        table.handler other otherPath = some otherHandler →
          reqHandler.object = otherHandler.object → thread = other ∧ path = otherPath := by
  rw [deleted, List.nodup_flatMap]
  constructor
  · rintro ⟨inside, apart⟩ thread path reqHandler other otherPath otherHandler found otherFound
      same
    rcases handler_eq_some_iff.mp found with ⟨entry, present, rfl, entered⟩
    rcases handler_eq_some_iff.mp otherFound with ⟨otherEntry, otherPresent, rfl, otherEntered⟩
    by_cases here : entry = otherEntry
    · subst here
      have injective := List.inj_on_of_nodup_map (inside entry present) entered otherEntered same
      exact ⟨rfl, congrArg Prod.fst injective⟩
    · have symmetric : Std.Symm (Function.onFun List.Disjoint
          fun entry : ThreadId × HandlersMap => entry.2.entries.map fun entry => entry.2.object) :=
        ⟨fun _ _ disjoint _ inside otherInside => disjoint otherInside inside⟩
      have disjoint := apart.forall present otherPresent here
      refine (disjoint (List.mem_map_of_mem entered) ?_).elim
      exact List.mem_map.mpr ⟨_, otherEntered, same.symm⟩
  · intro unique
    refine ⟨fun entry present => ?_, ?_⟩
    · refine entry.2.nodup_entries.map_on ?_
      rintro ⟨path, reqHandler⟩ entered ⟨otherPath, otherHandler⟩ otherEntered same
      have found := handler_eq_some_iff.mpr ⟨entry, present, rfl, entered⟩
      have otherFound := handler_eq_some_iff.mpr ⟨entry, present, rfl, otherEntered⟩
      rcases (unique _ _ _ _ _ _ found otherFound same).2 with rfl
      exact entry.2.eq_of_rank_eq entered otherEntered rfl
    · refine table.handlers.sorted.imp_of_mem ?_
      intro entry otherEntry present otherPresent below object inside otherInside
      rcases List.mem_map.mp inside with ⟨⟨path, reqHandler⟩, entered, rfl⟩
      rcases List.mem_map.mp otherInside with ⟨⟨otherPath, otherHandler⟩, otherEntered, same⟩
      have found := handler_eq_some_iff.mpr ⟨entry, present, rfl, entered⟩
      have otherFound := handler_eq_some_iff.mpr ⟨otherEntry, otherPresent, rfl, otherEntered⟩
      have here := (unique _ _ _ _ _ _ found otherFound same.symm).1
      exact absurd here below.ne

/-! ### The whole table -/

theorem find?_eq_some_iff_first {names : List Bytes}
    (sorted : names.Pairwise fun first second => stringRank first < stringRank second)
    (serves : Bytes → Bool) (name : Bytes) :
    names.find? serves = some name ↔ (name ∈ names ∧ serves name = true) ∧
      ∀ other ∈ names, serves other = true → stringRank name ≤ stringRank other := by
  induction names with
  | nil => simp
  | cons first names ih =>
      have behind := (List.pairwise_cons.mp sorted).1
      by_cases here : serves first = true
      · rw [List.find?_cons_of_pos here, Option.some_inj]
        constructor
        · rintro rfl
          refine ⟨⟨List.mem_cons_self, here⟩, fun other present _ => ?_⟩
          rcases List.mem_cons.mp present with rfl | later
          · exact le_rfl
          · exact (behind other later).le
        · rintro ⟨⟨present, -⟩, least⟩
          rcases List.mem_cons.mp present with rfl | later
          · rfl
          · have lower := least first List.mem_cons_self here
            exact absurd (behind name later) lower.not_gt
      · rw [List.find?_cons_of_neg here, ih sorted.of_cons]
        simp only [List.mem_cons]
        constructor
        · rintro ⟨⟨later, serving⟩, least⟩
          refine ⟨⟨.inr later, serving⟩, ?_⟩
          rintro other (rfl | present) otherServing
          · exact absurd otherServing here
          · exact least other present otherServing
        · rintro ⟨⟨rfl | later, serving⟩, least⟩
          · exact absurd serving here
          · exact ⟨⟨later, serving⟩, fun other present => least other (.inr present)⟩

section Registered

variable {φ : Type} (registrations : List (Bytes × φ)) (urlPath : φ → StringSet)

/-- The objects of a name give a path; the first class registered under the name counts. -/
def Serves (name path : Bytes) : Prop :=
  ∃ entry, registrations.find? (fun entry => entry.1 = name) = some entry ∧
    path ∈ (urlPath entry.2).strings

/-- Of the names that serve a path, one is the first. -/
def FirstServes (name path : Bytes) : Prop :=
  Serves registrations urlPath name path ∧
    ∀ other, Serves registrations urlPath other path → stringRank name ≤ stringRank other

theorem serves_iff (name path : Bytes) :
    Serves registrations urlPath name path ↔
      name ∈ (RegFactory.ofRegistrations registrations).getRegList.strings ∧
        path ∈ pathsOf (RegFactory.ofRegistrations registrations) urlPath name := by
  rw [Serves, RegFactory.mem_getRegList_iff, pathsOf,
    RegFactory.createInstance_ofRegistrations]
  constructor
  · rintro ⟨entry, found, path⟩
    rw [found]
    exact ⟨rfl, path⟩
  · rintro ⟨registered, path⟩
    rw [Option.isSome_map, Option.isSome_iff_exists] at registered
    rcases registered with ⟨entry, found⟩
    rw [found] at path
    exact ⟨entry, found, path⟩

variable {threads : List ThreadId}

theorem built_httpService (distinct : threads.Nodup) :
    Built (pathsOf (RegFactory.ofRegistrations registrations) urlPath) threads
      (RegFactory.ofRegistrations registrations).getRegList.strings
      (httpService (RegFactory.ofRegistrations registrations) urlPath threads) := by
  refine built_foldl distinct ?_
  exact (RegFactory.pairwise_strings _).imp fun below same => below.ne (congrArg stringRank same)

/-- The handler that a thread has for a path is of the first name that serves it. -/
theorem handler_name_iff (distinct : threads.Nodup) (thread : ThreadId) (path name : Bytes) :
    (∃ reqHandler,
        (httpService (RegFactory.ofRegistrations registrations) urlPath threads).handler
          thread path = some reqHandler ∧ reqHandler.name = name) ↔
      thread ∈ threads ∧ FirstServes registrations urlPath name path := by
  have built := built_httpService registrations urlPath distinct
  rw [← Option.map_eq_some_iff, built.name]
  by_cases given : thread ∈ threads
  · rw [if_pos given, find?_eq_some_iff_first (RegFactory.pairwise_strings _), FirstServes]
    simp only [serves_iff, decide_eq_true_eq, given, true_and, and_imp]
  · simp [given]

/-- A path is served by the first of the names that serve it, in each thread by an object that
the thread's other paths of the name share and no other thread has. -/
theorem handlers_assigned (distinct : threads.Nodup) :
    let table := httpService (RegFactory.ofRegistrations registrations) urlPath threads
    (∀ thread path name,
        (∃ reqHandler, table.handler thread path = some reqHandler ∧ reqHandler.name = name) ↔
          thread ∈ threads ∧ FirstServes registrations urlPath name path) ∧
      ∀ thread path reqHandler other otherPath otherHandler,
        table.handler thread path = some reqHandler →
          table.handler other otherPath = some otherHandler →
            (reqHandler.object = otherHandler.object ↔
              thread = other ∧ reqHandler.name = otherHandler.name) :=
  ⟨handler_name_iff registrations urlPath distinct,
    (built_httpService registrations urlPath distinct).same⟩

/-- The objects are deleted once each, if no name is the first for two paths. -/
theorem deleted_once_iff (distinct : threads.Nodup) :
    (httpService (RegFactory.ofRegistrations registrations) urlPath threads).deleted.Nodup ↔
      threads = [] ∨ ∀ name path other, FirstServes registrations urlPath name path →
        FirstServes registrations urlPath name other → path = other := by
  have named := handler_name_iff registrations urlPath distinct
  have same := (built_httpService registrations urlPath distinct).same
  rw [nodup_deleted_iff]
  constructor
  · intro once
    rcases threads with _ | ⟨thread, threads⟩
    · exact .inl rfl
    · right
      intro name path other first otherFirst
      have given : thread ∈ thread :: threads := List.mem_cons_self
      rcases (named thread path name).mpr ⟨given, first⟩ with ⟨reqHandler, found, called⟩
      rcases (named thread other name).mpr ⟨given, otherFirst⟩ with
        ⟨otherHandler, otherFound, otherCalled⟩
      have object := (same _ _ _ _ _ _ found otherFound).mpr ⟨rfl, called.trans otherCalled.symm⟩
      exact (once _ _ _ _ _ _ found otherFound object).2
  · intro unique thread path reqHandler other otherPath otherHandler found otherFound object
    rcases (same _ _ _ _ _ _ found otherFound).mp object with ⟨here, called⟩
    rcases (named thread path reqHandler.name).mp ⟨_, found, rfl⟩ with ⟨given, first⟩
    rcases (named other otherPath reqHandler.name).mp ⟨_, otherFound, called.symm⟩ with
      ⟨-, otherFirst⟩
    rcases unique with none | unique
    · rw [none] at given
      cases given
    · exact ⟨here, unique _ _ _ first otherFirst⟩

end Registered

/-- Two classes: the objects of the first give the paths "b" and "c", of the second "b". -/
def urlPathOfTwo (first : Bool) : StringSet :=
  let shared : StringSet := OrderedMap.empty.assign [98] ()
  if first then shared.assign [99] () else shared

theorem handlers_assigned_two :
    FirstServes [([122], true), ([121], false)] urlPathOfTwo [121] [98] := by
  have distinct : [0, 1].Nodup := by decide
  have assigned := handlers_assigned [([122], true), ([121], false)] urlPathOfTwo distinct
  exact ((assigned.1 1 [98] [121]).mp ⟨⟨1, [121]⟩, by decide +kernel, rfl⟩).2

theorem deleted_once_iff_two :
    ¬∀ name path other, FirstServes [([122], false), ([121], true)] urlPathOfTwo name path →
      FirstServes [([122], false), ([121], true)] urlPathOfTwo name other → path = other := by
  intro unique
  have distinct : [0, 1].Nodup := by decide
  have once := deleted_once_iff [([122], false), ([121], true)] urlPathOfTwo distinct
  have twice : ¬(httpService (RegFactory.ofRegistrations [([122], false), ([121], true)])
      urlPathOfTwo [0, 1]).deleted.Nodup := by
    decide +kernel
  exact twice (once.mpr (.inr unique))

end HandlerTable

end Snode.Core
