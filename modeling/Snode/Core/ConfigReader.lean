import Snode.Core.SnodeCore

/-!
# What is read from a configuration

The readers keep what comes before the first child that they refuse, and go on to the next
section all the same.  The error of the last section that has one is reported.
-/

namespace Snode.Core

open Http

/-- The options a section gives, the first of a name for all. -/
def Ptree.option (tree : Ptree) (name : Bytes) : Option Bytes :=
  ((tree.find Sections.options).bind fun options => options.find name).map Ptree.data

/-- The children of a section, if there is one. -/
def Ptree.section_ (tree : Ptree) (key : Bytes) : List (Bytes × Ptree) :=
  ((tree.find key).map Ptree.children).getD []

namespace SnodeConfig

/-! ### Sections -/

section Each

variable {α : Type} (read : Ptree → Except ConfigError α)

/-- What the children describe that come before the first one refused. -/
def kept (children : List (Bytes × Ptree)) : List α :=
  (children.takeWhile fun child => (read child.2).toOption.isSome).filterMap fun child =>
    (read child.2).toOption

/-- Why a child is refused. -/
def refusal (child : Bytes × Ptree) : Option ConfigError :=
  match read child.2 with
  | .ok _ => none
  | .error err => some err

variable {read} in
theorem kept_cons {child : Bytes × Ptree} {value : α} (result : read child.2 = .ok value)
    (children : List (Bytes × Ptree)) :
    kept read (child :: children) = value :: kept read children ∧
      (child :: children).findSome? (refusal read) = children.findSome? (refusal read) := by
  simp [kept, refusal, result, Except.toOption]

variable {read} in
theorem kept_refused {child : Bytes × Ptree} {err : ConfigError}
    (result : read child.2 = .error err) (children : List (Bytes × Ptree)) :
    kept read (child :: children) = [] ∧
      (child :: children).findSome? (refusal read) = some err := by
  simp [kept, refusal, result, Except.toOption]

theorem readEach_eq (found : List α) (children : List (Bytes × Ptree)) :
    readEach read found children =
      (found ++ kept read children, children.findSome? (refusal read)) := by
  induction children generalizing found with
  | nil => simp [readEach, kept]
  | cons child children ih =>
      rw [readEach]
      rcases result : read child.2 with err | value
      · rcases kept_refused result children with ⟨none, refused⟩
        rw [none, refused, List.append_nil]
      · rcases kept_cons result children with ⟨more, same⟩
        rw [more, same]
        simp only [ih, List.append_assoc, List.singleton_append]

/-- All children are read if none is refused. -/
theorem forall₂_kept_iff {children : List (Bytes × Ptree)} {values : List α} :
    List.Forall₂ (fun child value => read child.2 = .ok value) children values ↔
      kept read children = values ∧ children.findSome? (refusal read) = none := by
  induction children generalizing values with
  | nil => simp [kept, eq_comm]
  | cons child children ih =>
      rw [List.forall₂_cons_left_iff]
      rcases result : read child.2 with err | value
      · rcases kept_refused result children with ⟨none, refused⟩
        simp [refused]
      · rcases kept_cons result children with ⟨more, same⟩
        rw [more, same]
        constructor
        · rintro ⟨other, rest, isRead, all, rfl⟩
          rcases Except.ok.inj isRead with rfl
          rcases ih.mp all with ⟨rfl, none⟩
          exact ⟨rfl, none⟩
        · rintro ⟨rfl, none⟩
          exact ⟨value, _, rfl, ih.mpr ⟨rfl, none⟩, rfl⟩

/-- The values are described by the children up to the first that is refused. -/
def ReadUpTo (describes : Ptree → α → Prop) (children : List (Bytes × Ptree)) (values : List α) :
    Prop :=
  ∃ before after, children = before ++ after ∧
    List.Forall₂ (fun child value => describes child.2 value) before values ∧
    ∀ child rest, after = child :: rest → ∃ err, read child.2 = .error err

theorem readUpTo_kept {describes : Ptree → α → Prop}
    (described : ∀ tree value, read tree = .ok value → describes tree value)
    (children : List (Bytes × Ptree)) : ReadUpTo read describes children (kept read children) := by
  induction children with
  | nil => exact ⟨[], [], rfl, .nil, fun child rest more => by cases more⟩
  | cons child children ih =>
      rcases result : read child.2 with err | value
      · refine ⟨[], child :: children, rfl, ?_, ?_⟩
        · rw [(kept_refused result children).1]
          exact .nil
        · rintro first rest same
          rcases (List.cons.inj same).1 with rfl
          exact ⟨err, result⟩
      · rcases ih with ⟨before, after, rfl, all, refused⟩
        refine ⟨child :: before, after, rfl, ?_, refused⟩
        rw [(kept_cons result _).1]
        exact .cons (described _ _ result) all

end Each

variable (translators : Translators)

/-- What is wrong with the streams. -/
def streamsError (tree : Ptree) : Option ConfigError :=
  match tree.find Sections.streams with
  | none => some (.badPath Sections.streams)
  | some section_ =>
      (section_.children.findSome? (refusal (readStream translators))).or
        (if section_.children.isEmpty then some (.runtimeError Sections.errMissingStreams)
          else none)

def servicesError (tree : Ptree) : Option ConfigError :=
  match tree.find Sections.services with
  | none => some (.badPath Sections.services)
  | some section_ => section_.children.findSome? (refusal (readService translators))

variable {translators}

theorem readStreams_eq {config : SnodeConfig} (fresh : config.streams = []) :
    config.readStreams translators =
      { config with
        streams := kept (readStream translators) (config.ptree.section_ Sections.streams)
        err := (streamsError translators config.ptree).or config.err } := by
  rw [readStreams, Ptree.getChild, Ptree.section_, streamsError]
  rcases config.ptree.find Sections.streams with _ | section_
  · simp only [Option.map_none, Option.getD_none, kept, List.takeWhile_nil, List.filterMap_nil,
      Option.some_or, ← fresh]
  · simp only [readEach_eq, fresh, List.nil_append, Option.map_some, Option.getD_some]
    rcases refused : section_.children.findSome? (refusal (readStream translators)) with _ | err
    · have all := (forall₂_kept_iff (readStream translators)).mpr ⟨rfl, refused⟩
      have empty : (kept (readStream translators) section_.children).isEmpty =
          section_.children.isEmpty := by
        rw [Bool.eq_iff_iff, List.isEmpty_iff, List.isEmpty_iff, ← List.length_eq_zero_iff,
          ← List.length_eq_zero_iff, all.length_eq]
      simp only [empty, Option.none_or]
      split <;> rfl
    · rfl

theorem readServices_eq {config : SnodeConfig} (fresh : config.services = []) :
    config.readServices translators =
      { config with
        services := kept (readService translators) (config.ptree.section_ Sections.services)
        err := (servicesError translators config.ptree).or config.err } := by
  rw [readServices, Ptree.getChild, Ptree.section_, servicesError]
  rcases config.ptree.find Sections.services with _ | section_
  · simp only [Option.map_none, Option.getD_none, kept, List.takeWhile_nil, List.filterMap_nil,
      Option.some_or, ← fresh]
  · simp only [readEach_eq, fresh, List.nil_append, Option.map_some, Option.getD_some]
    rcases section_.children.findSome? (refusal (readService translators)) with _ | err
    · rfl
    · rfl

theorem init_new (tree : Ptree) :
    new.init translators (.ok tree) =
      { ptree := tree
        streams := kept (readStream translators) (tree.section_ Sections.streams)
        services := kept (readService translators) (tree.section_ Sections.services)
        err := (servicesError translators tree).or (streamsError translators tree) } := by
  rw [init, readStreams_eq rfl, readServices_eq rfl]
  simp only [new, Option.or_none]

/-- A section whose children are all read. -/
def Described {α : Type} (read : Ptree → Except ConfigError α) (tree : Ptree) (key : Bytes)
    (values : List α) : Prop :=
  ∃ section_, tree.find key = some section_ ∧
    List.Forall₂ (fun child value => read child.2 = .ok value) section_.children values

theorem described_services_iff {tree : Ptree} {services : List NetServiceConfig} :
    Described (readService translators) tree Sections.services services ↔
      servicesError translators tree = none ∧
        kept (readService translators) (tree.section_ Sections.services) = services := by
  rw [Described, servicesError, Ptree.section_]
  rcases tree.find Sections.services with _ | section_
  · simp
  · simp [forall₂_kept_iff, and_comm]

theorem described_streams_iff {tree : Ptree} {streams : List MediaConfig} :
    Described (readStream translators) tree Sections.streams streams ∧ streams ≠ [] ↔
      streamsError translators tree = none ∧
        kept (readStream translators) (tree.section_ Sections.streams) = streams := by
  rw [Described, streamsError, Ptree.section_]
  rcases tree.find Sections.streams with _ | section_
  · simp
  · simp only [Option.some.injEq, exists_eq_left', Option.map_some, Option.getD_some,
      forall₂_kept_iff, Option.or_eq_none_iff]
    constructor
    · rintro ⟨⟨rfl, none⟩, nonempty⟩
      refine ⟨⟨none, if_neg fun empty => nonempty ?_⟩, rfl⟩
      rw [List.isEmpty_iff.mp empty]
      rfl
    · rintro ⟨⟨none, nonempty⟩, rfl⟩
      refine ⟨⟨rfl, none⟩, fun empty => ?_⟩
      have all := (forall₂_kept_iff (readStream translators)).mpr ⟨rfl, none⟩
      rw [empty] at all
      simp [List.forall₂_nil_right_iff.mp all] at nonempty

/-! ### Options -/

theorem lookup_insert (options : OptionsMap) (name other value : Bytes) :
    (options.insert name value).lookup other =
      (options.lookup other).or (if other = name then some value else none) := by
  rw [OptionsMap.insert, OrderedMap.lookup_alter]
  by_cases same : other = name
  · subst same
    rw [if_pos rfl, if_pos rfl]
    rcases options.lookup other with _ | value <;> rfl
  · rw [if_neg (stringRank_injective.eq_iff.not.mpr same), if_neg same, Option.or_none]

theorem lookup_assign (options : OptionsMap) (name other value : Bytes) :
    (options.assign name value).lookup other =
      if other = name then some value else options.lookup other := by
  rw [OrderedMap.lookup_assign]
  simp only [stringRank_injective.eq_iff]

/-- An option that is there stays, and of several in the section the first counts. -/
theorem lookup_getOptions (tree : Ptree) (options : OptionsMap) (name : Bytes) :
    (getOptions tree options).lookup name = (options.lookup name).or (tree.option name) := by
  have all (children : List (Bytes × Ptree)) (options : OptionsMap) :
      (children.foldl (fun options child => options.insert child.1 child.2.data) options).lookup
        name = (options.lookup name).or
          ((children.find? fun child => child.1 = name).map fun child => child.2.data) := by
    induction children generalizing options with
    | nil => simp
    | cons child children ih =>
        rw [List.foldl_cons, ih, lookup_insert, Option.or_assoc, List.find?_cons]
        by_cases same : child.1 = name
        · simp [same]
        · simp [same, Ne.symm same]
  rw [getOptions, Ptree.option]
  rcases tree.find Sections.options with _ | section_
  · simp
  · simp only [all, Option.bind_some, Ptree.find, Option.map_map]
    rfl

/-- What a stream says about itself beside its options, under the names of options. -/
def ownOption (translators : Translators) (tree : Ptree) (name : Bytes) : Option Bytes :=
  let filterClass := tree.getStringOr Sections.streamsFilter []
  if name = Sections.streamsFilter ∧ filterClass ≠ [] then some filterClass
  else if name = Sections.streamsSource then some (tree.getStringOr Sections.streamsSource [])
  else if name = Sections.streamsLive ∧ tree.getIntOr translators Sections.streamsLive 0 ≠ 0 then
    some (ascii "1")
  else none

/-- What a stream is read from. -/
structure DescribesStream (translators : Translators) (tree : Ptree) (stream : MediaConfig) :
    Prop where
  location : tree.getString Sections.streamsLocation = .ok stream.location
  source : tree.getStringOr Sections.streamsSource [] ≠ []
  options : ∀ name, stream.options.lookup name =
    (ownOption translators tree name).or (tree.option name)

theorem describesStream_of_read (tree : Ptree) (stream : MediaConfig)
    (reads : readStream translators tree = .ok stream) :
    DescribesStream translators tree stream := by
  rw [readStream] at reads
  rcases located : tree.getString Sections.streamsLocation with err | location
  · simp [located, bind, Except.bind] at reads
  · by_cases missing : (tree.getStringOr Sections.streamsSource []).isEmpty = true
    · simp [located, missing, bind, Except.bind, throw, throwThe, MonadExceptOf.throw] at reads
    · simp only [located, missing, bind, Except.bind, pure, Except.pure, Bool.false_eq_true,
        if_false, Except.ok.injEq] at reads
      subst reads
      refine ⟨located, List.isEmpty_iff.not.mp missing, fun name => ?_⟩
      rw [lookup_getOptions]
      congr 1
      have live (name : Bytes) :
          (if ¬tree.getIntOr translators Sections.streamsLive 0 = 0 then
            (OrderedMap.empty : OptionsMap).assign Sections.streamsLive (ascii "1")
              else .empty).lookup name =
            if name = Sections.streamsLive ∧
              ¬tree.getIntOr translators Sections.streamsLive 0 = 0 then some (ascii "1")
            else none := by
        split
        · next isLive => simp [lookup_assign, isLive]
        · next notLive => simp [notLive]
      simp only [ownOption, ne_eq]
      by_cases none : tree.getStringOr Sections.streamsFilter [] = []
      · simp only [none, List.isEmpty_nil, if_true, lookup_assign, live, not_true_eq_false,
          and_false, if_false]
      · simp only [none, List.isEmpty_iff, if_false, lookup_assign, live, not_false_eq_true,
          and_true]

/-- What `listen` says: a port, or a host and a port behind the first colon. -/
def Listens (translators : Translators) (hostport host : Bytes) (port : Fin (2 ^ 32)) : Prop :=
  58 ∉ hostport ∧ host = [] ∧ translators.unsigned hostport = some port ∨
    ∃ text, hostport = host ++ 58 :: text ∧ 58 ∉ host ∧ translators.lexicalCast text = some port

/-- What a service is read from. -/
structure DescribesService (translators : Translators) (tree : Ptree)
    (service : NetServiceConfig) : Prop where
  name : tree.getString Sections.serviceName = .ok service.name
  listens : ∃ hostport, tree.getString Sections.serviceHostport = .ok hostport ∧
    Listens translators hostport service.host service.listenPort
  options : ∀ name, service.options.lookup name = tree.option name

theorem describesService_of_read (tree : Ptree) (service : NetServiceConfig)
    (reads : readService translators tree = .ok service) :
    DescribesService translators tree service := by
  have options (name : Bytes) : (getOptions tree .empty).lookup name = tree.option name := by
    rw [lookup_getOptions, OrderedMap.lookup_empty, Option.none_or]
  rw [readService] at reads
  rcases named : tree.getString Sections.serviceName with err | name
  · simp [named, bind, Except.bind] at reads
  · rcases listens : tree.getString Sections.serviceHostport with err | hostport
    · simp [named, listens, bind, Except.bind] at reads
    · simp only [named, listens, bind, Except.bind, pure, Except.pure, List.idxOf_lt_length_iff]
        at reads
      by_cases colon : (58 : UInt8) ∈ hostport
      · rcases List.eq_append_cons_of_mem colon with ⟨host, text, rfl, first⟩
        have position : (host ++ 58 :: text).idxOf 58 = host.length := by
          rw [List.idxOf_append_of_notMem first, List.idxOf_cons_self, Nat.add_zero]
        have behind : (host ++ 58 :: text).drop (host.length + 1) = text := by
          rw [List.drop_append, List.drop_of_length_le (Nat.le_succ _)]
          simp
        rw [if_pos colon, position, behind, List.take_left] at reads
        rcases cast : translators.lexicalCast text with _ | port
        · simp [cast, throw, throwThe, MonadExceptOf.throw] at reads
        · simp only [cast, Except.ok.injEq] at reads
          subst reads
          exact ⟨named, ⟨_, listens, .inr ⟨text, rfl, first, cast⟩⟩, options⟩
      · have heard := listens
        rw [if_neg colon, Ptree.getUnsigned] at reads
        rw [Ptree.getString] at listens
        rcases got : tree.getChild Sections.serviceHostport with err | child
        · simp [got, Except.map] at listens
        · rw [got, Except.map] at listens
          rcases Except.ok.inj listens with rfl
          rcases isPort : translators.unsigned child.data with _ | port
          · simp [got, isPort, bind, Except.bind, throw, throwThe, MonadExceptOf.throw] at reads
          · simp only [got, isPort, bind, Except.bind, pure, Except.pure, Except.ok.injEq] at reads
            subst reads
            exact ⟨named, ⟨_, heard, .inl ⟨colon, rfl, isPort⟩⟩, options⟩

/-- Each section gives what its children describe up to the first one that is refused, whatever is
wrong with the other section.  Of an option that is given twice the first counts, and none of them
overrides what a stream says itself; an error of the services hides one of the streams. -/
theorem init_describes (translators : Translators) (tree : Ptree) :
    let config := new.init translators (.ok tree)
    ReadUpTo (readStream translators) (DescribesStream translators)
        (tree.section_ Sections.streams) config.streams ∧
      ReadUpTo (readService translators) (DescribesService translators)
        (tree.section_ Sections.services) config.services ∧
      config.err = (servicesError translators tree).or (streamsError translators tree) := by
  rw [init_new]
  refine ⟨?_, ?_, rfl⟩
  · exact readUpTo_kept _ describesStream_of_read _
  · exact readUpTo_kept _ describesService_of_read _

end SnodeConfig

/-! ### The program -/

/-- How `main` goes on from a configuration. -/
inductive Outcome where
  /-- The error is printed, and nothing else happens. -/
  | prints (err : ConfigError)
  | throws (err : InitError)
  /-- The core runs, with so many threads. -/
  | runs (core : SnodeCore) (threads : ℕ)

def main (translators : Translators) (network : Network) (file : Except ConfigError Ptree) :
    Outcome :=
  let config := SnodeConfig.new.init translators file
  match config.err with
  | some err => .prints err
  | none =>
      match SnodeCore.init network config.services with
      | .ok core => .runs core (config.threads translators)
      | .error err => .throws err

variable {translators : Translators} {network : Network} {tree : Ptree} {core : SnodeCore}
  {threads : ℕ}

/-- The server runs if and only if every child of both sections is read, there is a stream, and
all the services that it knows can be bound to their ports. -/
theorem main_runs_iff :
    main translators network (.ok tree) = .runs core threads ↔
      ∃ streams services,
        SnodeConfig.Described (SnodeConfig.readStream translators) tree Sections.streams streams ∧
          streams ≠ [] ∧
        SnodeConfig.Described (SnodeConfig.readService translators) tree Sections.services
          services ∧
        SnodeCore.init network services = .ok core ∧
        threads = (tree.getIntOr translators Sections.threads 1 % 2 ^ 32).toNat := by
  rw [main, SnodeConfig.init_new]
  constructor
  · intro runs
    rcases services : SnodeConfig.servicesError translators tree with _ | err
    · rcases streams : SnodeConfig.streamsError translators tree with _ | err
      · rcases SnodeConfig.described_streams_iff.mpr ⟨streams, rfl⟩ with ⟨described, nonempty⟩
        simp only [services, streams, Option.or_none] at runs
        split at runs
        · next core started =>
            rcases Outcome.runs.inj runs with ⟨rfl, rfl⟩
            exact ⟨_, _, described, nonempty,
              SnodeConfig.described_services_iff.mpr ⟨services, rfl⟩, started, rfl⟩
        · cases runs
      · simp [services, streams] at runs
    · simp [services] at runs
  · rintro ⟨streams, services, describedStreams, nonempty, describedServices, starts, rfl⟩
    rcases SnodeConfig.described_streams_iff.mp ⟨describedStreams, nonempty⟩ with ⟨noError, rfl⟩
    rcases SnodeConfig.described_services_iff.mp describedServices with ⟨none, rfl⟩
    simp only [none, noError, Option.or_none, starts]
    rfl

end Snode.Core
