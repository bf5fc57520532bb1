import Snode.Streams.Istream

/-!
# Reading into an allocated block

`read` allocates a block in the target, lets a `getn` on the source fill it, and
commits it when the `getn` has completed.  Before it commits it asks the target to
`acquire` a block, which overwrites the count with the size of what is at the
front of the target.
-/

namespace Snode.Streams

open ProducerConsumerBuffer

/-- The operations on the block of an `alloc`. -/
def Op.Allocates {α η : Type} : Op α η → Prop
  | alloc _ | fill _ | commit _ => True
  | _ => False

namespace ProducerConsumerBuffer

variable {α η : Type}

/-- The block of an `alloc`, and the flag that there is one. -/
def allocation (buffer : ProducerConsumerBuffer α η) : Bool × Option (MemBlock α) :=
  (buffer.alloced, buffer.allocblock)

theorem read_allocation (buffer : ProducerConsumerBuffer α η) (count : ℕ) (advance : Bool) :
    (buffer.read count advance).2.allocation = buffer.allocation := by
  cases advance <;> rfl

theorem fulfillOutstanding_allocation (buffer : ProducerConsumerBuffer α η) :
    buffer.fulfillOutstanding.1.allocation = buffer.allocation :=
  fulfillRequests_keeps read_allocation (fun _ _ => rfl) _ _

end ProducerConsumerBuffer

theorem Op.allocation_eq {α η : Type} [Inhabited α] [CharTraits α] {op : Op α η}
    (keeps : ¬op.Allocates) (buffer : ProducerConsumerBuffer α η) :
    (op.exec buffer).next.allocation = buffer.allocation := by
  have reader (consumes : op.Consumes) : (op.exec buffer).next.allocation = buffer.allocation := by
    apply consumes.keeps
    · exact read_allocation
    · exact fun _ _ => rfl
    · exact fun _ _ => rfl
    · intro buffer count
      simp only [release]
      split <;> rfl
  cases op with
  | sbumpc | sgetc | sgetn | scopy | getn | bumpc | acquireRelease => exact reader trivial
  | alloc | fill | commit => exact (keeps trivial).elim
  | write source =>
      simp only [exec, ProducerConsumerBuffer.write]
      split
      · rfl
      · split
        · rfl
        · exact fulfillOutstanding_allocation _
  | sync =>
      simp only [exec, AsyncStreambuf.sync]
      by_cases writable : (!buffer.canWrite) = true
      · simp only [if_pos writable]
      · simp only [if_neg writable]
        exact fulfillOutstanding_allocation _
  | close input output =>
      have middle : (if input && buffer.canRead then buffer.closeRead else buffer).allocation =
          buffer.allocation := by
        split <;> rfl
      simp only [exec, AsyncStreambuf.close]
      generalize (if input && buffer.canRead then buffer.closeRead else buffer) = between
        at middle ⊢
      split
      · exact (fulfillOutstanding_allocation _).trans middle
      · exact middle

/-- Whose read a request of the source is. -/
inductive Reader where
  | own
  | other
  deriving DecidableEq

/-- A `read` from a source into a target, among whatever others do with the two buffers. -/
structure ReadInto (α : Type) where
  source : Session α Reader
  target : Session α ℕ
  /-- The scheduled calls of `on_read`. -/
  tasks : List ℕ
  /-- The characters the `getn` has taken from the source. -/
  taken : List α
  /-- The counts the block was committed with. -/
  commits : List ℕ
  /-- What the handler of the user was called with. -/
  called : List ℕ

namespace ReadInto

variable {α : Type}

def new (source : Session α Reader) (target : Session α ℕ) : ReadInto α where
  source := source
  target := target
  tasks := []
  taken := []
  commits := []
  called := []

variable [Inhabited α] [CharTraits α]

def targetOp (op : Op α ℕ) (reading : ReadInto α) : ReadInto α :=
  { reading with target := reading.target.exec op }

/-- A completed `getn` of our own has copied its characters to the allocated block. -/
def complete (reading : ReadInto α) (completed : Completed α Reader) : ReadInto α :=
  if completed.request.completionOp = .own then
    { targetOp (.fill completed.copied) reading with
      tasks := reading.tasks ++ [completed.result.toSize]
      taken := reading.taken ++ completed.delivered }
  else
    reading

def sourceOp (op : Op α Reader) (reading : ReadInto α) : ReadInto α :=
  (op.exec reading.source.buffer).completed.foldl complete
    { reading with source := reading.source.exec op }

/-- `getn` on the source; a source that is closed for reading refuses it. -/
def getn (count : ℕ) (reading : ReadInto α) : ReadInto α :=
  let refused := (AsyncStreambuf.getn reading.source.buffer count .own).2.2
  let reading := sourceOp (.getn count .own) reading
  { reading with tasks := reading.tasks ++ refused.map fun handler => handler.2.toSize }

/-- `read`.  A target that can be written to never answers an `alloc` with a null pointer, so the
branch for one is left out. -/
def read (count : ℕ) (reading : ReadInto α) : Except String (ReadInto α) :=
  if !reading.source.buffer.canRead then
    .error "stream buffer not set up for input of data"
  else if !reading.target.buffer.canWrite then
    .error "target not set up for output of data"
  else if count = 0 then
    .ok reading
  else
    match AsyncStreambuf.alloc reading.target.buffer count with
    | .error message => .error message
    | .ok _ => .ok (getn count (targetOp (.alloc count) reading))

/-- `on_read`; `buf` is null, so there is nothing to write where `acquire` fails.  A `commit`
that throws ends it. -/
def onRead (count : ℕ) (reading : ReadInto α) : ReadInto α :=
  if count ≠ 0 then
    match AsyncStreambuf.acquire reading.target.buffer with
    | (false, _) => reading
    | (true, data) =>
        let count := (data.map List.length).getD 0
        match AsyncStreambuf.commit reading.target.buffer count with
        | .error _ => reading
        | .ok _ =>
            { targetOp (.commit count) reading with
              commits := reading.commits ++ [count]
              called := reading.called ++ [count] }
  else
    reading

def runTask (reading : ReadInto α) : ReadInto α :=
  match reading.tasks with
  | [] => reading
  | count :: rest => onRead count { reading with tasks := rest }

/-! ### The others -/

/-- What happens between the call and its completion. -/
inductive Event (α : Type) where
  | source (op : Op α Reader)
  | target (op : Op α ℕ)

def exec (reading : ReadInto α) : Event α → ReadInto α
  | .source op => sourceOp op reading
  | .target op => targetOp op reading

omit [Inhabited α] [CharTraits α] in
/-- The reads of others are not our own. -/
def ByOthers : Op α Reader → Prop
  | .getn _ handler | .bumpc handler => handler = .other
  | _ => True

omit [Inhabited α] [CharTraits α] in
/-- Others do anything with the source, and anything with the target but to its block. -/
def Legal (reading : ReadInto α) : Event α → Prop
  | .source op => ByOthers op ∧ op.Legal reading.source.buffer
  | .target op => ¬op.Allocates ∧ op.Legal reading.target.buffer

def others (α : Type) [Inhabited α] [CharTraits α] : Lts (ReadInto α) (Event α) where
  step reading event next := Legal reading event ∧ next = exec reading event

omit [Inhabited α] [CharTraits α] in
def isOwn (request : EvRequest Reader) : Bool :=
  request.completionOp == .own

/-- Others complete the reads that are our own, or leave them waiting. -/
theorem own_exec {op : Op α Reader} (byOthers : ByOthers op)
    (buffer : ProducerConsumerBuffer α Reader) :
    buffer.requests.filter isOwn =
        ((op.exec buffer).completed.map Completed.request).filter isOwn ++
          (op.exec buffer).next.requests.filter isOwn ∧
      ∀ completed ∈ (op.exec buffer).completed, isOwn completed.request = true →
        completed = (completed.before.complete completed.request).1 := by
  have enqueue (request : EvRequest Reader) (notOwn : isOwn request = false) :
      buffer.requests.filter isOwn =
          ((buffer.enqueueRequest request).2.map Completed.request).filter isOwn ++
            (buffer.enqueueRequest request).1.requests.filter isOwn ∧
        ∀ completed ∈ (buffer.enqueueRequest request).2, isOwn completed.request = true →
          completed = (completed.before.complete completed.request).1 := by
    simp only [enqueueRequest]
    split
    · refine ⟨?_, ?_⟩
      · simp [complete_requests, (complete_request buffer request).1, notOwn]
      · intro completed present own
        rw [List.mem_singleton.mp present, (complete_request buffer request).1, notOwn] at own
        exact (Bool.false_ne_true own).elim
    · simp [notOwn]
  by_cases issues : op.issues = false
  · have serves := op.serves issues buffer
    refine ⟨?_, fun completed present _ => serves.byComplete completed present⟩
    rw [serves.inOrder, List.filter_append]
  · cases op with
    | getn count handler =>
        obtain rfl : handler = .other := byOthers
        simp only [Op.exec, AsyncStreambuf.getn, ProducerConsumerBuffer.getn]
        split
        · split
          · simp
          · exact enqueue _ rfl
        · simp
    | bumpc handler =>
        obtain rfl : handler = .other := byOthers
        simp only [Op.exec, AsyncStreambuf.bumpc, ProducerConsumerBuffer.bumpc]
        split
        · simp
        · exact enqueue _ rfl
    | _ => simp [Op.issues] at issues

/-- Only our own completions count. -/
theorem foldl_complete (completed : List (Completed α Reader)) (reading : ReadInto α) :
    completed.foldl complete reading =
      (completed.filter fun each => isOwn each.request).foldl complete reading := by
  induction completed generalizing reading with
  | nil => rfl
  | cons first rest ih =>
      by_cases own : isOwn first.request = true
      · simp only [List.foldl_cons, List.filter_cons, own, if_true, ih]
      · have other : first.request.completionOp ≠ .own := by simpa [isOwn] using own
        rw [List.foldl_cons, complete, if_neg other, ih]
        simp only [List.filter_cons, own, if_false, Bool.false_eq_true]

/-! ### The block -/

omit [Inhabited α] [CharTraits α] in
/-- The read of the call. -/
def request (count : ℕ) : EvRequest Reader :=
  ⟨count, .advanceOnce, true, .own⟩

omit [Inhabited α] [CharTraits α] in
/-- The `getn` waits, or what it took is in the block and `on_read` is scheduled. -/
inductive Phase (count : ℕ) (block : MemBlock α) (reading : ReadInto α) : Prop where
  | waiting (requests : reading.source.buffer.requests.filter isOwn = [request count])
      (tasks : reading.tasks = []) (taken : reading.taken = [])
  | completed (requests : reading.source.buffer.requests.filter isOwn = [])
      (tasks : reading.tasks = [reading.taken.length]) (short : reading.taken.length ≤ count)
      (copied : block.data.take reading.taken.length = reading.taken)

omit [Inhabited α] [CharTraits α] in
/-- What holds of a call until it completes. -/
structure Begun (count : ℕ) (reading : ReadInto α) : Prop where
  source : reading.source.buffer.Invariant
  target : reading.target.buffer.Invariant
  commits : reading.commits = []
  called : reading.called = []
  block : ∃ block, reading.target.buffer.allocblock = some block ∧ block.size = count ∧
    Phase count block reading

variable {count : ℕ} {reading : ReadInto α}

/-- Our own read completes: its characters are in the block. -/
theorem begun_complete (several : 2 ≤ count) (source : reading.source.buffer.Invariant)
    (target : reading.target.buffer.Invariant) (commits : reading.commits = [])
    (called : reading.called = []) (tasks : reading.tasks = []) (taken : reading.taken = [])
    {block : MemBlock α} (allocated : reading.target.buffer.allocblock = some block)
    (size : block.size = count)
    (requests : reading.source.buffer.requests.filter isOwn = [])
    {found : ProducerConsumerBuffer α Reader} (consistent : found.Consistent) :
    Begun count (complete reading (found.complete (request count)).1) := by
  rcases target.allocOk.2 block (by simp [allocated]) with ⟨wf, -, pos⟩
  have copied : (found.read count true).1.length ≤ count := by
    rw [read_chars consistent, List.length_take]
    exact Nat.min_le_left _ _
  have legal : Op.Legal reading.target.buffer
      (.fill (found.read count true).1 : Op α ℕ) := by
    intro other present
    rw [allocated, Option.mem_some_iff] at present
    rw [← present, size]
    exact copied
  have effect := Op.exec_effect target legal
  rw [request, complete_bulk found several]
  simp only [complete, if_true, targetOp, taken, tasks, Completed.delivered, Completion.toSize,
    List.nil_append]
  refine ⟨source, effect.invariant, commits, called, block.store (found.read count true).1,
    ?_, size, .completed requests rfl copied ?_⟩
  · simp [Session.exec, Op.exec, allocated]
  · simp [MemBlock.store, pos]

theorem Begun.sourceOp (several : 2 ≤ count) (begun : Begun count reading) {op : Op α Reader}
    (byOthers : ByOthers op) (legal : op.Legal reading.source.buffer) :
    Begun count (sourceOp op reading) := by
  rcases begun with ⟨source, target, commits, called, block, allocated, size, phase⟩
  have effect := Op.exec_effect source legal
  rcases own_exec byOthers reading.source.buffer with ⟨own, byComplete⟩
  rw [ReadInto.sourceOp, foldl_complete]
  rw [List.filter_map] at own
  cases phase with
  | completed requests tasks short copied =>
      rw [requests] at own
      rcases List.append_eq_nil_iff.mp own.symm with ⟨none, requestsNext⟩
      have none : ((op.exec reading.source.buffer).completed.filter
          fun each => isOwn each.request) = [] := List.map_eq_nil_iff.mp none
      rw [none]
      exact ⟨effect.invariant, target, commits, called, block, allocated, size,
        .completed requestsNext tasks short copied⟩
  | waiting requests tasks taken =>
      rw [requests] at own
      rcases List.append_eq_singleton_iff.mp own.symm with
        ⟨none, requestsNext⟩ | ⟨one, requestsNext⟩
      · have none : ((op.exec reading.source.buffer).completed.filter
            fun each => isOwn each.request) = [] := List.map_eq_nil_iff.mp none
        rw [none]
        exact ⟨effect.invariant, target, commits, called, block, allocated, size,
          .waiting requestsNext tasks taken⟩
      · rcases List.map_eq_singleton_iff.mp one with ⟨completed, filtered, sameRequest⟩
        have filtered : ((op.exec reading.source.buffer).completed.filter
            fun each => isOwn each.request) = [completed] := filtered
        have present : completed ∈ (op.exec reading.source.buffer).completed ∧
            isOwn completed.request = true := by
          have mem : completed ∈ (op.exec reading.source.buffer).completed.filter
              fun each => isOwn each.request := by rw [filtered]; exact List.mem_singleton_self _
          exact List.mem_filter.mp mem
        have same := byComplete completed present.1 present.2
        have consistent := (effect.served completed present.1).consistent
        rw [sameRequest] at same
        rw [filtered, List.foldl_cons, List.foldl_nil, same]
        apply begun_complete several
        · exact effect.invariant
        · exact target
        · exact commits
        · exact called
        · exact tasks
        · exact taken
        · exact allocated
        · exact size
        · exact requestsNext
        · exact consistent

theorem Begun.targetOp (begun : Begun count reading) {op : Op α ℕ} (keeps : ¬op.Allocates)
    (legal : op.Legal reading.target.buffer) : Begun count (targetOp op reading) := by
  rcases begun with ⟨source, target, commits, called, block, allocated, size, phase⟩
  have effect := Op.exec_effect target legal
  have same : (op.exec reading.target.buffer).next.allocblock = reading.target.buffer.allocblock :=
    congrArg Prod.snd (Op.allocation_eq keeps reading.target.buffer)
  refine ⟨source, effect.invariant, commits, called, block, same.trans allocated, size, ?_⟩
  cases phase with
  | waiting requests tasks taken => exact .waiting requests tasks taken
  | completed requests tasks short copied => exact .completed requests tasks short copied

theorem begun_getn (several : 2 ≤ count) (source : reading.source.buffer.Invariant)
    (target : reading.target.buffer.Invariant) (commits : reading.commits = [])
    (called : reading.called = []) (tasks : reading.tasks = []) (taken : reading.taken = [])
    {block : MemBlock α} (allocated : reading.target.buffer.allocblock = some block)
    (size : block.size = count)
    (requests : reading.source.buffer.requests.filter isOwn = []) :
    Begun count (getn count reading) := by
  have nonzero : count ≠ 0 := by omega
  have effect : Effect reading.source.buffer
      ((Op.getn count .own : Op α Reader).exec reading.source.buffer) :=
    Op.exec_effect source trivial
  by_cases readable : reading.source.buffer.canRead = true
  · have issued : AsyncStreambuf.getn reading.source.buffer count .own =
        ((reading.source.buffer.enqueueRequest (request count)).1,
          (reading.source.buffer.enqueueRequest (request count)).2, []) := by
      simp [AsyncStreambuf.getn, nonzero, readable, ProducerConsumerBuffer.getn, request]
    have invariant : (reading.source.buffer.enqueueRequest (request count)).1.Invariant := by
      have after := effect.invariant
      rw [Op.exec, issued] at after
      exact after
    simp only [getn, ReadInto.sourceOp, Session.exec, Op.exec, issued, List.map_nil,
      List.append_nil]
    rw [enqueueRequest] at invariant ⊢
    by_cases satisfiable : reading.source.buffer.canSatisfy (request count).size = true
    · rw [if_pos satisfiable] at invariant ⊢
      rw [List.foldl_cons, List.foldl_nil]
      apply begun_complete several
      · exact invariant
      · exact target
      · exact commits
      · exact called
      · exact tasks
      · exact taken
      · exact allocated
      · exact size
      · exact (congrArg _ (complete_requests _ _)).trans requests
      · exact source.consistent
    · rw [if_neg satisfiable] at invariant ⊢
      refine ⟨invariant, target, commits, called, block, allocated, size,
        .waiting ?_ tasks taken⟩
      simp [requests, isOwn, request]
  · have refused : AsyncStreambuf.getn reading.source.buffer count .own =
        (reading.source.buffer, [], [(.own, .size 0)]) := by
      simp [AsyncStreambuf.getn, nonzero, readable]
    simp only [getn, ReadInto.sourceOp, Session.exec, Op.exec, refused, List.foldl_nil,
      List.append_nil]
    refine ⟨source, target, commits, called, block, allocated, size,
      .completed requests ?_ ?_ ?_⟩
    · simp [tasks, taken, Completion.toSize]
    · simp [taken]
    · simp [taken]

theorem begun_read {source : Session α Reader} {target : Session α ℕ} (several : 2 ≤ count)
    (sourceInvariant : source.buffer.Invariant) (targetInvariant : target.buffer.Invariant)
    (requests : source.buffer.requests.filter isOwn = [])
    (begins : read count (new source target) = .ok reading) : Begun count reading := by
  have nonzero : count ≠ 0 := by omega
  have effect : Effect target.buffer ((Op.alloc count : Op α ℕ).exec target.buffer) :=
    Op.exec_effect targetInvariant trivial
  simp only [read, new] at begins
  by_cases unreadable : (!source.buffer.canRead) = true
  · simp [unreadable] at begins
  by_cases closed : (!target.buffer.canWrite) = true
  · simp [unreadable, closed] at begins
  by_cases already : target.buffer.alloced = true
  · simp [unreadable, closed, nonzero, AsyncStreambuf.alloc, already] at begins
  simp only [if_neg unreadable, if_neg closed, if_neg nonzero, AsyncStreambuf.alloc,
    if_neg already, Except.ok.injEq] at begins
  rw [← begins]
  apply begun_getn several
  · exact sourceInvariant
  · exact effect.invariant
  · rfl
  · rfl
  · rfl
  · rfl
  · simp [targetOp, Session.exec, Op.exec, AsyncStreambuf.alloc, closed, already,
      ProducerConsumerBuffer.alloc]
    rfl
  · rfl
  · exact requests

theorem Begun.step (several : 2 ≤ count) (begun : Begun count reading) {event : Event α}
    {next : ReadInto α} (step : (others α).step reading event next) : Begun count next := by
  rcases step with ⟨legal, rfl⟩
  cases event with
  | source op => exact begun.sourceOp several legal.1 legal.2
  | target op => exact begun.targetOp legal.1 legal.2

/-! ### The completion -/

omit [Inhabited α] [CharTraits α] in
/-- What is taken from the source is put behind what the target holds (of which a read that waits
on the target may take some), the block is committed once, and the handler is called once. -/
structure Moved (before after : ReadInto α) : Prop where
  appended : before.target.removed ++ before.target.buffer.unread ++ before.taken =
    after.target.removed ++ after.target.buffer.unread
  commits : after.commits = [before.taken.length]
  called : after.called = [before.taken.length]

omit [Inhabited α] [CharTraits α] in
/-- A block that can be acquired is that of a target that can be written to. -/
theorem canWrite_of_acquire {buffer : ProducerConsumerBuffer α ℕ} {data : Option (List α)}
    (acquired : AsyncStreambuf.acquire buffer = (true, data)) : buffer.canWrite = true := by
  by_contra closed
  simp [AsyncStreambuf.acquire, closed] at acquired

theorem Begun.called_runTask (begun : Begun count reading)
    (tasks : reading.tasks = [reading.taken.length])
    (called : (runTask reading).called = [reading.taken.length]) :
    reading.taken ≠ [] ∧ ∃ data,
      AsyncStreambuf.acquire reading.target.buffer = (true, some data) ∧
        data.length = reading.taken.length := by
  have before := begun.called
  simp only [runTask, tasks, onRead] at called
  by_cases none : reading.taken.length = 0
  · simp [none, before] at called
  rw [if_pos none] at called
  refine ⟨fun empty => none (by simp [empty]), ?_⟩
  rcases acquired : AsyncStreambuf.acquire reading.target.buffer with ⟨found, data⟩
  simp only [acquired] at called
  cases found with
  | false => simp [before] at called
  | true =>
      simp only at called
      generalize size : (data.map List.length).getD 0 = count at called
      cases committed : AsyncStreambuf.commit reading.target.buffer count with
      | error message => simp [committed, before] at called
      | ok after =>
          simp only [committed, before, List.nil_append, List.cons.injEq, and_true] at called
          cases data with
          | none => exact (none (called.symm.trans size.symm)).elim
          | some data => exact ⟨data, rfl, size.trans called⟩

theorem Begun.moved_runTask (begun : Begun count reading) {block : MemBlock α}
    (allocated : reading.target.buffer.allocblock = some block)
    (short : reading.taken.length ≤ block.size)
    (copied : block.data.take reading.taken.length = reading.taken)
    (tasks : reading.tasks = [reading.taken.length]) (some : reading.taken ≠ []) {data : List α}
    (acquired : AsyncStreambuf.acquire reading.target.buffer = (true, .some data))
    (same : data.length = reading.taken.length) : Moved reading (runTask reading) := by
  have nonzero : reading.taken.length ≠ 0 := by simpa using some
  have canWrite := canWrite_of_acquire acquired
  have alloced : reading.target.buffer.alloced = true := by
    rw [begun.target.allocOk.1, allocated]
    rfl
  have legal : Op.Legal reading.target.buffer (.commit reading.taken.length : Op α ℕ) := by
    intro other present
    rw [allocated, Option.mem_some_iff] at present
    rw [← present]
    exact short
  have moved := (Op.exec_effect begun.target legal).moved
  have stored : ((Op.commit reading.taken.length).exec reading.target.buffer).stored =
      reading.taken := by
    simp [Op.exec, AsyncStreambuf.commit, canWrite, alloced, allocated, copied]
  rw [stored] at moved
  simp only [runTask, tasks, onRead, if_pos nonzero, acquired, Option.map_some, Option.getD_some,
    same, AsyncStreambuf.commit, canWrite, alloced, if_true, Bool.not_true, Bool.false_eq_true,
    if_false]
  refine ⟨?_, ?_, ?_⟩
  · rw [List.append_assoc, moved]
    exact (List.append_assoc _ _ _).symm
  · simp [begun.commits]
  · simp [begun.called]

/-- When `read` completes it has done what it should exactly if it took something and the block
at the front of the target happens to hold as many characters as it took. -/
theorem read_moves_iff {sourceSize targetSize : ℕ} {source : Session α Reader}
    {target : Session α ℕ} {begun : ReadInto α}
    (sourceReached : (Session.system α Reader).Reachable (.new sourceSize) source)
    (targetReached : (Session.system α ℕ).Reachable (.new targetSize) target)
    (requests : ∀ waiting ∈ source.buffer.requests, waiting.completionOp = .other)
    (several : 2 ≤ count) (begins : read count (new source target) = .ok begun)
    (reachable : (others α).Reachable begun reading) (completes : reading.tasks ≠ []) :
    Moved reading (runTask reading) ↔
      reading.taken ≠ [] ∧ ∃ data,
        AsyncStreambuf.acquire reading.target.buffer = (true, some data) ∧
          data.length = reading.taken.length := by
  rcases Session.reachable_refines sourceReached with ⟨-, sourceInvariant, -⟩
  rcases Session.reachable_refines targetReached with ⟨-, targetInvariant, -⟩
  have none : source.buffer.requests.filter isOwn = [] := by
    rw [List.filter_eq_nil_iff]
    intro waiting present
    simp [isOwn, requests waiting present]
  have isBegun : Begun count reading :=
    reachable.invariant (Begun count) (begun_read several sourceInvariant targetInvariant none begins)
      fun _ _ _ begun step => begun.step several step
  rcases isBegun.block with ⟨block, allocated, size, phase⟩
  cases phase with
  | waiting requests tasks taken => exact (completes tasks).elim
  | completed requests tasks short copied =>
      constructor
      · intro moved
        exact isBegun.called_runTask tasks moved.called
      · rintro ⟨some, data, acquired, same⟩
        exact isBegun.moved_runTask allocated (size.symm ▸ short) copied tasks some acquired same

/-- A source that holds two characters. -/
def twoInSource : Session UInt8 Reader :=
  (Session.new 2).exec (.write [1, 2])

/-- Two characters are read into a target that holds two others. -/
theorem read_moves_iff_two :
    ∃ reading, read 2 (new twoInSource ((Session.new 2).exec (.write [8, 9]))) = .ok reading ∧
      Moved reading (runTask reading) := by
  have source : (Session.system UInt8 Reader).Reachable (.new 2) twoInSource :=
    Session.reachable_exec (.refl _) trivial
  have target : (Session.system UInt8 ℕ).Reachable (.new 2)
      ((Session.new 2).exec (.write [8, 9])) := Session.reachable_exec (.refl _) trivial
  refine ⟨_, rfl, ?_⟩
  apply (read_moves_iff source target (by decide +kernel) (Nat.le_refl 2) rfl (.refl _)
    (by decide +kernel)).mpr
  exact ⟨by decide +kernel, [8, 9], by decide +kernel, by decide +kernel⟩

/-- The same read into an empty target: there is no block to acquire, so nothing is committed
and the handler is not called. -/
theorem not_moves_empty :
    ∃ reading, read 2 (new twoInSource (Session.new 2)) = .ok reading ∧
      reading.tasks = [2] ∧ reading.taken = [1, 2] ∧ ¬Moved reading (runTask reading) := by
  refine ⟨_, rfl, by decide +kernel, by decide +kernel, ?_⟩
  intro moved
  exact absurd moved.called (by decide +kernel)

end ReadInto

end Snode.Streams
