import Mathlib.Data.List.Nodup
import Snode.Streams.EndOfStream

/-!
# Calls and their handlers

The asynchronous operations of a buffer with the handlers they are given.  A
call is scheduled as a task, waits as a request in the buffer, or is completed
at once by a task that runs its handler.  Handlers are numbered in the order of
the calls, so that each can be followed through these places.
-/

namespace Snode.Streams

open ProducerConsumerBuffer

namespace Op

variable {α η : Type}

/-- The operations that may leave a request in the buffer. -/
def issues : Op α η → Bool
  | getn _ _ | bumpc _ => true
  | _ => false

/-- What the calls of a machine leave to be done directly: neither a read with a handler nor a
write, which is run by a task. -/
def direct : Op α η → Bool
  | getn _ _ | bumpc _ | write _ => false
  | _ => true

variable [Inhabited α] [CharTraits α]

/-- Reads that do not wait complete no others. -/
theorem Consumes.requests_eq {op : Op α η} (consumes : op.Consumes) (notIssues : op.issues = false)
    (buffer : ProducerConsumerBuffer α η) :
    (op.exec buffer).completed = [] ∧ (op.exec buffer).next.requests = buffer.requests := by
  cases op with
  | write | alloc | fill | commit | sync | close => exact consumes.elim
  | getn | bumpc => simp [issues] at notIssues
  | sbumpc =>
      simp only [exec, AsyncStreambuf.sbumpc, ProducerConsumerBuffer.sbumpc]
      refine ⟨trivial, ?_⟩
      split
      · rfl
      · split
        · simp only [AsyncStreambuf.checkSyncReadEof, readByte_snd, read_requests]
        · rfl
  | sgetc =>
      simp only [exec, AsyncStreambuf.sgetc, ProducerConsumerBuffer.sgetc]
      refine ⟨trivial, ?_⟩
      split
      · rfl
      · split
        · simp only [AsyncStreambuf.checkSyncReadEof, readByte_snd, read_requests]
        · rfl
  | sgetn count =>
      simp only [exec, AsyncStreambuf.sgetn, ProducerConsumerBuffer.sgetn]
      refine ⟨trivial, ?_⟩
      split
      · split
        · rfl
        · split
          · exact read_requests _ _ _
          · rfl
      · rfl
  | scopy count =>
      simp only [exec, AsyncStreambuf.scopy, ProducerConsumerBuffer.scopy]
      refine ⟨trivial, ?_⟩
      split
      · rfl
      · split
        · exact read_requests _ _ _
        · rfl
  | acquireRelease guarded count =>
      simp only [exec]
      rcases acquiredEq : acquired buffer guarded with _ | chars
      · exact ⟨rfl, rfl⟩
      · rcases acquired_eq_some acquiredEq with ⟨front, rest, blocks, -, releasedEq⟩
        simp only [releasedEq, release, blocks]
        exact ⟨trivial, rfl⟩

/-- Whatever is done to a buffer, the waiting reads are left alone or fulfilled. -/
theorem fulfils (op : Op α η) (notIssues : op.issues = false)
    (buffer : ProducerConsumerBuffer α η) :
    ((op.exec buffer).completed = [] ∧ (op.exec buffer).next.requests = buffer.requests) ∨
      ∃ middle : ProducerConsumerBuffer α η,
        (op.exec buffer).completed = (fulfillRequests buffer.requests middle).2 ∧
        (op.exec buffer).next.requests = (fulfillRequests buffer.requests middle).1.requests ∧
        middle.totalRead = buffer.totalRead := by
  rcases op.role with consumes | produces | ⟨output, rfl⟩
  · exact .inl (consumes.requests_eq notIssues buffer)
  · rcases produces.fulfils buffer with idle | ⟨middle, completed, requests, -, -, totalRead⟩
    · exact .inl idle
    · exact .inr ⟨middle, completed, requests, totalRead⟩
  · have same :
        (if true && buffer.canRead then buffer.closeRead else buffer).requests =
            buffer.requests ∧
          (if true && buffer.canRead then buffer.closeRead else buffer).totalRead =
            buffer.totalRead := by
      split <;> exact ⟨rfl, rfl⟩
    simp only [exec, AsyncStreambuf.close]
    generalize (if true && buffer.canRead then buffer.closeRead else buffer) = middle at same ⊢
    rw [← same.1]
    split
    · exact .inr ⟨_, rfl, rfl, same.2⟩
    · exact .inl ⟨rfl, rfl⟩

theorem serves (op : Op α η) (notIssues : op.issues = false)
    (buffer : ProducerConsumerBuffer α η) :
    Serves buffer.requests (op.exec buffer).completed (op.exec buffer).next.requests := by
  rcases op.fulfils notIssues buffer with
    ⟨completed, requests⟩ | ⟨middle, completed, requests, -⟩
  · rw [completed, requests]
    exact ⟨rfl, by simp⟩
  · rw [completed, requests]
    exact fulfillRequests_serves _ _

end Op

/-- A call with a handler. -/
inductive Call (α : Type) where
  | putc (character : α)
  | putn (source : List α)
  | getn (count : ℕ)
  | bumpc
  deriving DecidableEq

namespace Call

variable {α : Type}

/-- A transfer of no characters, which the guards of `putn` and `getn` drop with its handler. -/
def silent : Call α → Bool
  | putn source => source.isEmpty
  | getn count => count == 0
  | putc _ | bumpc => false

end Call

/-- What is scheduled by `async_task::connect`. -/
inductive CallTask (α : Type) where
  /-- The `write_fn` of a `putc` or a `putn`, which calls the handler itself. -/
  | putc (character : α) (handler : ℕ)
  | putn (source : List α) (handler : ℕ)
  | complete (handler : ℕ) (result : Completion α)

namespace CallTask

variable {α : Type}

def handler : CallTask α → ℕ
  | putc _ handler | putn _ handler | complete handler _ => handler

/-- The task that completes a request. -/
def ofCompleted (completed : Completed α ℕ) : CallTask α :=
  .complete completed.request.completionOp completed.result

/-- The task of a handler whose operation a guard refused. -/
def ofRefused (refused : ℕ × Completion α) : CallTask α :=
  .complete refused.1 refused.2

end CallTask

inductive CallEvent (α : Type) where
  | call (call : Call α)
  | runTask
  | op (op : Op α ℕ)

namespace CallEvent

variable {α : Type}

def silent : CallEvent α → Bool
  | .call made => made.silent
  | .runTask | .op _ => false

end CallEvent

/-- A buffer with the calls that were made on it. -/
structure Calls (α : Type) where
  buffer : ProducerConsumerBuffer α ℕ
  tasks : List (CallTask α)
  /-- The handlers that were called, and what with. -/
  called : List (ℕ × Completion α)
  /-- How many calls were made; the next handler has this number. -/
  issued : ℕ

namespace Calls

variable {α : Type}

def new (allocSize : ℕ) : Calls α where
  buffer := ProducerConsumerBuffer.new allocSize
  tasks := []
  called := []
  issued := 0

/-- `async_task::connect`. -/
def connect (calls : Calls α) (tasks : List (CallTask α)) : Calls α :=
  { calls with tasks := calls.tasks ++ tasks }

/-- A read: the tasks of those it completes, or of its own handler if it is refused. -/
def read (calls : Calls α)
    (outcome :
      ProducerConsumerBuffer α ℕ × List (Completed α ℕ) × List (ℕ × Completion α)) : Calls α :=
  { calls with buffer := outcome.1 }.connect
    (outcome.2.1.map CallTask.ofCompleted ++ outcome.2.2.map CallTask.ofRefused)

/-- The guards of `async_streambuf` and the operations behind them. -/
def make (calls : Calls α) (handler : ℕ) : Call α → Calls α
  | .putc character =>
      if !calls.buffer.canWrite then calls.connect [.complete handler (.ch .eof)]
      else calls.connect [.putc character handler]
  | .putn source =>
      if source.length ≠ 0 then
        if !calls.buffer.canWrite then calls.connect [.complete handler (.size 0)]
        else calls.connect [.putn source handler]
      else
        calls
  | .getn count => calls.read (AsyncStreambuf.getn calls.buffer count handler)
  | .bumpc => calls.read (AsyncStreambuf.bumpc calls.buffer handler)

variable [Inhabited α] [CharTraits α]

/-- A write and the handler behind it. -/
def runWrite (calls : Calls α) (source : List α) (handler : ℕ) (result : ℕ → Completion α) :
    Calls α :=
  let (count, next, completed) := calls.buffer.write source
  connect
    { calls with
      buffer := next
      called := calls.called ++ [(handler, result count)] }
    (completed.map CallTask.ofCompleted)

def runTask (calls : Calls α) : Calls α :=
  match calls.tasks with
  | [] => calls
  | .putc character handler :: rest =>
      { calls with tasks := rest }.runWrite [character] handler fun count =>
        .ch (if count ≠ 0 then .char character else .eof)
  | .putn source handler :: rest => { calls with tasks := rest }.runWrite source handler .size
  | .complete handler result :: rest =>
      { calls with tasks := rest, called := calls.called ++ [(handler, result)] }

def exec (calls : Calls α) : CallEvent α → Calls α
  | .call call => { calls.make calls.issued call with issued := calls.issued + 1 }
  | .runTask => calls.runTask
  | .op op =>
      let outcome := op.exec calls.buffer
      { calls with buffer := outcome.next }.connect (outcome.completed.map CallTask.ofCompleted)

def Legal (calls : Calls α) : CallEvent α → Prop
  | .call _ => True
  | .runTask => calls.tasks ≠ []
  | .op op => op.direct = true ∧ op.Legal calls.buffer

/-- Calls, tasks and other operations on the buffer in any order. -/
def system (α : Type) [Inhabited α] [CharTraits α] : Lts (Calls α) (CallEvent α) where
  step calls event next := calls.Legal event ∧ next = calls.exec event

/-! ### Where a handler is -/

/-- The handlers that were called, then those that are scheduled, then those that wait. -/
def handlers (calls : Calls α) : List ℕ :=
  calls.called.map Prod.fst ++ calls.tasks.map CallTask.handler ++
    calls.buffer.requests.map EvRequest.completionOp

/-- The handler of the next call, unless the call is silent. -/
def issuedBy (calls : Calls α) : CallEvent α → List ℕ
  | .call call => if call.silent then [] else [calls.issued]
  | .runTask | .op _ => []

variable {calls : Calls α} {next : Calls α} {event : CallEvent α}

omit [Inhabited α] [CharTraits α] in
theorem count_handlers (calls : Calls α) (handler : ℕ) :
    calls.handlers.count handler =
      (calls.called.map Prod.fst).count handler + (calls.tasks.map CallTask.handler).count handler +
        (calls.buffer.requests.map EvRequest.completionOp).count handler := by
  simp only [handlers, List.count_append]

omit [Inhabited α] [CharTraits α] in
/-- Requests that are completed move from the queue to the tasks. -/
theorem count_served {waiting later : List (EvRequest ℕ)} {completed : List (Completed α ℕ)}
    (serves : Serves waiting completed later) (handler : ℕ) :
    (waiting.map EvRequest.completionOp).count handler =
      ((completed.map CallTask.ofCompleted).map CallTask.handler).count handler +
        (later.map EvRequest.completionOp).count handler := by
  rw [serves.inOrder, List.map_append, List.count_append, List.map_map, List.map_map]
  rfl

theorem count_runWrite (calls : Calls α) (source : List α) (own : ℕ)
    (result : ℕ → Completion α) (handler : ℕ) :
    (calls.runWrite source own result).handlers.count handler =
      calls.handlers.count handler + [own].count handler := by
  have served := count_served (Op.serves (.write source : Op α ℕ) rfl calls.buffer) handler
  simp only [Op.exec] at served
  simp only [count_handlers, runWrite, connect, List.map_append, List.count_append, served,
    List.map_cons, List.map_nil]
  omega

theorem count_runTask (calls : Calls α) (handler : ℕ) :
    calls.runTask.handlers.count handler = calls.handlers.count handler := by
  rcases tasks : calls.tasks with _ | ⟨task, rest⟩
  · simp only [runTask, tasks]
  · cases task with
    | putc character own =>
        simp only [runTask, tasks, count_runWrite]
        simp only [count_handlers, tasks, List.map_cons, CallTask.handler, List.count_cons]
        simp only [List.count_nil]
        omega
    | putn source own =>
        simp only [runTask, tasks, count_runWrite]
        simp only [count_handlers, tasks, List.map_cons, CallTask.handler, List.count_cons]
        simp only [List.count_nil]
        omega
    | complete own result =>
        simp only [runTask, tasks, count_handlers, List.map_cons, CallTask.handler,
          List.map_append, List.count_append, List.count_cons, List.map_nil, List.count_nil]
        omega

omit [Inhabited α] [CharTraits α] in
/-- A request that is made is completed or waits. -/
theorem count_enqueue (calls : Calls α) (request : EvRequest ℕ) (handler : ℕ) :
    (calls.read ((calls.buffer.enqueueRequest request).1,
        (calls.buffer.enqueueRequest request).2, [])).handlers.count handler =
      calls.handlers.count handler + [request.completionOp].count handler := by
  simp only [read, connect, count_handlers, List.map_append, List.map_nil, List.append_nil,
    List.count_append, enqueueRequest]
  split
  · simp only [List.map_cons, List.map_nil, CallTask.ofCompleted, CallTask.handler,
      (complete_request calls.buffer request).1, complete_requests]
    omega
  · simp only [List.map_nil, List.map_append, List.map_cons, List.count_append, List.count_nil]
    omega

omit [Inhabited α] [CharTraits α] in
/-- A call that is not silent has its handler somewhere. -/
theorem count_make (calls : Calls α) (own : ℕ) {call : Call α} (loud : call.silent = false)
    (handler : ℕ) :
    (calls.make own call).handlers.count handler =
      calls.handlers.count handler + [own].count handler := by
  have connected (task : CallTask α) (is : task.handler = own) :
      (calls.connect [task]).handlers.count handler =
        calls.handlers.count handler + [own].count handler := by
    simp only [connect, count_handlers, List.map_append, List.map_cons, List.map_nil, is,
      List.count_append]
    omega
  have refused (result : Completion α) :
      (calls.read (calls.buffer, [], [(own, result)])).handlers.count handler =
        calls.handlers.count handler + [own].count handler :=
    connected (.complete own result) rfl
  cases call with
  | putc character =>
      simp only [make]
      split
      · exact connected _ rfl
      · exact connected _ rfl
  | putn source =>
      have nonempty : source.length ≠ 0 := by simpa [Call.silent] using loud
      simp only [make, if_pos nonempty]
      split
      · exact connected _ rfl
      · exact connected _ rfl
  | getn count =>
      have nonzero : count ≠ 0 := by simpa [Call.silent] using loud
      simp only [make, AsyncStreambuf.getn, if_pos nonzero]
      split
      · exact refused _
      · exact count_enqueue calls ⟨count, .advanceOnce, true, own⟩ handler
  | bumpc =>
      simp only [make, AsyncStreambuf.bumpc]
      split
      · exact refused _
      · exact count_enqueue calls ⟨1, .advanceOnce, false, own⟩ handler

omit [Inhabited α] [CharTraits α] in
/-- A silent call does nothing, with its handler neither. -/
theorem make_silent (calls : Calls α) (own : ℕ) {call : Call α} (silent : call.silent = true) :
    calls.make own call = calls := by
  cases call with
  | putc | bumpc => simp [Call.silent] at silent
  | putn source =>
      have empty : source = [] := by simpa [Call.silent] using silent
      simp [make, empty]
  | getn count =>
      have zero : count = 0 := by simpa [Call.silent] using silent
      simp [make, zero, AsyncStreambuf.getn, read, connect]

/-- The step lemma: a handler stays where it is or goes where it is called, and the only new one
is that of the call. -/
theorem count_exec (legal : calls.Legal event) (handler : ℕ) :
    (calls.exec event).handlers.count handler =
      calls.handlers.count handler + (calls.issuedBy event).count handler := by
  cases event with
  | call call =>
      cases silent : call.silent with
      | false =>
          simp only [exec, issuedBy, silent, Bool.false_eq_true, if_false]
          exact count_make calls calls.issued silent handler
      | true =>
          simp only [exec, issuedBy, silent, if_true, make_silent calls calls.issued silent]
          rfl
  | runTask =>
      simp only [issuedBy, List.count_nil, Nat.add_zero]
      exact count_runTask calls handler
  | op op =>
      have notIssues : op.issues = false := by
        cases op <;> first | rfl | exact (Bool.false_ne_true legal.1).elim
      have served := count_served (op.serves notIssues calls.buffer) handler
      simp only [exec, connect, count_handlers, List.map_append, List.count_append, served,
        issuedBy, List.count_nil]
      omega

/-! ### Runs -/

theorem invariant_write {buffer : ProducerConsumerBuffer α ℕ} (invariant : buffer.Invariant)
    (source : List α) : (buffer.write source).2.1.Invariant := by
  have effect : Effect buffer ((Op.write source).exec buffer) := Op.exec_effect invariant trivial
  exact effect.invariant

theorem invariant_exec (invariant : calls.buffer.Invariant) (legal : calls.Legal event) :
    (calls.exec event).buffer.Invariant := by
  cases event with
  | call call =>
      cases call with
      | putc character =>
          simp only [exec, make]
          split <;> exact invariant
      | putn source =>
          simp only [exec, make]
          split
          · split <;> exact invariant
          · exact invariant
      | getn count =>
          have effect : Effect calls.buffer ((Op.getn count calls.issued).exec calls.buffer) :=
            Op.exec_effect invariant trivial
          exact effect.invariant
      | bumpc =>
          have effect : Effect calls.buffer ((Op.bumpc calls.issued).exec calls.buffer) :=
            Op.exec_effect invariant trivial
          exact effect.invariant
  | runTask =>
      rcases tasks : calls.tasks with _ | ⟨task, rest⟩
      · exact (legal tasks).elim
      · simp only [exec, runTask, tasks]
        cases task with
        | putc character own => exact invariant_write invariant _
        | putn source own => exact invariant_write invariant _
        | complete own result => exact invariant
  | op op => exact (Op.exec_effect invariant legal.2).invariant

/-- After some events: a handler that was given out is in one place at most, and all of them are
somewhere exactly when no call was silent. -/
structure Accounted (events : List (CallEvent α)) (calls : Calls α) : Prop where
  invariant : calls.buffer.Invariant
  once : ∀ handler, calls.handlers.count handler ≤ 1
  issued : ∀ handler, calls.issued ≤ handler → calls.handlers.count handler = 0
  loud : (∀ event ∈ events, event.silent = false) ↔
    ∀ handler < calls.issued, calls.handlers.count handler = 1

/-- A call that is not silent gives its handler a place. -/
theorem Accounted.loudCall {events : List (CallEvent α)} {call : Call α}
    (accounted : Accounted events calls) (legal : calls.Legal (.call call))
    (silent : call.silent = false) :
    Accounted (events ++ [.call call]) (calls.exec (.call call)) := by
  rcases accounted with ⟨invariant, once, issued, loud⟩
  have nextIssued : (calls.exec (.call call)).issued = calls.issued + 1 := rfl
  have atIssued := issued calls.issued le_rfl
  have counts (handler : ℕ) : (calls.exec (.call call)).handlers.count handler =
      calls.handlers.count handler + if calls.issued = handler then 1 else 0 := by
    rw [count_exec legal]
    simp [issuedBy, silent, List.count_singleton]
  refine ⟨invariant_exec invariant legal, fun handler => ?_, fun handler after => ?_, ?_⟩
  · rw [counts]
    rcases eq_or_ne calls.issued handler with rfl | other
    · simp [atIssued]
    · simpa [other] using once handler
  · rw [counts, issued handler (by omega), if_neg (by omega)]
  · have quiet : (∀ event ∈ events ++ [.call call], event.silent = false) ↔
        ∀ event ∈ events, event.silent = false := by
      simp [or_imp, forall_and, CallEvent.silent, silent]
    rw [quiet, loud]
    constructor
    · intro all handler before
      rw [counts]
      rcases eq_or_ne calls.issued handler with rfl | other
      · simp [atIssued]
      · simpa [other] using all handler (by omega)
    · intro all handler before
      have there := all handler (by omega)
      rwa [counts, if_neg (by omega), Nat.add_zero] at there

/-- A silent call gives its handler none. -/
theorem Accounted.silentCall {events : List (CallEvent α)} {call : Call α}
    (accounted : Accounted events calls) (legal : calls.Legal (.call call))
    (silent : call.silent = true) :
    Accounted (events ++ [.call call]) (calls.exec (.call call)) := by
  rcases accounted with ⟨invariant, once, issued, loud⟩
  have nextIssued : (calls.exec (.call call)).issued = calls.issued + 1 := rfl
  have atIssued := issued calls.issued le_rfl
  have counts (handler : ℕ) : (calls.exec (.call call)).handlers.count handler =
      calls.handlers.count handler := by
    rw [count_exec legal]
    simp [issuedBy, silent]
  refine ⟨invariant_exec invariant legal, fun handler => ?_, fun handler after => ?_, ?_⟩
  · rw [counts]
    exact once handler
  · rw [counts]
    exact issued handler (by omega)
  · refine iff_of_false (fun all => ?_) (fun all => ?_)
    · simpa [CallEvent.silent, silent] using all (.call call) (by simp)
    · have there := all calls.issued (by omega)
      rw [counts, atIssued] at there
      exact Nat.zero_ne_one there

/-- Everything else leaves each handler where it is, or moves it on. -/
theorem Accounted.noCall {events : List (CallEvent α)} (accounted : Accounted events calls)
    (legal : calls.Legal event) (noCall : ∀ call, event ≠ .call call) :
    Accounted (events ++ [event]) (calls.exec event) := by
  rcases accounted with ⟨invariant, once, issued, loud⟩
  have counts (handler : ℕ) : (calls.exec event).handlers.count handler =
      calls.handlers.count handler := by
    rw [count_exec legal]
    cases event with
    | call call => exact (noCall call rfl).elim
    | runTask | op => rfl
  have sameIssued : (calls.exec event).issued = calls.issued := by
    cases event with
    | call call => exact (noCall call rfl).elim
    | runTask =>
        simp only [exec, runTask]
        split <;> rfl
    | op op => rfl
  have quiet : event.silent = false := by
    cases event with
    | call call => exact (noCall call rfl).elim
    | runTask | op => rfl
  refine ⟨invariant_exec invariant legal, fun handler => ?_, fun handler after => ?_, ?_⟩
  · rw [counts]
    exact once handler
  · rw [counts]
    exact issued handler (sameIssued ▸ after)
  · rw [sameIssued]
    simp only [counts, ← loud, List.mem_append, List.mem_singleton, or_imp, forall_and,
      forall_eq, quiet, and_true]

theorem Accounted.step {events : List (CallEvent α)} (accounted : Accounted events calls)
    (step : (system α).step calls event next) : Accounted (events ++ [event]) next := by
  rcases step with ⟨legal, rfl⟩
  cases event with
  | call call =>
      cases silent : call.silent with
      | false => exact accounted.loudCall legal silent
      | true => exact accounted.silentCall legal silent
  | runTask => exact accounted.noCall legal (by simp)
  | op op => exact accounted.noCall legal (by simp)

theorem accounted {allocSize : ℕ} {events : List (CallEvent α)}
    (run : (system α).Run (new allocSize) events calls) : Accounted events calls := by
  refine run.history Accounted ⟨new_invariant allocSize, ?_, ?_, ?_⟩
    fun _ _ _ _ accounted step => accounted.step step
  · simp [handlers, new, ProducerConsumerBuffer.new]
  · simp [handlers, new, ProducerConsumerBuffer.new]
  · simp [new]

/-- No handler is called twice.  Once the buffer is closed for writing and all tasks have run,
each has been called exactly when no transfer of zero characters was asked for. -/
theorem called_once_iff {allocSize : ℕ} {events : List (CallEvent α)}
    (run : (system α).Run (new allocSize) events calls) :
    (calls.called.map Prod.fst).Nodup ∧
      (calls.buffer.canWrite = false → calls.tasks = [] →
        ((∀ handler < calls.issued, (calls.called.map Prod.fst).count handler = 1) ↔
          ∀ event ∈ events, event.silent = false)) := by
  rcases accounted run with ⟨invariant, once, issued, loud⟩
  refine ⟨List.nodup_iff_count_le_one.mpr fun handler => ?_, fun closed drained => ?_⟩
  · have total := once handler
    rw [count_handlers] at total
    omega
  · have requests := requests_eq_nil_of_closed invariant.blocked closed
    have all : calls.handlers = calls.called.map Prod.fst := by
      simp [handlers, drained, requests]
    rw [loud, all]

/-- A write and the end of the stream. -/
theorem called_once_iff_putn :
    let events : List (CallEvent UInt8) :=
      [.call (.putn [1, 2]), .call .bumpc, .runTask, .op (.close false true), .runTask]
    let calls := events.foldl exec (new 512 : Calls UInt8)
    (calls.called.map Prod.fst).Nodup ∧
      (calls.buffer.canWrite = false → calls.tasks = [] →
        ((∀ handler < calls.issued, (calls.called.map Prod.fst).count handler = 1) ↔
          ∀ event ∈ events, event.silent = false)) := by
  have run : (system UInt8).Run (new 512)
      [.call (.putn [1, 2]), .call .bumpc, .runTask, .op (.close false true), .runTask]
      ([.call (.putn [1, 2]), .call .bumpc, .runTask, .op (.close false true), .runTask].foldl exec
        (new 512 : Calls UInt8)) := by
    refine .cons ⟨trivial, rfl⟩ (.cons ⟨trivial, rfl⟩ (.cons ⟨?_, rfl⟩
      (.cons ⟨⟨rfl, trivial⟩, rfl⟩ (.single ⟨?_, rfl⟩))))
    · change Calls.tasks _ ≠ []
      decide +kernel
    · change Calls.tasks _ ≠ []
      decide +kernel
  exact called_once_iff run

/-- A write of nothing before the end of the stream. -/
theorem not_called_putn :
    let events : List (CallEvent UInt8) := [.call (.putn []), .op (.close false true)]
    let calls := events.foldl exec (new 512 : Calls UInt8)
    (system UInt8).Run (new 512) events calls ∧ calls.buffer.canWrite = false ∧
      calls.tasks = [] ∧ calls.issued = 1 ∧ calls.called = [] := by
  refine ⟨?_, rfl, rfl, rfl, rfl⟩
  exact .cons ⟨trivial, rfl⟩ (.single ⟨⟨rfl, trivial⟩, rfl⟩)

end Calls

end Snode.Streams
