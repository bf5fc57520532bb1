import Mathlib.Algebra.BigOperators.Group.Finset.Basic
import Snode.Http.Emission

/-!
# What is under way

Whatever carries an exchange on ends with the start of what comes next: the read of a head, a
handler that waits for the response or for the body of the request, a task, a write, a read
from the body of the response.  Here these are counted, and it is told what adds to them.  The
reads and tasks that receive the body of the request run beside them and are not.
-/

namespace Snode.Http

open Streams

/-- The response that a handler is about. -/
def WriteHandler.response : WriteHandler → HttpResponse
  | .handleHeadersWritten response | .handleWriteChunkedResponse response
  | .handleWriteLargeResponse response | .handleResponseWritten response => response

def BufReadHandler.response : BufReadHandler → HttpResponse
  | .handleChunkedResponseBuffRead response | .handleLargeResponseBuffRead response => response

/-- The most that a handler can be told to have been read. -/
def BufReadHandler.limit : BufReadHandler → Option ℕ
  | .handleChunkedResponseBuffRead _ => some chunkSize
  | .handleLargeResponseBuffRead _ => none

/-- The tasks that go on with an exchange. -/
def Task.carries (task : Task) : Bool :=
  task.answers || task.sends

/-- What of a connection its responses depend on being done. -/
structure Custody where
  heads : ℕ
  responseHandlers : List ResponseHandler
  dataReadyHandlers : List DataHandler
  response : HttpResponse
  nextResponse : HttpResponse
  tasks : List Task
  writing : List WriteHandler
  /-- The reads that wait in the body of each response. -/
  requests : HttpResponse → List (EvRequest BufReadHandler)
  write : ℕ
  writeSize : ℕ
  socketOpen : Bool

namespace Custody

/-- How many things carry the exchange on. -/
def underWay (custody : Custody) : ℕ :=
  custody.heads + ((custody.responseHandlers.map Task.responseReady).filter Task.carries).length +
    custody.dataReadyHandlers.length + custody.tasks.length + custody.writing.length +
      ∑ response ∈ Finset.range custody.nextResponse, (custody.requests response).length

/-- A read from the body of a response, as it is issued. -/
structure Asks (response : HttpResponse) (request : EvRequest BufReadHandler) : Prop where
  response : request.completionOp.response = response
  limit : ∀ limit ∈ request.completionOp.limit,
    request = ⟨limit, .advanceOnce, true, request.completionOp⟩

/-- A task that a connection can have scheduled. -/
def Carried (nextResponse : HttpResponse) : Task → Prop
  | .dataReady _ _ => False
  | .bufRead handler result => handler.response < nextResponse ∧
      ∀ limit ∈ handler.limit, HttpConnection.completionSize result ≤ limit
  | _ => True

/-- A response is made, and those that wait for it are scheduled if it is the first. -/
def respond (custody : Custody) (initiated : Bool) : Custody :=
  let made : Custody :=
    { custody with
      nextResponse := custody.nextResponse + 1
      requests := fun response =>
        if response = custody.nextResponse then [] else custody.requests response }
  if initiated then made
  else
    { made with
      response := custody.nextResponse
      responseHandlers := []
      tasks := custody.tasks ++
        (custody.responseHandlers.map Task.responseReady).filter Task.carries }

/-- What is under way is about responses there are. -/
structure Known (custody : Custody) : Prop where
  response : custody.response < custody.nextResponse
  tasks : ∀ task ∈ custody.tasks, Carried custody.nextResponse task
  writing : ∀ handler ∈ custody.writing, handler.response < custody.nextResponse
  requests : ∀ response, ∀ request ∈ custody.requests response, Asks response request
  fresh : ∀ response, custody.nextResponse ≤ response → custody.requests response = []
  write : custody.write < 2 ^ 64
  writeSize : custody.writeSize < 2 ^ 64

/-- Some more things are under way. -/
structure Adds (count : ℕ) (before after : Custody) : Prop where
  known : before.Known → after.Known
  underWay : before.Known → after.underWay = before.underWay + count
  socketOpen : after.socketOpen = before.socketOpen

/-- The socket is closed, and nothing more is under way. -/
structure Closes (before after : Custody) : Prop where
  known : before.Known → after.Known
  underWay : before.Known → after.underWay = before.underWay
  socketOpen : after.socketOpen = false

/-- How something that was under way ends. -/
def GoesOn (before after : Custody) : Prop :=
  Adds 1 before after ∨ Closes before after

variable {before middle after : Custody}

theorem Adds.refl (custody : Custody) : Adds 0 custody custody :=
  ⟨id, fun _ => rfl, rfl⟩

theorem Adds.trans {first second : ℕ} (left : Adds first before middle)
    (right : Adds second middle after) : Adds (first + second) before after where
  known known := right.known (left.known known)
  underWay known := by
    rw [right.underWay (left.known known), left.underWay known, Nat.add_assoc]
  socketOpen := right.socketOpen.trans left.socketOpen

/-! ### What can be added -/

variable (custody : Custody)

/-- A read of a head is started. -/
theorem adds_head : Adds 1 custody { custody with heads := custody.heads + 1 } where
  known known := ⟨known.response, known.tasks, known.writing, known.requests, known.fresh,
    known.write, known.writeSize⟩
  underWay _ := by
    simp only [underWay]
    omega
  socketOpen := rfl

theorem adds_tasks {tasks : List Task} (carried : custody.Known → ∀ task ∈ tasks,
    Carried custody.nextResponse task) :
    Adds tasks.length custody { custody with tasks := custody.tasks ++ tasks } where
  known known := by
    refine ⟨known.response, fun task present => ?_, known.writing, known.requests, known.fresh,
      known.write, known.writeSize⟩
    rcases List.mem_append.mp present with before | new
    · exact known.tasks task before
    · exact carried known task new
  underWay _ := by
    simp only [underWay, List.length_append]
    omega
  socketOpen := rfl

/-- A write is started, after so much of the body was read. -/
theorem adds_write {handler : WriteHandler} {write writeSize : ℕ}
    (response : custody.Known → handler.response < custody.nextResponse)
    (small : custody.Known → write < 2 ^ 64) (smallSize : custody.Known → writeSize < 2 ^ 64) :
    Adds 1 custody
      { custody with
        writing := custody.writing ++ [handler]
        write := write
        writeSize := writeSize } where
  known known := by
    refine ⟨known.response, known.tasks, fun other present => ?_, known.requests, known.fresh,
      small known, smallSize known⟩
    rcases List.mem_append.mp present with before | new
    · exact known.writing other before
    · rw [List.mem_singleton.mp new]
      exact response known
  underWay _ := by
    simp only [underWay, List.length_append, List.length_singleton]
    omega
  socketOpen := rfl

/-- The response is waited for. -/
theorem adds_responseHandler (badRequest : Bool) :
    Adds 1 custody
      { custody with
        responseHandlers := custody.responseHandlers ++ [.handleResponse badRequest] } where
  known known := ⟨known.response, known.tasks, known.writing, known.requests, known.fresh,
    known.write, known.writeSize⟩
  underWay _ := by
    have carries : [Task.responseReady (.handleResponse badRequest)].filter Task.carries =
        [.responseReady (.handleResponse badRequest)] := rfl
    simp only [underWay, List.map_append, List.map_singleton, List.filter_append, carries,
      List.length_append, List.length_singleton]
    omega
  socketOpen := rfl

/-- The body of the request is waited for. -/
theorem adds_dataReadyHandler (handler : DataHandler) :
    Adds 1 custody
      { custody with dataReadyHandlers := custody.dataReadyHandlers ++ [handler] } where
  known known := ⟨known.response, known.tasks, known.writing, known.requests, known.fresh,
    known.write, known.writeSize⟩
  underWay _ := by
    simp only [underWay, List.length_append, List.length_singleton]
    omega
  socketOpen := rfl

theorem adds_respond (initiated : Bool) : Adds 0 custody (custody.respond initiated) := by
  let requests (response : HttpResponse) : List (EvRequest BufReadHandler) :=
    if response = custody.nextResponse then [] else custody.requests response
  have carried {task : Task} {nextResponse : HttpResponse}
      (known : Carried nextResponse task) : Carried (nextResponse + 1) task := by
    cases task with
    | bufRead handler result => exact ⟨Nat.lt_succ_of_lt known.1, known.2⟩
    | dataReady => exact known.elim
    | _ => trivial
  have asks (known : custody.Known) (response : HttpResponse) (request : EvRequest BufReadHandler)
      (present : request ∈ requests response) : Asks response request := by
    simp only [requests] at present
    split at present
    · cases present
    · exact known.requests response request present
  have fresh (known : custody.Known) (response : HttpResponse)
      (new : custody.nextResponse + 1 ≤ response) : requests response = [] := by
    have different : response ≠ custody.nextResponse := (Nat.lt_of_succ_le new).ne'
    simp only [requests, if_neg different]
    exact known.fresh response (Nat.le_of_succ_le new)
  have reads : ∑ response ∈ Finset.range (custody.nextResponse + 1),
      (requests response).length =
        ∑ response ∈ Finset.range custody.nextResponse, (custody.requests response).length := by
    rw [Finset.sum_range_succ]
    have last : requests custody.nextResponse = [] := if_pos rfl
    rw [last, List.length_nil, Nat.add_zero]
    apply Finset.sum_congr rfl
    intro response present
    have different : response ≠ custody.nextResponse := (Finset.mem_range.mp present).ne
    simp only [requests, if_neg different]
  cases initiated with
  | true =>
      refine ⟨fun known => ?_, fun _ => ?_, rfl⟩
      · exact ⟨Nat.lt_succ_of_lt known.response,
          fun task present => carried (known.tasks task present),
          fun handler present => Nat.lt_succ_of_lt (known.writing handler present), asks known,
          fresh known, known.write, known.writeSize⟩
      · simp only [underWay, respond, if_true]
        rw [reads, Nat.add_zero]
  | false =>
      refine ⟨fun known => ?_, fun _ => ?_, rfl⟩
      · refine ⟨Nat.lt_succ_self _, fun task present => ?_,
          fun handler present => Nat.lt_succ_of_lt (known.writing handler present), asks known,
          fresh known, known.write, known.writeSize⟩
        rcases List.mem_append.mp present with before | new
        · exact carried (known.tasks task before)
        · rcases List.mem_map.mp (List.mem_filter.mp new).1 with ⟨handler, -, rfl⟩
          trivial
      · simp only [underWay, respond, Bool.false_eq_true, if_false, List.length_append,
          List.map_nil, List.filter_nil, List.length_nil]
        rw [reads]
        omega

/-! ### Reads from the body of a response -/

section Sums

variable {β : Type} (lists : ℕ → List β) (count : ℕ) {index : ℕ} (list : List β)

/-- One of some lists is exchanged for another. -/
theorem sum_exchange (inside : index < count) :
    ∑ other ∈ Finset.range count, (if other = index then list else lists other).length +
        (lists index).length =
      ∑ other ∈ Finset.range count, (lists other).length + list.length := by
  have present : index ∈ Finset.range count := Finset.mem_range.mpr inside
  have others : ∑ other ∈ (Finset.range count).erase index,
      (if other = index then list else lists other).length =
        ∑ other ∈ (Finset.range count).erase index, (lists other).length := by
    apply Finset.sum_congr rfl
    intro other erased
    rw [if_neg (Finset.ne_of_mem_erase erased)]
  have first := Finset.add_sum_erase _
    (fun other => (if other = index then list else lists other).length) present
  have second := Finset.add_sum_erase _ (fun other => (lists other).length) present
  simp only [if_true, others] at first second
  omega

theorem sum_exchange_outside (outside : count ≤ index) :
    ∑ other ∈ Finset.range count, (if other = index then list else lists other).length =
      ∑ other ∈ Finset.range count, (lists other).length := by
  apply Finset.sum_congr rfl
  intro other present
  have different : other ≠ index := by
    rintro rfl
    exact absurd (Finset.mem_range.mp present) (Nat.not_lt_of_le outside)
  rw [if_neg different]

end Sums

/-- The requests that wait in the body of one response are exchanged for others and tasks. -/
theorem adds_reads {count : ℕ} {response : HttpResponse}
    {requests : List (EvRequest BufReadHandler)} {tasks : List Task}
    (asks : custody.Known → ∀ request ∈ requests, Asks response request)
    (carried : custody.Known → ∀ task ∈ tasks, Carried custody.nextResponse task)
    (unknown : custody.Known → custody.nextResponse ≤ response →
      requests = [] ∧ tasks = [] ∧ count = 0)
    (conserved : custody.Known →
      requests.length + tasks.length = (custody.requests response).length + count) :
    Adds count custody
      { custody with
        tasks := custody.tasks ++ tasks
        requests := fun other =>
          if other = response then requests else custody.requests other } where
  known known := by
    refine ⟨known.response, ((adds_tasks custody carried).known known).tasks, known.writing, ?_, ?_,
      known.write, known.writeSize⟩
    · intro other request present
      change request ∈ if _ then _ else _ at present
      split at present
      · next here => exact here ▸ asks known request present
      · exact known.requests other request present
    · intro other new
      change (if _ then _ else _) = _
      split
      · next here => exact (unknown known (here ▸ new)).1
      · exact known.fresh other new
  underWay known := by
    simp only [underWay, List.length_append]
    by_cases inside : response < custody.nextResponse
    · have exchanged := sum_exchange custody.requests custody.nextResponse requests inside
      have total := conserved known
      omega
    · have outside : custody.nextResponse ≤ response := Nat.le_of_not_lt inside
      rcases unknown known outside with ⟨rfl, rfl, rfl⟩
      rw [sum_exchange_outside custody.requests custody.nextResponse [] outside]
      rfl
  socketOpen := rfl

end Custody

end Snode.Http
