import Snode.Http.Events

/-!
# Which handler a request is passed to

`dispatch_request_to_listener` is to find the handler registered for the longest
path above the target.  Its loop asks for every such path from the longest down
and keeps the last answer, which is that for `/`.
-/

namespace Snode.Http

/-- The request target `/s1/.../sn`. -/
def target (segments : List Bytes) : Bytes :=
  if segments = [] then ascii "/" else segments.flatMap (ascii "/" ++ ·)

namespace HttpConnection

/-- The longest registered path above `/s1/.../sn` is that of the first `count` segments. -/
structure LongestRegistered (getReqHandler : Bytes → Option ℕ) (segments : List Bytes)
    (count handler : ℕ) : Prop where
  within : count ≤ segments.length
  registered : getReqHandler (prefixPath segments count) = some handler
  longest : ∀ longer, count < longer → longer ≤ segments.length →
    getReqHandler (prefixPath segments longer) = none

/-- None of the paths above `/s1/.../sn` is registered. -/
def NoneRegistered (getReqHandler : Bytes → Option ℕ) (segments : List Bytes) : Prop :=
  ∀ count ≤ segments.length, getReqHandler (prefixPath segments count) = none

/-- A reply with the status took effect. -/
def Replies (status : ℕ) (conn next : HttpConnection) : Prop :=
  conn.request.initiatedResponse = false ∧ next.request.initiatedResponse = true ∧
    (next.responses next.request.response).statusCode = status

/-- What dispatching a request for `/s1/.../sn` is to do. -/
structure Routed (getReqHandler : Bytes → Option ℕ) (segments : List Bytes)
    (conn next : HttpConnection) : Prop where
  passed : ∀ count handler, LongestRegistered getReqHandler segments count handler →
    next.log.handled = conn.log.handled ++ [handler]
  notFound : Replies StatusCodes.notFound conn next ↔ NoneRegistered getReqHandler segments

variable {getReqHandler : Bytes → Option ℕ} {segments : List Bytes}

/-- Some registered path is the longest, unless there is none. -/
theorem exists_longestRegistered (getReqHandler : Bytes → Option ℕ) (segments : List Bytes) :
    NoneRegistered getReqHandler segments ∨
      ∃ count handler, LongestRegistered getReqHandler segments count handler := by
  suffices searched : ∀ bound ≤ segments.length,
      (∀ longer, bound < longer → longer ≤ segments.length →
        getReqHandler (prefixPath segments longer) = none) →
      NoneRegistered getReqHandler segments ∨
        ∃ count handler, LongestRegistered getReqHandler segments count handler from
    searched segments.length le_rfl (by omega)
  intro bound
  induction bound with
  | zero =>
      intro within longer
      rcases found : getReqHandler (prefixPath segments 0) with _ | handler
      · left
        intro count short
        rcases Nat.eq_zero_or_pos count with rfl | positive
        · exact found
        · exact longer count positive short
      · exact .inr ⟨0, handler, within, found, longer⟩
  | succ bound ih =>
      intro within longer
      rcases found : getReqHandler (prefixPath segments (bound + 1)) with _ | handler
      · apply ih (by omega)
        intro other above short
        rcases Nat.eq_or_lt_of_le above with rfl | further
        · exact found
        · exact longer other further short
      · exact .inr ⟨bound + 1, handler, within, found, longer⟩

theorem LongestRegistered.not_none {count handler : ℕ}
    (found : LongestRegistered getReqHandler segments count handler) :
    ¬NoneRegistered getReqHandler segments := by
  intro none
  have missing := none count found.within
  simp [found.registered] at missing

/-- The last answer of the loop is that for `/`, whatever the others were. -/
theorem locateHandler_eq (getReqHandler : Bytes → Option ℕ) (segments : List Bytes) (count : ℕ)
    (earlier : Option ℕ) :
    locateHandler getReqHandler segments count earlier = getReqHandler (ascii "/") := by
  induction count generalizing earlier with
  | zero => rfl
  | succ count ih => exact ih _

theorem doResponse_request (conn : HttpConnection) (badRequest : Bool) :
    (conn.doResponse badRequest).request.initiatedResponse = conn.request.initiatedResponse ∧
      (conn.doResponse badRequest).request.response = conn.request.response ∧
      (conn.doResponse badRequest).responses = conn.responses ∧
      (conn.doResponse badRequest).log = conn.log := by
  simp only [doResponse, getResponse, HttpRequestImpl.asyncGetResponse, connect]
  split <;> simp only [and_self]

/-- `reply_if_not_already` replies unless somebody has. -/
theorem replies_replyIfNotAlready (conn : HttpConnection) (status : ℕ) :
    (Replies status conn (conn.replyIfNotAlready status) ↔
      conn.request.initiatedResponse = false) ∧
      (conn.replyIfNotAlready status).log = conn.log := by
  have phrase (impl : HttpResponseImpl) :
      impl.defaultReasonPhrase.statusCode = impl.statusCode := by
    simp only [HttpResponseImpl.defaultReasonPhrase]
    split
    · split <;> rfl
    · rfl
  cases initiated : conn.request.initiatedResponse with
  | true => simp [Replies, replyIfNotAlready, initiated]
  | false =>
      simp [Replies, replyIfNotAlready, initiated, makeResponse, updateResponse, connect,
        HttpRequestImpl.replyIfNotAlready, HttpRequestImpl.replyImpl, phrase, HttpResponseImpl.new]

theorem dispatchRequestToListener_some {conn : HttpConnection} {handler : ℕ}
    (root : getReqHandler (ascii "/") = some handler) :
    let next := dispatchRequestToListener getReqHandler conn
    next.log.handled = conn.log.handled ++ [handler] ∧
      ¬Replies StatusCodes.notFound conn next := by
  simp only [dispatchRequestToListener, locateHandler_eq, root]
  refine ⟨?_, ?_⟩
  · rw [(doResponse_request _ _).2.2.2]
  · rintro ⟨fresh, replied, -⟩
    simp only [(doResponse_request _ _).1, fresh] at replied
    exact Bool.false_ne_true replied

theorem dispatchRequestToListener_none {conn : HttpConnection}
    (root : getReqHandler (ascii "/") = none) :
    let next := dispatchRequestToListener getReqHandler conn
    next.log.handled = conn.log.handled ∧
      (Replies StatusCodes.notFound conn next ↔ conn.request.initiatedResponse = false) := by
  simp only [dispatchRequestToListener, locateHandler_eq, root]
  rcases replies_replyIfNotAlready
    { conn with
      log := { conn.log with
        dispatched := conn.log.dispatched ++
          [⟨conn.request.method, conn.request.url, conn.request.headers⟩] } }
    StatusCodes.notFound with ⟨replies, log⟩
  rcases doResponse_request (HttpConnection.replyIfNotAlready
    { conn with
      log := { conn.log with
        dispatched := conn.log.dispatched ++
          [⟨conn.request.method, conn.request.url, conn.request.headers⟩] } }
    StatusCodes.notFound) false with ⟨initiated, response, responses, sameLog⟩
  refine ⟨?_, ?_⟩
  · rw [sameLog, log]
  · simpa only [Replies, initiated, response, responses] using replies

/-- The handler of the longest registered path is the one a request goes to exactly when it is
also that of `/`.  Where none is registered the reply is made if there was none before. -/
theorem routed_iff (getReqHandler : Bytes → Option ℕ) (segments : List Bytes)
    (conn : HttpConnection) :
    let conn := { conn with request := { conn.request with url := target segments } }
    Routed getReqHandler segments conn (dispatchRequestToListener getReqHandler conn) ↔
      (∀ count handler, LongestRegistered getReqHandler segments count handler →
        getReqHandler (ascii "/") = some handler) ∧
      (NoneRegistered getReqHandler segments → conn.request.initiatedResponse = false) := by
  intro conn
  rcases root : getReqHandler (ascii "/") with _ | first
  · rcases dispatchRequestToListener_none root with ⟨handled, replies⟩
    constructor
    · rintro ⟨passed, notFound⟩
      refine ⟨fun count handler found => ?_, fun none => replies.mp (notFound.mpr none)⟩
      simpa [handled] using passed count handler found
    · rintro ⟨same, fresh⟩
      have none : NoneRegistered getReqHandler segments := by
        rcases exists_longestRegistered getReqHandler segments with none | ⟨count, handler, found⟩
        · exact none
        · simpa using same count handler found
      refine ⟨fun count handler found => ?_, iff_of_true (replies.mpr (fresh none)) none⟩
      exact (found.not_none none).elim
  · rcases dispatchRequestToListener_some root with ⟨handled, noReply⟩
    have some : ¬NoneRegistered getReqHandler segments := by
      intro none
      have missing := none 0 (Nat.zero_le _)
      simp [prefixPath, root] at missing
    constructor
    · rintro ⟨passed, -⟩
      refine ⟨fun count handler found => ?_, fun none => (some none).elim⟩
      have same := passed count handler found
      rw [handled] at same
      simpa using same
    · rintro ⟨same, -⟩
      refine ⟨fun count handler found => ?_, iff_of_false noReply some⟩
      obtain rfl : first = handler := by simpa using same count handler found
      exact handled

/-- Handlers for `/` and for `/a/`. -/
def twoHandlers (path : Bytes) : Option ℕ :=
  if path = ascii "/" then some 0 else if path = ascii "/a/" then some 1 else none

/-- A request for `/a` goes to the handler of `/`. -/
theorem not_routed_a :
    let conn := { HttpConnection.new with
      request := { HttpRequestImpl.new 0 with url := target [ascii "a"] } }
    ¬Routed twoHandlers [ascii "a"] conn (dispatchRequestToListener twoHandlers conn) := by
  intro conn routed
  have longest : LongestRegistered twoHandlers [ascii "a"] 1 1 :=
    ⟨le_rfl, by decide +kernel, fun longer above within => by simp at within; omega⟩
  have passed := routed.passed 1 1 longest
  revert passed
  decide +kernel

end HttpConnection

end Snode.Http
