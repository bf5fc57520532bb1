import Snode.Http.ClientRequest
import Snode.Http.Routing

/-!
# The request line

Which first lines of a head `handle_http_line` takes for a request line, and what
it cuts out of them.  The version is taken for granted: whatever stands in the
last ten places of the line is cut off.
-/

namespace Snode.Http

/-- A head up to the end of its first line. -/
def firstLine (head : Bytes) : Bytes :=
  head.takeWhile (· != lf) ++ (head.dropWhile (· != lf)).take 1

def isDigit (byte : UInt8) : Bool :=
  decide (48 ≤ byte.toNat) && decide (byte.toNat ≤ 57)

/-- `METHOD SP target SP HTTP/d.d CR LF`. -/
structure IsRequestLine (line method target version : Bytes) : Prop where
  whole : line = method ++ 32 :: (target ++ 32 :: (version ++ crlf))
  methodNonempty : method ≠ []
  methodValid : validateMethod method = true
  targetNonempty : target ≠ []
  versionDigits : ∃ major minor, isDigit major = true ∧ isDigit minor = true ∧
    version = ascii "HTTP/" ++ [major, 46, minor]

theorem IsRequestLine.length_version {line method target version : Bytes}
    (isLine : IsRequestLine line method target version) : version.length = 8 := by
  rcases isLine.versionDigits with ⟨major, minor, -, -, rfl⟩
  rfl

/-- A method in upper case if it is one of the standard ones up to case. -/
def standardSpelling (method : Bytes) : Bytes :=
  if ∃ standard ∈ Methods.normalised, iequals method standard = true then method.map toUpper
  else method

theorem normaliseMethod_eq (method : Bytes) : normaliseMethod method = standardSpelling method := by
  rw [normaliseMethod, standardSpelling]
  rcases found : Methods.normalised.find? (iequals method ·) with _ | standard
  · rw [if_neg, Option.getD_none]
    rintro ⟨standard, present, same⟩
    exact List.find?_eq_none.mp found standard present same
  · have present := List.mem_of_find?_eq_some found
    have same : iequals method standard = true := List.find?_some found
    have upper : ∀ standard ∈ Methods.normalised, standard.map toUpper = standard := by
      decide
    rw [if_pos ⟨standard, present, same⟩, Option.getD_some, ← upper standard present]
    exact (beq_iff_eq.mp same).symm

/-- The spelling decides nothing about the characters of a method. -/
theorem validateMethod_normaliseMethod_iff (method : Bytes) :
    validateMethod (normaliseMethod method) = validateMethod method := by
  cases valid : validateMethod method with
  | true => exact validateMethod_normaliseMethod valid
  | false =>
      rw [normaliseMethod_eq, standardSpelling]
      split
      · rw [← Bool.not_eq_true] at valid ⊢
        intro upper
        apply valid
        have code : ∀ code < 256, validMethodChar (toUpper (UInt8.ofNat code)) = true →
            validMethodChar (UInt8.ofNat code) = true := by
          decide +kernel
        rw [validateMethod, List.all_map] at upper
        rw [validateMethod, List.all_eq_true]
        intro byte present
        have same : UInt8.ofNat byte.toNat = byte := by simp
        have validUpper : validMethodChar (toUpper byte) = true :=
          List.all_eq_true.mp upper byte present
        rw [← same] at validUpper ⊢
        exact code byte.toNat byte.toNat_lt validUpper
      · exact valid

/-- What is checked: the characters of the first word, and the length of the rest of its line. -/
def LinePasses (head : Bytes) : Prop :=
  validateMethod (headWord head) = true ∧ versionPortionSize + 2 ≤ (restOfLine head).length

namespace HttpConnection

/-- `handle_http_line` up to the call of `handle_headers`: the connection it is called on, or
else the one whose request is rejected. -/
def readHttpLine (conn : HttpConnection) : Except HttpConnection HttpConnection :=
  let (httpVerb, stream) := (Istream.new conn.requestBuf).getString []
  let httpVerb := normaliseMethod httpVerb
  if !validateMethod httpVerb then
    .error { conn with requestBuf := stream.rest }
  else
    let (httpPathAndVersion, stream) := stream.getline []
    let conn :=
      { conn with
        requestBuf := stream.rest
        request := { conn.request with method := httpVerb } }
    let size := httpPathAndVersion.length
    if size < versionPortionSize + 2 then
      .error conn
    else
      let httpVersion :=
        substr httpPathAndVersion (size - versionPortionSize + 1) (versionPortionSize - 2)
      .ok
        { conn with
          request := { conn.request with
            url := substr httpPathAndVersion 1 (size - versionPortionSize - 1) }
          close := conn.close || httpVersion == ascii "HTTP/1.0" }

def afterHttpLine (getReqHandler : Bytes → Option ℕ) :
    Except HttpConnection HttpConnection → HttpConnection
  | .ok conn => conn.handleHeaders getReqHandler
  | .error conn => conn.rejectBadRequest

variable {getReqHandler : Bytes → Option ℕ} {conn : HttpConnection}

theorem handleHttpLine_eq (getReqHandler : Bytes → Option ℕ) (conn : HttpConnection) :
    conn.handleHttpLine getReqHandler .success = afterHttpLine getReqHandler conn.readHttpLine := by
  unfold handleHttpLine readHttpLine
  simp only [ne_eq, not_true, if_false]
  split
  · rfl
  · split <;> rfl

/-- A connection that has taken in a request line. -/
def withRequestLine (conn : HttpConnection) (rest method url version : Bytes) : HttpConnection :=
  { conn with
    requestBuf := rest
    request := { conn.request with method := method, url := url }
    close := conn.close || version == ascii "HTTP/1.0" }

/-- What is done with the first line of a head is what the grammar of request lines says. -/
structure LineExact (getReqHandler : Bytes → Option ℕ) (conn : HttpConnection) : Prop where
  proceeds : ∀ method target version,
    IsRequestLine (firstLine conn.requestBuf) method target version →
      let next := conn.withRequestLine (conn.requestBuf.drop (firstLine conn.requestBuf).length)
        (standardSpelling method) target version
      conn.readHttpLine = .ok next ∧
        conn.handleHttpLine getReqHandler .success = next.handleHeaders getReqHandler
  rejects : (¬∃ method target version,
      IsRequestLine (firstLine conn.requestBuf) method target version) →
    let next := conn.handleHttpLine getReqHandler .success
    (∃ refused, conn.readHttpLine = .error refused) ∧
      Replies StatusCodes.badRequest conn next ∧
      next.log.dispatched = conn.log.dispatched

/-! ### What is cut out of a line -/

theorem getline_afterWord (head : Bytes) :
    ((Istream.mk (afterWord head) (afterWord head).isEmpty (headWord head).isEmpty).getline []).1 =
        restOfLine head ∧
      ((Istream.mk (afterWord head) (afterWord head).isEmpty
        (headWord head).isEmpty).getline []).2.rest = afterRequestLine head := by
  have both := requestLine_eq head
  simp only [requestLine, getString_new, Prod.mk.injEq] at both
  exact both

/-- The ten places before the end of the line are taken for a version. -/
theorem readHttpLine_ok (passes : LinePasses conn.requestBuf) :
    conn.readHttpLine = .ok (conn.withRequestLine (afterRequestLine conn.requestBuf)
      (standardSpelling (headWord conn.requestBuf))
      (substr (restOfLine conn.requestBuf) 1
        ((restOfLine conn.requestBuf).length - versionPortionSize - 1))
      (substr (restOfLine conn.requestBuf)
        ((restOfLine conn.requestBuf).length - versionPortionSize + 1)
        (versionPortionSize - 2))) := by
  rcases passes with ⟨valid, long⟩
  rcases getline_afterWord conn.requestBuf with ⟨line, rest⟩
  have valid' := (validateMethod_normaliseMethod_iff (headWord conn.requestBuf)).trans valid
  rw [normaliseMethod_eq] at valid'
  simp only [readHttpLine, getString_new, valid', Bool.not_true, Bool.false_eq_true, if_false,
    line, rest, if_neg (Nat.not_lt.mpr long), normaliseMethod_eq, withRequestLine]

theorem readHttpLine_error (fails : ¬LinePasses conn.requestBuf) :
    ∃ buffer method, conn.readHttpLine =
      .error { conn with
        requestBuf := buffer
        request := { conn.request with method := method } } := by
  rcases getline_afterWord conn.requestBuf with ⟨line, rest⟩
  have sameValid := validateMethod_normaliseMethod_iff (headWord conn.requestBuf)
  by_cases valid : validateMethod (headWord conn.requestBuf) = true
  · have short : (restOfLine conn.requestBuf).length < versionPortionSize + 2 := by
      by_contra long
      exact fails ⟨valid, Nat.not_lt.mp long⟩
    refine ⟨afterRequestLine conn.requestBuf, normaliseMethod (headWord conn.requestBuf), ?_⟩
    simp only [readHttpLine, getString_new, sameValid, valid, Bool.not_true, Bool.false_eq_true,
      if_false, line, rest, if_pos short]
  · refine ⟨afterWord conn.requestBuf, conn.request.method, ?_⟩
    simp only [readHttpLine, getString_new, sameValid, valid, Bool.not_false, if_true]

theorem rejectBadRequest_log (conn : HttpConnection) :
    conn.rejectBadRequest.log.dispatched = conn.log.dispatched ∧
      (Replies StatusCodes.badRequest conn conn.rejectBadRequest ↔
        conn.request.initiatedResponse = false) := by
  rcases replies_replyIfNotAlready conn StatusCodes.badRequest with ⟨replies, log⟩
  rcases doResponse_request
    { conn.replyIfNotAlready StatusCodes.badRequest with
      close := true
      log := { (conn.replyIfNotAlready StatusCodes.badRequest).log with
        rejected := (conn.replyIfNotAlready StatusCodes.badRequest).log.rejected + 1 } } true with
    ⟨initiated, response, responses, sameLog⟩
  constructor
  · have dispatched := congrArg Log.dispatched log
    rw [rejectBadRequest, sameLog]
    exact dispatched
  · rw [← replies]
    simp only [Replies, rejectBadRequest, initiated, response, responses]

/-- A line that fails the checks is answered, unless a reply was made before. -/
theorem handleHttpLine_error (getReqHandler : Bytes → Option ℕ)
    (fails : ¬LinePasses conn.requestBuf) :
    (Replies StatusCodes.badRequest conn (conn.handleHttpLine getReqHandler .success) ↔
        conn.request.initiatedResponse = false) ∧
      (conn.handleHttpLine getReqHandler .success).log.dispatched = conn.log.dispatched := by
  rcases readHttpLine_error fails with ⟨buffer, method, refused⟩
  rw [handleHttpLine_eq, refused]
  have rejected := rejectBadRequest_log
    { conn with requestBuf := buffer, request := { conn.request with method := method } }
  exact ⟨rejected.2, rejected.1⟩

/-! ### Lines of the grammar -/

theorem firstLine_cases (head : Bytes) :
    (∃ line rest, lf ∉ line ∧ head = line ++ lf :: rest ∧ firstLine head = line ++ [lf]) ∨
      lf ∉ head ∧ firstLine head = head := by
  rcases line_cases head with ⟨line, rest, noFeed, rfl⟩ | noFeed
  · left
    rcases takeWhile_line noFeed rest with ⟨taken, dropped⟩
    refine ⟨line, rest, noFeed, rfl, ?_⟩
    rw [firstLine, taken, dropped]
    rfl
  · right
    rcases takeWhile_last noFeed with ⟨taken, dropped⟩
    refine ⟨noFeed, ?_⟩
    rw [firstLine, taken, dropped, List.take_nil, List.append_nil]

/-- A line of the grammar is cut where it should be. -/
theorem parts_of_isRequestLine {head method target version : Bytes}
    (isLine : IsRequestLine (firstLine head) method target version) :
    headWord head = method ∧
      restOfLine head = 32 :: (target ++ 32 :: (version ++ [cr])) ∧
      afterRequestLine head = head.drop (firstLine head).length := by
  rcases firstLine_cases head with ⟨line, rest, noFeed, whole, first⟩ | ⟨noFeed, first⟩
  · let others := target ++ 32 :: (version ++ [cr])
    have lineEq : line = method ++ 32 :: others := by
      have ends := isLine.whole
      have feed : method ++ 32 :: (target ++ 32 :: (version ++ crlf)) =
          (method ++ 32 :: others) ++ [lf] := by
        simp [others, crlf]
      rw [first, feed] at ends
      exact List.append_cancel_right ends
    have noSpace : ∀ byte ∈ method, isSpace byte = false := fun byte present =>
      validMethodChar_notSpace (List.all_eq_true.mp isLine.methodValid byte present)
    have split : head = method ++ 32 :: (others ++ lf :: rest) := by
      rw [whole, lineEq]
      simp
    rcases ClientRequest.word_space isLine.methodNonempty noSpace (others ++ lf :: rest) with ⟨word, after⟩
    rw [← split] at word after
    have noFeedOthers : lf ∉ 32 :: others := by
      intro feed
      apply noFeed
      rw [lineEq]
      exact List.mem_append_right method feed
    rcases takeWhile_line noFeedOthers rest with ⟨taken, dropped⟩
    refine ⟨word, ?_, ?_⟩
    · rw [restOfLine, after, ← List.cons_append, taken]
    · rw [afterRequestLine, after, ← List.cons_append, dropped, first, whole]
      simp
  · refine absurd ?_ noFeed
    rw [← first, isLine.whole]
    simp [crlf]

theorem proceeds_of_isRequestLine (getReqHandler : Bytes → Option ℕ)
    {method target version : Bytes}
    (isLine : IsRequestLine (firstLine conn.requestBuf) method target version) :
    let next := conn.withRequestLine (conn.requestBuf.drop (firstLine conn.requestBuf).length)
      (standardSpelling method) target version
    conn.readHttpLine = .ok next ∧
      conn.handleHttpLine getReqHandler .success = next.handleHeaders getReqHandler := by
  intro next
  rcases parts_of_isRequestLine isLine with ⟨word, line, rest⟩
  have eight := isLine.length_version
  have some : 0 < target.length := List.length_pos_iff.mpr isLine.targetNonempty
  have length : (restOfLine conn.requestBuf).length = target.length + 11 := by
    rw [line]
    simp [eight]
  have passes : LinePasses conn.requestBuf := by
    refine ⟨word ▸ isLine.methodValid, ?_⟩
    rw [length, versionPortionSize]
    omega
  have url : substr (restOfLine conn.requestBuf) 1
      ((restOfLine conn.requestBuf).length - versionPortionSize - 1) = target := by
    rw [length, line]
    simp [substr, versionPortionSize]
  have versionEq : substr (restOfLine conn.requestBuf)
      ((restOfLine conn.requestBuf).length - versionPortionSize + 1) (versionPortionSize - 2) =
        version := by
    have position : target.length + 11 - versionPortionSize + 1 = target.length + 2 := by
      rw [versionPortionSize]
      omega
    have front : 32 :: (target ++ 32 :: (version ++ [cr])) =
        (32 :: (target ++ [32])) ++ (version ++ [cr]) := by
      simp
    rw [length, line, position, substr, front, List.drop_left' (by simp),
      List.take_left' (by rw [eight]; rfl)]
  have read : conn.readHttpLine = .ok next := by
    rw [readHttpLine_ok passes, word, url, versionEq, rest]
  refine ⟨read, ?_⟩
  rw [handleHttpLine_eq, read]
  rfl

/-- The line is treated as the grammar says exactly when it is one of its lines, or fails the
checks on a request that nobody has replied to. -/
theorem lineExact_iff (getReqHandler : Bytes → Option ℕ) (conn : HttpConnection) :
    LineExact getReqHandler conn ↔
      (∃ method target version,
        IsRequestLine (firstLine conn.requestBuf) method target version) ∨
      ¬LinePasses conn.requestBuf ∧ conn.request.initiatedResponse = false := by
  constructor
  · intro exact
    by_cases isLine : ∃ method target version,
        IsRequestLine (firstLine conn.requestBuf) method target version
    · exact .inl isLine
    · right
      rcases exact.rejects isLine with ⟨⟨refused, read⟩, replies, -⟩
      refine ⟨?_, replies.1⟩
      intro passes
      rw [readHttpLine_ok passes] at read
      simp at read
  · rintro (⟨method, target, version, isLine⟩ | ⟨fails, fresh⟩)
    · constructor
      · intro method' target' version' isLine'
        exact proceeds_of_isRequestLine getReqHandler isLine'
      · intro other
        exact (other ⟨method, target, version, isLine⟩).elim
    · constructor
      · intro method target version isLine
        have proceeds := (proceeds_of_isRequestLine getReqHandler isLine).1
        rcases readHttpLine_error fails with ⟨buffer, spelling, read⟩
        rw [proceeds] at read
        simp at read
      · intro _
        rcases readHttpLine_error fails with ⟨buffer, method, read⟩
        rcases handleHttpLine_error getReqHandler fails with ⟨replies, dispatched⟩
        exact ⟨⟨_, read⟩, replies.mpr fresh, dispatched⟩

/-- A request line without a version. -/
def noVersion : HttpConnection :=
  { new with requestBuf := ascii "GET /admin/reports" ++ crlf ++ crlf }

theorem not_lineExact_noVersion :
    (noVersion.handleHttpLine (fun _ => none) .success).log.dispatched =
        [⟨ascii "GET", ascii "/admi", []⟩] ∧
      ¬LineExact (fun _ => none) noVersion := by
  have dispatched : (noVersion.handleHttpLine (fun _ => none) .success).log.dispatched =
      [⟨ascii "GET", ascii "/admi", []⟩] := by
    decide +kernel
  refine ⟨dispatched, ?_⟩
  intro exact
  have notLine : ¬∃ method target version,
      IsRequestLine (firstLine noVersion.requestBuf) method target version := by
    rintro ⟨method, target, version, isLine⟩
    have spaces : (firstLine noVersion.requestBuf).count 32 = 1 := by decide +kernel
    rw [isLine.whole] at spaces
    simp at spaces
    omega
  have never := (exact.rejects notLine).2.2
  rw [dispatched] at never
  revert never
  decide

end HttpConnection

end Snode.Http
