import Snode.Http.Events
import Snode.Http.HeaderMap

/-!
# How the body of a response is framed

`async_process_response` decides by three tests on the headers and the body of a
response how its end is to be told, and writes the head.
-/

namespace Snode.Http

namespace HttpConnection

/-- The header lines of a head. -/
def printHeaders (headers : HttpHeaders) : Bytes :=
  headers.flatMap fun header => header.1 ++ ascii ": " ++ header.2 ++ crlf

/-- A transfer encoding that tells the end of the body, in any case. -/
def ChunkedHeader (headers : HttpHeaders) : Prop :=
  ∃ value, headers.find HeaderNames.transferEncoding = some value ∧
    iequals value (ascii "chunked") = true

/-- The head that was written has one framing, which is that of the loop that is to follow. -/
structure Framed (response : HttpResponse) (impl : HttpResponseImpl) (next : HttpConnection) :
    Prop where
  printed : next.responseBuf =
    ascii "HTTP/1.1 " ++ printNumber impl.statusCode ++ ascii " " ++ impl.reasonPhrase ++ crlf ++
      printHeaders (next.responses response).headers ++ crlf
  framing :
    next.chunked = true ∧
        (next.responses response).headers.find HeaderNames.transferEncoding =
          some (ascii "chunked") ∧
        (next.responses response).headers.find HeaderNames.contentLength = none ∨
      next.chunked = false ∧ ¬ChunkedHeader (next.responses response).headers ∧
        (next.responses response).headers.find HeaderNames.contentLength =
          some (printNumber next.writeSize)

/-- The headers and the body for which it is so: a body stream with no length, or with a length
that is written plainly; or no body stream and no length.  Where the length frames the body the
headers name no chunks. -/
def Framable (impl : HttpResponseImpl) : Prop :=
  impl.headers.find HeaderNames.contentLength = none ∧
      (impl.hasInstream = true ∨ ¬ChunkedHeader impl.headers) ∨
    impl.hasInstream = true ∧ ¬ChunkedHeader impl.headers ∧
      ∃ length < 2 ^ 64,
        impl.headers.find HeaderNames.contentLength = some (printNumber length)

/-- Whether `Transfer-Encoding` is spelled as the code asks for it. -/
def encodes (headers : HttpHeaders) : Bool :=
  headers.find HeaderNames.transferEncoding == some (ascii "chunked")

/-- What `async_process_response` decides. -/
theorem asyncProcessResponse_decides (conn : HttpConnection) (response : HttpResponse) :
    let impl := conn.responses response
    let next := conn.asyncProcessResponse response
    let length := impl.headers.matchSize HeaderNames.contentLength 0
    let byStream := !length.1 && impl.hasInstream
    let named :=
      if byStream then impl.headers.set HeaderNames.transferEncoding (ascii "chunked")
      else impl.headers
    next.chunked = (encodes impl.headers || byStream) ∧ next.writeSize = length.2 ∧
      (next.responses response).headers =
        (if !impl.hasInstream then named.add HeaderNames.contentLength (printNumber 0)
          else named) ∧
      next.responseBuf =
        ascii "HTTP/1.1 " ++ printNumber impl.statusCode ++ ascii " " ++ impl.reasonPhrase ++
          crlf ++ printHeaders (next.responses response).headers ++ crlf := by
  have spelled (headers : HttpHeaders) :
      ((headers.matchString HeaderNames.transferEncoding []).1 &&
        (headers.matchString HeaderNames.transferEncoding []).2 == ascii "chunked") =
        encodes headers := by
    simp only [HttpHeaders.matchString, encodes]
    split
    · next found => simp [found]
    · next missing => simp [missing]
  refine ⟨?_, rfl, ?_, ?_⟩
  · simp only [asyncProcessResponse, asyncWrite, spelled]
  · simp [asyncProcessResponse, asyncWrite, updateResponse]
  · simp [asyncProcessResponse, asyncWrite, updateResponse, printHeaders]

theorem headerKey_lengthEncoding :
    headerKey HeaderNames.contentLength ≠ headerKey HeaderNames.transferEncoding := by
  decide +kernel

theorem chunkedHeader_of_encodes {headers : HttpHeaders} (spelled : encodes headers = true) :
    ChunkedHeader headers :=
  ⟨_, by simpa [encodes] using spelled, by decide +kernel⟩

/-- A value with something appended to it is no number. -/
theorem append_ne_printNumber (value more : Bytes) (number : ℕ) :
    value ++ ascii ", " ++ more ≠ printNumber number := by
  intro same
  have comma : (44 : UInt8) ∉ printNumber number :=
    (isNumeral_printNumber number).not_mem (by decide)
  apply comma
  rw [← same]
  simp [ascii]

theorem chunkedHeader_congr {headers others : HttpHeaders}
    (same : headers.find HeaderNames.transferEncoding =
      others.find HeaderNames.transferEncoding) :
    ChunkedHeader headers ↔ ChunkedHeader others := by
  simp only [ChunkedHeader, same]

variable {conn : HttpConnection} {response : HttpResponse}

/-- A body stream without a length is sent in chunks. -/
theorem framed_of_stream (stream : (conn.responses response).hasInstream = true)
    (none : (conn.responses response).headers.find HeaderNames.contentLength = none) :
    Framed response (conn.responses response) (conn.asyncProcessResponse response) := by
  rcases asyncProcessResponse_decides conn response with ⟨chunked, -, headers, printed⟩
  simp only [HttpHeaders.matchSize, none, stream, Bool.not_false, Bool.true_and, Bool.or_true,
    if_true, Bool.not_true, Bool.false_eq_true, if_false] at chunked headers
  refine ⟨printed, .inl ⟨chunked, ?_, ?_⟩⟩
  · rw [headers, HttpHeaders.set, HttpHeaders.find_modify_self]
  · rw [headers, HttpHeaders.set, HttpHeaders.find_modify_other _ headerKey_lengthEncoding, none]

/-- With a length of the user's the headers are written as they are. -/
theorem framed_iff_of_length (stream : (conn.responses response).hasInstream = true)
    {value : Bytes}
    (found : (conn.responses response).headers.find HeaderNames.contentLength = some value) :
    Framed response (conn.responses response) (conn.asyncProcessResponse response) ↔
      ¬ChunkedHeader (conn.responses response).headers ∧
        ∃ length < 2 ^ 64, value = printNumber length := by
  rcases asyncProcessResponse_decides conn response with ⟨chunked, writeSize, headers, printed⟩
  rcases matched : (conn.responses response).headers.matchSize HeaderNames.contentLength 0 with
    ⟨hasLength, length⟩
  simp only [matched, stream, Bool.and_true, Bool.not_true, Bool.false_eq_true,
    if_false] at chunked writeSize headers
  cases hasLength with
  | false =>
      simp only [Bool.not_false, Bool.or_true, if_true] at chunked headers
      constructor
      · rintro ⟨-, ⟨-, -, missing⟩ | ⟨notChunked, -⟩⟩
        · rw [headers, HttpHeaders.set,
            HttpHeaders.find_modify_other _ headerKey_lengthEncoding, found] at missing
          exact (Option.some_ne_none _ missing).elim
        · exact (Bool.false_ne_true (notChunked.symm.trans chunked)).elim
      · rintro ⟨-, length, small, rfl⟩
        simp [HttpHeaders.matchSize_printNumber small found] at matched
  | true =>
      simp only [Bool.not_true, Bool.or_false, Bool.false_eq_true, if_false] at chunked headers
      constructor
      · rintro ⟨-, ⟨-, -, missing⟩ | ⟨-, noChunks, number⟩⟩
        · rw [headers, found] at missing
          exact (Option.some_ne_none _ missing).elim
        · rw [headers] at noChunks number
          rw [found, writeSize, Option.some.injEq] at number
          exact ⟨noChunks, length, HttpHeaders.matchSize_lt (by simp) matched, number⟩
      · rintro ⟨noChunks, number, small, rfl⟩
        have same : length = number := by
          simpa [HttpHeaders.matchSize_printNumber small found] using matched.symm
        have notSpelled : encodes (conn.responses response).headers = false := by
          by_contra spelled
          exact noChunks (chunkedHeader_of_encodes (by simpa using spelled))
        refine ⟨printed, .inr ⟨chunked.trans notSpelled, headers ▸ noChunks, ?_⟩⟩
        rw [headers, found, writeSize, same]

/-- Without a body stream a length of zero is written, or appended to that of the user. -/
theorem framed_iff_of_noStream (noStream : (conn.responses response).hasInstream = false) :
    Framed response (conn.responses response) (conn.asyncProcessResponse response) ↔
      ¬ChunkedHeader (conn.responses response).headers ∧
        (conn.responses response).headers.find HeaderNames.contentLength = none := by
  rcases asyncProcessResponse_decides conn response with ⟨chunked, writeSize, headers, printed⟩
  simp only [noStream, Bool.and_false, Bool.or_false, Bool.false_eq_true, if_false, Bool.not_false,
    if_true] at chunked headers
  have sameEncoding : ((conn.asyncProcessResponse response).responses response).headers.find
      HeaderNames.transferEncoding =
        (conn.responses response).headers.find HeaderNames.transferEncoding := by
    rw [headers, HttpHeaders.add, HttpHeaders.find_modify_other _ headerKey_lengthEncoding.symm]
  have value : ((conn.asyncProcessResponse response).responses response).headers.find
      HeaderNames.contentLength =
        some (((conn.responses response).headers.find HeaderNames.contentLength).elim
          (printNumber 0) fun current => current ++ ascii ", " ++ printNumber 0) := by
    rw [headers, HttpHeaders.add, HttpHeaders.find_modify_self]
    cases (conn.responses response).headers.find HeaderNames.contentLength <;> simp
  constructor
  · rintro ⟨-, ⟨-, -, missing⟩ | ⟨-, noChunks, number⟩⟩
    · rw [value] at missing
      exact (Option.some_ne_none _ missing).elim
    · refine ⟨mt (chunkedHeader_congr sameEncoding).mpr noChunks, ?_⟩
      rw [value, Option.some.injEq] at number
      rcases present : (conn.responses response).headers.find HeaderNames.contentLength with
        _ | current
      · rfl
      · simp only [present, Option.elim_some] at number
        exact (append_ne_printNumber _ _ _ number).elim
  · rintro ⟨noChunks, missing⟩
    have notSpelled : encodes (conn.responses response).headers = false := by
      by_contra spelled
      exact noChunks (chunkedHeader_of_encodes (by simpa using spelled))
    refine ⟨printed, .inr
      ⟨chunked.trans notSpelled, mt (chunkedHeader_congr sameEncoding).mp noChunks, ?_⟩⟩
    rw [value, writeSize]
    simp [missing, HttpHeaders.matchSize]

/-- A response is framed in one way exactly when its headers and its body allow for it. -/
theorem framed_iff (conn : HttpConnection) (response : HttpResponse) :
    Framed response (conn.responses response) (conn.asyncProcessResponse response) ↔
      Framable (conn.responses response) := by
  cases stream : (conn.responses response).hasInstream with
  | false =>
      rw [framed_iff_of_noStream stream]
      simp [Framable, stream, and_comm]
  | true =>
      rcases found : (conn.responses response).headers.find HeaderNames.contentLength with
        _ | value
      · simp [framed_of_stream stream found, Framable, found, stream]
      · rw [framed_iff_of_length stream found]
        simp [Framable, found, stream]

/-- A response without a body whose length the user set to zero. -/
def emptyResponse : HttpResponseImpl :=
  { HttpResponseImpl.new 200 with headers := [(HeaderNames.contentLength, ascii "0")] }

/-- Its head says `Content-Length: 0, 0`. -/
theorem not_framed_empty :
    let conn := { HttpConnection.new with responses := fun _ => emptyResponse }
    ¬Framed 0 emptyResponse (conn.asyncProcessResponse 0) := by
  intro conn framed
  rcases framed.framing with ⟨chunked, -⟩ | ⟨-, -, number⟩
  · revert chunked
    decide +kernel
  · revert number
    decide +kernel

end HttpConnection

end Snode.Http
