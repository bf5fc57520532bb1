import Mathlib.Data.List.Infix
import Snode.Http.Handlers
import Snode.Streams.ContainerBuffer

/-!
# The body of a message

`http_msg_base::set_body` and its callers.  A body given as a string or a vector is
first put into a container buffer opened for both directions, which is a mode that
the buffer does not take: the call throws before it has changed anything.
-/

namespace Snode.Http

open Streams

namespace HeaderNames

def contentType : Bytes := ascii "Content-Type"

end HeaderNames

/-- `http_msg_base`, as far as `set_body` and the extractions go.  `instream` is the buffer that
`instream_` refers to, if the stream is valid. -/
structure HttpMsgBase where
  headers : HttpHeaders
  instream : Option (ProducerConsumerBuffer UInt8 ℕ)
  dataAvailable : ℕ

namespace HttpMsgBase

/-- A function on a message that may throw; what it has changed by then stays changed. -/
abbrev Action := ExceptT String (StateM HttpMsgBase)

/-- The base of a fresh request or response. -/
def new : HttpMsgBase where
  headers := []
  instream := none
  dataAvailable := 0

def setContentTypeIfNotPresent (headers : HttpHeaders) (contentType : Bytes) : HttpHeaders :=
  if !(headers.matchString HeaderNames.contentType []).1 then
    headers.add HeaderNames.contentType contentType
  else
    headers

def setContentLength (headers : HttpHeaders) (length : ℕ) : HttpHeaders :=
  headers.set HeaderNames.contentLength (printNumber length)

/-- `create_istream`.  The stream shares the ownership of the buffer, so that the buffer
has to be `shared` already. -/
def createIstream (buffer : ProducerConsumerBuffer UInt8 ℕ) (shared : Bool) :
    Except String (ProducerConsumerBuffer UInt8 ℕ) :=
  if !buffer.canRead then
    .error "stream buffer not set up for input of data"
  else if !shared then
    .error "bad_weak_ptr"
  else
    .ok buffer

/-- `set_body` with a stream. -/
def setBodyStream (instream : ProducerConsumerBuffer UInt8 ℕ) (contentType : Bytes) :
    Action Unit := do
  modify fun message =>
    { message with headers := setContentTypeIfNotPresent message.headers contentType }
  modify fun message => { message with instream := some instream }

/-- `set_body<CollectionType>`; both buffers are local variables. -/
def setBodyCollection (body : Bytes) (length : ℕ) (contentType : Bytes) : Action Unit := do
  let _sourcebuf ← ContainerBuffer.ofCollection body true true
  let destbuf := ProducerConsumerBuffer.new body.length
  modify fun message => { message with headers := setContentLength message.headers length }
  let istream ← createIstream destbuf false
  setBodyStream istream contentType

/-- `set_body` of a request or a response with a string. -/
def setBodyText (bodyText contentType : Bytes) : Action Unit := do
  if ascii "charset=" <:+: contentType then
    throw "content_type can't contain a 'charset'."
  setBodyCollection bodyText bodyText.length contentType

/-- `set_body` of a request or a response with a vector of bytes. -/
def setBodyVector (bodyData contentType : Bytes) : Action Unit :=
  setBodyCollection bodyData bodyData.length contentType

/-- A message that tells the size and type of a body and lets it be read. -/
structure Carries (message : HttpMsgBase) (body contentType : Bytes) : Prop where
  contentLength :
    message.headers.find HeaderNames.contentLength = some (printNumber body.length)
  contentType : message.headers.find HeaderNames.contentType = some contentType
  instream : ∃ buffer, message.instream = some buffer ∧ buffer.unread = body

/-- What setting a body is for: a fresh message carries it, and then any other that is set
in its place. -/
def RoundTrip (setBody : Bytes → Bytes → Action Unit) (body contentType : Bytes) : Prop :=
  ∃ first, (setBody body contentType).run.run new = (.ok (), first) ∧
    first.Carries body contentType ∧
    ∀ other otherType, ¬ascii "charset=" <:+: otherType →
      ∃ second, (setBody other otherType).run.run first = (.ok (), second) ∧
        second.Carries other otherType

theorem setBodyCollection_throws (body : Bytes) (length : ℕ) (contentType : Bytes)
    (message : HttpMsgBase) :
    (setBodyCollection body length contentType).run.run message =
      (.error "this combination of modes on container stream not supported", message) := rfl

theorem setBodyText_throws (bodyText contentType : Bytes) :
    ∃ what, ∀ message, (setBodyText bodyText contentType).run.run message =
      (.error what, message) := by
  by_cases charset : ascii "charset=" <:+: contentType
  · refine ⟨"content_type can't contain a 'charset'.", fun message => ?_⟩
    simp only [setBodyText, if_pos charset]
    rfl
  · refine ⟨"this combination of modes on container stream not supported", fun message => ?_⟩
    simp only [setBodyText, if_neg charset]
    rfl

/-- A function that throws does not do what setting a body is for. -/
theorem not_roundTrip_of_throws {setBody : Bytes → Bytes → Action Unit}
    {body contentType : Bytes}
    (throws : ∃ what, ∀ message, (setBody body contentType).run.run message =
      (.error what, message)) : ¬RoundTrip setBody body contentType := by
  rintro ⟨first, returned, -⟩
  rcases throws with ⟨what, threw⟩
  have both : Except.error what = Except.ok () :=
    congrArg Prod.fst ((threw new).symm.trans returned)
  simp at both

/-- No string and no vector can be set as the body of a message: the call throws, and leaves
the message as it was. -/
theorem setBody_throws (body contentType : Bytes) :
    (∃ what, ∀ message, (setBodyText body contentType).run.run message =
        (.error what, message)) ∧
      (∃ what, ∀ message, (setBodyVector body contentType).run.run message =
        (.error what, message)) ∧
      ¬RoundTrip setBodyText body contentType ∧ ¬RoundTrip setBodyVector body contentType := by
  have text := setBodyText_throws body contentType
  have vector : ∃ what, ∀ message, (setBodyVector body contentType).run.run message =
      (.error what, message) :=
    ⟨_, fun message => setBodyCollection_throws body body.length contentType message⟩
  exact ⟨text, vector, not_roundTrip_of_throws text, not_roundTrip_of_throws vector⟩

theorem not_roundTrip_hello :
    ¬RoundTrip setBodyText (ascii "hello") (ascii "text/plain") ∧
      ¬RoundTrip setBodyVector (ascii "hello") (ascii "application/octet-stream") := by
  refine ⟨not_roundTrip_of_throws (setBodyText_throws _ _), not_roundTrip_of_throws ?_⟩
  exact ⟨_, fun message => setBodyCollection_throws _ _ _ message⟩

end HttpMsgBase

end Snode.Http
