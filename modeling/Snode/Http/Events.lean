import Snode.Http.Handlers
import Snode.Streams.Roles

/-!
# Runs of an HTTP connection

The events that drive a connection: its socket delivers bytes, completes an
operation or fails, its worker runs the next task, and the application replies
and works on the bodies of messages.  Events come in any order in which the
operations they complete are under way.
-/

namespace Snode.Http

open Streams

/-- What happens next to a connection. -/
inductive Event where
  /-- The socket delivers bytes to the oldest read. -/
  | receive (piece : Bytes)
  /-- The oldest read is complete; `value` is what an uninitialised `int` holds in its handler. -/
  | readDone (value : Int)
  | readError (ec : ErrorCode)
  /-- The oldest write is complete; `memory` is what the stream buffer has where it prepares. -/
  | writeDone (memory : Bytes)
  | writeError (ec : ErrorCode)
  /-- The worker runs the oldest task. -/
  | runTask
  /-- The application replies with a response it made, or its handler throws. -/
  | reply (impl : HttpResponseImpl) (handler : ℕ)
  | handlerThrew
  /-- The application works on the body of the request or of a response. -/
  | requestOp (op : Op UInt8 ℕ)
  | responseOp (response : HttpResponse) (op : Op UInt8 BufReadHandler)

/-- The bytes an event adds to what was received. -/
def Event.received : Event → Bytes
  | .receive piece => piece
  | _ => []

/-- Whether a read on the socket makes progress in an event. -/
def Event.readsSocket : Event → Bool
  | .receive _ | .readDone _ | .readError _ => true
  | _ => false

/-- Whether bytes contain a pattern. -/
def containsPattern (pattern : Bytes) : Bytes → Bool
  | [] => pattern.isEmpty
  | byte :: rest => pattern.isPrefixOf (byte :: rest) || containsPattern pattern rest

theorem containsPattern_iff {pattern bytes : Bytes} :
    containsPattern pattern bytes = true ↔ pattern <:+: bytes := by
  induction bytes with
  | nil => simp [containsPattern]
  | cons byte rest ih =>
      rw [containsPattern, Bool.or_eq_true, ih, List.isPrefixOf_iff_prefix, List.infix_cons_iff]

namespace ReadCondition

/-- The match condition run on the bytes from the position on. -/
def search (buffer : Bytes) (position : ℕ) : ℕ × Bool :=
  crlfNonasciiSearcher .none position position (buffer.drop position)

/-- The composed read needs nothing more from the socket. -/
def met (buffer : Bytes) : ReadCondition → Bool
  | untilHead position => (search buffer position).2
  | untilCrlf => containsPattern crlf buffer
  | atLeast size => size == 0

/-- The condition after it was found unmet and `count` more bytes were appended. -/
def advance (buffer : Bytes) (count : ℕ) : ReadCondition → ReadCondition
  | untilHead position => untilHead (search buffer position).1
  | untilCrlf => untilCrlf
  | atLeast size => atLeast (size - count)

end ReadCondition

namespace HttpConnection

/-- A connection at its construction; response `0` is the one its request is born with. -/
def new : HttpConnection :=
  startRequestResponse
    { requestBuf := []
      responseBuf := []
      putArea := []
      request := HttpRequestImpl.new 0
      responses := fun _ => HttpResponseImpl.new 0
      nextResponse := 1
      read := 0
      write := 0
      readSize := 0
      writeSize := 0
      close := false
      chunked := false
      reading := []
      writing := []
      tasks := []
      socketOpen := true
      failed := false
      log := Log.empty }

def runReadHandler (getReqHandler : Bytes → Option ℕ) (conn : HttpConnection)
    (handler : ReadHandler) (ec : ErrorCode) (value : Int) : HttpConnection :=
  match handler with
  | .handleHttpLine => handleHttpLine getReqHandler conn ec
  | .handleChunkedHeader => conn.handleChunkedHeader ec value
  | .handleChunkedBody toWrite => conn.handleChunkedBody ec toWrite
  | .handleBody => conn.handleBody ec

/-- Whether the oldest read is waiting for the socket. -/
def waiting (conn : HttpConnection) : Bool :=
  conn.reading.head?.any fun read => !read.condition.met conn.requestBuf

/-- Whether the oldest read is complete. -/
def ready (conn : HttpConnection) : Bool :=
  conn.reading.head?.any fun read => read.condition.met conn.requestBuf

/-- How much memory the handler of a write prepares. -/
def preparedSize (conn : HttpConnection) : WriteHandler → ℕ
  | .handleHeadersWritten _ =>
      if conn.chunked then chunkSize + ChunkedEncoding.additionalEncodingSpace
      else min chunkSize (sizeT (conn.writeSize - conn.write))
  | .handleWriteChunkedResponse _ => chunkSize + ChunkedEncoding.additionalEncodingSpace
  | .handleWriteLargeResponse _ => min chunkSize (sizeT (conn.writeSize - conn.write))
  | .handleResponseWritten _ => 0

def receive (conn : HttpConnection) (piece : Bytes) : HttpConnection :=
  match conn.reading with
  | [] => conn
  | read :: rest =>
      { conn with
        requestBuf := conn.requestBuf ++ piece
        reading :=
          { read with condition := read.condition.advance conn.requestBuf piece.length } :: rest }

def readDone (getReqHandler : Bytes → Option ℕ) (conn : HttpConnection) (ec : ErrorCode)
    (value : Int) : HttpConnection :=
  match conn.reading with
  | [] => conn
  | read :: rest =>
      runReadHandler getReqHandler { conn with reading := rest } read.handler ec value

/-- `async_write` fails with nothing sent. -/
def writeError (conn : HttpConnection) (ec : ErrorCode) : HttpConnection :=
  match conn.writing with
  | [] => conn
  | handler :: rest => runWriteHandler { conn with writing := rest } handler ec []

def runNextTask (conn : HttpConnection) : HttpConnection :=
  match conn.tasks with
  | [] => conn
  | task :: rest => runTask { conn with tasks := rest } task

/-- An operation of the application on the body of the request. -/
def requestOp (conn : HttpConnection) (op : Op UInt8 ℕ) : HttpConnection :=
  { conn with request := { conn.request with stream := conn.request.stream.exec op } }

/-- When an event can happen.  The body of a response is written by the application and read
by the connection only. -/
def Legal (conn : HttpConnection) : Event → Prop
  | .receive piece => conn.socketOpen = true ∧ conn.waiting = true ∧ piece ≠ []
  | .readDone _ => conn.ready = true
  | .readError ec => conn.waiting = true ∧ ec ≠ .success
  | .writeDone memory =>
      conn.socketOpen = true ∧
        ∃ handler rest, conn.writing = handler :: rest ∧ conn.preparedSize handler ≤ memory.length
  | .writeError ec => conn.writing ≠ [] ∧ ec ≠ .success
  | .runTask => conn.tasks ≠ []
  | .reply impl _ => conn.log.handled ≠ [] ∧ impl.body.buffer.requests = []
  | .handlerThrew => conn.log.handled ≠ []
  | .requestOp op => op.Legal conn.request.stream.buffer
  | .responseOp response op => op.Produces ∧ op.Legal (conn.responses response).body.buffer

instance (conn : HttpConnection) (event : Event) : Decidable (conn.Legal event) :=
  match event with
  | .receive piece =>
      inferInstanceAs (Decidable (conn.socketOpen = true ∧ conn.waiting = true ∧ piece ≠ []))
  | .readDone _ => inferInstanceAs (Decidable (conn.ready = true))
  | .readError ec => inferInstanceAs (Decidable (conn.waiting = true ∧ ec ≠ .success))
  | .writeDone memory =>
      decidable_of_iff (conn.socketOpen = true ∧
          conn.writing.head?.any (conn.preparedSize · ≤ memory.length) = true) <| by
        cases writing : conn.writing <;> simp [Legal, writing]
  | .writeError ec => inferInstanceAs (Decidable (conn.writing ≠ [] ∧ ec ≠ .success))
  | .runTask => inferInstanceAs (Decidable (conn.tasks ≠ []))
  | .reply impl _ =>
      inferInstanceAs (Decidable (conn.log.handled ≠ [] ∧ impl.body.buffer.requests = []))
  | .handlerThrew => inferInstanceAs (Decidable (conn.log.handled ≠ []))
  | .requestOp op => inferInstanceAs (Decidable (op.Legal conn.request.stream.buffer))
  | .responseOp response op =>
      inferInstanceAs (Decidable (op.Produces ∧ op.Legal (conn.responses response).body.buffer))

def exec (getReqHandler : Bytes → Option ℕ) (conn : HttpConnection) : Event → HttpConnection
  | .receive piece => conn.receive piece
  | .readDone value => readDone getReqHandler conn .success value
  | .readError ec => readDone getReqHandler conn ec 0
  | .writeDone memory => conn.writeDone memory
  | .writeError ec => conn.writeError ec
  | .runTask => conn.runNextTask
  | .reply impl handler => conn.reply impl handler
  | .handlerThrew => conn.replyIfNotAlready StatusCodes.internalError
  | .requestOp op => conn.requestOp op
  | .responseOp response op => conn.bodyOp response op

/-- Connections of a service with the given request handlers. -/
def system (getReqHandler : Bytes → Option ℕ) : Lts HttpConnection Event where
  step conn event next := conn.Legal event ∧ next = exec getReqHandler conn event

/-- The state after some events. -/
def run (conn : HttpConnection) (getReqHandler : Bytes → Option ℕ) (events : List Event) :
    HttpConnection :=
  events.foldl (exec getReqHandler) conn

/-- Each event can happen in the state it finds. -/
def LegalRun (getReqHandler : Bytes → Option ℕ) : HttpConnection → List Event → Prop
  | _, [] => True
  | conn, event :: events =>
      conn.Legal event ∧ LegalRun getReqHandler (exec getReqHandler conn event) events

instance decidableLegalRun (getReqHandler : Bytes → Option ℕ) (conn : HttpConnection)
    (events : List Event) : Decidable (LegalRun getReqHandler conn events) :=
  match events with
  | [] => .isTrue trivial
  | event :: events =>
      have := decidableLegalRun getReqHandler (exec getReqHandler conn event) events
      inferInstanceAs (Decidable
        (conn.Legal event ∧ LegalRun getReqHandler (exec getReqHandler conn event) events))

theorem LegalRun.run {getReqHandler : Bytes → Option ℕ} {conn : HttpConnection}
    {events : List Event} (legal : LegalRun getReqHandler conn events) :
    (system getReqHandler).Run conn events (conn.run getReqHandler events) := by
  induction events generalizing conn with
  | nil => exact .nil conn
  | cons event events ih => exact .cons ⟨legal.1, rfl⟩ (ih legal.2)

end HttpConnection

end Snode.Http
