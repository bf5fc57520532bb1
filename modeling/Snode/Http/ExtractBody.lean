import Snode.Http.ContentType
import Snode.Http.MessageBody
import Snode.Lib.Wrap
import Snode.Streams.BlockReads
import Snode.Streams.ContainerReads

/-!
# Extracting a body

`extract_string` copies what the body stream holds in one read and leaves it there,
`extract_vector` takes it byte by byte.  The index of the latter is an `unsigned`, which
starts again at the front of the body after `2 ^ 32` bytes; and through a stream that was
closed for reading the former gets nothing while the latter still counts what is there.
-/

namespace Snode.Http

open Streams

/-- What is thrown instead of a body, or the fault in its place. -/
inductive ExtractFailure where
  | httpException (what : String)
  | stringFault (fault : StringFault)
  deriving DecidableEq

namespace HttpHeaders

/-- `content_type`. -/
def contentType (headers : HttpHeaders) : Bytes :=
  (headers.matchString HeaderNames.contentType []).2

end HttpHeaders

namespace HttpMsgBase

def streamWasSetExplicitly : String :=
  "A stream was set on the message and extraction is not possible"

/-- The charset of the body. -/
def parseAndCheckContentType (message : HttpMsgBase) (ignoreContentType : Bool)
    (checkContentType : Bytes → Bool) : Except ExtractFailure Bytes :=
  match message.instream with
  | none => .error (.httpException streamWasSetExplicitly)
  | some streambuf =>
      if ignoreContentType then
        .ok CharsetTypes.utf8
      else
        match parseContentTypeAndCharset message.headers.contentType with
        | .error fault => .error (.stringFault fault)
        | .ok (content, charset) =>
            -- If no Content-Type or empty body then just return an empty string.
            if content.isEmpty || streambuf.inAvail == 0 then
              .ok []
            else if !checkContentType content then
              .error (.httpException
                "Incorrect Content-Type: must be textual to extract_string, JSON to extract_json.")
            else
              .ok charset

/-- `extract_string`.  The stream is valid once the content type was checked. -/
def extractString (message : HttpMsgBase) (ignoreContentType : Bool) :
    Except ExtractFailure Bytes × HttpMsgBase :=
  match message.parseAndCheckContentType ignoreContentType isContentTypeTextual,
      message.instream with
  | .error failure, _ => (.error failure, message)
  | .ok _, none => (.ok [], message)
  | .ok charset, some bufR =>
      if charset.isEmpty then
        (.ok [], message)
      else if 0 < bufR.inAvail then
        let body : Bytes := List.replicate bufR.inAvail 0
        let (count, chars, bufR) := AsyncStreambuf.scopy bufR body.length
        let message := { message with instream := some bufR }
        if count = 0 then
          (.ok [], message)
        else
          (.ok (chars ++ body.drop chars.length), message)
      else
        (.ok [], message)

/-- The loop of `extract_vector`, with `idx` an `unsigned`. -/
def extractLoop : ℕ → UInt32 → Bytes → ProducerConsumerBuffer UInt8 ℕ →
    Bytes × ProducerConsumerBuffer UInt8 ℕ
  | 0, _, body, bufR => (body, bufR)
  | avail + 1, idx, body, bufR =>
      if 0 < bufR.inAvail then
        let (value, bufR) := AsyncStreambuf.sbumpc bufR
        extractLoop avail (idx + 1) (body.set idx.toNat (CharNarrowing.toCharType value.val)) bufR
      else
        (body, bufR)

def extractVector (message : HttpMsgBase) : Except ExtractFailure Bytes × HttpMsgBase :=
  match message.instream with
  | none => (.error (.httpException streamWasSetExplicitly), message)
  | some bufR =>
      let avail := bufR.inAvail
      if avail ≠ 0 then
        let (body, bufR) := extractLoop avail 0 (List.replicate avail 0) bufR
        (.ok body, { message with instream := some bufR })
      else
        (.ok [], message)

/-- Both extractions return, and they return the same body. -/
def SameBody (message : HttpMsgBase) (ignoreContentType : Bool) : Prop :=
  ∃ body, (message.extractString ignoreContentType).1 = .ok body ∧
    message.extractVector.1 = .ok body

/-! ### The byte-wise extraction -/

section Vector

variable {bufR : ProducerConsumerBuffer UInt8 ℕ}

theorem sbumpc_readable (consistent : bufR.Consistent) (readable : bufR.canRead = true)
    {first : UInt8} {rest : Bytes} (unreadEq : bufR.unread = first :: rest) :
    ∃ after, AsyncStreambuf.sbumpc bufR = (.char first, after) ∧ after.Consistent ∧
      after.canRead = true ∧ after.unread = rest := by
  rcases ProducerConsumerBuffer.sbumpc_eq consistent unreadEq with
    ⟨bumped, stillConsistent, left, -⟩
  have control := ProducerConsumerBuffer.read_control bufR 1 true
  simp only [ProducerConsumerBuffer.control, Prod.mk.injEq] at control
  rcases stillConsistent with ⟨blocksWf, totalEq, writtenEq, syncedLe, notFailed⟩
  refine ⟨(AsyncStreambuf.checkSyncReadEof (bufR.read 1 true).2 (.char first)).2, ?_,
    ⟨blocksWf, totalEq, writtenEq, syncedLe, notFailed⟩, ?_, left⟩
  · simp only [AsyncStreambuf.sbumpc, readable, bumped]
    rfl
  · exact control.1.trans readable

theorem ofNat_succ (position : ℕ) : UInt32.ofNat position + 1 = UInt32.ofNat (position + 1) := by
  apply UInt32.toNat_inj.mp
  simp

/-- By induction on the bytes still to come: each is stored at the index that is left of its
position in the body. -/
theorem extractLoop_eq (consistent : bufR.Consistent) (readable : bufR.canRead = true)
    {count : ℕ} (enough : count = bufR.unread.length) (position : ℕ) (body : Bytes) :
    (extractLoop count (UInt32.ofNat position) body bufR).1 =
      body.storeWrapped (2 ^ 32) position bufR.unread := by
  induction count generalizing bufR position body with
  | zero =>
      have nothing : bufR.unread = [] := List.eq_nil_of_length_eq_zero enough.symm
      rw [nothing]
      rfl
  | succ count ih =>
      rcases unreadEq : bufR.unread with _ | ⟨first, rest⟩
      · simp [unreadEq] at enough
      · rcases sbumpc_readable consistent readable unreadEq with
          ⟨after, bumped, stillConsistent, stillReadable, left⟩
        have some : 0 < bufR.inAvail := by
          rw [consistent.inAvail_eq, unreadEq]
          simp
        have fewer : count = after.unread.length := by
          rw [left]
          simpa [unreadEq] using enough
        have index : (UInt32.ofNat position).toNat = position % 2 ^ 32 :=
          UInt32.toNat_ofNat'
        have stored : CharNarrowing.toCharType (IntType.char first).val = first :=
          CharNarrowing.toCharType_toIntType first
        rw [extractLoop, if_pos some]
        simp only [bumped, index, stored]
        rw [ofNat_succ, ih stillConsistent stillReadable fewer, left, List.storeWrapped]

theorem length_extractLoop (count : ℕ) (idx : UInt32) (body : Bytes) :
    (extractLoop count idx body bufR).1.length = body.length := by
  induction count generalizing idx body bufR with
  | zero => rfl
  | succ count ih =>
      rw [extractLoop]
      split
      · rw [ih, List.length_set]
      · rfl

end Vector

variable {message : HttpMsgBase} {bufR : ProducerConsumerBuffer UInt8 ℕ}

theorem extractVector_eq (instream : message.instream = some bufR) :
    message.extractVector.1 =
      .ok (extractLoop bufR.inAvail 0 (List.replicate bufR.inAvail 0) bufR).1 := by
  simp only [extractVector, instream]
  by_cases nothing : bufR.inAvail = 0
  · rw [nothing]
    rfl
  · rw [if_pos nothing]

theorem extractVector_of_readable (instream : message.instream = some bufR)
    (consistent : bufR.Consistent) (readable : bufR.canRead = true) :
    message.extractVector.1 =
      .ok ((List.replicate bufR.unread.length 0).storeWrapped (2 ^ 32) 0 bufR.unread) := by
  rw [extractVector_eq instream, consistent.inAvail_eq]
  exact congrArg Except.ok (extractLoop_eq consistent readable rfl 0 _)

/-! ### The block copy -/

theorem scopy_readable (consistent : bufR.Consistent) (readable : bufR.canRead = true) :
    AsyncStreambuf.scopy bufR bufR.inAvail = (bufR.unread.length, bufR.unread, bufR) := by
  have satisfiable : bufR.canSatisfy bufR.inAvail = true := by
    simp [ProducerConsumerBuffer.canSatisfy]
  have copied : bufR.read bufR.inAvail false = (bufR.unread, bufR) := by
    apply Prod.ext
    · rw [ProducerConsumerBuffer.read_chars consistent, consistent.inAvail_eq, List.take_length]
    · exact ProducerConsumerBuffer.read_peek consistent satisfiable
  rw [AsyncStreambuf.scopy, readable, ProducerConsumerBuffer.scopy, if_pos satisfiable, copied]
  rfl

theorem scopy_closed (closed : bufR.canRead = false) (count : ℕ) :
    AsyncStreambuf.scopy bufR count = (0, [], bufR) := by
  rw [AsyncStreambuf.scopy, closed]
  rfl

theorem extractString_eq (instream : message.instream = some bufR)
    (consistent : bufR.Consistent) {ignoreContentType : Bool} {charset : Bytes}
    (checked : message.parseAndCheckContentType ignoreContentType isContentTypeTextual =
      .ok charset) :
    message.extractString ignoreContentType =
      (.ok (if charset = [] ∨ bufR.canRead = false then [] else bufR.unread), message) := by
  have available := consistent.inAvail_eq
  have same : { message with instream := some bufR } = message := by
    rw [← instream]
  simp only [extractString, checked, instream]
  by_cases unnamed : charset = []
  · simp [unnamed]
  · have named : ¬charset.isEmpty = true := by simpa using unnamed
    rw [if_neg named]
    by_cases some : 0 < bufR.inAvail
    · rw [if_pos some]
      cases readable : bufR.canRead with
      | false =>
          simp [scopy_closed readable, same]
      | true =>
          have nonzero : bufR.unread.length ≠ 0 := by omega
          simp only [List.length_replicate, scopy_readable consistent readable, same]
          rw [if_neg nonzero]
          simp [unnamed, available]
    · have nothing : bufR.unread = [] := by
        apply List.eq_nil_of_length_eq_zero
        omega
      rw [if_neg some, nothing, ite_self]

theorem extractString_error {ignoreContentType : Bool} {failure : ExtractFailure}
    (refused : message.parseAndCheckContentType ignoreContentType isContentTypeTextual =
      .error failure) :
    message.extractString ignoreContentType = (.error failure, message) := by
  simp only [extractString, refused]

/-! ### Both -/

/-- Once the content type was checked, what is left is whether the string is copied, and whether
the vector survives its index. -/
theorem sameBody_iff_of_checked (instream : message.instream = some bufR)
    (consistent : bufR.Consistent) {ignoreContentType : Bool} {charset : Bytes}
    (checked : message.parseAndCheckContentType ignoreContentType isContentTypeTextual =
      .ok charset) :
    message.SameBody ignoreContentType ↔ bufR.unread = [] ∨
      charset ≠ [] ∧ bufR.canRead = true ∧ bufR.unread.SurvivesWrap (2 ^ 32) 0 := by
  have wraps := List.storeWrapped_eq_iff (by omega : 0 < 2 ^ 32) 0 bufR.unread
  rw [SameBody, extractString_eq instream consistent checked]
  by_cases copied : charset ≠ [] ∧ bufR.canRead = true
  · have notRefused : ¬(charset = [] ∨ bufR.canRead = false) := by simp [copied.1, copied.2]
    rw [if_neg notRefused, extractVector_of_readable instream consistent copied.2, ← wraps]
    constructor
    · rintro ⟨body, string, vector⟩
      rw [← string] at vector
      exact .inr ⟨copied.1, copied.2, Except.ok.inj vector⟩
    · rintro (nothing | ⟨-, -, same⟩)
      · exact ⟨[], by rw [nothing], by rw [nothing]; rfl⟩
      · exact ⟨bufR.unread, rfl, congrArg Except.ok same⟩
  · have refused : charset = [] ∨ bufR.canRead = false := by
      rw [not_and_or, not_not, Bool.not_eq_true] at copied
      exact copied
    rw [if_pos refused, extractVector_eq instream]
    constructor
    · rintro ⟨body, string, vector⟩
      left
      have empty : body = [] := (Except.ok.inj string).symm
      have length := congrArg List.length (Except.ok.inj vector)
      rw [length_extractLoop, List.length_replicate, consistent.inAvail_eq, empty] at length
      exact List.eq_nil_of_length_eq_zero length
    · rintro (nothing | ⟨named, readable, -⟩)
      · exact ⟨[], rfl, by rw [consistent.inAvail_eq, nothing]; rfl⟩
      · exact (copied ⟨named, readable⟩).elim

theorem sameBody_iff (instream : message.instream = some bufR) (consistent : bufR.Consistent)
    (ignoreContentType : Bool) :
    message.SameBody ignoreContentType ↔
      ∃ charset, message.parseAndCheckContentType ignoreContentType isContentTypeTextual =
          .ok charset ∧
        (bufR.unread = [] ∨
          charset ≠ [] ∧ bufR.canRead = true ∧ bufR.unread.SurvivesWrap (2 ^ 32) 0) := by
  cases checked : message.parseAndCheckContentType ignoreContentType isContentTypeTextual with
  | error failure =>
      constructor
      · rintro ⟨body, string, -⟩
        rw [extractString_error checked] at string
        simp at string
      · rintro ⟨charset, accepted, -⟩
        simp at accepted
  | ok charset =>
      rw [sameBody_iff_of_checked instream consistent checked]
      constructor
      · intro condition
        exact ⟨charset, rfl, condition⟩
      · rintro ⟨other, same, condition⟩
        rw [Except.ok.inj same]
        exact condition

/-- Block reads and single reads agree in every state.  The two extractions return the same body
if and only if there is none, or the content type names a charset, the stream is open for
reading, and each byte that shares its index modulo `2 ^ 32` with another one is zero. -/
theorem readsAlike_and_sameBody_iff (allocSize : ℕ) :
    (∀ {α η : Type} [Inhabited α] [CharTraits α] {session : Session α η},
        (Session.system α η).Reachable (Session.new allocSize) session →
        ∀ count, session.buffer.canSatisfy count = true → session.buffer.ReadsAlike count) ∧
      ∀ {session : Session UInt8 ℕ},
        (Session.system UInt8 ℕ).Reachable (Session.new allocSize) session →
        ∀ (message : HttpMsgBase) (ignoreContentType : Bool),
          message.instream = some session.buffer →
          (message.SameBody ignoreContentType ↔
            ∃ charset, message.parseAndCheckContentType ignoreContentType isContentTypeTextual =
                .ok charset ∧
              (session.buffer.unread = [] ∨
                charset ≠ [] ∧ session.buffer.canRead = true ∧
                  session.buffer.unread.SurvivesWrap (2 ^ 32) 0)) := by
  constructor
  · intro α η _ _ session reachable count satisfiable
    exact Session.readsAlike reachable satisfiable
  · intro session reachable message ignoreContentType instream
    rcases Session.reachable_refines reachable with ⟨channel, invariant, -⟩
    exact sameBody_iff instream invariant.consistent ignoreContentType

/-- A byte that another one is stored over is lost unless it is zero. -/
theorem not_sameBody_of_long (allocSize : ℕ) {first : UInt8} (nonzero : first ≠ 0) {rest : Bytes}
    (long : 2 ^ 32 ≤ rest.length) :
    let session : Session UInt8 ℕ := (Session.new allocSize).exec (.write (first :: rest))
    (Session.system UInt8 ℕ).Reachable (Session.new allocSize) session ∧
      session.buffer.canRead = true ∧ session.buffer.unread = first :: rest ∧
      ¬SameBody { new with instream := some session.buffer } true := by
  intro session
  have reachable : (Session.system UInt8 ℕ).Reachable (Session.new allocSize) session :=
    Session.reachable_exec (.refl _) trivial
  have unread : session.buffer.unread = first :: rest := by
    have history := (Session.fifo reachable).1
    have stored : session.stored = first :: rest := rfl
    have removed : session.removed = [] := rfl
    rw [stored, removed, List.nil_append] at history
    exact history.symm
  refine ⟨reachable, rfl, unread, ?_⟩
  intro same
  rcases Session.reachable_refines reachable with ⟨channel, invariant, -⟩
  rcases (sameBody_iff rfl invariant.consistent true).mp same with
    ⟨charset, -, none | ⟨-, -, survives⟩⟩
  · rw [unread] at none
    simp at none
  · rw [unread] at survives
    have overwritten : 0 + 2 ^ 32 < (first :: rest).length := by
      rw [List.length_cons]
      omega
    exact nonzero (survives 0 first rfl (.inr overwritten))

/-- A one before `2 ^ 32` sevens, the last of which is stored over it; and a byte in a stream that
was closed for reading, for which `extract_vector` returns `255`. -/
theorem not_sameBody_wrapped_or_closed :
    (∃ session : Session UInt8 ℕ,
        (Session.system UInt8 ℕ).Reachable (Session.new 512) session ∧
        session.buffer.canRead = true ∧
        session.buffer.unread = 1 :: List.replicate (2 ^ 32) 7 ∧
        ¬SameBody { new with instream := some session.buffer } true) ∧
      ∃ session : Session UInt8 ℕ,
        (Session.system UInt8 ℕ).Reachable (Session.new 512) session ∧
        session.buffer.unread = [65] ∧
        (extractString { new with instream := some session.buffer } true).1 = .ok [] ∧
        (extractVector { new with instream := some session.buffer }).1 = .ok [255] ∧
        ¬SameBody { new with instream := some session.buffer } true := by
  constructor
  · have long : 2 ^ 32 ≤ (List.replicate (2 ^ 32) (7 : UInt8)).length := by
      rw [List.length_replicate]
    exact ⟨_, not_sameBody_of_long 512 (by decide) long⟩
  · let session : Session UInt8 ℕ := ((Session.new 512).exec (.write [65])).exec (.close true false)
    have reachable : (Session.system UInt8 ℕ).Reachable (Session.new 512) session :=
      Session.reachable_exec (Session.reachable_exec (.refl _) trivial) trivial
    have string : (extractString { new with instream := some session.buffer } true).1 = .ok [] := by
      decide +kernel
    have vector : (extractVector { new with instream := some session.buffer }).1 = .ok [255] := by
      decide +kernel
    refine ⟨session, reachable, by decide +kernel, string, vector, ?_⟩
    rintro ⟨body, fromString, fromVector⟩
    rw [string] at fromString
    rw [vector, ← Except.ok.inj fromString] at fromVector
    simp at fromVector

/-- Three bytes in two blocks, read whole after a flush and extracted. -/
theorem readsAlike_and_sameBody_iff_threeBytes :
    let session : Session UInt8 ℕ :=
      (((Session.new 2).exec (.write [72, 105])).exec (.write [33])).exec .sync
    session.buffer.ReadsAlike 5 ∧ session.buffer.unread = [72, 105, 33] ∧
      SameBody { new with instream := some session.buffer } true := by
  intro session
  have reachable : (Session.system UInt8 ℕ).Reachable (Session.new 2) session :=
    Session.reachable_exec (Session.reachable_exec (Session.reachable_exec (.refl _) trivial)
      trivial) trivial
  have unread : session.buffer.unread = [72, 105, 33] := by decide +kernel
  refine ⟨(readsAlike_and_sameBody_iff 2).1 reachable 5 (by decide +kernel), unread, ?_⟩
  refine ((readsAlike_and_sameBody_iff 2).2 reachable _ true rfl).mpr
    ⟨CharsetTypes.utf8, rfl, .inr ⟨by decide +kernel, rfl, ?_⟩⟩
  rw [unread]
  exact List.survivesWrap_of_le (by simp)

end HttpMsgBase

end Snode.Http
