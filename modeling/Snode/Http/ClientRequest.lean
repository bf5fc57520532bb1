import Snode.Http.Framing
import Snode.Http.HeadParsing
import Snode.Http.HeadSearch

/-!
# Requests as clients send them

Well-formed requests of version 1.1, the bytes they consist of, and what the
parser makes of these whatever follows them.
-/

namespace Snode.Http

/-- Neither a control character nor a space; above ASCII everything is allowed. -/
def isVisible (byte : UInt8) : Bool :=
  decide (33 ≤ byte.toNat) && byte.toNat != 127

/-- What a field value may consist of: visible characters, spaces and tabs. -/
def isFieldChar (byte : UInt8) : Bool :=
  isVisible byte || byte == 32 || byte == 9

/-- A well-formed request; how its body is framed is up to its fields. -/
structure ClientRequest where
  method : Bytes
  target : Bytes
  fields : List (Bytes × Bytes)
  body : Bytes
  methodNonempty : method ≠ []
  methodValid : validateMethod method = true
  targetNonempty : target ≠ []
  targetVisible : ∀ byte ∈ target, isVisible byte = true
  names : ∀ field ∈ fields, field.1 ≠ [] ∧ ∀ byte ∈ field.1, isVisible byte = true ∧ byte ≠ 58
  values : ∀ field ∈ fields, ∀ byte ∈ field.2, isFieldChar byte = true

theorem isFieldChar_ne {byte : UInt8} (field : isFieldChar byte = true) :
    byte ≠ cr ∧ byte ≠ lf := by
  constructor
  all_goals
    rintro rfl
    revert field
    decide

theorem isVisible_ne {byte : UInt8} (visible : isVisible byte = true) : byte ≠ cr ∧ byte ≠ lf :=
  isFieldChar_ne (by simp [isFieldChar, visible])

theorem validMethodChar_notSpace {byte : UInt8} (valid : validMethodChar byte = true) :
    isSpace byte = false := by
  by_contra space
  have values : byte.toNat = 32 ∨ byte.toNat = 9 ∨ byte.toNat = 10 ∨ byte.toNat = 11 ∨
      byte.toNat = 12 ∨ byte.toNat = 13 := by
    simp only [isSpace, Bool.not_eq_false, Bool.or_eq_true, beq_iff_eq, Bool.and_eq_true,
      decide_eq_true_eq] at space
    rcases space with rfl | control
    · exact .inl rfl
    · omega
  rcases values with value | value | value | value | value | value
  all_goals
    simp only [validMethodChar, value] at valid
    revert valid
    decide

/-- Spelling a method in upper case keeps it valid. -/
theorem validateMethod_normaliseMethod {method : Bytes} (valid : validateMethod method = true) :
    validateMethod (normaliseMethod method) = true := by
  simp only [normaliseMethod]
  rcases found : Methods.normalised.find? (iequals method ·) with _ | standard
  · exact valid
  · have all : ∀ standard ∈ Methods.normalised, validateMethod standard = true := by
      decide
    exact all standard (List.mem_of_find?_eq_some found)

namespace ClientRequest

/-- A field as the line it is sent in, without the line feed. -/
def fieldLine (field : Bytes × Bytes) : Bytes :=
  field.1 ++ ascii ": " ++ field.2 ++ [cr]

def head (request : ClientRequest) : Bytes :=
  request.method ++ ascii " " ++ request.target ++ ascii " HTTP/1.1" ++ crlf ++
    HttpConnection.printHeaders request.fields ++ crlf

def bytes (request : ClientRequest) : Bytes :=
  request.head ++ request.body

/-- What is to be dispatched for a request. -/
def dispatched (request : ClientRequest) : Dispatched :=
  ⟨normaliseMethod request.method, request.target,
    addHeaderLines [] (request.fields.map fieldLine)⟩

theorem fieldLine_ne_return (field : Bytes × Bytes) : fieldLine field ≠ [cr] := by
  intro same
  have length := congrArg List.length same
  have two : (ascii ": ").length = 2 := rfl
  simp only [fieldLine, List.length_append, List.length_singleton, two] at length
  omega

variable (request : ClientRequest)

section Fields

variable {request} {field : Bytes × Bytes} (present : field ∈ request.fields)
include present

theorem lf_notMem_fieldLine : lf ∉ fieldLine field := by
  simp only [fieldLine, List.mem_append, List.mem_singleton, not_or]
  refine ⟨⟨⟨fun inName => ?_, by decide⟩, fun inValue => ?_⟩, by decide⟩
  · exact (isVisible_ne ((request.names field present).2 lf inName).1).2 rfl
  · exact (isFieldChar_ne (request.values field present lf inValue)).2 rfl

theorem isHeaderLine_fieldLine : isHeaderLine (fieldLine field) = true := by
  rcases request.names field present with ⟨nonempty, visible⟩
  have noColon : 58 ∉ field.1 := fun inName => (visible 58 inName).2 rfl
  have split : fieldLine field = field.1 ++ (58 :: 32 :: (field.2 ++ [cr])) := by
    simp [fieldLine, ascii]
  have colon : (fieldLine field).idxOf 58 = field.1.length := by
    rw [split, List.idxOf_append_of_notMem noColon, List.idxOf_cons_self, Nat.add_zero]
  rw [isHeaderLine, decide_eq_true_eq, colon, split]
  refine ⟨by simp, ?_⟩
  simpa using nonempty

end Fields

/-- The header lines of a request are its fields. -/
theorem headerFields_printHeaders (more : Bytes) :
    headerFields (HttpConnection.printHeaders request.fields ++ (crlf ++ more)) =
      request.fields.map fieldLine := by
  have all : ∀ fields : List (Bytes × Bytes), (∀ field ∈ fields, field ∈ request.fields) →
      headerFields (HttpConnection.printHeaders fields ++ (crlf ++ more)) =
        fields.map fieldLine := by
    intro fields valid
    induction fields with
    | nil =>
        have line := textLines_line (show lf ∉ [cr] by decide) more
        simp only [headerFields, HttpConnection.printHeaders, List.flatMap_nil, List.nil_append]
        change (textLines ([cr] ++ lf :: more)).takeWhile _ = _
        rw [line]
        simp
    | cons field fields ih =>
        have present := valid field List.mem_cons_self
        have split : HttpConnection.printHeaders (field :: fields) ++ (crlf ++ more) =
            fieldLine field ++
              lf :: (HttpConnection.printHeaders fields ++ (crlf ++ more)) := by
          simp [HttpConnection.printHeaders, fieldLine, crlf]
        have others := ih fun other inFields => valid other (List.mem_cons_of_mem _ inFields)
        rw [headerFields] at others ⊢
        rw [split, textLines_line (lf_notMem_fieldLine present),
          List.takeWhile_cons_of_pos (by simpa using fieldLine_ne_return field), others]
        rfl
  exact all request.fields fun _ present => present

theorem word_space {word : Bytes} (nonempty : word ≠ [])
    (noSpace : ∀ byte ∈ word, isSpace byte = false) (rest : Bytes) :
    headWord (word ++ 32 :: rest) = word ∧ afterWord (word ++ 32 :: rest) = 32 :: rest := by
  have space : isSpace 32 = true := by decide
  have skipped : (word ++ 32 :: rest).dropWhile isSpace = word ++ 32 :: rest := by
    cases word with
    | nil => exact (nonempty rfl).elim
    | cons byte word => simp [noSpace byte List.mem_cons_self]
  have all : ∀ byte ∈ word, (!isSpace byte) = true := fun byte present => by
    simp [noSpace byte present]
  rw [headWord, afterWord, skipped, List.takeWhile_append_of_pos all,
    List.dropWhile_append_of_pos all]
  simp [space]

/-- The parts of a request as the parser finds them. -/
theorem head_parts (more : Bytes) :
    headWord (request.head ++ more) = request.method ∧
      restOfLine (request.head ++ more) =
        ascii " " ++ request.target ++ ascii " HTTP/1.1" ++ [cr] ∧
      afterRequestLine (request.head ++ more) =
        HttpConnection.printHeaders request.fields ++ (crlf ++ more) := by
  let fields := HttpConnection.printHeaders request.fields ++ (crlf ++ more)
  let line := ascii " " ++ request.target ++ ascii " HTTP/1.1" ++ [cr]
  have split : request.head ++ more = request.method ++ (line ++ lf :: fields) := by
    simp [head, line, fields, crlf]
  have noFeed : lf ∉ line := by
    simp only [line, List.mem_append, not_or]
    refine ⟨⟨⟨by decide, fun inTarget => ?_⟩, by decide⟩, by decide⟩
    exact (isVisible_ne (request.targetVisible lf inTarget)).2 rfl
  have noSpace : ∀ byte ∈ request.method, isSpace byte = false := fun byte present =>
    validMethodChar_notSpace (List.all_eq_true.mp request.methodValid byte present)
  rcases word_space request.methodNonempty noSpace ((line ++ lf :: fields).tail) with
    ⟨word, after⟩
  have space : 32 :: (line ++ lf :: fields).tail = line ++ lf :: fields := rfl
  rw [space, ← split] at word after
  rcases takeWhile_line noFeed fields with ⟨taken, dropped⟩
  exact ⟨word, by rw [restOfLine, after, taken], by rw [afterRequestLine, after, dropped]; rfl⟩

theorem length_restOfLine (more : Bytes) :
    (restOfLine (request.head ++ more)).length = request.target.length + 11 := by
  have one : (ascii " ").length = 1 := rfl
  have nine : (ascii " HTTP/1.1").length = 9 := rfl
  rw [(request.head_parts more).2.1]
  simp only [List.length_append, List.length_singleton, one, nine]
  omega

/-- A well-formed request is accepted, whatever follows its head. -/
theorem acceptable_head (more : Bytes) : acceptable (request.head ++ more) = true := by
  rcases request.head_parts more with ⟨word, line, rest⟩
  have long : 0 < request.target.length := List.length_pos_iff.mpr request.targetNonempty
  simp only [acceptable, word, rest, request.headerFields_printHeaders, Bool.and_eq_true,
    decide_eq_true_eq, request.length_restOfLine, List.all_map, List.all_eq_true]
  refine ⟨⟨validateMethod_normaliseMethod request.methodValid, ?_⟩, fun field present => ?_⟩
  · simp only [versionPortionSize]
    omega
  · exact isHeaderLine_fieldLine present

theorem parsedRequest_head (more : Bytes) :
    parsedRequest (request.head ++ more) [] = request.dispatched := by
  rcases request.head_parts more with ⟨word, line, rest⟩
  rw [parsedRequest_eq (request.acceptable_head more), word, rest,
    request.headerFields_printHeaders, request.length_restOfLine, line]
  have url : substr (ascii " " ++ request.target ++ ascii " HTTP/1.1" ++ [cr]) 1
      (request.target.length + 11 - versionPortionSize - 1) = request.target := by
    simp [substr, ascii, versionPortionSize]
  rw [url]
  rfl

/-- Among lines that are not empty the first empty one is at their end. -/
theorem length_lines_le {lines : List Bytes} (good : ∀ line ∈ lines, line ≠ [] ∧ cr ∉ line)
    {before after more : Bytes}
    (split : before ++ (emptyLine ++ after) = lines.flatMap (· ++ crlf) ++ (crlf ++ more)) :
    (lines.flatMap (· ++ crlf) ++ crlf).length ≤ before.length + emptyLine.length := by
  induction lines generalizing before with
  | nil => simp [emptyLine, crlf]
  | cons line lines ih =>
      have others := fun other present => good other (List.mem_cons_of_mem line present)
      rcases good line List.mem_cons_self with ⟨-, noReturn⟩
      -- Two line ends in a row, and no line between them.
      have last : crlf ++ after = lines.flatMap (· ++ crlf) ++ (crlf ++ more) → lines = [] := by
        intro same
        cases lines with
        | nil => rfl
        | cons next lines =>
            rcases others next List.mem_cons_self with ⟨nonempty, noReturn⟩
            rcases List.exists_cons_of_ne_nil nonempty with ⟨byte, rest, rfl⟩
            have first : cr = byte := by
              simpa [crlf] using congrArg List.head? same
            exact (noReturn (first ▸ List.mem_cons_self)).elim
      have here (same : emptyLine ++ after =
          crlf ++ (lines.flatMap (· ++ crlf) ++ (crlf ++ more))) :
          ((line :: lines).flatMap (· ++ crlf) ++ crlf).length ≤
            line.length + emptyLine.length := by
        obtain rfl : lines = [] := by
          apply last
          rw [emptyLine, List.append_assoc] at same
          exact List.append_cancel_left same
        simp [emptyLine]
      rw [List.flatMap_cons, List.append_assoc, List.append_assoc,
        List.append_eq_append_iff] at split
      rcases split with ⟨start, rfl, same⟩ | ⟨behind, rfl, same⟩
      · cases start with
        | nil =>
            rw [List.append_nil]
            simpa using here same
        | cons byte start =>
            have first : cr = byte := by
              simpa [emptyLine, crlf] using congrArg List.head? same
            exact (noReturn (first ▸ by simp)).elim
      · rcases behind with _ | ⟨byte, _ | ⟨other, behind⟩⟩
        · simpa using here same.symm
        · have second : lf = cr := by
            simpa [emptyLine, crlf] using congrArg (List.head? ∘ List.tail) same
          exact (absurd second (by decide) : False).elim
        · have rest : behind ++ (emptyLine ++ after) =
              lines.flatMap (· ++ crlf) ++ (crlf ++ more) := by
            have tails := congrArg (List.drop 2) same
            simpa [crlf] using tails.symm
          have length := ih others rest
          simp only [List.flatMap_cons, List.length_append, List.length_cons] at length ⊢
          have two : crlf.length = 2 := rfl
          omega

/-- Once an empty line is received the head is. -/
theorem head_le {received more : Bytes} (isStart : received <+: request.head ++ more)
    (ended : emptyLine <:+: received) : request.head <+: received := by
  let lines := (request.method ++ ascii " " ++ request.target ++ ascii " HTTP/1.1") ::
    request.fields.map fun field => field.1 ++ ascii ": " ++ field.2
  have split : request.head = lines.flatMap (· ++ crlf) ++ crlf := by
    simp [head, lines, HttpConnection.printHeaders, List.flatMap_map]
  have good : ∀ line ∈ lines, line ≠ [] ∧ cr ∉ line := by
    intro line present
    rcases List.mem_cons.mp present with rfl | inFields
    · refine ⟨by simp [request.methodNonempty], ?_⟩
      simp only [List.mem_append, not_or]
      refine ⟨⟨⟨fun inMethod => ?_, by decide⟩, fun inTarget => ?_⟩, by decide⟩
      · have valid := List.all_eq_true.mp request.methodValid cr inMethod
        revert valid
        decide
      · exact (isVisible_ne (request.targetVisible cr inTarget)).1 rfl
    · rcases List.mem_map.mp inFields with ⟨field, known, rfl⟩
      refine ⟨by simp [(request.names field known).1], ?_⟩
      simp only [List.mem_append, not_or]
      refine ⟨⟨fun inName => ?_, by decide⟩, fun inValue => ?_⟩
      · exact (isVisible_ne ((request.names field known).2 cr inName).1).1 rfl
      · exact (isFieldChar_ne (request.values field known cr inValue)).1 rfl
  rcases ended with ⟨before, after, rfl⟩
  rcases isStart with ⟨rest, same⟩
  have length : request.head.length ≤ before.length + emptyLine.length := by
    rw [split]
    apply length_lines_le good
    rw [split, List.append_assoc, List.append_assoc, List.append_assoc] at same
    exact same
  have whole : before ++ emptyLine ++ after <+: request.head ++ more := ⟨rest, same⟩
  apply List.prefix_of_prefix_length_le (List.prefix_append _ more) whole
  simp only [List.length_append]
  omega

end ClientRequest

end Snode.Http
