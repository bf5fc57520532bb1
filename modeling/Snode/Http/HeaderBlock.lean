import Mathlib.Data.List.Infix
import Snode.Http.ContentType
import Snode.Http.RequestLine

/-!
# Blocks of header lines

What the map that `handle_headers` builds says of each name.  The lines of a name
are folded into one value, and lines of other names do not count.
-/

namespace Snode.Http

/-- Names that differ in ASCII case at most. -/
def SameName (left right : Bytes) : Prop :=
  left.map cmpTolower = right.map cmpTolower

instance (left right : Bytes) : Decidable (SameName left right) :=
  inferInstanceAs (Decidable (left.map cmpTolower = right.map cmpTolower))

/-- The first colon of a line is behind something. -/
def HasColon (line : Bytes) : Prop :=
  58 ∈ line ∧ line.head? ≠ some 58

def lineName (line : Bytes) : Bytes :=
  trimWhitespace (line.take (line.idxOf 58))

def lineValue (line : Bytes) : Bytes :=
  trimWhitespace (line.drop (line.idxOf 58 + 1))

/-- The values of the lines of a name. -/
def valuesOf (name : Bytes) (lines : List Bytes) : List Bytes :=
  (lines.filter fun line => decide (SameName (lineName line) name)).map lineValue

/-- What some values come to: the last one counts for a length, and otherwise they are joined from
the first that is not empty. -/
def mergedValue (name : Bytes) (values : List Bytes) : Bytes :=
  if SameName name HeaderNames.contentLength then values.getLastD []
  else (ascii ", ").intercalate (values.dropWhile (·.isEmpty))

/-- What is to be looked up for a name. -/
def headerValue (name : Bytes) (lines : List Bytes) : Option Bytes :=
  if valuesOf name lines = [] then none else some (mergedValue name (valuesOf name lines))

/-! ### Names -/

theorem charVal_injective {left right : UInt8} (same : charVal left = charVal right) :
    left = right := by
  have leftLt := left.toNat_lt
  have rightLt := right.toNat_lt
  apply UInt8.toNat_inj.mp
  unfold charVal at same
  split at same <;> split at same <;> omega

theorem sameName_iff_headerKey (left right : Bytes) :
    SameName left right ↔ headerKey left = headerKey right := by
  have key (name : Bytes) : headerKey name = (name.map cmpTolower).map charVal := by
    simp [headerKey]
  rw [key, key]
  constructor
  · exact congrArg (List.map charVal)
  · intro same
    exact List.map_injective_iff.mpr (fun _ _ => charVal_injective) same

theorem toUpper_cmpTolower :
    toUpper ∘ cmpTolower = toUpper ∧ cmpTolower ∘ toUpper = cmpTolower := by
  have code : ∀ code < 256,
      toUpper (cmpTolower (UInt8.ofNat code)) = toUpper (UInt8.ofNat code) ∧
        cmpTolower (toUpper (UInt8.ofNat code)) = cmpTolower (UInt8.ofNat code) := by
    decide +kernel
  have every (byte : UInt8) := code byte.toNat byte.toNat_lt
  simp only [UInt8.ofNat_toNat] at every
  exact ⟨funext fun byte => (every byte).1, funext fun byte => (every byte).2⟩

/-- The two comparisons of the code agree on which names are the same. -/
theorem iequals_iff (left right : Bytes) : iequals left right = true ↔ SameName left right := by
  rw [iequals, beq_iff_eq, SameName]
  constructor
  · intro same
    have lower := congrArg (List.map cmpTolower) same
    rwa [List.map_map, List.map_map, toUpper_cmpTolower.2] at lower
  · intro same
    have upper := congrArg (List.map toUpper) same
    rwa [List.map_map, List.map_map, toUpper_cmpTolower.1] at upper

theorem isHeaderLine_iff (line : Bytes) : isHeaderLine line = true ↔ HasColon line := by
  rw [isHeaderLine, decide_eq_true_eq, List.idxOf_lt_length_iff, HasColon, and_congr_right_iff]
  intro present
  cases line with
  | nil => simp at present
  | cons byte line =>
      by_cases colon : byte = 58
      · simp [colon]
      · simp [List.idxOf_cons_ne _ colon, colon]

namespace HttpHeaders

theorem find_congr (headers : HttpHeaders) {name other : Bytes} (same : SameName name other) :
    headers.find name = headers.find other := by
  have key := (sameName_iff_headerKey name other).mp same
  have left (entry : Bytes) : caseInsensitiveCmp name entry = caseInsensitiveCmp other entry := by
    rw [Bool.eq_iff_iff, caseInsensitiveCmp_iff, caseInsensitiveCmp_iff, key]
  have right (entry : Bytes) : caseInsensitiveCmp entry name = caseInsensitiveCmp entry other := by
    rw [Bool.eq_iff_iff, caseInsensitiveCmp_iff, caseInsensitiveCmp_iff, key]
  induction headers with
  | nil => rfl
  | cons entry rest ih => simp only [find, left, right, ih]

end HttpHeaders

/-! ### The fold over the lines -/

/-- What a line does to the value of its name. -/
def combine (name value current : Bytes) : Bytes :=
  if current.isEmpty || iequals name HeaderNames.contentLength then value
  else current ++ ascii ", " ++ value

theorem combine_congr {name other : Bytes} (same : SameName name other) (value current : Bytes) :
    combine name value current = combine other value current := by
  have length : iequals name HeaderNames.contentLength =
      iequals other HeaderNames.contentLength := by
    rw [Bool.eq_iff_iff, iequals_iff, iequals_iff, SameName, SameName]
    constructor
    · exact same.symm.trans
    · exact same.trans
  rw [combine, combine, length]

theorem addHeaderLine_eq {line : Bytes} (colon : HasColon line) (headers : HttpHeaders) :
    HttpConnection.addHeaderLine headers line =
      some (headers.modify (lineName line) (combine (lineName line) (lineValue line))) := by
  have header := (isHeaderLine_iff line).mpr colon
  rw [isHeaderLine, decide_eq_true_eq] at header
  exact if_pos header

theorem addHeaderLines_cons {line : Bytes} (colon : HasColon line) (headers : HttpHeaders)
    (lines : List Bytes) :
    addHeaderLines headers (line :: lines) =
      addHeaderLines (headers.modify (lineName line) (combine (lineName line) (lineValue line)))
        lines := by
  rw [addHeaderLines, List.foldl_cons, addHeaderLine_eq colon, Option.getD_some, addHeaderLines]

theorem valuesOf_cons_same {name line : Bytes} (same : SameName (lineName line) name)
    (lines : List Bytes) : valuesOf name (line :: lines) = lineValue line :: valuesOf name lines := by
  rw [valuesOf, List.filter_cons_of_pos (by simpa using same), List.map_cons, valuesOf]

theorem valuesOf_cons_other {name line : Bytes} (other : ¬SameName (lineName line) name)
    (lines : List Bytes) : valuesOf name (line :: lines) = valuesOf name lines := by
  rw [valuesOf, List.filter_cons_of_neg (by simpa using other), valuesOf]

/-- Only the lines of a name count for its value. -/
theorem find_addHeaderLines (name : Bytes) {lines : List Bytes}
    (colons : ∀ line ∈ lines, HasColon line) (headers : HttpHeaders) :
    (addHeaderLines headers lines).find name =
      (valuesOf name lines).foldl
        (fun current value => some (combine name value (current.getD []))) (headers.find name) := by
  induction lines generalizing headers with
  | nil => rfl
  | cons line lines ih =>
      have colon := colons line List.mem_cons_self
      have others := ih fun other present => colons other (List.mem_cons_of_mem line present)
      rw [addHeaderLines_cons colon, others]
      by_cases same : SameName (lineName line) name
      · rw [valuesOf_cons_same same, List.foldl_cons, ← HttpHeaders.find_congr _ same,
          HttpHeaders.find_modify_self, combine_congr same, HttpHeaders.find_congr _ same]
      · have different : headerKey name ≠ headerKey (lineName line) := by
          rw [ne_eq, ← sameName_iff_headerKey]
          exact fun equal => same equal.symm
        rw [valuesOf_cons_other same, HttpHeaders.find_modify_other headers different]

/-- A value with others behind it. -/
theorem intercalate_eq (separator value : Bytes) (values : List Bytes) :
    separator.intercalate (value :: values) = value ++ values.flatMap (separator ++ ·) := by
  induction values generalizing value with
  | nil => simp
  | cons next values ih =>
      rw [List.intercalate_cons_cons, ih, List.flatMap_cons, List.append_assoc,
        List.append_assoc]

section Merging

variable {name : Bytes}

/-- The length of the body is what the last line says. -/
theorem foldl_combine_length (isLength : SameName name HeaderNames.contentLength) (value : Bytes)
    (values : List Bytes) (start : Option Bytes) :
    (value :: values).foldl (fun current value => some (combine name value (current.getD [])))
        start = some ((value :: values).getLastD []) := by
  have last (value current : Bytes) : combine name value current = value := by
    simp [combine, (iequals_iff name HeaderNames.contentLength).mpr isLength]
  induction values generalizing value start with
  | nil => simp [last]
  | cons next values ih =>
      rw [List.foldl_cons, ih]
      simp

theorem combine_append (notLength : ¬SameName name HeaderNames.contentLength) {current : Bytes}
    (nonempty : current ≠ []) (value : Bytes) :
    combine name value current = current ++ (ascii ", " ++ value) := by
  have other : iequals name HeaderNames.contentLength = false := by
    rw [← Bool.not_eq_true, iequals_iff]
    exact notLength
  simp [combine, nonempty, other]

theorem foldl_combine_append (notLength : ¬SameName name HeaderNames.contentLength)
    {current : Bytes} (nonempty : current ≠ []) (values : List Bytes) :
    values.foldl (fun current value => some (combine name value (current.getD [])))
        (some current) = some (current ++ values.flatMap (ascii ", " ++ ·)) := by
  induction values generalizing current with
  | nil => simp
  | cons value values ih =>
      have longer : current ++ (ascii ", " ++ value) ≠ [] := by simp [nonempty]
      rw [List.foldl_cons, Option.getD_some, combine_append notLength nonempty, ih longer,
        List.flatMap_cons, List.append_assoc]

/-- Empty values are replaced until there is one to join the others to. -/
theorem foldl_combine_join (notLength : ¬SameName name HeaderNames.contentLength) (value : Bytes)
    (values : List Bytes) {start : Option Bytes} (unset : start.getD [] = []) :
    (value :: values).foldl (fun current value => some (combine name value (current.getD [])))
        start = some ((ascii ", ").intercalate ((value :: values).dropWhile (·.isEmpty))) := by
  induction values generalizing value start with
  | nil =>
      cases value with
      | nil => simp [combine, unset]
      | cons byte value => simp [combine, unset]
  | cons next values ih =>
      have first : combine name value (start.getD []) = value := by simp [combine, unset]
      rw [List.foldl_cons, first]
      cases value with
      | nil => exact ih next rfl
      | cons byte value =>
          rw [foldl_combine_append notLength (List.cons_ne_nil _ _),
            List.dropWhile_cons_of_neg (by simp), intercalate_eq]

end Merging

/-- What the map says of a name, for every block. -/
theorem find_addHeaderLines_nil (name : Bytes) {lines : List Bytes}
    (colons : ∀ line ∈ lines, HasColon line) :
    (addHeaderLines [] lines).find name = headerValue name lines := by
  rw [find_addHeaderLines name colons, headerValue]
  rcases values : valuesOf name lines with _ | ⟨value, others⟩
  · rfl
  · rw [if_neg (List.cons_ne_nil _ _), mergedValue]
    by_cases isLength : SameName name HeaderNames.contentLength
    · rw [if_pos isLength]
      exact foldl_combine_length isLength value others _
    · rw [if_neg isLength]
      exact foldl_combine_join isLength value others rfl

/-- The order of lines with different names does not matter. -/
theorem valuesOf_swap {first second : Bytes}
    (different : ¬SameName (lineName first) (lineName second)) (name : Bytes)
    (before after : List Bytes) :
    valuesOf name (before ++ first :: second :: after) =
      valuesOf name (before ++ second :: first :: after) := by
  have behind : valuesOf name (first :: second :: after) =
      valuesOf name (second :: first :: after) := by
    by_cases isFirst : SameName (lineName first) name
    · have notSecond : ¬SameName (lineName second) name := fun isSecond =>
        different (Eq.trans isFirst isSecond.symm)
      rw [valuesOf_cons_same isFirst, valuesOf_cons_other notSecond,
        valuesOf_cons_other notSecond, valuesOf_cons_same isFirst]
    · by_cases isSecond : SameName (lineName second) name
      · rw [valuesOf_cons_other isFirst, valuesOf_cons_same isSecond,
          valuesOf_cons_same isSecond, valuesOf_cons_other isFirst]
      · rw [valuesOf_cons_other isFirst, valuesOf_cons_other isSecond,
          valuesOf_cons_other isSecond, valuesOf_cons_other isFirst]
  simp only [valuesOf, List.filter_append, List.map_append] at behind ⊢
  rw [behind]

/-! ### The block in the buffer -/

/-- Some lines and the empty one behind them. -/
def block (lines : List Bytes) : Bytes :=
  lines.flatMap (· ++ [lf]) ++ crlf

/-- The lines of a block end at the first that is empty, whatever follows it. -/
theorem headerFields_block {lines : List Bytes}
    (proper : ∀ line ∈ lines, lf ∉ line ∧ line ≠ [cr]) (more : Bytes) :
    headerFields (block lines ++ more) = lines := by
  induction lines with
  | nil =>
      have line := textLines_line (show lf ∉ [cr] by decide) more
      change (textLines ([cr] ++ lf :: more)).takeWhile _ = _
      rw [line]
      simp
  | cons line lines ih =>
      rcases proper line List.mem_cons_self with ⟨noFeed, notEmpty⟩
      have others := ih fun other present => proper other (List.mem_cons_of_mem line present)
      have split : block (line :: lines) ++ more = line ++ lf :: (block lines ++ more) := by
        simp [block]
      rw [headerFields] at others ⊢
      rw [split, textLines_line noFeed, List.takeWhile_cons_of_pos (by simpa using notEmpty),
        others]

namespace HttpConnection

variable {conn : HttpConnection}

theorem handleHeaders_accepted (getReqHandler : Bytes → Option ℕ)
    (accepted : (headerFields conn.requestBuf).all isHeaderLine = true) :
    (conn.handleHeaders getReqHandler).log.dispatched =
      conn.log.dispatched ++
        [⟨conn.request.method, conn.request.url,
          addHeaderLines conn.request.headers (headerFields conn.requestBuf)⟩] := by
  rcases headerLoop_eq (Nat.lt_succ_self conn.requestBuf.length) [] conn.request.headers with
    ⟨verdict, headers⟩
  have added := headers accepted
  rw [accepted] at verdict
  rw [handleHeaders]
  simp only [Nat.succ_eq_add_one] at verdict added
  simp only [verdict, if_true, added]
  exact congrArg (fun decision => decision.milestones.dispatched)
    (decision_headersRead getReqHandler _)

theorem handleHeaders_refused (getReqHandler : Bytes → Option ℕ)
    (refused : (headerFields conn.requestBuf).all isHeaderLine = false) :
    (conn.handleHeaders getReqHandler).log.dispatched = conn.log.dispatched ∧
      (Replies StatusCodes.badRequest conn (conn.handleHeaders getReqHandler) ↔
        conn.request.initiatedResponse = false) := by
  rcases headerLoop_eq (Nat.lt_succ_self conn.requestBuf.length) [] conn.request.headers with
    ⟨verdict, -⟩
  rw [refused] at verdict
  simp only [Nat.succ_eq_add_one] at verdict
  simp only [handleHeaders, verdict, Bool.false_eq_true, if_false]
  exact rejectBadRequest_log _

end HttpConnection

/-! ### The names in the map -/

namespace HttpHeaders

/-- A new entry is under the name that was asked for. -/
theorem key_of_mem_modify {headers : HttpHeaders} {name : Bytes} {change : Bytes → Bytes}
    {entry : Bytes × Bytes} (present : entry ∈ headers.modify name change) :
    entry.1 = name ∨ ∃ earlier ∈ headers, earlier.1 = entry.1 := by
  induction headers with
  | nil =>
      obtain rfl : entry = (name, change []) := by simpa [modify] using present
      exact .inl rfl
  | cons first rest ih =>
      rcases first with ⟨key, value⟩
      by_cases before : caseInsensitiveCmp name key = true
      · simp only [modify, if_pos before, List.mem_cons] at present
        rcases present with rfl | earlier
        · exact .inl rfl
        · exact .inr ⟨entry, List.mem_cons.mpr earlier, rfl⟩
      · by_cases after : caseInsensitiveCmp key name = true
        · simp only [modify, if_neg before, if_pos after, List.mem_cons] at present
          rcases present with rfl | later
          · exact .inr ⟨_, List.mem_cons_self, rfl⟩
          · rcases ih later with new | ⟨earlier, inRest, same⟩
            · exact .inl new
            · exact .inr ⟨earlier, List.mem_cons_of_mem _ inRest, same⟩
        · simp only [modify, if_neg before, if_neg after, List.mem_cons] at present
          rcases present with rfl | earlier
          · exact .inr ⟨_, List.mem_cons_self, rfl⟩
          · exact .inr ⟨entry, List.mem_cons_of_mem _ earlier, rfl⟩

end HttpHeaders

theorem key_of_mem_addHeaderLines {lines : List Bytes} (colons : ∀ line ∈ lines, HasColon line)
    {headers : HttpHeaders} {entry : Bytes × Bytes}
    (present : entry ∈ addHeaderLines headers lines) :
    (∃ line ∈ lines, lineName line = entry.1) ∨ ∃ earlier ∈ headers, earlier.1 = entry.1 := by
  induction lines generalizing headers with
  | nil => exact .inr ⟨entry, present, rfl⟩
  | cons line lines ih =>
      rw [addHeaderLines_cons (colons line List.mem_cons_self)] at present
      rcases ih (fun other inLines => colons other (List.mem_cons_of_mem line inLines)) present with
        ⟨other, inLines, name⟩ | ⟨added, inHeaders, key⟩
      · exact .inl ⟨other, List.mem_cons_of_mem line inLines, name⟩
      · rcases HttpHeaders.key_of_mem_modify inHeaders with new | ⟨earlier, before, same⟩
        · exact .inl ⟨line, List.mem_cons_self, new.symm.trans key⟩
        · exact .inr ⟨earlier, before, same.trans key⟩

/-- The map of a block says what its lines say, whatever the order of lines with different names,
and a block with a line that is no header is answered and not dispatched. -/
theorem handleHeaders_block (getReqHandler : Bytes → Option ℕ) {conn : HttpConnection}
    {lines : List Bytes} (proper : ∀ line ∈ lines, lf ∉ line ∧ line ≠ [cr]) (more : Bytes)
    (buffered : conn.requestBuf = block lines ++ more) (empty : conn.request.headers = [])
    (fresh : conn.request.initiatedResponse = false) :
    let next := conn.handleHeaders getReqHandler
    ((∀ line ∈ lines, HasColon line) →
        next.log.dispatched = conn.log.dispatched ++
            [⟨conn.request.method, conn.request.url, addHeaderLines [] lines⟩] ∧
          (∀ name, (addHeaderLines [] lines).find name = headerValue name lines) ∧
          (∀ entry ∈ addHeaderLines [] lines, ∃ line ∈ lines, lineName line = entry.1) ∧
          ∀ before first second after, lines = before ++ first :: second :: after →
            ¬SameName (lineName first) (lineName second) →
            ∀ name, (addHeaderLines [] lines).find name =
              (addHeaderLines [] (before ++ second :: first :: after)).find name) ∧
      ((∃ line ∈ lines, ¬HasColon line) →
        HttpConnection.Replies StatusCodes.badRequest conn next ∧
          next.log.dispatched = conn.log.dispatched) := by
  intro next
  have fields : headerFields conn.requestBuf = lines := by
    rw [buffered, headerFields_block proper]
  constructor
  · intro colons
    have lookups := fun name => find_addHeaderLines_nil name colons
    refine ⟨?_, lookups, ?_, ?_⟩
    · have accepted : (headerFields conn.requestBuf).all isHeaderLine = true := by
        rw [fields, List.all_eq_true]
        exact fun line present => (isHeaderLine_iff line).mpr (colons line present)
      have dispatched := HttpConnection.handleHeaders_accepted getReqHandler accepted
      rwa [fields, empty] at dispatched
    · intro entry present
      rcases key_of_mem_addHeaderLines colons present with named | ⟨earlier, none, -⟩
      · exact named
      · simp at none
    · intro before first second after whole different name
      have swapped : ∀ line ∈ before ++ second :: first :: after, HasColon line := by
        intro line present
        apply colons
        rw [whole]
        simp only [List.mem_append, List.mem_cons] at present ⊢
        rcases present with early | isSecond | isFirst | late
        · exact .inl early
        · exact .inr (.inr (.inl isSecond))
        · exact .inr (.inl isFirst)
        · exact .inr (.inr (.inr late))
      rw [lookups, find_addHeaderLines_nil name swapped, whole, headerValue, headerValue,
        valuesOf_swap different]
  · rintro ⟨line, present, noColon⟩
    have refused : (headerFields conn.requestBuf).all isHeaderLine = false := by
      rw [fields, ← Bool.not_eq_true, List.all_eq_true]
      exact fun all => noColon ((isHeaderLine_iff line).mp (all line present))
    have rejected := HttpConnection.handleHeaders_refused getReqHandler refused
    exact ⟨rejected.2.mpr fresh, rejected.1⟩

/-- Two lines of one name around one of another. -/
def acceptLines : List Bytes :=
  [ascii "Accept: a" ++ [cr], ascii "Host: h" ++ [cr], ascii "ACCEPT:b" ++ [cr]]

theorem handleHeaders_block_accept :
    let conn := { HttpConnection.new with requestBuf := block acceptLines ++ [] }
    (conn.handleHeaders fun _ => none).log.dispatched =
        conn.log.dispatched ++
          [⟨conn.request.method, conn.request.url, addHeaderLines [] acceptLines⟩] ∧
      (addHeaderLines [] acceptLines).find (ascii "accept") = some (ascii "a, b") := by
  intro conn
  have colons : ∀ line ∈ acceptLines, HasColon line := by
    intro line present
    rw [← isHeaderLine_iff]
    have all : acceptLines.all isHeaderLine = true := by decide +kernel
    exact List.all_eq_true.mp all line present
  have proper : ∀ line ∈ acceptLines, lf ∉ line ∧ line ≠ [cr] := by
    decide +kernel
  have buffered : conn.requestBuf = block acceptLines ++ [] := rfl
  have handled := handleHeaders_block (fun _ => none) proper [] buffered rfl rfl
  rcases handled.1 colons with ⟨dispatched, lookups, -⟩
  refine ⟨dispatched, ?_⟩
  rw [lookups]
  decide +kernel

end Snode.Http
