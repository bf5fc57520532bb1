import Snode.Http.Events
import Snode.Lib.Scan

/-!
# Waiting for the head of a request

`crlf_nonascii_searcher` is a scanner that stops behind the first empty line and
behind any character that is not expected in a head: at the end of the shortest
start of the text that ends so.  Since `async_read_until` resumes it where it asks
for that, when and where it stops depends on the bytes received and not on the
pieces they came in.
-/

namespace Snode.Http

/-- The characters `crlf_nonascii_searcher` goes on after. -/
def isHeadChar (byte : UInt8) : Bool :=
  decide (32 ≤ byte.toNat ∧ byte.toNat ≤ 127) || byte == cr || byte == lf

/-- The end of a head. -/
def emptyLine : Bytes := crlf ++ crlf

namespace SearchState

/-- What was read of the end of a head. -/
def pending : SearchState → Bytes
  | none => []
  | cr => [Http.cr]
  | crlf => Http.crlf
  | crlfcr => Http.crlf ++ [Http.cr]

def next (state : SearchState) (byte : UInt8) : Option SearchState :=
  if byte = Http.cr then
    some (if state = crlf then crlfcr else cr)
  else if byte = lf then
    if state = cr then some crlf else if state = crlfcr then Option.none else some none
  else if isHeadChar byte then
    some none
  else
    Option.none

theorem pending_next {state reached : SearchState} {byte : UInt8}
    (step : state.next byte = some reached) :
    reached.pending <:+ state.pending ++ [byte] := by
  simp only [next] at step
  split at step
  · next isReturn =>
      subst isReturn
      obtain rfl := Option.some.inj step
      cases state <;> decide
  · split at step
    · next isFeed =>
        subst isFeed
        cases state with
        | none | crlf =>
            obtain rfl : none = reached := by simpa using step
            simp [pending]
        | cr =>
            obtain rfl : crlf = reached := by simpa using step
            simp [pending, Http.crlf]
        | crlfcr => simp at step
    · split at step
      · obtain rfl := Option.some.inj step
        simp [pending]
      · simp at step

/-- The searcher stops behind an empty line, or at a character it does not expect. -/
theorem next_eq_none {state : SearchState} {byte : UInt8} (stops : state.next byte = Option.none) :
    state.pending ++ [byte] = emptyLine ∨ isHeadChar byte = false := by
  simp only [next] at stops
  split at stops
  · simp at stops
  · split at stops
    · next isFeed =>
        subst isFeed
        cases state with
        | none | cr | crlf => simp at stops
        | crlfcr => exact .inl rfl
    · split at stops
      · simp at stops
      · next unexpected => exact .inr (by simpa using unexpected)

end SearchState

def headScanner : Scanner SearchState UInt8 where
  start := .none
  next := SearchState.next
  pending := SearchState.pending
  pending_start := rfl
  pending_next _ _ _ := SearchState.pending_next
  replay state := by cases state <;> decide

theorem next_of_unexpected {byte : UInt8} (unexpected : isHeadChar byte = false)
    (state : SearchState) : state.next byte = none := by
  have notReturn : byte ≠ cr := fun same => by simp [same, isHeadChar] at unexpected
  have notFeed : byte ≠ lf := fun same => by simp [same, isHeadChar] at unexpected
  simp [SearchState.next, notReturn, notFeed, unexpected]

/-- When a search of a buffer stops. -/
def endsSearch (buffer : Bytes) : Bool :=
  containsPattern emptyLine buffer || buffer.any (!isHeadChar ·)

theorem stops_eq_endsSearch (buffer : Bytes) : headScanner.stops buffer = endsSearch buffer := by
  have stops_middle (before rest : Bytes) (middle : Bytes)
      (stops : ∀ state, headScanner.scan state middle = none) :
      headScanner.stops (before ++ middle ++ rest) = true := by
    apply Scanner.stops_append
    rw [Scanner.stops, Scanner.scan_append]
    cases headScanner.scan headScanner.start before with
    | none => rfl
    | some state => simp [stops state]
  rw [Bool.eq_iff_iff, endsSearch, Bool.or_eq_true, containsPattern_iff, List.any_eq_true]
  constructor
  · intro stops
    rw [Scanner.stops, Option.isNone_iff_eq_none] at stops
    rcases Scanner.exists_stop stops with ⟨before, byte, after, reached, rfl, scanned, stop⟩
    rcases SearchState.next_eq_none stop with line | unexpected
    · left
      have suffix := Scanner.pending_scan scanned
      rw [headScanner.pending_start, List.nil_append] at suffix
      rcases suffix with ⟨front, rfl⟩
      refine ⟨front, after, ?_⟩
      rw [← line]
      simp [headScanner]
    · exact .inr ⟨byte, by simp, by simp [unexpected]⟩
  · rintro (⟨before, rest, rfl⟩ | ⟨byte, present, unexpected⟩)
    · apply stops_middle
      intro state
      cases state <;> decide
    · rcases List.append_of_mem present with ⟨before, rest, rfl⟩
      rw [← List.singleton_append, ← List.append_assoc]
      apply stops_middle
      intro state
      rw [Scanner.scan_cons]
      exact congrArg (Option.bind · _)
        (next_of_unexpected (by simpa using unexpected) state)

theorem isHeadChar_iff {byte : UInt8} (notReturn : byte ≠ cr) (notFeed : byte ≠ lf) :
    isHeadChar byte = false ↔ (charVal byte ≤ 31 ∧ 0 ≤ charVal byte) ∨
      (charVal byte ≤ -1 ∧ -128 ≤ charVal byte) := by
  have small := byte.toNat_lt
  simp only [isHeadChar, charVal, notReturn, notFeed, beq_eq_false_iff_ne.mpr, ne_eq,
    not_false_eq_true, Bool.or_false, decide_eq_false_iff_not]
  split <;> omega

theorem crlfNonasciiSearcher_cons {state : SearchState} {excluded cur : ℕ}
    (position : excluded + state.pending.length = cur) (byte : UInt8) (rest : Bytes) :
    crlfNonasciiSearcher state excluded cur (byte :: rest) =
      (state.next byte).elim (cur + 1, true) fun reached =>
        crlfNonasciiSearcher reached (cur + 1 - reached.pending.length) (cur + 1) rest := by
  subst position
  by_cases isReturn : byte = cr
  · subst isReturn
    cases state <;> simp [crlfNonasciiSearcher, SearchState.next, SearchState.pending, crlf]
  · by_cases isFeed : byte = lf
    · subst isFeed
      cases state <;>
        simp [crlfNonasciiSearcher, SearchState.next, SearchState.pending, crlf, isReturn]
    · have expected := isHeadChar_iff isReturn isFeed
      cases head : isHeadChar byte with
      | false =>
          have unexpected := expected.mp head
          simp only [crlfNonasciiSearcher, SearchState.next, if_neg isReturn, if_neg isFeed, head]
          rcases unexpected with control | nonAscii
          · simp [control]
          · simp [nonAscii]
      | true =>
          have plain := mt expected.mpr (by simp [head])
          rw [not_or] at plain
          simp only [crlfNonasciiSearcher, SearchState.next, if_neg isReturn, if_neg isFeed, head,
            if_neg plain.1, if_neg plain.2]
          simp [SearchState.pending]

/-- A search goes on behind what it read, and keeps back what is pending. -/
theorem crlfNonasciiSearcher_append {state reached : SearchState} {excluded cur : ℕ}
    {before : Bytes} (position : excluded + state.pending.length = cur)
    (scanned : headScanner.scan state before = some reached) (after : Bytes) :
    reached.pending.length ≤ cur + before.length ∧
      crlfNonasciiSearcher state excluded cur (before ++ after) =
        crlfNonasciiSearcher reached (cur + before.length - reached.pending.length)
          (cur + before.length) after := by
  induction before generalizing state excluded cur with
  | nil =>
      obtain rfl : state = reached := by simpa using scanned
      have back : cur - state.pending.length = excluded := by omega
      refine ⟨by simp; omega, ?_⟩
      simp [back]
  | cons byte rest ih =>
      rw [Scanner.scan_cons, Option.bind_eq_some_iff] at scanned
      rcases scanned with ⟨other, one, scanned⟩
      have step : state.next byte = some other := one
      have behind : other.pending.length ≤ cur + 1 := by
        have suffix := (SearchState.pending_next step).length_le
        simp only [List.length_append, List.length_singleton] at suffix
        omega
      have next : cur + 1 - other.pending.length + other.pending.length = cur + 1 := by omega
      rcases ih next scanned with ⟨bound, same⟩
      have length : cur + 1 + rest.length = cur + (byte :: rest).length := by
        rw [List.length_cons]
        omega
      rw [length] at bound same
      refine ⟨bound, ?_⟩
      rw [List.cons_append, crlfNonasciiSearcher_cons position, step]
      exact same

/-- A search that does not stop asks to be resumed at what is pending. -/
theorem crlfNonasciiSearcher_goes {state reached : SearchState} {excluded cur : ℕ}
    {buffer : Bytes} (position : excluded + state.pending.length = cur)
    (scanned : headScanner.scan state buffer = some reached) :
    (crlfNonasciiSearcher state excluded cur buffer).1 + reached.pending.length =
        cur + buffer.length ∧
      (crlfNonasciiSearcher state excluded cur buffer).2 = false := by
  rcases crlfNonasciiSearcher_append position scanned [] with ⟨bound, same⟩
  rw [List.append_nil] at same
  rw [same, crlfNonasciiSearcher]
  exact ⟨by omega, rfl⟩

/-- A search that stops returns the position behind the character it stops at. -/
theorem crlfNonasciiSearcher_stops {state reached : SearchState} {excluded cur : ℕ}
    {before : Bytes} {byte : UInt8} (position : excluded + state.pending.length = cur)
    (scanned : headScanner.scan state before = some reached)
    (stop : reached.next byte = none) (after : Bytes) :
    crlfNonasciiSearcher state excluded cur (before ++ byte :: after) =
      (cur + before.length + 1, true) := by
  rcases crlfNonasciiSearcher_append position scanned (byte :: after) with ⟨bound, same⟩
  rw [same, crlfNonasciiSearcher_cons (by omega), stop]
  rfl

/-! ### The language of the searcher -/

/-- A byte in `0x00-0x1F` other than the two of a line end, or in `0x80-0xFF`. -/
def IllegalByte (byte : UInt8) : Prop :=
  byte.toNat ≤ 0x1F ∧ byte ≠ cr ∧ byte ≠ lf ∨ 0x80 ≤ byte.toNat

/-- The texts whose end the searcher looks for. -/
def EndsMatch (text : Bytes) : Prop :=
  emptyLine <:+ text ∨ ∃ byte, [byte] <:+ text ∧ IllegalByte byte

theorem isHeadChar_eq_false_iff {byte : UInt8} : isHeadChar byte = false ↔ IllegalByte byte := by
  by_cases isReturn : byte = cr
  · simp [isReturn, isHeadChar, IllegalByte, cr]
  · by_cases isFeed : byte = lf
    · simp [isFeed, isHeadChar, IllegalByte, lf]
    · simp only [isHeadChar, IllegalByte, isReturn, isFeed, beq_eq_false_iff_ne.mpr, ne_eq,
        not_false_eq_true, Bool.or_false, decide_eq_false_iff_not, and_true]
      omega

/-- The searcher stops in a text that ends the way it looks for. -/
theorem EndsMatch.stops {text : Bytes} (ends : EndsMatch text) :
    headScanner.stops text = true := by
  rw [stops_eq_endsSearch, endsSearch, Bool.or_eq_true, containsPattern_iff, List.any_eq_true]
  rcases ends with line | ⟨byte, last, illegal⟩
  · exact .inl line.isInfix
  · refine .inr ⟨byte, last.subset (List.mem_singleton.mpr rfl), ?_⟩
    rw [isHeadChar_eq_false_iff.mpr illegal]
    rfl

/-- The searcher stops only where a text ends the way it looks for. -/
theorem endsMatch_of_stop {before : Bytes} {reached : SearchState} {byte : UInt8}
    (scanned : headScanner.scan headScanner.start before = some reached)
    (stop : reached.next byte = none) : EndsMatch (before ++ [byte]) := by
  rcases SearchState.next_eq_none stop with line | unexpected
  · have suffix := Scanner.pending_scan scanned
    rw [headScanner.pending_start, List.nil_append] at suffix
    left
    rw [← line]
    exact List.suffix_append_self_iff.mpr suffix
  · exact .inr ⟨byte, List.suffix_append _ _, isHeadChar_eq_false_iff.mp unexpected⟩

theorem stops_iff_endsMatch {text : Bytes} :
    headScanner.stops text = true ↔ ∃ start, start <+: text ∧ EndsMatch start := by
  constructor
  · intro stops
    rw [Scanner.stops, Option.isNone_iff_eq_none] at stops
    rcases Scanner.exists_stop stops with ⟨before, byte, after, reached, rfl, went, stop⟩
    exact ⟨before ++ [byte], ⟨after, (List.append_cons before byte after).symm⟩,
      endsMatch_of_stop went stop⟩
  · rintro ⟨start, ⟨more, rfl⟩, ends⟩
    exact Scanner.stops_append ends.stops more

/-- The searcher matches exactly when some start of the text ends with an empty line or with
an illegal byte, and returns the end of the shortest one. -/
theorem crlfNonasciiSearcher_language (position : ℕ) (text : Bytes) :
    ((crlfNonasciiSearcher .none position position text).2 = true ↔
        ∃ start, start <+: text ∧ EndsMatch start) ∧
      ((crlfNonasciiSearcher .none position position text).2 = true →
        ∃ start, start <+: text ∧ EndsMatch start ∧
          (∀ other, other <+: text → EndsMatch other → start.length ≤ other.length) ∧
          (crlfNonasciiSearcher .none position position text).1 = position + start.length) := by
  have begins : position + SearchState.none.pending.length = position := rfl
  rcases scanned : headScanner.scan headScanner.start text with _ | reached
  · rcases Scanner.exists_stop scanned with ⟨before, byte, after, reached, rfl, went, stop⟩
    have result := crlfNonasciiSearcher_stops begins went stop after
    have ends := endsMatch_of_stop went stop
    have isStart : before ++ [byte] <+: before ++ byte :: after :=
      ⟨after, (List.append_cons before byte after).symm⟩
    rw [result]
    refine ⟨⟨fun _ => ⟨_, isStart, ends⟩, fun _ => rfl⟩, fun _ => ⟨_, isStart, ends, ?_, ?_⟩⟩
    · intro other otherStart otherEnds
      have longer := Scanner.length_lt_of_stops went otherStart otherEnds.stops
      rwa [List.length_append, List.length_singleton]
    · rw [List.length_append, List.length_singleton, Nat.add_assoc]
  · have unmatched := (crlfNonasciiSearcher_goes begins scanned).2
    have goesOn : headScanner.stops text = false := by
      rw [Scanner.stops, scanned, Option.isNone_some]
    rw [unmatched, ← stops_iff_endsMatch, goesOn]
    simp

/-! ### Resuming a search -/

namespace ReadCondition

/-- A search that is resumed has the result of one from the beginning. -/
theorem search_resumed {buffer : Bytes} {position : ℕ}
    (resumable : headScanner.Resumable buffer position) :
    search buffer position = search buffer 0 := by
  rcases resumable.split with ⟨before, state, rest, rfl, length, scanned⟩
  have replayed : headScanner.scan .none state.pending = some state := headScanner.replay state
  calc search (before ++ (headScanner.pending state ++ rest)) position
    _ = crlfNonasciiSearcher .none position position (state.pending ++ rest) := by
        rw [search, ← length, List.drop_left]
        rfl
    _ = crlfNonasciiSearcher state (position + state.pending.length - state.pending.length)
          (position + state.pending.length) rest :=
        (crlfNonasciiSearcher_append (Nat.add_zero position) replayed rest).2
    _ = crlfNonasciiSearcher state
          (0 + (before ++ headScanner.pending state).length - state.pending.length)
          (0 + (before ++ headScanner.pending state).length) rest := by
        rw [List.length_append, length, Nat.zero_add]
        rfl
    _ = search (before ++ headScanner.pending state ++ rest) 0 :=
        (crlfNonasciiSearcher_append (Nat.add_zero 0) scanned rest).2.symm
    _ = search (before ++ (headScanner.pending state ++ rest)) 0 := by rw [List.append_assoc]

theorem search_verdict {buffer : Bytes} {position : ℕ}
    (resumable : headScanner.Resumable buffer position) :
    (search buffer position).2 = headScanner.stops buffer := by
  have begins : 0 + SearchState.none.pending.length = 0 := rfl
  rw [search_resumed resumable, search, List.drop_zero, Scanner.stops]
  rcases scanned : headScanner.scan headScanner.start buffer with _ | reached
  · rcases Scanner.exists_stop scanned with ⟨before, byte, after, reached, rfl, went, stop⟩
    rw [crlfNonasciiSearcher_stops begins went stop]
    rfl
  · exact (crlfNonasciiSearcher_goes begins scanned).2

theorem search_advance {buffer : Bytes} {position : ℕ}
    (resumable : headScanner.Resumable buffer position)
    (unmet : (search buffer position).2 = false) (piece : Bytes) :
    headScanner.Resumable (buffer ++ piece) (search buffer position).1 := by
  have begins : 0 + SearchState.none.pending.length = 0 := rfl
  rw [search_verdict resumable, Scanner.stops, Option.isNone_eq_false_iff,
    Option.isSome_iff_exists] at unmet
  rcases unmet with ⟨reached, scanned⟩
  apply Scanner.Resumable.advance scanned
  have resumes := (crlfNonasciiSearcher_goes begins scanned).1
  rw [search_resumed resumable, search, List.drop_zero]
  exact resumes.trans (Nat.zero_add _)

end ReadCondition

/-- `async_read_until` on chunks that come in one after the other: each search begins at the
position the one before it returned.  The result is the number of chunks before the match and
its end. -/
def resumedSearch (buffer : Bytes) (position : ℕ) : List Bytes → Option (ℕ × ℕ)
  | [] => none
  | chunk :: chunks =>
      let result := ReadCondition.search (buffer ++ chunk) position
      if result.2 then some (0, result.1)
      else (resumedSearch (buffer ++ chunk) result.1 chunks).map fun found =>
        (found.1 + 1, found.2)

/-- The same with searches that all begin at the beginning of the buffer. -/
def wholeSearch (buffer : Bytes) : List Bytes → Option (ℕ × ℕ)
  | [] => none
  | chunk :: chunks =>
      let result := ReadCondition.search (buffer ++ chunk) 0
      if result.2 then some (0, result.1)
      else (wholeSearch (buffer ++ chunk) chunks).map fun found => (found.1 + 1, found.2)

theorem resumedSearch_eq_of_resumable (chunks : List Bytes) {buffer : Bytes} {position : ℕ}
    (resumable : ∀ chunk, headScanner.Resumable (buffer ++ chunk) position) :
    resumedSearch buffer position chunks = wholeSearch buffer chunks := by
  induction chunks generalizing buffer position with
  | nil => rfl
  | cons chunk chunks ih =>
      have same := ReadCondition.search_resumed (resumable chunk)
      rw [resumedSearch, wholeSearch, ← same]
      cases verdict : (ReadCondition.search (buffer ++ chunk) position).2 with
      | true => simp
      | false =>
          simp only [Bool.false_eq_true, if_false]
          rw [ih (ReadCondition.search_advance (resumable chunk) verdict)]

theorem wholeSearch_isSome (chunks : List Bytes) {buffer : Bytes}
    (unmatched : headScanner.stops buffer = false) :
    (wholeSearch buffer chunks).isSome = headScanner.stops (buffer ++ chunks.flatten) := by
  induction chunks generalizing buffer with
  | nil => simp [wholeSearch, unmatched]
  | cons chunk chunks ih =>
      rw [wholeSearch, ReadCondition.search_verdict (Scanner.resumable_start _),
        List.flatten_cons, ← List.append_assoc]
      cases verdict : headScanner.stops (buffer ++ chunk) with
      | true => exact (Scanner.stops_append verdict _).symm
      | false => simpa using ih verdict

/-- Searches that are resumed match after the same chunk and at the same position as searches
of the whole buffer, and match at all exactly when the bytes received have a match. -/
theorem resumedSearch_eq_wholeSearch (chunks : List Bytes) :
    resumedSearch [] 0 chunks = wholeSearch [] chunks ∧
      ((resumedSearch [] 0 chunks).isSome = true ↔
        ∃ start, start <+: chunks.flatten ∧ EndsMatch start) := by
  have same : resumedSearch [] 0 chunks = wholeSearch [] chunks :=
    resumedSearch_eq_of_resumable chunks fun chunk => Scanner.resumable_start _
  refine ⟨same, ?_⟩
  rw [same, wholeSearch_isSome chunks rfl, List.nil_append, stops_iff_endsMatch]

end Snode.Http
