import Snode.Http.HeadParsing
import Snode.Http.HeadSearch

/-!
# The pieces a head is received in

The head of a request is read until `crlf_nonascii_searcher` stops, and then the
bytes that are buffered are parsed.  How many these are depends on the pieces the
socket delivered, so what is parsed must not.
-/

namespace Snode.Http

/-! ### A head with more behind it -/

section Growth

variable {head : Bytes}

/-- Behind the first word everything is kept. -/
theorem afterWord_append (word : afterWord head ≠ []) (more : Bytes) :
    headWord (head ++ more) = headWord head ∧ afterWord (head ++ more) = afterWord head ++ more := by
  have skipped : (head.dropWhile isSpace).isEmpty = false := by
    rw [List.isEmpty_eq_false_iff]
    intro nothing
    simp [afterWord, nothing] at word
  have ended : ((head.dropWhile isSpace).dropWhile (!isSpace ·)).isEmpty = false := by
    rwa [List.isEmpty_eq_false_iff]
  simp only [headWord, afterWord, List.dropWhile_append, skipped, Bool.false_eq_true, if_false,
    ended, and_true]
  rw [List.takeWhile_append, if_neg]
  intro all
  apply word
  have whole := (List.takeWhile_prefix _).eq_of_length all
  exact List.dropWhile_eq_nil_iff.mpr (List.takeWhile_eq_self_iff.mp whole)

/-- While the first word may go on nothing is behind it. -/
theorem afterWord_append_suffix (word : afterWord head = []) (more : Bytes) :
    afterWord (head ++ more) <:+ more := by
  simp only [afterWord] at word ⊢
  rw [List.dropWhile_append]
  split
  · exact (List.dropWhile_suffix _).trans (List.dropWhile_suffix _)
  · rw [List.dropWhile_append, word]
    exact List.dropWhile_suffix _

theorem mem_afterWord_of_append {more : Bytes} (noFeed : lf ∉ more)
    (complete : lf ∈ afterWord (head ++ more)) : lf ∈ afterWord head := by
  by_cases word : afterWord head = []
  · exact (noFeed ((afterWord_append_suffix word more).mem complete)).elim
  · rw [(afterWord_append word more).2, List.mem_append] at complete
    exact complete.resolve_right noFeed

/-- Once the request line is complete only header lines are added. -/
theorem append_of_complete (complete : lf ∈ afterWord head) (more : Bytes) :
    headWord (head ++ more) = headWord head ∧ restOfLine (head ++ more) = restOfLine head ∧
      afterRequestLine (head ++ more) = afterRequestLine head ++ more := by
  rcases afterWord_append (List.ne_nil_of_mem complete) more with ⟨word, after⟩
  rcases List.eq_append_cons_of_mem complete with ⟨line, rest, split, noFeed⟩
  rcases takeWhile_line noFeed rest with ⟨taken, dropped⟩
  rcases takeWhile_line noFeed (rest ++ more) with ⟨longTaken, longDropped⟩
  refine ⟨word, ?_, ?_⟩
  · rw [restOfLine, restOfLine, after, split, List.append_assoc, List.cons_append, taken,
      longTaken]
  · rw [afterRequestLine, afterRequestLine, after, split, List.append_assoc, List.cons_append,
      dropped, longDropped]
    rfl

/-- Before it is complete the request line is all there is. -/
theorem of_incomplete (incomplete : lf ∉ afterWord head) :
    restOfLine head = afterWord head ∧ afterRequestLine head = [] := by
  rcases takeWhile_last incomplete with ⟨taken, dropped⟩
  exact ⟨taken, by rw [afterRequestLine, dropped]; rfl⟩

/-- The lines of a text that ends with a line are not changed by what follows. -/
theorem headerFields_append {text : Bytes} (ends : text = [] ∨ ∃ before, text = before ++ [lf])
    (more : Bytes) :
    headerFields (text ++ more) =
      if [cr] ∈ textLines text then headerFields text
      else textLines text ++ headerFields more := by
  have lines : textLines (text ++ more) = textLines text ++ textLines more := by
    rcases ends with rfl | ⟨before, rfl⟩
    · rfl
    · rw [List.append_assoc, List.singleton_append, textLines_append]
  rw [headerFields, lines]
  split
  · next empty =>
      rcases List.append_of_mem empty with ⟨before, after, split⟩
      simp [headerFields, split, List.takeWhile_append]
  · next noEmpty =>
      rw [List.takeWhile_append_of_pos, headerFields]
      intro line present
      rw [bne_iff_ne]
      exact fun same => noEmpty (same ▸ present)

theorem afterRequestLine_suffix (head : Bytes) : afterRequestLine head <:+ head :=
  (List.tail_suffix _).trans ((List.dropWhile_suffix _).trans
    ((List.dropWhile_suffix _).trans (List.dropWhile_suffix _)))

theorem endsLine_of_suffix {text : Bytes} (suffix : text <:+ head)
    (ends : head.getLast? = some lf) : text = [] ∨ ∃ before, text = before ++ [lf] := by
  rcases suffix with ⟨front, rfl⟩
  rcases List.eq_nil_or_concat text with rfl | ⟨before, last, rfl⟩
  · exact .inl rfl
  · obtain rfl : last = lf := by simpa [← List.append_assoc] using ends
    exact .inr ⟨before, List.concat_eq_append ..⟩

/-- An unfinished line, and the same line with more of it. -/
theorem headerFields_line {line : Bytes} (noFeed : lf ∉ line) (nonempty : line ≠ [])
    (notEmptyLine : line ≠ [cr]) {more last : Bytes} (moreNoFeed : lf ∉ more)
    (ends : last = more ∨ last = more ++ [lf]) :
    headerFields (line ++ last) = [line ++ more] := by
  have whole : lf ∉ line ++ more := by simp [noFeed, moreNoFeed]
  have lines : textLines (line ++ last) = [line ++ more] := by
    rcases ends with rfl | rfl
    · exact textLines_last whole (by simp [nonempty])
    · rw [← List.append_assoc, textLines_line whole]
      rfl
  have notEmpty : line ++ more ≠ [cr] := by
    intro same
    rcases List.append_eq_singleton_iff.mp same with ⟨none, -⟩ | ⟨isReturn, -⟩
    · exact nonempty none
    · exact notEmptyLine isReturn
  rw [headerFields, lines, List.takeWhile_cons_of_pos (by simpa using notEmpty),
    List.takeWhile_nil]

theorem isHeaderLine_append {line : Bytes} (header : isHeaderLine line = true) (more : Bytes) :
    isHeaderLine (line ++ more) = true := by
  simp only [isHeaderLine, decide_eq_true_eq, List.length_append] at header ⊢
  have colon : 58 ∈ line := List.idxOf_lt_length_iff.mp header.1
  rw [List.idxOf_append_of_mem colon]
  omega

/-- What is wrong with complete lines stays wrong. -/
theorem acceptable_of_append (complete : lf ∈ afterWord head) (ends : head.getLast? = some lf)
    {more : Bytes} (accepted : acceptable (head ++ more) = true) : acceptable head = true := by
  rcases append_of_complete complete more with ⟨word, line, rest⟩
  have restEnds := endsLine_of_suffix (afterRequestLine_suffix head) ends
  simp only [acceptable, word, line, rest, Bool.and_eq_true] at accepted ⊢
  refine ⟨accepted.1, ?_⟩
  have headers := accepted.2
  rw [headerFields_append restEnds] at headers
  split at headers
  · exact headers
  · rw [List.all_append, Bool.and_eq_true] at headers
    rw [headerFields, List.all_eq_true]
    intro field present
    exact List.all_eq_true.mp headers.1 field ((List.takeWhile_prefix _).mem present)

/-- What is right so far is not changed by the rest of the line. -/
theorem acceptable_of_line (complete : lf ∈ afterWord head) (ends : head.getLast? = some lf)
    {line : Bytes} (noFeed : lf ∉ line) (nonempty : line ≠ []) (notEmptyLine : line ≠ [cr])
    {more last : Bytes} (moreNoFeed : lf ∉ more) (lineEnds : last = more ∨ last = more ++ [lf])
    (accepted : acceptable (head ++ line) = true) :
    acceptable (head ++ (line ++ last)) = true := by
  have restEnds := endsLine_of_suffix (afterRequestLine_suffix head) ends
  have shortField : headerFields line = [line] := by
    simpa using headerFields_line noFeed nonempty notEmptyLine List.not_mem_nil (.inl rfl)
  have longField := headerFields_line noFeed nonempty notEmptyLine moreNoFeed lineEnds
  rcases append_of_complete complete line with ⟨word, first, rest⟩
  rcases append_of_complete complete (line ++ last) with ⟨longWord, longFirst, longRest⟩
  simp only [acceptable, word, first, rest, longWord, longFirst, longRest, Bool.and_eq_true,
    headerFields_append restEnds, shortField, longField] at accepted ⊢
  refine ⟨accepted.1, ?_⟩
  have headers := accepted.2
  split at headers
  · next empty => rwa [if_pos empty]
  · next noEmpty =>
      rw [if_neg noEmpty]
      simp only [List.all_append, List.all_cons, List.all_nil, Bool.and_true,
        Bool.and_eq_true] at headers ⊢
      exact ⟨headers.1, isHeaderLine_append headers.2 more⟩

/-- A request line that goes on stays acceptable. -/
theorem acceptable_of_incomplete (incomplete : lf ∉ afterWord head)
    (accepted : acceptable head = true) {more last : Bytes} (noFeed : lf ∉ more)
    (ends : last = more ∨ last = more ++ [lf]) : acceptable (head ++ last) = true := by
  rcases of_incomplete incomplete with ⟨line, rest⟩
  simp only [acceptable, line, rest, Bool.and_eq_true, decide_eq_true_eq] at accepted
  have word : afterWord head ≠ [] := by
    intro nothing
    simp [nothing, versionPortionSize] at accepted
  rcases afterWord_append word last with ⟨sameWord, after⟩
  have whole : lf ∉ afterWord head ++ more := by simp [incomplete, noFeed]
  have grown : restOfLine (head ++ last) = afterWord head ++ more ∧
      afterRequestLine (head ++ last) = [] := by
    simp only [restOfLine, afterRequestLine, after]
    rcases ends with rfl | rfl
    · rcases takeWhile_last whole with ⟨taken, dropped⟩
      exact ⟨taken, by rw [dropped]; rfl⟩
    · rcases takeWhile_line whole [] with ⟨taken, dropped⟩
      rw [← List.append_assoc]
      exact ⟨taken, by rw [dropped]; rfl⟩
  simp only [acceptable, sameWord, grown.1, grown.2, Bool.and_eq_true, decide_eq_true_eq,
    List.length_append]
  exact ⟨⟨accepted.1.1, by omega⟩, rfl⟩

/-- A head that is not blank is complete when it ends with an empty line. -/
theorem complete_of_emptyLine {text : Bytes} {byte : UInt8} (present : byte ∈ text)
    (notSpace : isSpace byte = false) :
    lf ∈ afterWord (text ++ emptyLine) ∧
      [cr] ∈ textLines (afterRequestLine (text ++ emptyLine)) := by
  obtain ⟨more, after⟩ : ∃ more, afterWord (text ++ emptyLine) = more ++ emptyLine := by
    by_cases word : afterWord text = []
    · have some : (text.dropWhile isSpace).isEmpty = false := by
        rw [List.isEmpty_eq_false_iff]
        intro nothing
        have space := List.dropWhile_eq_nil_iff.mp nothing byte present
        simp [notSpace] at space
      rw [afterWord] at word
      refine ⟨[], ?_⟩
      rw [afterWord, List.dropWhile_append, some, if_neg (by simp), List.dropWhile_append, word]
      decide
    · exact ⟨_, (afterWord_append word emptyLine).2⟩
  refine ⟨after ▸ List.mem_append_right _ (by decide), ?_⟩
  by_cases feed : lf ∈ more
  · rcases List.eq_append_cons_of_mem feed with ⟨line, rest, rfl, noFeed⟩
    rw [afterRequestLine, after, List.append_assoc, List.cons_append,
      (takeWhile_line noFeed _).2, List.tail_cons]
    have lines := textLines_append (rest ++ [cr]) crlf
    rw [List.append_assoc] at lines
    change [cr] ∈ textLines (rest ++ ([cr] ++ lf :: crlf))
    rw [lines]
    exact List.mem_append_right _ (by decide)
  · have noFeed : lf ∉ more ++ [cr] := by simp [feed]; decide
    have split : more ++ emptyLine = (more ++ [cr]) ++ lf :: crlf := by simp [emptyLine, crlf]
    rw [afterRequestLine, after, split, (takeWhile_line noFeed _).2, List.tail_cons]
    decide

/-- Behind an empty line nothing counts. -/
theorem acceptable_append (complete : lf ∈ afterWord head) (ends : head.getLast? = some lf)
    (empty : [cr] ∈ textLines (afterRequestLine head)) (more : Bytes) :
    acceptable (head ++ more) = acceptable head ∧
      (acceptable head = true → ∀ others,
        parsedRequest (head ++ more) others = parsedRequest head others) := by
  rcases append_of_complete complete more with ⟨word, line, rest⟩
  have restEnds := endsLine_of_suffix (afterRequestLine_suffix head) ends
  have fields : headerFields (afterRequestLine (head ++ more)) =
      headerFields (afterRequestLine head) := by
    rw [rest, headerFields_append restEnds, if_pos empty]
  have same : acceptable (head ++ more) = acceptable head := by
    simp only [acceptable, word, line, fields]
  refine ⟨same, fun accepted others => ?_⟩
  rw [parsedRequest_eq accepted, parsedRequest_eq (same.trans accepted), word, line, fields]

end Growth

/-! ### Where the search stops -/

/-- What a search of some bytes reads before it stops. -/
def searched (sent : Bytes) : Bytes :=
  sent.shortestPrefix endsSearch

/-- The head is not blank, and has no character that the search stops at. -/
def PlainHead (sent : Bytes) : Prop :=
  (∀ byte ∈ searched sent, isHeadChar byte = true) ∧ ∃ byte ∈ searched sent, isSpace byte = false

/-- A search stops in some lines, the first of which is the request line. -/
def stopsInLines (lines : Bytes) : Bool :=
  endsSearch lines && (afterWord lines).contains lf && lines.getLast? == some lf

/-- All of the line the search stops in, and of the request line. -/
def stoppedLines (sent : Bytes) : Bytes :=
  sent.shortestPrefix stopsInLines

section Stopping

variable {sent start : Bytes}

theorem endsSearch_append {start : Bytes} (ends : endsSearch start = true) (more : Bytes) :
    endsSearch (start ++ more) = true := by
  rw [← stops_eq_endsSearch] at ends ⊢
  exact Scanner.stops_append ends more

theorem endsSearch_of_emptyLine (ended : emptyLine <:+: sent) : endsSearch sent = true := by
  rw [endsSearch, containsPattern_iff.mpr ended, Bool.true_or]

theorem searched_le_self (sent : Bytes) : searched sent <+: sent :=
  List.shortestPrefix_le_self _ _

theorem stoppedLines_le_self (sent : Bytes) : stoppedLines sent <+: sent :=
  List.shortestPrefix_le_self _ _

theorem searched_le (isStart : start <+: sent) (ends : endsSearch start = true) :
    searched sent <+: start :=
  List.shortestPrefix_le isStart ends

/-- A plain head ends with its empty line. -/
theorem PlainHead.searched_eq (ended : emptyLine <:+: sent) (plain : PlainHead sent) :
    ∃ text, searched sent = text ++ emptyLine ∧ ∃ byte ∈ text, isSpace byte = false := by
  have stops : endsSearch (searched sent) = true :=
    List.property_shortestPrefix List.prefix_rfl (endsSearch_of_emptyLine ended)
  have expected : (searched sent).any (!isHeadChar ·) = false := by
    rw [List.any_eq_false]
    intro byte present
    simp [plain.1 byte present]
  rw [endsSearch, expected, Bool.or_false, containsPattern_iff] at stops
  rcases stops with ⟨text, rest, split⟩
  have isStart : text ++ emptyLine <+: sent :=
    (split ▸ List.prefix_append _ rest).trans (searched_le_self sent)
  have shortest := searched_le isStart (endsSearch_of_emptyLine ⟨text, [], by simp⟩)
  have head : searched sent = text ++ emptyLine :=
    shortest.eq_of_length_le (split ▸ (List.prefix_append _ rest).length_le)
  rcases plain.2 with ⟨byte, present, notSpace⟩
  rw [head, List.mem_append] at present
  refine ⟨text, head, byte, present.resolve_right fun inLine => ?_, notSpace⟩
  revert notSpace
  have allSpace : ∀ byte ∈ emptyLine, isSpace byte = true := by
    simp [emptyLine, crlf, cr, lf, isSpace]
  simp [allSpace byte inLine]

/-- Bytes that end with a line end with their last one. -/
theorem exists_last_line {text : Bytes} (present : lf ∈ text) :
    ∃ before line, text = before ++ [lf] ++ line ∧ lf ∉ line := by
  rcases List.eq_append_cons_of_mem (List.mem_reverse.mpr present) with ⟨line, rest, split, noFeed⟩
  refine ⟨rest.reverse, line.reverse, ?_, by simpa using noFeed⟩
  rw [← List.reverse_reverse text, split]
  simp

theorem emptyLine_of_append {text : Bytes} {byte : UInt8} (notFeed : byte ≠ lf)
    (ended : emptyLine <:+: text ++ [byte]) : emptyLine <:+: text := by
  rcases ended with ⟨before, after, split⟩
  rcases List.eq_nil_or_concat after with rfl | ⟨after, last, rfl⟩
  · have lasts := congrArg List.getLast? split
    simp [emptyLine, crlf, notFeed.symm] at lasts
  · rw [List.concat_eq_append, ← List.append_assoc] at split
    exact ⟨before, after, (List.append_inj' split rfl).1⟩

theorem endsSearch_return (start : Bytes) : endsSearch (start ++ [cr]) = endsSearch start := by
  cases ends : endsSearch start with
  | true => exact endsSearch_append ends [cr]
  | false =>
      rw [endsSearch, Bool.or_eq_false_iff] at ends ⊢
      have expected : isHeadChar cr = true := by decide
      refine ⟨?_, by simp [ends.2, expected]⟩
      rw [← Bool.not_eq_true, containsPattern_iff] at ends ⊢
      exact fun ended => ends.1 (emptyLine_of_append (by decide) ended)

theorem afterWord_ne_nil (accepted : acceptable start = true) : afterWord start ≠ [] := by
  intro nothing
  simp [acceptable, restOfLine, nothing, versionPortionSize] at accepted

/-- What was accepted where the search had stopped is not rejected for the rest of its line. -/
theorem acceptable_stoppedLines (isStart : start <+: sent) (ends : endsSearch start = true)
    (accepted : acceptable start = true) : acceptable (stoppedLines sent) = true := by
  have least {lines : Bytes} (isStart : lines <+: sent) (ends : endsSearch lines = true)
      (complete : lf ∈ afterWord lines) (last : lines.getLast? = some lf) :
      stoppedLines sent <+: lines :=
    List.shortestPrefix_le isStart (by simp [stopsInLines, ends, complete, last])
  have whole := stoppedLines_le_self sent
  have word := afterWord_ne_nil accepted
  rcases List.prefix_or_prefix_of_prefix whole isStart with shorter | ⟨last, split⟩
  · rcases List.shortestPrefix_cases stopsInLines sent with lines | all
    · simp only [stopsInLines, Bool.and_eq_true, List.contains_iff_mem, beq_iff_eq] at lines
      rcases shorter with ⟨more, rfl⟩
      exact acceptable_of_append lines.1.2 lines.2 accepted
    · have same : stoppedLines sent = sent := all
      rw [same] at shorter ⊢
      exact isStart.eq_of_length_le shorter.length_le ▸ accepted
  · have oneLine : ∃ more, lf ∉ more ∧ (last = more ∨ last = more ++ [lf]) := by
      rcases line_cases last with ⟨more, rest, noFeed, rfl⟩ | noFeed
      · have lines : start ++ (more ++ [lf]) <+: stoppedLines sent := ⟨rest, by simp [← split]⟩
        have complete : lf ∈ afterWord (start ++ (more ++ [lf])) := by
          simp [(afterWord_append word _).2]
        have all := least (lines.trans whole) (endsSearch_append ends _) complete (by simp)
        have length := all.length_le
        simp only [← split, List.length_append, List.length_cons, List.length_nil] at length
        obtain rfl : rest = [] := List.length_eq_zero_iff.mp (by omega)
        exact ⟨more, noFeed, .inr rfl⟩
      · exact ⟨last, noFeed, .inl rfl⟩
    rcases oneLine with ⟨more, moreNoFeed, lineEnds⟩
    by_cases nothing : last = []
    · simpa [← split, nothing] using accepted
    · have shorter {lines : Bytes} (isStart : lines <+: start) :
          ¬stoppedLines sent <+: lines := by
        intro all
        have length := all.length_le.trans isStart.length_le
        rw [← split, List.length_append] at length
        exact nothing (List.length_eq_zero_iff.mp (by omega))
      rw [← split]
      by_cases complete : lf ∈ afterWord start
      · have present : lf ∈ start := by
          have inside := (List.dropWhile_suffix _).trans (List.dropWhile_suffix _) |>.mem complete
          exact inside
        rcases exists_last_line present with ⟨before, line, rfl, noFeed⟩
        have front := mem_afterWord_of_append noFeed complete
        have nonempty : line ≠ [] := by
          rintro rfl
          rw [List.append_nil] at isStart ends shorter
          exact shorter List.prefix_rfl (least isStart ends front (by simp))
        have notEmptyLine : line ≠ [cr] := by
          rintro rfl
          rw [endsSearch_return] at ends
          have shortStart := List.prefix_append (before ++ [lf]) [cr]
          exact shorter shortStart (least (shortStart.trans isStart) ends front (by simp))
        rw [List.append_assoc]
        exact acceptable_of_line front (by simp) noFeed nonempty notEmptyLine moreNoFeed lineEnds
          accepted
      · exact acceptable_of_incomplete complete accepted moreNoFeed lineEnds

end Stopping

namespace HttpConnection

/-- What is sent reaches a connection in some pieces, until a head can be taken from it. -/
structure Delivered (getReqHandler : Bytes → Option ℕ) (start conn : HttpConnection)
    (sent : Bytes) : Prop where
  pieces : ∃ pieces : List Bytes, pieces.flatten <+: sent ∧
    (system getReqHandler).Run start (pieces.map .receive) conn
  ready : conn.ready = true

/-- What the parsing of heads has come to. -/
def parsed (conn : HttpConnection) : List Dispatched × ℕ :=
  (conn.log.dispatched, conn.log.rejected)

/-- The outcome of parsing a head does not depend on the pieces it came in, and no request is
dispatched before the end of its head was received. -/
structure Unsegmented (getReqHandler : Bytes → Option ℕ) (start : HttpConnection)
    (sent : Bytes) : Prop where
  same : ∀ first second value other, Delivered getReqHandler start first sent →
    Delivered getReqHandler start second sent →
      (exec getReqHandler first (.readDone value)).parsed =
        (exec getReqHandler second (.readDone other)).parsed
  complete : ∀ conn value, Delivered getReqHandler start conn sent →
    (exec getReqHandler conn (.readDone value)).log.dispatched ≠ conn.log.dispatched →
      emptyLine <:+: conn.requestBuf

section Delivery

variable {getReqHandler : Bytes → Option ℕ} {conn next : HttpConnection} {sent : Bytes}

/-- A connection that reads a head, with what it has received of it. -/
def readingHead (conn : HttpConnection) (received : Bytes) (position : ℕ) : HttpConnection :=
  { conn.startRequestResponse with
    requestBuf := received
    reading := [⟨.untilHead position, .handleHttpLine⟩] }

theorem run_receive (idle : conn.reading = []) {pieces : List Bytes}
    (run : (system getReqHandler).Run conn.startRequestResponse (pieces.map .receive) next) :
    ∃ position, next = conn.readingHead pieces.flatten position ∧
      headScanner.Resumable pieces.flatten position := by
  refine run.history
    (fun labels next => ∀ pieces, labels = pieces.map .receive →
      ∃ position, next = conn.readingHead pieces.flatten position ∧
        headScanner.Resumable pieces.flatten position) ?_ ?_ pieces rfl
  · intro pieces none
    obtain rfl : pieces = [] := List.map_eq_nil_iff.mp none.symm
    refine ⟨0, ?_, Scanner.resumable_start []⟩
    simp [readingHead, startRequestResponse, asyncRead, idle]
  · rintro labels before label after ih ⟨legal, rfl⟩ pieces same
    rcases List.eq_nil_or_concat pieces with rfl | ⟨earlier, piece, rfl⟩
    · simp at same
    · rw [List.concat_eq_append, List.map_append] at same
      rcases List.append_inj' same rfl with ⟨labelsEq, labelEq⟩
      obtain rfl : label = .receive piece := by simpa using labelEq
      rcases ih earlier labelsEq with ⟨position, rfl, resumable⟩
      have unmet : (ReadCondition.search earlier.flatten position).2 = false := by
        simpa [waiting, readingHead, ReadCondition.met] using legal.2.1
      have advanced := ReadCondition.search_advance resumable unmet piece
      rw [List.concat_eq_append, List.flatten_append, List.flatten_singleton]
      refine ⟨_, ?_, advanced⟩
      simp [exec, receive, readingHead, ReadCondition.advance]

/-- What is there when a head is taken. -/
theorem Delivered.received (idle : conn.reading = [])
    (delivered : Delivered getReqHandler conn.startRequestResponse next sent) :
    next.requestBuf <+: sent ∧ endsSearch next.requestBuf = true ∧
      ∃ position, next = conn.readingHead next.requestBuf position := by
  rcases delivered.pieces with ⟨pieces, isStart, run⟩
  rcases run_receive idle run with ⟨position, rfl, resumable⟩
  have ready := delivered.ready
  simp only [HttpConnection.ready, readingHead, List.head?_cons, Option.any_some,
    ReadCondition.met] at ready
  refine ⟨isStart, ?_, position, rfl⟩
  rwa [← stops_eq_endsSearch, readingHead, ← ReadCondition.search_verdict resumable]

/-- Anything the search stops in can be received in one piece. -/
theorem delivered_of_endsSearch (getReqHandler : Bytes → Option ℕ) (idle : conn.reading = [])
    (isOpen : conn.socketOpen = true) {received : Bytes} (isStart : received <+: sent)
    (ends : endsSearch received = true) :
    ∃ position, Delivered getReqHandler conn.startRequestResponse
      (conn.readingHead received position) sent := by
  have nonempty : received ≠ [] := by
    rintro rfl
    simp [endsSearch, containsPattern, emptyLine, crlf] at ends
  have start : conn.startRequestResponse = conn.readingHead [] 0 := by
    simp [readingHead, startRequestResponse, asyncRead, idle]
  have advanced : headScanner.Resumable received (ReadCondition.search [] 0).1 :=
    ReadCondition.search_advance (Scanner.resumable_start []) rfl received
  refine ⟨(ReadCondition.search [] 0).1, ⟨⟨[received], by simpa using isStart, ?_⟩, ?_⟩⟩
  · rw [start]
    refine .single ⟨⟨isOpen, rfl, nonempty⟩, ?_⟩
    simp [exec, receive, readingHead, ReadCondition.advance]
  · simp only [ready, readingHead, List.head?_cons, Option.any_some, ReadCondition.met]
    rw [ReadCondition.search_verdict advanced, stops_eq_endsSearch, ends]

/-- The outcome is that of the bytes received. -/
theorem parsed_readDone (getReqHandler : Bytes → Option ℕ) (conn : HttpConnection)
    (received : Bytes) (position : ℕ) (value : Int) :
    (exec getReqHandler (conn.readingHead received position) (.readDone value)).parsed =
      if acceptable received = true then
        (conn.log.dispatched ++ [parsedRequest received conn.request.headers], conn.log.rejected)
      else (conn.log.dispatched, conn.log.rejected + 1) := by
  have milestones : ∀ {close milestones},
      (exec getReqHandler (conn.readingHead received position) (.readDone value)).decision =
        ⟨close, milestones⟩ →
      (exec getReqHandler (conn.readingHead received position) (.readDone value)).parsed =
        (milestones.dispatched, milestones.rejected) := fun is => by
    have same := (milestones_of_decision is).2
    exact Prod.ext (congrArg Milestones.dispatched same) (congrArg Milestones.rejected same)
  rcases decision_handleHttpLine getReqHandler
      { conn.readingHead received position with reading := [] } with ⟨bad, is⟩ | ⟨good, is⟩
  · have refused : acceptable received = false := by simpa [malformed_eq, readingHead] using bad
    rw [if_neg (by simp [refused])]
    exact milestones is
  · have accepted : acceptable received = true := by simpa [malformed_eq, readingHead] using good
    rw [if_pos accepted]
    exact milestones is

/-- A plain head is parsed as it is, whatever of its continuation is there. -/
theorem unsegmented_of_plainHead (idle : conn.reading = []) (ended : emptyLine <:+: sent)
    (plain : PlainHead sent) : Unsegmented getReqHandler conn.startRequestResponse sent := by
  rcases plain.searched_eq ended with ⟨text, head, byte, present, notSpace⟩
  rcases complete_of_emptyLine present notSpace with ⟨complete, empty⟩
  rw [← head] at complete empty
  have ends : (searched sent).getLast? = some lf := by simp [head, emptyLine, crlf]
  have same := acceptable_append complete ends empty
  constructor
  · intro first second value other firstDelivered secondDelivered
    rcases firstDelivered.received idle with ⟨firstStart, firstEnds, position, first⟩
    rcases secondDelivered.received idle with ⟨secondStart, secondEnds, otherPosition, second⟩
    rcases searched_le firstStart firstEnds with ⟨firstMore, firstSplit⟩
    rcases searched_le secondStart secondEnds with ⟨secondMore, secondSplit⟩
    rw [first, second, parsed_readDone, parsed_readDone, ← firstSplit, ← secondSplit,
      (same firstMore).1, (same secondMore).1]
    split
    · next accepted => rw [(same firstMore).2 accepted, (same secondMore).2 accepted]
    · rfl
  · intro next value delivered dispatched
    rcases delivered.received idle with ⟨isStart, ends, -⟩
    apply List.IsInfix.trans _ (searched_le isStart ends).isInfix
    exact ⟨text, [], by simp [head]⟩

theorem unsegmented_of_not_acceptable (idle : conn.reading = [])
    (refused : acceptable (stoppedLines sent) = false) :
    Unsegmented getReqHandler conn.startRequestResponse sent := by
  have rejected {next : HttpConnection} (value : Int)
      (delivered : Delivered getReqHandler conn.startRequestResponse next sent) :
      (exec getReqHandler next (.readDone value)).parsed =
        (conn.log.dispatched, conn.log.rejected + 1) ∧
        next.log.dispatched = conn.log.dispatched := by
    rcases delivered.received idle with ⟨isStart, ends, position, is⟩
    have bad : ¬acceptable next.requestBuf = true := fun accepted =>
      Bool.false_ne_true (refused.symm.trans (acceptable_stoppedLines isStart ends accepted))
    rw [is, parsed_readDone, if_neg bad]
    exact ⟨rfl, rfl⟩
  constructor
  · intro first second value other firstDelivered secondDelivered
    rw [(rejected value firstDelivered).1, (rejected other secondDelivered).1]
  · intro next value delivered dispatched
    rcases rejected value delivered with ⟨parsed, same⟩
    exact (dispatched ((congrArg Prod.fst parsed).trans same.symm)).elim

/-- What the search stops at first is refused, or dispatched without the end of the head. -/
theorem plainHead_of_unsegmented (idle : conn.reading = []) (isOpen : conn.socketOpen = true)
    (ended : emptyLine <:+: sent)
    (unsegmented : Unsegmented getReqHandler conn.startRequestResponse sent)
    (accepted : acceptable (stoppedLines sent) = true) : PlainHead sent := by
  have stops := endsSearch_of_emptyLine ended
  have first : endsSearch (searched sent) = true :=
    List.property_shortestPrefix List.prefix_rfl stops
  have last : endsSearch (stoppedLines sent) = true := by
    rcases List.shortestPrefix_cases stopsInLines sent with lines | whole
    · simp only [stopsInLines, Bool.and_eq_true] at lines
      exact lines.1.1
    · rw [stoppedLines, whole, stops]
  rcases delivered_of_endsSearch getReqHandler idle isOpen (searched_le_self sent) first with
    ⟨position, firstDelivered⟩
  rcases delivered_of_endsSearch getReqHandler idle isOpen (stoppedLines_le_self sent) last with
    ⟨otherPosition, lastDelivered⟩
  have same := unsegmented.same _ _ 0 0 firstDelivered lastDelivered
  rw [parsed_readDone, parsed_readDone, if_pos accepted] at same
  have firstAccepted : acceptable (searched sent) = true := by
    by_contra refused
    rw [if_neg refused] at same
    simp at same
  have line : emptyLine <:+: searched sent := by
    apply unsegmented.complete _ 0 firstDelivered
    have parsed := parsed_readDone getReqHandler conn (searched sent) position 0
    rw [if_pos firstAccepted] at parsed
    have dispatched := congrArg Prod.fst parsed
    simp only [HttpConnection.parsed] at dispatched
    rw [dispatched]
    simp [readingHead, startRequestResponse, asyncRead]
  constructor
  · intro byte present
    by_contra unexpected
    rcases List.append_of_mem present with ⟨before, after, split⟩
    have start : before ++ [byte] <+: searched sent := ⟨after, by simp [split]⟩
    have all := searched_le (start.trans (searched_le_self sent))
      (by simp [endsSearch, unexpected])
    have length := all.length_le
    simp only [split, List.length_append, List.length_cons, List.length_nil] at length
    obtain rfl : after = [] := List.length_eq_zero_iff.mp (by omega)
    have notFeed : byte ≠ lf := by
      rintro rfl
      exact unexpected (by decide)
    have earlier := emptyLine_of_append notFeed (split ▸ line)
    have shorter := searched_le
      ((List.prefix_append before [byte]).trans (start.trans (searched_le_self sent)))
      (endsSearch_of_emptyLine earlier)
    have length := shorter.length_le
    rw [split, List.length_append, List.length_singleton] at length
    omega
  · by_contra blank
    apply afterWord_ne_nil firstAccepted
    have nothing : (searched sent).dropWhile isSpace = [] := by
      refine List.dropWhile_eq_nil_iff.mpr fun byte present => ?_
      by_contra notSpace
      exact blank ⟨byte, present, by simpa using notSpace⟩
    rw [afterWord, nothing]
    rfl

/-- Parsing a head does not depend on the pieces it is received in exactly when the head is plain,
or is refused by the end of the line that the search stops in. -/
theorem unsegmented_iff (conn : HttpConnection) (getReqHandler : Bytes → Option ℕ) (sent : Bytes)
    (idle : conn.reading = []) (isOpen : conn.socketOpen = true) (ended : emptyLine <:+: sent) :
    Unsegmented getReqHandler conn.startRequestResponse sent ↔
      PlainHead sent ∨ acceptable (stoppedLines sent) = false := by
  constructor
  · intro unsegmented
    cases accepted : acceptable (stoppedLines sent) with
    | false => exact .inr rfl
    | true => exact .inl (plainHead_of_unsegmented idle isOpen ended unsegmented accepted)
  · rintro (plain | refused)
    · exact unsegmented_of_plainHead idle ended plain
    · exact unsegmented_of_not_acceptable idle refused

end Delivery

/-- A head with a header value that has a tab in it. -/
def tabbedHead : Bytes :=
  ascii "GET / HTTP/1.1" ++ crlf ++ ascii "Host: a" ++ [9] ++ ascii "b" ++ crlf ++ crlf

theorem unsegmented_iff_tabbed :
    Unsegmented anyHandler { HttpConnection.new with reading := [] }.startRequestResponse
        tabbedHead ↔
      PlainHead tabbedHead ∨ acceptable (stoppedLines tabbedHead) = false :=
  unsegmented_iff _ anyHandler tabbedHead rfl rfl (by decide)

/-- A request whose header value has a tab in it is dispatched with the bytes before the tab, or
with more. -/
theorem not_unsegmented_tabbed :
    emptyLine <:+: tabbedHead ∧ ¬Unsegmented anyHandler HttpConnection.new tabbedHead := by
  have ended : emptyLine <:+: tabbedHead := by decide
  refine ⟨ended, fun unsegmented => ?_⟩
  have start : HttpConnection.new =
      { HttpConnection.new with reading := [] }.startRequestResponse := rfl
  rw [start] at unsegmented
  have plain := plainHead_of_unsegmented rfl rfl ended unsegmented (by decide +kernel)
  have tab : (9 : UInt8) ∈ searched tabbedHead := by decide +kernel
  have expected := plain.1 9 tab
  revert expected
  decide

end HttpConnection

end Snode.Http
