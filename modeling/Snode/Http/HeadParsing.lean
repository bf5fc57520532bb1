import Mathlib.Data.List.TakeWhile
import Snode.Http.Persistence

/-!
# Parsing the head of a request

What `handle_http_line` and `handle_headers` extract from the bytes buffered, said
of the bytes alone: the first word, the rest of its line, and the lines behind it
up to an empty one.
-/

namespace Snode.Http

/-! ### Lines -/

/-- The lines of a text; the last one may have no end. -/
def textLines : Bytes → List Bytes
  | [] => []
  | byte :: rest =>
      if byte = lf then [] :: textLines rest
      else ((byte :: (textLines rest).headD []) :: (textLines rest).tail)

theorem textLines_line {line : Bytes} (noFeed : lf ∉ line) (rest : Bytes) :
    textLines (line ++ lf :: rest) = line :: textLines rest := by
  induction line with
  | nil => simp [textLines]
  | cons byte line ih =>
      obtain ⟨notFeed, noFeed⟩ : ¬lf = byte ∧ lf ∉ line := by simpa using noFeed
      simp [textLines, Ne.symm notFeed, ih noFeed]

theorem textLines_last {line : Bytes} (noFeed : lf ∉ line) (nonempty : line ≠ []) :
    textLines line = [line] := by
  induction line with
  | nil => exact (nonempty rfl).elim
  | cons byte line ih =>
      obtain ⟨notFeed, noFeed⟩ : ¬lf = byte ∧ lf ∉ line := by simpa using noFeed
      cases line with
      | nil => simp [textLines, Ne.symm notFeed]
      | cons other line => rw [textLines, if_neg (Ne.symm notFeed), ih noFeed (by simp)]; rfl

/-- The end of a line separates the lines before it from those behind. -/
theorem textLines_append (before rest : Bytes) :
    textLines (before ++ lf :: rest) = textLines (before ++ [lf]) ++ textLines rest := by
  induction before with
  | nil => simp [textLines]
  | cons byte before ih =>
      have some : textLines (before ++ [lf]) ≠ [] := by
        cases before with
        | nil => simp [textLines]
        | cons other before =>
            simp only [List.cons_append, textLines]
            split <;> simp
      rcases lines : textLines (before ++ [lf]) with _ | ⟨line, others⟩
      · exact (some lines).elim
      · simp only [List.cons_append, textLines, ih, lines]
        split <;> simp

/-- A text begins with a line, or is one without an end. -/
theorem line_cases (text : Bytes) :
    (∃ line rest, lf ∉ line ∧ text = line ++ lf :: rest) ∨ lf ∉ text := by
  by_cases present : lf ∈ text
  · rcases List.eq_append_cons_of_mem present with ⟨line, rest, rfl, noFeed⟩
    exact .inl ⟨line, rest, noFeed, rfl⟩
  · exact .inr present

theorem takeWhile_line {line : Bytes} (noFeed : lf ∉ line) (rest : Bytes) :
    (line ++ lf :: rest).takeWhile (· != lf) = line ∧
      (line ++ lf :: rest).dropWhile (· != lf) = lf :: rest := by
  have all : ∀ byte ∈ line, (byte != lf) = true := fun byte present => by
    rw [bne_iff_ne]
    exact fun same => noFeed (same ▸ present)
  rw [List.takeWhile_append_of_pos all, List.dropWhile_append_of_pos all]
  simp

theorem takeWhile_last {line : Bytes} (noFeed : lf ∉ line) :
    line.takeWhile (· != lf) = line ∧ line.dropWhile (· != lf) = [] := by
  have all : ∀ byte ∈ line, (byte != lf) = true := fun byte present => by
    rw [bne_iff_ne]
    exact fun same => noFeed (same ▸ present)
  exact ⟨List.takeWhile_eq_self_iff.mpr all, List.dropWhile_eq_nil_iff.mpr all⟩

namespace Istream

theorem getline_nil (header : Bytes) : (new []).getline header = ([], ⟨[], true, true⟩) := rfl

theorem getline_line {line : Bytes} (noFeed : lf ∉ line) (rest header : Bytes) :
    (new (line ++ lf :: rest)).getline header = (line, new rest) := by
  rcases takeWhile_line noFeed rest with ⟨taken, dropped⟩
  have nonempty : line ++ lf :: rest ≠ [] := by simp
  simp only [getline, new, good, Bool.not_false, Bool.and_self, if_true, taken, dropped]

theorem getline_last {line : Bytes} (noFeed : lf ∉ line) (nonempty : line ≠ [])
    (header : Bytes) : (new line).getline header = (line, ⟨[], true, false⟩) := by
  rcases takeWhile_last noFeed with ⟨taken, dropped⟩
  simp only [getline, new, good, Bool.not_false, Bool.and_self, if_true, taken, dropped]

end Istream

/-! ### Header lines -/

/-- What `handle_headers` takes for a header: there is a colon, and something before it. -/
def isHeaderLine (line : Bytes) : Bool :=
  decide (line.idxOf 58 < line.length ∧ line.idxOf 58 ≠ 0)

/-- The lines before the first empty one. -/
def headerFields (text : Bytes) : List Bytes :=
  (textLines text).takeWhile (· != [cr])

/-- The headers in some lines, added to others. -/
def addHeaderLines (headers : HttpHeaders) (lines : List Bytes) : HttpHeaders :=
  lines.foldl (fun headers line => (HttpConnection.addHeaderLine headers line).getD headers)
    headers

namespace HttpConnection

theorem addHeaderLine_isSome (headers : HttpHeaders) (line : Bytes) :
    (addHeaderLine headers line).isSome = isHeaderLine line := by
  simp only [addHeaderLine, isHeaderLine]
  split
  · next header => simp [header]
  · next other => simpa using other

theorem headerLoop_end (fuel : ℕ) (header : Bytes) (headers : HttpHeaders) :
    headerLoop fuel ⟨[], true, false⟩ header headers = (true, headers, []) := by
  cases fuel <;> simp [headerLoop, Istream.getline, Istream.good]

theorem headerLoop_succ {fuel : ℕ} {stream after : Istream} {header line : Bytes}
    (extracted : stream.getline header = (line, after)) (good : after.fail = false)
    (headers : HttpHeaders) :
    headerLoop (fuel + 1) stream header headers =
      if line = [cr] then (true, headers, after.rest)
      else (addHeaderLine headers line).elim (false, headers, after.rest)
        (headerLoop fuel after line) := by
  simp only [headerLoop, extracted, good, Bool.false_or, beq_iff_eq]
  split
  · rfl
  · cases addHeaderLine headers line <;> rfl

theorem headerLoop_eq {fuel : ℕ} {text : Bytes} (enough : text.length < fuel) (header : Bytes)
    (headers : HttpHeaders) :
    (headerLoop fuel (.new text) header headers).1 = (headerFields text).all isHeaderLine ∧
      ((headerFields text).all isHeaderLine = true →
        (headerLoop fuel (.new text) header headers).2.1 =
          addHeaderLines headers (headerFields text)) := by
  induction fuel generalizing text header headers with
  | zero => exact (Nat.not_lt_zero _ enough).elim
  | succ fuel ih =>
      rcases line_cases text with ⟨line, rest, noFeed, rfl⟩ | noFeed
      · have shorter : rest.length < fuel := by
          simp only [List.length_append, List.length_cons] at enough
          omega
        rw [headerLoop_succ (Istream.getline_line noFeed rest header) rfl]
        simp only [headerFields, textLines_line noFeed]
        by_cases empty : line = [cr]
        · simp [empty, addHeaderLines]
        · have isSome := addHeaderLine_isSome headers line
          rw [if_neg empty, List.takeWhile_cons_of_pos (by simpa using empty)]
          rcases added : addHeaderLine headers line with _ | more
          · simp [added] at isSome
            simp [← isSome]
          · simp only [added, Option.isSome_some] at isSome
            rcases ih shorter line more with ⟨accepted, result⟩
            rw [List.all_cons, ← isSome, Bool.true_and, addHeaderLines, List.foldl_cons, added]
            exact ⟨accepted, result⟩
      · by_cases nothing : text = []
        · subst nothing
          simp [headerLoop, Istream.getline_nil, headerFields, textLines, addHeaderLines]
        · rw [headerLoop_succ (Istream.getline_last noFeed nothing header) rfl]
          simp only [headerFields, textLines_last noFeed nothing]
          by_cases empty : text = [cr]
          · simp [empty, addHeaderLines]
          · have isSome := addHeaderLine_isSome headers text
            rw [if_neg empty, List.takeWhile_cons_of_pos (by simpa using empty)]
            rcases added : addHeaderLine headers text with _ | more
            · simp [added] at isSome
              simp [← isSome]
            · simp only [added, Option.isSome_some] at isSome
              simp [← isSome, headerLoop_end, addHeaderLines, added]

end HttpConnection

/-! ### The request line -/

/-- The first word of a head. -/
def headWord (head : Bytes) : Bytes :=
  (head.dropWhile isSpace).takeWhile (!isSpace ·)

def afterWord (head : Bytes) : Bytes :=
  (head.dropWhile isSpace).dropWhile (!isSpace ·)

/-- The rest of the line of the first word. -/
def restOfLine (head : Bytes) : Bytes :=
  (afterWord head).takeWhile (· != lf)

def afterRequestLine (head : Bytes) : Bytes :=
  ((afterWord head).dropWhile (· != lf)).tail

/-- What `handle_http_line` and `handle_headers` check. -/
def acceptable (head : Bytes) : Bool :=
  validateMethod (normaliseMethod (headWord head)) &&
    decide (versionPortionSize + 2 ≤ (restOfLine head).length) &&
    (headerFields (afterRequestLine head)).all isHeaderLine

theorem getString_new (head : Bytes) :
    (Istream.new head).getString [] =
      (headWord head, ⟨afterWord head, (afterWord head).isEmpty, (headWord head).isEmpty⟩) := by
  rcases skipped : head.dropWhile isSpace with _ | ⟨byte, rest⟩
  · simp [Istream.getString, Istream.sentry, Istream.new, Istream.good, skipped, headWord,
      afterWord]
  · simp [Istream.getString, Istream.sentry, Istream.new, Istream.good, skipped, headWord,
      afterWord]

theorem headWord_ne_nil {head : Bytes} (more : afterWord head ≠ []) : headWord head ≠ [] := by
  have first := List.head?_dropWhile_not isSpace head
  simp only [afterWord, headWord] at more ⊢
  rcases skipped : head.dropWhile isSpace with _ | ⟨byte, rest⟩
  · simp [skipped] at more
  · have notSpace : isSpace byte = false := by simpa [skipped] using first
    simp [notSpace]

theorem requestLine_eq (head : Bytes) :
    requestLine head = (restOfLine head, afterRequestLine head) := by
  simp only [requestLine, getString_new, restOfLine, afterRequestLine]
  rcases after : afterWord head with _ | ⟨byte, rest⟩
  · simp [Istream.getline, Istream.good]
  · have word : (headWord head).isEmpty = false := by
      simpa using headWord_ne_nil (by simp [after])
    have stream : (⟨byte :: rest, (byte :: rest).isEmpty, (headWord head).isEmpty⟩ : Istream) =
        .new (byte :: rest) := by
      rw [word]
      rfl
    rw [stream]
    rcases line_cases (byte :: rest) with ⟨line, others, noFeed, text⟩ | noFeed
    · rcases takeWhile_line noFeed others with ⟨taken, dropped⟩
      rw [text, Istream.getline_line noFeed, taken, dropped]
      rfl
    · rcases takeWhile_last noFeed with ⟨taken, dropped⟩
      rw [Istream.getline_last noFeed (by simp), taken, dropped]
      rfl

theorem headerLines_eq (head : Bytes) (others : HttpHeaders) :
    (headerLines head others).1 = (headerFields (afterRequestLine head)).all isHeaderLine ∧
      ((headerFields (afterRequestLine head)).all isHeaderLine = true →
        requestHeaders head others =
          addHeaderLines others (headerFields (afterRequestLine head))) := by
  simp only [requestHeaders, headerLines, requestLine_eq]
  exact HttpConnection.headerLoop_eq (Nat.lt_succ_self _) _ _

theorem malformed_eq (head : Bytes) : malformed head = !acceptable head := by
  simp only [malformed, acceptable, getString_new, requestLine_eq, (headerLines_eq head []).1,
    Bool.not_and, ← decide_not, not_le]

theorem parsedRequest_eq {head : Bytes} (accepted : acceptable head = true)
    (others : HttpHeaders) :
    parsedRequest head others =
      ⟨normaliseMethod (headWord head),
        substr (restOfLine head) 1 ((restOfLine head).length - versionPortionSize - 1),
        addHeaderLines others (headerFields (afterRequestLine head))⟩ := by
  simp only [acceptable, Bool.and_eq_true] at accepted
  simp only [parsedRequest, getString_new, requestLine_eq, (headerLines_eq head others).2
    accepted.2]

end Snode.Http
