import Mathlib.Data.List.Basic

/-!
# Lines

A text is split at each carriage return, and a line feed directly behind one
belongs to it.  The text is read character by character, so that what is known of
its beginning can be carried on.
-/

/-- What reading the beginning of a text has given. -/
structure Lines where
  complete : List (List UInt8)
  current : List UInt8
  /-- The last character was a carriage return. -/
  afterReturn : Bool
  deriving DecidableEq

namespace Lines

def carriageReturn : UInt8 := 13

def lineFeed : UInt8 := 10

def start : Lines where
  complete := []
  current := []
  afterReturn := false

def next (lines : Lines) (character : UInt8) : Lines :=
  if lines.afterReturn ∧ character = lineFeed then
    { lines with afterReturn := false }
  else if character = carriageReturn then
    ⟨lines.complete ++ [lines.current], [], true⟩
  else
    ⟨lines.complete, lines.current ++ [character], false⟩

/-- What is read so far. -/
def read (text : List UInt8) : Lines :=
  text.foldl next start

/-- The lines, with what is left at the end of the text as the last one. -/
def all (lines : Lines) : List (List UInt8) :=
  if lines.current = [] then lines.complete else lines.complete ++ [lines.current]

def ofText (text : List UInt8) : List (List UInt8) :=
  (read text).all

variable {lines : Lines} {text body rest : List UInt8}

@[simp]
theorem read_append (text rest : List UInt8) : read (text ++ rest) = rest.foldl next (read text) :=
  List.foldl_append ..

theorem next_return (lines : Lines) :
    lines.next carriageReturn = ⟨lines.complete ++ [lines.current], [], true⟩ := by
  have other : carriageReturn ≠ lineFeed := by decide
  simp [next, other]

/-- A line feed behind a carriage return ends no line of its own. -/
theorem next_lineFeed (afterReturn : lines.afterReturn = true) :
    lines.next lineFeed = { lines with afterReturn := false } := by
  simp [next, afterReturn]

theorem next_plain {character : UInt8} (notReturn : character ≠ carriageReturn)
    (notTerminator : ¬(lines.afterReturn = true ∧ character = lineFeed)) :
    lines.next character = ⟨lines.complete, lines.current ++ [character], false⟩ := by
  rw [next, if_neg notTerminator, if_neg notReturn]

/-- Characters of a line are added to it. -/
theorem foldl_plain (notReturn : ∀ character ∈ body, character ≠ carriageReturn)
    (notTerminator : ¬(lines.afterReturn = true ∧ body.head? = some lineFeed)) :
    (body.foldl next lines).complete = lines.complete ∧
      (body.foldl next lines).current = lines.current ++ body := by
  induction body generalizing lines with
  | nil => exact ⟨rfl, by simp⟩
  | cons character body ih =>
      have plain : lines.next character = ⟨lines.complete, lines.current ++ [character], false⟩ :=
        next_plain (notReturn character List.mem_cons_self) (by simpa using notTerminator)
      have others : ∀ character ∈ body, character ≠ carriageReturn :=
        fun later present => notReturn later (List.mem_cons_of_mem _ present)
      rw [List.foldl_cons, plain]
      rcases @ih ⟨lines.complete, lines.current ++ [character], false⟩ others (by simp) with
        ⟨complete, current⟩
      exact ⟨complete, by simpa using current⟩

theorem foldl_afterReturn_current (text : List UInt8)
    (none : lines.afterReturn = true → lines.current = [])
    (after : (text.foldl next lines).afterReturn = true) : (text.foldl next lines).current = [] := by
  induction text generalizing lines with
  | nil => exact none after
  | cons character text ih =>
      rw [List.foldl_cons] at after ⊢
      apply ih _ after
      simp only [next]
      split
      · simp
      · split
        · simp
        · simp

/-- Behind a carriage return no line has been begun. -/
theorem current_of_afterReturn (after : (read text).afterReturn = true) :
    (read text).current = [] :=
  foldl_afterReturn_current text (fun _ => rfl) after

/-- The lines that are complete do not matter to what follows. -/
theorem foldl_complete (text : List UInt8) (complete : List (List UInt8)) (lines : Lines) :
    text.foldl next { lines with complete := complete ++ lines.complete } =
      { text.foldl next lines with
        complete := complete ++ (text.foldl next lines).complete } := by
  induction text generalizing lines with
  | nil => rfl
  | cons character text ih =>
      have step : next { lines with complete := complete ++ lines.complete } character =
          { lines.next character with
            complete := complete ++ (lines.next character).complete } := by
        simp only [next]
        split
        · rfl
        · split
          · simp
          · rfl
      rw [List.foldl_cons, List.foldl_cons, step, ih]

/-- Text that starts without a line feed does not depend on what was before it. -/
theorem foldl_afterReturn (notTerminator : text.head? ≠ some lineFeed)
    (complete : List (List UInt8)) :
    (text.foldl next ⟨complete, [], true⟩).all = (text.foldl next ⟨complete, [], false⟩).all := by
  cases text with
  | nil => rfl
  | cons character text =>
      have other : character ≠ lineFeed := by simpa using notTerminator
      simp [next, other]

theorem all_foldl (complete : List (List UInt8)) (text : List UInt8) :
    (text.foldl next ⟨complete, [], false⟩).all = complete ++ ofText text := by
  have same := foldl_complete text complete start
  simp only [start, List.append_nil] at same
  rw [same]
  by_cases none : (text.foldl next ⟨[], [], false⟩).current = []
  · simp [all, ofText, read, start, none]
  · simp [all, ofText, read, start, none]

/-! ### What the lines of a text are -/

theorem read_plain (notReturn : ∀ character ∈ body, character ≠ carriageReturn) :
    (read body).complete = [] ∧ (read body).current = body :=
  foldl_plain notReturn (by simp [start])

theorem ofText_plain (notReturn : ∀ character ∈ body, character ≠ carriageReturn) :
    ofText body = if body = [] then [] else [body] := by
  rcases read_plain notReturn with ⟨complete, current⟩
  simp only [ofText, all, complete, current, List.nil_append]

theorem ofText_return (notReturn : ∀ character ∈ body, character ≠ carriageReturn)
    (notTerminator : rest.head? ≠ some lineFeed) :
    ofText (body ++ carriageReturn :: rest) = body :: ofText rest := by
  rcases read_plain notReturn with ⟨complete, current⟩
  rw [ofText, read_append, List.foldl_cons, next_return, complete, current,
    foldl_afterReturn notTerminator, all_foldl]
  rfl

theorem ofText_returnLineFeed (notReturn : ∀ character ∈ body, character ≠ carriageReturn) :
    ofText (body ++ carriageReturn :: lineFeed :: rest) = body :: ofText rest := by
  rcases read_plain notReturn with ⟨complete, current⟩
  rw [ofText, read_append, List.foldl_cons, next_return, complete, current, List.foldl_cons,
    next_lineFeed rfl, all_foldl]
  rfl

end Lines
