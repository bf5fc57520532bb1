import Mathlib.Data.List.Basic
import Mathlib.Data.List.Infix

/-!
# Resumable scanners

A scanner reads a text character by character until it stops.  In each of its
states some characters at the end of what it read are pending: reading them
again from the beginning leads to the same state.  So a scan of a text that grows
can be resumed at the first pending character.  Where a scanner stops is the end of the
shortest prefix of the text with a certain property.
-/

universe u v

/-- The shortest prefix of a text with a property, or all of the text. -/
def List.shortestPrefix {α : Type v} (property : List α → Bool) : List α → List α
  | [] => []
  | character :: text =>
      if property [] then []
      else character :: shortestPrefix (fun others => property (character :: others)) text

namespace List

variable {α : Type v} {property : List α → Bool} {text start : List α}

theorem shortestPrefix_le_self (property : List α → Bool) (text : List α) :
    text.shortestPrefix property <+: text := by
  induction text generalizing property with
  | nil => exact List.prefix_rfl
  | cons character text ih =>
      rw [shortestPrefix]
      split
      · exact List.nil_prefix
      · exact List.cons_prefix_cons.mpr ⟨rfl, ih _⟩

theorem shortestPrefix_le (isStart : start <+: text) (holds : property start = true) :
    text.shortestPrefix property <+: start := by
  induction text generalizing property start with
  | nil => exact List.nil_prefix
  | cons character text ih =>
      rw [shortestPrefix]
      split
      · exact List.nil_prefix
      · next notEmpty =>
          cases start with
          | nil => exact (notEmpty holds).elim
          | cons other others =>
              rcases List.cons_prefix_cons.mp isStart with ⟨rfl, rest⟩
              exact List.cons_prefix_cons.mpr ⟨rfl, ih rest holds⟩

theorem property_shortestPrefix (isStart : start <+: text) (holds : property start = true) :
    property (text.shortestPrefix property) = true := by
  induction text generalizing property start with
  | nil => simpa [shortestPrefix, List.prefix_nil.mp isStart] using holds
  | cons character text ih =>
      rw [shortestPrefix]
      split
      · next empty => exact empty
      · next notEmpty =>
          cases start with
          | nil => exact (notEmpty holds).elim
          | cons other others =>
              rcases List.cons_prefix_cons.mp isStart with ⟨rfl, rest⟩
              exact @ih (fun others => property (other :: others)) _ rest holds

theorem shortestPrefix_cases (property : List α → Bool) (text : List α) :
    property (text.shortestPrefix property) = true ∨ text.shortestPrefix property = text := by
  induction text generalizing property with
  | nil => exact .inr rfl
  | cons character text ih =>
      rw [shortestPrefix]
      split
      · next empty => exact .inl empty
      · rcases ih (fun others => property (character :: others)) with holds | whole
        · exact .inl holds
        · exact .inr (by rw [whole])

end List

structure Scanner (σ : Type u) (α : Type v) where
  start : σ
  /-- The state after one more character; `none` when the scanner stops there. -/
  next : σ → α → Option σ
  pending : σ → List α
  pending_start : pending start = []
  pending_next : ∀ state character reached, next state character = some reached →
    pending reached <:+ pending state ++ [character]
  replay : ∀ state, (pending state).foldlM next start = some state

namespace Scanner

variable {σ : Type u} {α : Type v} {scanner : Scanner σ α}

def scan (scanner : Scanner σ α) (state : σ) (text : List α) : Option σ :=
  text.foldlM scanner.next state

/-- The scanner stops in a text. -/
def stops (scanner : Scanner σ α) (text : List α) : Bool :=
  (scanner.scan scanner.start text).isNone

@[simp]
theorem scan_nil (state : σ) : scanner.scan state [] = some state := rfl

theorem scan_cons (state : σ) (character : α) (text : List α) :
    scanner.scan state (character :: text) =
      (scanner.next state character).bind (scanner.scan · text) := rfl

theorem scan_append (state : σ) (text more : List α) :
    scanner.scan state (text ++ more) =
      (scanner.scan state text).bind (scanner.scan · more) :=
  List.foldlM_append ..

theorem stops_append {text : List α} (stops : scanner.stops text = true) (more : List α) :
    scanner.stops (text ++ more) = true := by
  have none : scanner.scan scanner.start text = none := by simpa [Scanner.stops] using stops
  simp [Scanner.stops, scan_append, none]

/-- What was read before the scanner stopped, and the character it stopped at. -/
theorem exists_stop {state : σ} {text : List α} (stopped : scanner.scan state text = none) :
    ∃ before character after reached, text = before ++ character :: after ∧
      scanner.scan state before = some reached ∧ scanner.next reached character = none := by
  induction text generalizing state with
  | nil => simp at stopped
  | cons character text ih =>
      rw [scan_cons] at stopped
      rcases reached : scanner.next state character with _ | other
      · exact ⟨[], character, text, state, rfl, rfl, reached⟩
      · rw [reached] at stopped
        rcases ih stopped with ⟨before, last, after, final, rfl, scanned, stop⟩
        refine ⟨character :: before, last, after, final, rfl, ?_, stop⟩
        rw [scan_cons, reached]
        exact scanned

/-- Where a scanner stops is the end of the shortest text it stops in. -/
theorem length_lt_of_stops {before after start : List α} {character : α} {reached : σ}
    (scanned : scanner.scan scanner.start before = some reached)
    (isStart : start <+: before ++ character :: after) (stops : scanner.stops start = true) :
    before.length < start.length := by
  by_contra short
  have within : start <+: before :=
    List.prefix_of_prefix_length_le isStart (List.prefix_append _ _) (by omega)
  rcases within with ⟨more, rfl⟩
  have ends := stops_append stops more
  simp [Scanner.stops, scanned] at ends

theorem pending_scan {state reached : σ} {text : List α}
    (scanned : scanner.scan state text = some reached) :
    scanner.pending reached <:+ scanner.pending state ++ text := by
  induction text generalizing state with
  | nil =>
      obtain rfl : state = reached := by simpa using scanned
      simp
  | cons character text ih =>
      rw [scan_cons, Option.bind_eq_some_iff] at scanned
      rcases scanned with ⟨other, one, scanned⟩
      have suffix := scanner.pending_next _ _ _ one
      apply (ih scanned).trans
      rw [List.append_cons]
      exact List.suffix_append_self_iff.mpr suffix

/-- A text can be read from a position on instead of from its beginning. -/
def Resumable (scanner : Scanner σ α) (text : List α) (position : ℕ) : Prop :=
  ∃ searched rest state, text = searched ++ rest ∧
    scanner.scan scanner.start searched = some state ∧
    position + (scanner.pending state).length = searched.length

theorem resumable_start (text : List α) : scanner.Resumable text 0 :=
  ⟨[], text, scanner.start, rfl, rfl, by simp [scanner.pending_start]⟩

/-- After a scan of all of a text, more of it can be read from what is pending on. -/
theorem Resumable.advance {text : List α} {state : σ}
    (scanned : scanner.scan scanner.start text = some state) {position : ℕ}
    (pending : position + (scanner.pending state).length = text.length) (more : List α) :
    scanner.Resumable (text ++ more) position :=
  ⟨text, more, state, rfl, scanned, pending⟩

/-- What is pending in the state a scan was left in is read from the position on. -/
theorem Resumable.split {text : List α} {position : ℕ}
    (resumable : scanner.Resumable text position) :
    ∃ before state rest, text = before ++ (scanner.pending state ++ rest) ∧
      before.length = position ∧
      scanner.scan scanner.start (before ++ scanner.pending state) = some state := by
  rcases resumable with ⟨searched, rest, state, rfl, scanned, pending⟩
  have suffix := pending_scan scanned
  rw [scanner.pending_start, List.nil_append] at suffix
  rcases suffix with ⟨before, rfl⟩
  refine ⟨before, state, rest, List.append_assoc _ _ _, ?_, scanned⟩
  rw [List.length_append] at pending
  omega

end Scanner
