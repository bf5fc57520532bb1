import Snode.Streams.SourceReads

/-!
# Looking ahead in a source

`scopy`, `getc` and `sgetc` are documented not to advance, but all of them come to the
`read` of `getn`, and that is called with `advance` at its default.  What they return is
therefore right, and what the reads after them return is not.
-/

namespace Snode.Streams

/-- A call that looks at the next characters. -/
inductive Peek where
  | scopy (count : UInt64)
  | sgetc
  | getc

/-- A read or a peek. -/
inductive SourceCall where
  | read (op : SequentialRead)
  | peek (op : Peek)

/-- The read that asks for the same characters. -/
def Peek.asRead : Peek → SequentialRead
  | scopy count => .getn count
  | sgetc => .sbumpc
  | getc => .bumpc

namespace SourceCall

/-- How many characters a call asks for. -/
def requested : SourceCall → ℕ
  | read op => op.requested
  | peek op => op.asRead.requested

/-- The reads among some calls. -/
def withoutPeeks : List SourceCall → List SourceCall
  | [] => []
  | read op :: calls => read op :: withoutPeeks calls
  | peek _ :: calls => withoutPeeks calls

@[simp]
theorem withoutPeeks_nil : withoutPeeks [] = [] :=
  rfl

@[simp]
theorem withoutPeeks_read (op : SequentialRead) (calls : List SourceCall) :
    withoutPeeks (read op :: calls) = read op :: withoutPeeks calls :=
  rfl

@[simp]
theorem withoutPeeks_peek (op : Peek) (calls : List SourceCall) :
    withoutPeeks (peek op :: calls) = withoutPeeks calls :=
  rfl

/-- How many characters some calls ask for. -/
def totalRequested (calls : List SourceCall) : ℕ :=
  (calls.map requested).sum

@[simp]
theorem totalRequested_nil : totalRequested [] = 0 :=
  rfl

@[simp]
theorem totalRequested_cons (call : SourceCall) (calls : List SourceCall) :
    totalRequested (call :: calls) = call.requested + totalRequested calls :=
  List.sum_cons

@[simp]
theorem totalRequested_append (calls more : List SourceCall) :
    totalRequested (calls ++ more) = totalRequested calls + totalRequested more := by
  rw [totalRequested, List.map_append, List.sum_append]
  rfl

@[simp]
theorem withoutPeeks_append (calls more : List SourceCall) :
    withoutPeeks (calls ++ more) = withoutPeeks calls ++ withoutPeeks more := by
  induction calls with
  | nil => rfl
  | cons call calls ih =>
      cases call with
      | read op => exact congrArg (read op :: ·) ih
      | peek op => exact ih

theorem withoutPeeks_map_read (ops : List SequentialRead) :
    withoutPeeks (ops.map read) = ops.map read := by
  induction ops with
  | nil => rfl
  | cons op ops ih => exact congrArg (read op :: ·) ih

/-- As many single reads ask for as many characters. -/
theorem totalRequested_replicate (count : ℕ) :
    totalRequested ((List.replicate count SequentialRead.bumpc).map read) = count := by
  rw [totalRequested, List.map_map, List.map_replicate, List.sum_replicate_nat]
  exact Nat.mul_one count

end SourceCall

namespace Sourcebuf

variable {σ α : Type} [SourceImpl σ α]

/-- The characters a peek returns, and the buffer after it. -/
def execPeek (buffer : Sourcebuf σ α) : Peek → List α × Sourcebuf σ α
  | .scopy count => buffer.scopy count.toNat
  | .sgetc => buffer.sgetc.map IntType.toList id
  | .getc => buffer.getc.map IntType.toList id

/-- The characters the reads among some calls deliver, and the buffer after the calls. -/
def runCalls (buffer : Sourcebuf σ α) : List SourceCall → List (List α) × Sourcebuf σ α
  | [] => ([], buffer)
  | .read op :: calls =>
      let (chars, next) := buffer.execRead op
      (next.runCalls calls).map (chars :: ·) id
  | .peek op :: calls => (buffer.execPeek op).2.runCalls calls

/-- The reads return what they return when the peeks are left out. -/
def Unnoticed [Inhabited α] (source : σ) (calls : List SourceCall) : Prop :=
  ((new source : Sourcebuf σ α).runCalls calls).1 =
    ((new source : Sourcebuf σ α).runCalls (SourceCall.withoutPeeks calls)).1

end Sourcebuf

/-! ### The text that the calls go over -/

open SourceCall

variable {α : Type}

/-- What the reads deliver if every call goes on in the text. -/
def deliver : List α → List SourceCall → List (List α)
  | _, [] => []
  | text, .read op :: calls =>
      text.take op.requested :: deliver (text.drop op.requested) calls
  | text, .peek op :: calls => deliver (text.drop op.asRead.requested) calls

/-- Each read finds the same characters behind all that was asked for as behind what the reads
asked for. -/
def FindsSame (text : List α) (calls : List SourceCall) : Prop :=
  ∀ before op after, calls = before ++ .read op :: after →
    (text.drop (totalRequested before)).take op.requested =
      (text.drop (totalRequested (withoutPeeks before))).take op.requested

/-- Each peek asks for nothing, or the calls before it have come to the end of a text of some
length. -/
def Harmless (length : ℕ) (calls : List SourceCall) : Prop :=
  ∀ before op after, calls = before ++ .peek op :: after →
    op.asRead.requested = 0 ∨ length ≤ totalRequested before

/-- The entries of one kind in a list are its head, if that is one, and those behind it. -/
theorem forall_split_cons {β γ : Type*} {kind : γ → β} {property : List β → γ → Prop} {head : β}
    {tail : List β} :
    (∀ before op after, head :: tail = before ++ kind op :: after → property before op) ↔
      (∀ op, head = kind op → property [] op) ∧
        ∀ before op after, tail = before ++ kind op :: after → property (head :: before) op := by
  constructor
  · intro every
    constructor
    · rintro op rfl
      exact every [] op tail rfl
    · rintro before op after rfl
      exact every (head :: before) op after rfl
  · rintro ⟨first, others⟩ before op after split
    rcases before with _ | ⟨other, before⟩
    · exact first op (List.cons.inj split).1
    · rcases List.cons.inj split with ⟨rfl, further⟩
      exact others before op after further

/-- The reads between peeks in one text deliver what the reads alone deliver in another one. -/
theorem deliver_eq_iff (text other : List α) (calls : List SourceCall) :
    deliver text calls = deliver other (withoutPeeks calls) ↔
      ∀ before op after, calls = before ++ .read op :: after →
        (text.drop (totalRequested before)).take op.requested =
          (other.drop (totalRequested (withoutPeeks before))).take op.requested := by
  induction calls generalizing text other with
  | nil => simp [deliver]
  | cons call calls ih =>
      rw [forall_split_cons]
      cases call with
      | read first =>
          rw [withoutPeeks_read, deliver, deliver, List.cons_eq_cons, ih]
          simp [requested]
      | peek first =>
          rw [withoutPeeks_peek, deliver, ih]
          simp [requested]

theorem findsSame_iff (text : List α) (calls : List SourceCall) :
    FindsSame text calls ↔ deliver text calls = deliver text (withoutPeeks calls) :=
  (deliver_eq_iff text text calls).symm

/-- Harmless peeks leave out nothing that a read could still find. -/
theorem Harmless.drop {text : List α} {calls : List SourceCall}
    (harmless : Harmless text.length calls) :
    text.drop (totalRequested calls) = text.drop (totalRequested (withoutPeeks calls)) := by
  induction calls generalizing text with
  | nil => rfl
  | cons call calls ih =>
      rw [Harmless, forall_split_cons] at harmless
      have later : Harmless (text.drop call.requested).length calls := by
        intro before op after split
        have here := harmless.2 before op after split
        rw [totalRequested_cons] at here
        rw [List.length_drop]
        omega
      have rest := ih later
      rw [List.drop_drop, List.drop_drop] at rest
      cases call with
      | read first =>
          rw [withoutPeeks_read, totalRequested_cons, totalRequested_cons]
          exact rest
      | peek first =>
          rw [withoutPeeks_peek, totalRequested_cons, rest]
          rcases harmless.1 first rfl with nothing | ended
          · rw [requested, nothing, Nat.zero_add]
          · obtain rfl : text = [] := by simpa using ended
            rw [List.drop_nil, List.drop_nil]

theorem Harmless.of_append {length : ℕ} {calls more : List SourceCall}
    (harmless : Harmless length (calls ++ more)) : Harmless length calls := by
  rintro before op after rfl
  exact harmless before op (after ++ more) (List.append_assoc _ _ _)

/-- Reads at the end of the calls do no harm. -/
theorem Harmless.append_reads {length : ℕ} {calls : List SourceCall}
    (harmless : Harmless length calls) (more : List SequentialRead) :
    Harmless length (calls ++ more.map .read) := by
  have noPeek (op : Peek) : SourceCall.peek op ∉ more.map .read := by simp
  intro before op after split
  rcases List.append_eq_append_iff.mp split with ⟨between, -, reads⟩ | ⟨between, rfl, reads⟩
  · apply absurd _ (noPeek op)
    rw [reads]
    exact List.mem_append_right between List.mem_cons_self
  · rcases between with _ | ⟨call, between⟩
    · apply absurd _ (noPeek op)
      rw [← List.nil_append (more.map _), ← reads]
      exact List.mem_cons_self
    · obtain ⟨rfl, -⟩ := List.cons.inj reads
      exact harmless before op between rfl

theorem Harmless.findsSame {text : List α} {calls : List SourceCall}
    (harmless : Harmless text.length calls) : FindsSame text calls := by
  rintro before op after rfl
  rw [harmless.of_append.drop]

theorem length_deliver_le (text : List α) (calls : List SourceCall) :
    (deliver text calls).flatten.length ≤ text.length := by
  induction calls generalizing text with
  | nil => exact Nat.zero_le _
  | cons call calls ih =>
      have rest := ih (text.drop call.requested)
      cases call with
      | read first =>
          rw [List.length_drop, requested] at rest
          rw [deliver, List.flatten_cons, List.length_append, List.length_take]
          omega
      | peek first =>
          rw [List.length_drop, requested] at rest
          rw [deliver]
          omega

/-- A character that a peek was given is not given to a read. -/
theorem length_deliver_lt {text : List α} {before : List SourceCall} {op : Peek}
    (some : 0 < op.asRead.requested) (more : totalRequested before < text.length)
    (after : List SourceCall) :
    (deliver text (before ++ .peek op :: after)).flatten.length < text.length := by
  induction before generalizing text with
  | nil =>
      have rest := length_deliver_le (text.drop op.asRead.requested) after
      rw [List.length_drop] at rest
      rw [List.nil_append, deliver]
      omega
  | cons call before ih =>
      rw [totalRequested_cons] at more
      have left : totalRequested before < (text.drop call.requested).length := by
        rw [List.length_drop]
        omega
      have rest := ih left
      cases call with
      | read first =>
          rw [List.length_drop, requested] at rest
          rw [List.cons_append, deliver, List.flatten_cons, List.length_append, List.length_take]
          omega
      | peek first =>
          rw [List.length_drop, requested] at rest
          rw [List.cons_append, deliver]
          omega

/-- Reads alone deliver a text from its beginning on. -/
theorem flatten_deliver (text : List α) (calls : List SourceCall) :
    (deliver text (withoutPeeks calls)).flatten =
      text.take (totalRequested (withoutPeeks calls)) := by
  induction calls generalizing text with
  | nil => exact List.take_zero.symm
  | cons call calls ih =>
      cases call with
      | read first =>
          rw [withoutPeeks_read, deliver, List.flatten_cons, ih, totalRequested_cons,
            List.take_add]
          rfl
      | peek first =>
          rw [withoutPeeks_peek]
          exact ih text

/-! ### The calls of a buffer -/

namespace Sourcebuf

variable {σ : Type} [SourceImpl σ α] {buffer : Sourcebuf σ α} {rest : σ → List α}

/-- A peek is the read that asks for the same characters. -/
theorem execPeek_eq (buffer : Sourcebuf σ α) (op : Peek) :
    buffer.execPeek op = buffer.execRead op.asRead := by
  cases op with
  | scopy count => rfl
  | sgetc => rfl
  | getc => rfl

/-- The run lemma: the calls go over what is upcoming, peeks and reads alike. -/
theorem runCalls_spec (sound : buffer.Sound) (sequential : Sequential rest)
    (calls : List SourceCall) :
    (buffer.runCalls calls).1 = deliver (buffer.upcoming rest) calls := by
  induction calls generalizing buffer with
  | nil => rfl
  | cons call calls ih =>
      cases call with
      | read op =>
          rcases execRead_spec sound sequential op with ⟨chars, next, left⟩
          rw [runCalls, deliver, ← left, ← chars, ← ih next]
          rfl
      | peek op =>
          rcases execRead_spec sound sequential op.asRead with ⟨-, next, left⟩
          rw [runCalls, deliver, execPeek_eq, ← left]
          exact ih next

theorem unnoticed_iff [Inhabited α] (sequential : Sequential rest) (source : σ)
    (calls : List SourceCall) : Unnoticed source calls ↔ FindsSame (rest source) calls := by
  rw [Unnoticed, runCalls_spec (sound_new source) sequential,
    runCalls_spec (sound_new source) sequential, upcoming_new, findsSame_iff]

/-- The reads at the end of the source would show that a peek took characters away. -/
theorem unnoticed_append_iff [Inhabited α] (sequential : Sequential rest) (source : σ)
    (calls : List SourceCall) :
    (∀ more : List SequentialRead, Unnoticed source (calls ++ more.map .read)) ↔
      Harmless (rest source).length calls := by
  constructor
  · rintro unnoticed before op after rfl
    by_contra harmful
    rw [not_or, Nat.not_le] at harmful
    have same := unnoticed (List.replicate (rest source).length .bumpc)
    rw [unnoticed_iff sequential, findsSame_iff] at same
    have peeked := length_deliver_lt (Nat.pos_of_ne_zero harmful.1) harmful.2
      (after ++ (List.replicate (rest source).length .bumpc).map .read)
    have whole := congrArg List.length (flatten_deliver (rest source)
      ((before ++ .peek op :: after) ++ (List.replicate (rest source).length .bumpc).map .read))
    rw [← same, List.length_take, withoutPeeks_append, withoutPeeks_map_read,
      totalRequested_append, totalRequested_replicate, List.append_assoc, List.cons_append] at whole
    omega
  · intro harmless more
    rw [unnoticed_iff sequential]
    exact (harmless.append_reads more).findsSame

/-- A peek returns what the read in its place would return.  The reads are not told of the peeks
between them exactly when each finds the same characters without them, and whatever is read in
the end, exactly when no peek takes anything from the source. -/
theorem peeks_unnoticed_iff [Inhabited α] (sequential : Sequential rest) (source : σ)
    (calls : List SourceCall) :
    let buffer := ((new source : Sourcebuf σ α).runCalls calls).2
    ((∀ count : UInt64, (buffer.scopy count.toNat).1 = (buffer.getn count.toNat).1) ∧
        buffer.sgetc.1 = buffer.sbumpc.1 ∧ buffer.getc.1 = buffer.bumpc.1) ∧
      (Unnoticed source calls ↔ FindsSame (rest source) calls) ∧
      ((∀ more : List SequentialRead, Unnoticed source (calls ++ more.map .read)) ↔
        Harmless (rest source).length calls) :=
  ⟨⟨fun _ => rfl, rfl, rfl⟩, unnoticed_iff sequential source calls,
    unnoticed_append_iff sequential source calls⟩

/-- Each of the peeks takes the first one of two characters from the read behind it. -/
theorem not_unnoticed_two :
    let data : List UInt8 := [65, 66]
    let source : MemorySource data := ⟨0, Nat.zero_le _⟩
    let buffer : Sourcebuf (MemorySource data) UInt8 := new source
    (buffer.runCalls [.read .sbumpc]).1 = [[65]] ∧
      ∀ op ∈ [Peek.scopy 1, .sgetc, .getc],
        (buffer.runCalls [.peek op, .read .sbumpc]).1 = [[66]] ∧
          ¬Unnoticed source [.peek op, .read .sbumpc] := by
  intro data source buffer
  have alone : (buffer.runCalls [.read .sbumpc]).1 = [[65]] := by decide +kernel
  have behind : ∀ op ∈ [Peek.scopy 1, .sgetc, .getc],
      (buffer.runCalls [.peek op, .read .sbumpc]).1 = [[66]] := by
    intro op present
    rw [runCalls, execPeek_eq]
    simp only [List.mem_cons, List.not_mem_nil, or_false] at present
    rcases present with rfl | rfl | rfl
    · decide +kernel
    · decide +kernel
    · decide +kernel
  refine ⟨alone, fun op present => ⟨behind op present, fun unnoticed => ?_⟩⟩
  have same : [[66]] = [[(65 : UInt8)]] :=
    (behind op present).symm.trans (unnoticed.trans alone)
  exact absurd same (by decide)

/-- Peeks at the end of a source, and one in a source whose characters are all the same. -/
theorem peeks_unnoticed_iff_two :
    let data : List UInt8 := [65, 65]
    let source : MemorySource data := ⟨0, Nat.zero_le _⟩
    (∀ more : List SequentialRead,
        Unnoticed source ([.read (.getn 2), .peek .sgetc, .peek (.scopy 7)] ++ more.map .read)) ∧
      Unnoticed source [.peek .getc, .read .sbumpc] := by
  intro data source
  have honours : Honours data MemorySource.position := MemorySource.honours (by decide)
  have sequential := honours.sequential
  constructor
  · apply (peeks_unnoticed_iff sequential source _).2.2.mpr
    simp [Harmless, forall_split_cons]
    decide
  · apply (peeks_unnoticed_iff sequential source _).2.1.mpr
    simp [FindsSame, forall_split_cons]
    decide

end Sourcebuf

end Snode.Streams
