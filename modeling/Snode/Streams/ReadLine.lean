import Mathlib.Data.List.TakeWhile
import Mathlib.Logic.Function.Basic
import Snode.Lib.Lines
import Snode.Streams.Istream

/-!
# Reading lines

`read_line` is called again and again, by the handler of each line, until the
source has ended.  Behind a carriage return the line goes to the target at once,
but the loop that met it runs on, and the line feed that may follow is looked for
in what is available only.  What is proved is proved of the runs in which the
chain finds the terminator of a line whole and as the last thing available.
-/

namespace Snode.Streams

open ProducerConsumerBuffer

/-- A copy of `line_read_impl` as it is bound to a callback: which call of `read_line` it belongs
to, and its flag `eof_or_crlf_`. -/
structure LineCopy where
  call : ℕ
  eofOrCrlf : Bool
  deriving DecidableEq

/-- What the calls of `read_line` keep: a `read_helper` each.  `callers` are the calls whose
handler has been called, in order. -/
structure LineHeap (α : Type) where
  helpers : ℕ → ReadHelper α
  calls : ℕ
  callers : List ℕ

/-- Before the first call. -/
def LineHeap.new {α : Type} : LineHeap α where
  helpers := fun _ => .new
  calls := 0
  callers := []

abbrev LineRead (α : Type) := Transfer α LineCopy LineCopy (LineHeap α)

namespace LineRead

variable {α : Type}

def helperOf (transfer : LineRead α) (self : LineCopy) : ReadHelper α :=
  transfer.helper.helpers self.call

def setHelper (self : LineCopy) (helper : ReadHelper α) (transfer : LineRead α) : LineRead α :=
  { transfer with
    helper := { transfer.helper with
      helpers := Function.update transfer.helper.helpers self.call helper } }

/-- `targetbuf_->putn(outbuf, write_pos, …)`. -/
def flush (self : LineCopy) (transfer : LineRead α) : LineRead α :=
  transfer.putn (transfer.helperOf self).outbuf self

def push (self : LineCopy) (ch : IntType α) (transfer : LineRead α) : LineRead α :=
  transfer.setHelper self ((transfer.helperOf self).push ch)

variable [CharTraits α] [Inhabited α]

/-- `update_after_cr`: the copy with its flag set, and the chain. -/
def updateAfterCr (self : LineCopy) (transfer : LineRead α) : LineCopy × LineRead α :=
  let (ch, transfer) := transfer.sgetc
  let transfer := if ch.val = Lines.lineFeed.toNat then transfer.sbumpc.2 else transfer
  let self := { self with eofOrCrlf := true }
  (self, flush self transfer)

/-- The loop of `read_line`; each turn takes a character.  It goes on behind a line. -/
def loop : ℕ → LineCopy → LineRead α → LineRead α
  | 0, _, transfer => transfer
  | fuel + 1, self, transfer =>
      if 0 < transfer.source.buffer.inAvail then
        let (ch, transfer) := transfer.sbumpc
        if ch.val = CharTraits.requiresAsync α then
          transfer.bumpc self
        else if ch.val = CharTraits.eof α then
          flush { self with eofOrCrlf := true } transfer
        else if ch.val = Lines.carriageReturn.toNat then
          let (self, transfer) := updateAfterCr self transfer
          loop fuel self transfer
        else
          let transfer := push self ch transfer
          if (transfer.helperOf self).isFull then flush self transfer
          else loop fuel self transfer
      else
        transfer

def readLine (self : LineCopy) (transfer : LineRead α) : LineRead α :=
  if transfer.source.buffer.inAvail = 0 then transfer.bumpc self
  else loop transfer.source.buffer.inAvail self transfer

def onRead (self : LineCopy) (result : Completion α) (transfer : LineRead α) : LineRead α :=
  match result with
  | .size _ => transfer
  | .ch ch =>
      if ch.val = CharTraits.eof α then
        flush { self with eofOrCrlf := true } transfer
      else if ch.val = Lines.carriageReturn.toNat then
        (updateAfterCr self transfer).2
      else
        let transfer := push self ch transfer
        if (transfer.helperOf self).isFull then flush self transfer else readLine self transfer

/-- A call of `read_line`, with a helper of its own. -/
def call (transfer : LineRead α) : LineRead α :=
  let self : LineCopy := ⟨transfer.helper.calls, false⟩
  let transfer := transfer.setHelper self .new
  readLine self
    { transfer with helper := { transfer.helper with calls := transfer.helper.calls + 1 } }

/-- The source is closed and there is nothing left in it. -/
def hasEnded (transfer : LineRead α) : Bool :=
  !transfer.source.buffer.canWrite && transfer.source.buffer.inAvail == 0

/-- The handler of the user is called. -/
def answered (self : LineCopy) (count : ℕ) (transfer : LineRead α) : LineRead α :=
  { transfer.callHandler count with
    helper := { transfer.helper with callers := transfer.helper.callers ++ [self.call] } }

/-- The handler of the user, which calls `read_line` until the source has ended. -/
def handler (self : LineCopy) (count : ℕ) (transfer : LineRead α) : LineRead α :=
  if hasEnded (answered self count transfer) then answered self count transfer
  else call (answered self count transfer)

def onWrite (self : LineCopy) (count : ℕ) (transfer : LineRead α) : LineRead α :=
  let helper := transfer.helperOf self
  if count ≠ 0 then
    let transfer := Transfer.targetOp (transfer.setHelper self (helper.flushed count)) .sync
    if self.eofOrCrlf then handler self count transfer else readLine self transfer
  else
    handler self helper.total transfer

def impl : Callbacks α LineCopy LineCopy (LineHeap α) where
  onRead := onRead
  onWrite := onWrite
  store _ heap := heap

/-! ### The runs in which the chain goes on -/

/-- The characters before the next carriage return. -/
def untilReturn (unread : List UInt8) : List UInt8 :=
  unread.takeWhile fun character => !decide (character = Lines.carriageReturn)

/-- Where `read_line` is entered, with `text` taken from the source, nothing is available, or the
rest of one line is with its terminator and nothing behind it. -/
def WholeLine (text : Lines) (unread : List UInt8) : Prop :=
  unread = [] ∨
    ¬(text.afterReturn = true ∧ unread.head? = some Lines.lineFeed) ∧
      Fits (text.current ++ untilReturn unread) ∧
      (unread = untilReturn unread ++ [Lines.carriageReturn] ∨
        unread = untilReturn unread ++ [Lines.carriageReturn, Lines.lineFeed])

instance (text : Lines) (unread : List UInt8) : Decidable (WholeLine text unread) :=
  inferInstanceAs (Decidable (_ ∨ ¬(_ ∧ _) ∧ Fits _ ∧ (_ ∨ _)))

/-- What `on_read` is called with next. -/
def arriving (transfer : LineRead UInt8) : Option (LineCopy × IntType UInt8) :=
  match transfer.tasks with
  | .onRead self (.ch ch) :: _ => some (self, ch)
  | _ => none

/-- The next task writes the end of a line. -/
def endsLine (transfer : LineRead UInt8) : Bool :=
  match transfer.tasks with
  | .putn _ self :: _ => self.eofOrCrlf
  | _ => false

/-- `on_read` has something to write at a carriage return, and any other character belongs to a
line that can be gone on with. -/
def GoesOn (outbuf : List UInt8) (text : Lines) (unread : List UInt8) : IntType UInt8 → Prop
  | .char character =>
      if character = Lines.carriageReturn then outbuf ≠ []
      else Fits text.current ∧ WholeLine text unread
  | .eof | .requiresAsync => True

instance (outbuf : List UInt8) (text : Lines) (unread : List UInt8) (ch : IntType UInt8) :
    Decidable (GoesOn outbuf text unread ch) :=
  match ch with
  | .char character =>
      inferInstanceAs (Decidable (if character = Lines.carriageReturn then _ else _ ∧ _))
  | .eof | .requiresAsync => isTrue trivial

def Continues (transfer : LineRead UInt8) : TransferEvent UInt8 LineCopy → Prop
  | .source _ | .target _ => True
  | .runTask =>
      (∀ arrived ∈ arriving transfer,
        GoesOn (transfer.helperOf arrived.1).outbuf (Lines.read transfer.source.removed)
          transfer.source.buffer.unread arrived.2) ∧
        (endsLine transfer = true → hasEnded transfer = true ∨
          WholeLine (Lines.read transfer.source.removed) transfer.source.buffer.unread)

/-- The runs all of whose steps go on. -/
def continuing : Lts (LineRead UInt8) (TransferEvent UInt8 LineCopy) where
  step transfer event next := Continues transfer event ∧ impl.system.step transfer event next

/-! ### Phases -/

/-- The lines of `text` are complete but for the last one. -/
structure ReadTo (text : Lines) (complete : List (List UInt8)) (line : List UInt8) : Prop where
  complete : text.complete = complete
  current : text.current = line

/-- The line has been taken from the source with its terminator, or up to the end. -/
inductive Ended (complete : List (List UInt8)) (line : List UInt8)
    (source : Session UInt8 LineCopy) : Prop where
  | terminator (text : ReadTo (Lines.read source.removed) (complete ++ [line]) [])
  | eof (text : ReadTo (Lines.read source.removed) complete line)
      (closed : source.buffer.canWrite = false) (unread : source.buffer.unread = [])

/-- The lines have been written, and their handlers have been called. -/
structure Written (before : List UInt8) (lines : List (List UInt8)) (transfer : LineRead UInt8) :
    Prop where
  stored : transfer.target.stored = before ++ lines.flatten
  called : transfer.called = lines.map List.length
  callers : transfer.helper.callers = List.range lines.length

/-- The copy that reads the line behind `lines`. -/
def copyFor (lines : List (List UInt8)) (eofOrCrlf : Bool) : LineCopy :=
  ⟨lines.length, eofOrCrlf⟩

inductive Phase (lines : List (List UInt8)) (transfer : LineRead UInt8) : Prop where
  | waiting (requests : transfer.source.buffer.requests = [bumpRequest (copyFor lines false)])
      (tasks : transfer.tasks = []) (calls : transfer.helper.calls = lines.length + 1)
      (text : ReadTo (Lines.read transfer.source.removed) lines
        (transfer.helperOf (copyFor lines false)).outbuf)
  | read (ch : IntType UInt8) (removed : List UInt8)
      (requests : transfer.source.buffer.requests = [])
      (tasks : transfer.tasks = [.onRead (copyFor lines false) (.ch ch)])
      (calls : transfer.helper.calls = lines.length + 1)
      (taken : Taken removed transfer.source ch)
      (text : ReadTo (Lines.read removed) lines (transfer.helperOf (copyFor lines false)).outbuf)
  | ending (line : List UInt8) (nonempty : line ≠ [])
      (requests : transfer.source.buffer.requests = [])
      (tasks : transfer.tasks = [.putn line (copyFor lines true)])
      (calls : transfer.helper.calls = lines.length + 1)
      (ended : Ended lines line transfer.source)
  | done (requests : transfer.source.buffer.requests = []) (tasks : transfer.tasks = [])
      (closed : transfer.source.buffer.canWrite = false)
      (unread : transfer.source.buffer.unread = [])
      (all : (Lines.read transfer.source.removed).all = lines)

/-- What holds of a chain that has begun. -/
structure Going (before : List UInt8) (transfer : LineRead UInt8) : Prop where
  source : Source transfer.source
  target : Target transfer.target
  reading : ∃ lines, Written before lines transfer ∧ Phase lines transfer

variable {before : List UInt8} {lines : List (List UInt8)} {transfer : LineRead UInt8}
  {self : LineCopy}

/-! ### The loop -/

@[simp]
theorem source_flush (self : LineCopy) (transfer : LineRead UInt8) :
    (flush self transfer).source = transfer.source := by
  simp only [flush, Transfer.putn]
  split
  · split <;> rfl
  · rfl

theorem helperOf_setHelper (self : LineCopy) (eofOrCrlf : Bool) (helper : ReadHelper UInt8)
    (transfer : LineRead UInt8) :
    (transfer.setHelper self helper).helperOf ⟨self.call, eofOrCrlf⟩ = helper := by
  simp [helperOf, setHelper]

theorem setHelper_same (self : LineCopy) (transfer : LineRead UInt8) :
    transfer.setHelper self (transfer.helperOf self) = transfer := by
  simp [helperOf, setHelper]

theorem val_ne_lineFeed {ch : IntType UInt8} (marker : ch = .eof ∨ ch = .requiresAsync) :
    ch.val ≠ Lines.lineFeed.toNat := by
  rcases marker with rfl | rfl
  all_goals decide

/-- A carriage return takes the line feed behind it along if that is available. -/
theorem updateAfterCr_spec (self : LineCopy) (source : Source transfer.source) :
    ∃ after : Session UInt8 LineCopy, Source after ∧
      after.buffer.requests = transfer.source.buffer.requests ∧
      after.buffer.canWrite = transfer.source.buffer.canWrite ∧
      updateAfterCr self transfer =
        (⟨self.call, true⟩, flush ⟨self.call, true⟩ { transfer with source := after }) ∧
      (transfer.source.buffer.unread.head? ≠ some Lines.lineFeed ∧
          after.removed = transfer.source.removed ∧
          after.buffer.unread = transfer.source.buffer.unread ∨
        transfer.source.buffer.unread = Lines.lineFeed :: after.buffer.unread ∧
          after.removed = transfer.source.removed ++ [Lines.lineFeed]) := by
  rcases source.sgetc with ⟨peeked, value⟩
  by_cases feeds : transfer.sgetc.1.val = Lines.lineFeed.toNat
  · rcases value with ⟨value, -⟩ | value
    · exact (val_ne_lineFeed (.inr value) feeds).elim
    rcases unread : transfer.source.buffer.unread with _ | ⟨character, rest⟩
    · rw [unread] at value
      exact (val_ne_lineFeed (.inl value) feeds).elim
    rw [unread] at value
    simp only at value
    rw [value, val_char_eq] at feeds
    subst feeds
    have unreadNext := peeked.unread.trans unread
    rcases peeked.source.sbumpc unreadNext with ⟨-, next, removed, drained, requests, canWrite⟩
    refine ⟨_, next, requests.trans peeked.requests, canWrite.trans peeked.canWrite, ?_,
      .inr ⟨?_, ?_⟩⟩
    · simp only [updateAfterCr, value, val_char_eq, if_true]
      rfl
    · rw [drained]
    · rw [removed, peeked.removed]
  · refine ⟨_, peeked.source, peeked.requests, peeked.canWrite, ?_,
      .inl ⟨?_, peeked.removed, peeked.unread⟩⟩
    · simp only [updateAfterCr, if_neg feeds]
      rfl
    · intro first
      apply feeds
      rcases value with ⟨-, empty⟩ | value
      · simp [empty] at first
      · rcases unread : transfer.source.buffer.unread with _ | ⟨character, rest⟩
        · simp [unread] at first
        · rw [unread] at value first
          simp only [List.head?_cons, Option.some.injEq] at first
          rw [value, first, val_char_eq]

/-- When nothing but a terminator is available, the update takes all there is. -/
theorem updateAfterCr_terminator (self : LineCopy) (source : Source transfer.source)
    {tail : List UInt8} (terminator : tail = [] ∨ tail = [Lines.lineFeed])
    (unread : transfer.source.buffer.unread = tail) :
    ∃ after : Session UInt8 LineCopy, Source after ∧
      after.buffer.requests = transfer.source.buffer.requests ∧
      updateAfterCr self transfer =
        (⟨self.call, true⟩, flush ⟨self.call, true⟩ { transfer with source := after }) ∧
      after.buffer.unread = [] ∧ after.removed = transfer.source.removed ++ tail := by
  rcases updateAfterCr_spec self source with ⟨after, isAfter, requests, -, updated, left⟩
  refine ⟨after, isAfter, requests, updated, ?_⟩
  rcases terminator with rfl | rfl
  · rcases left with ⟨-, same, still⟩ | ⟨one, -⟩
    · exact ⟨still.trans unread, by rw [same, List.append_nil]⟩
    · simp [unread] at one
  · rcases left with ⟨other, -⟩ | ⟨one, same⟩
    · simp [unread] at other
    · rw [unread] at one
      exact ⟨(List.cons.inj one).2.symm, same⟩

theorem loop_none (none : transfer.source.buffer.inAvail = 0) (fuel : ℕ) :
    loop fuel self transfer = transfer := by
  cases fuel with
  | zero => rfl
  | succ fuel => simp [loop, none]

theorem loop_turn (source : Source transfer.source) {character : UInt8} {rest : List UInt8}
    (unread : transfer.source.buffer.unread = character :: rest) (fuel : ℕ) :
    loop (fuel + 1) self transfer =
      if character = Lines.carriageReturn then
        loop fuel (updateAfterCr self transfer.sbumpc.2).1 (updateAfterCr self transfer.sbumpc.2).2
      else
        if ((push self (.char character) transfer.sbumpc.2).helperOf self).isFull then
          flush self (push self (.char character) transfer.sbumpc.2)
        else loop fuel self (push self (.char character) transfer.sbumpc.2) := by
  have available : 0 < transfer.source.buffer.inAvail := by
    simp [inAvail, source.invariant.consistent.total_eq, unread]
  have value := (source.sbumpc unread).1
  have notEof : (IntType.char character : IntType UInt8).val ≠ CharTraits.eof UInt8 :=
    wideTraits_uint8 character
  simp only [loop, if_pos available, value, if_neg (val_char_ne_requiresAsync character),
    if_neg notEof, val_char_eq]

/-- As many turns as there are characters are enough. -/
theorem loop_enough (source : Source transfer.source) (spare : ℕ) :
    loop (transfer.source.buffer.inAvail + spare) self transfer =
      loop transfer.source.buffer.inAvail self transfer := by
  have turns (fuel : ℕ) : ∀ {transfer : LineRead UInt8} {self : LineCopy},
      Source transfer.source → transfer.source.buffer.unread.length ≤ fuel →
      loop (fuel + spare) self transfer = loop fuel self transfer := by
    induction fuel with
    | zero =>
        intro transfer self source enough
        have none : transfer.source.buffer.inAvail = 0 :=
          source.invariant.consistent.total_eq.trans (Nat.le_zero.mp enough)
        rw [loop_none none, loop_none none]
    | succ fuel ih =>
        intro transfer self source enough
        rcases unread : transfer.source.buffer.unread with _ | ⟨character, rest⟩
        · have none : transfer.source.buffer.inAvail = 0 := by
            rw [inAvail, source.invariant.consistent.total_eq, unread, List.length_nil]
          rw [loop_none none, loop_none none]
        · rw [unread, List.length_cons] at enough
          rcases source.sbumpc unread with ⟨-, next, -, unreadNext, -, -⟩
          have short : transfer.sbumpc.2.source.buffer.unread.length ≤ fuel := by
            rw [unreadNext]
            omega
          rcases updateAfterCr_spec self next with ⟨after, isAfter, -, -, updated, left⟩
          have shorter : after.buffer.unread.length ≤ fuel := by
            rcases left with ⟨-, -, same⟩ | ⟨one, -⟩
            · rw [same]
              exact short
            · rw [one, List.length_cons] at short
              omega
          rw [Nat.add_right_comm, loop_turn source unread, loop_turn source unread, updated]
          split
          · exact ih (by rw [source_flush]; exact isAfter) (by rw [source_flush]; exact shorter)
          · split
            · rfl
            · exact ih next short
  exact turns _ source (Nat.le_of_eq source.invariant.consistent.total_eq.symm)

/-- The loop takes the rest of a line with its terminator and writes the line. -/
theorem loop_line {body tail : List UInt8}
    (notReturn : ∀ character ∈ body, character ≠ Lines.carriageReturn)
    (terminator : tail = [] ∨ tail = [Lines.lineFeed]) (spare : ℕ)
    (source : Source transfer.source)
    (unread : transfer.source.buffer.unread = body ++ Lines.carriageReturn :: tail)
    (short : ((transfer.helperOf self).outbuf ++ body).length < bufSize) :
    ∃ after, Source after ∧
      after.removed = transfer.source.removed ++ body ++ Lines.carriageReturn :: tail ∧
      after.buffer.requests = transfer.source.buffer.requests ∧
      loop (body.length + spare + 1) self transfer =
        flush ⟨self.call, true⟩ (setHelper self
          ⟨(transfer.helperOf self).total, (transfer.helperOf self).outbuf ++ body⟩
          { transfer with source := after }) := by
  induction body generalizing transfer with
  | nil =>
      rcases source.sbumpc unread with ⟨-, next, removed, unreadNext, requests, -⟩
      rcases updateAfterCr_terminator self next terminator unreadNext with
        ⟨after, isAfter, requestsAfter, updated, drained, taken⟩
      refine ⟨after, isAfter, ?_, requestsAfter.trans requests, ?_⟩
      · rw [taken, removed]
        simp
      · have none : (flush ⟨self.call, true⟩
            { transfer.sbumpc.2 with source := after }).source.buffer.inAvail = 0 := by
          rw [source_flush, inAvail, isAfter.invariant.consistent.total_eq, drained,
            List.length_nil]
        rw [loop_turn source unread, if_pos rfl, updated, loop_none none, List.append_nil]
        exact congrArg (flush _) (setHelper_same self { transfer with source := after }).symm
  | cons character body ih =>
      rcases source.sbumpc unread with ⟨-, next, removed, unreadNext, requests, -⟩
      have plain : character ≠ Lines.carriageReturn := notReturn character List.mem_cons_self
      let pushed := push self (.char character) transfer.sbumpc.2
      have helper : pushed.helperOf self = ⟨(transfer.helperOf self).total,
          (transfer.helperOf self).outbuf ++ [character]⟩ :=
        helperOf_setHelper _ _ _ _
      have notFull : (pushed.helperOf self).isFull = false := by
        simp only [List.length_append, List.length_cons] at short
        simp only [ReadHelper.isFull, helper, List.length_append, List.length_cons,
          List.length_nil, beq_eq_false_iff_ne]
        omega
      have isSource : Source pushed.source := next
      have still : ((pushed.helperOf self).outbuf ++ body).length < bufSize := by
        simpa [helper] using short
      rcases ih (fun later present => notReturn later (List.mem_cons_of_mem _ present)) isSource
          unreadNext still with ⟨final, isFinal, removedFinal, requestsFinal, looped⟩
      refine ⟨final, isFinal, ?_, requestsFinal.trans requests, ?_⟩
      · rw [removedFinal, show pushed.source.removed = _ from removed]
        simp
      · rw [List.length_cons, Nat.add_right_comm _ 1, loop_turn source unread, if_neg plain]
        rw [show push self (.char character) transfer.sbumpc.2 = pushed from rfl, notFull,
          if_neg Bool.false_ne_true, looped, helper]
        simp [pushed, push, setHelper, Transfer.sbumpc]

/-! ### The step -/

theorem flush_nonempty (target : Target transfer.target)
    (nonempty : (transfer.helperOf self).outbuf ≠ []) :
    flush self transfer = transfer.connect [.putn (transfer.helperOf self).outbuf self] := by
  have positive : (transfer.helperOf self).outbuf.length ≠ 0 := by simpa using nonempty
  simp only [flush, Transfer.putn, if_pos positive, target.canWrite, Bool.not_true,
    Bool.false_eq_true, if_false]

theorem flush_empty (empty : (transfer.helperOf self).outbuf = []) :
    flush self transfer = transfer := by
  simp [flush, Transfer.putn, empty]

theorem Phase.of_answer {op : Op UInt8 LineCopy}
    (answer : Answer (bumpRequest (copyFor lines false)) (op.exec transfer.source.buffer))
    (tasks : transfer.tasks = []) (calls : transfer.helper.calls = lines.length + 1)
    (text : ReadTo (Lines.read transfer.source.removed) lines
      (transfer.helperOf (copyFor lines false)).outbuf)
    {store : Completed UInt8 LineCopy → LineHeap UInt8 → LineHeap UInt8}
    (keeps : ∀ completed heap, store completed heap = heap) :
    (transfer.sourceOp store op).helper = transfer.helper ∧
      Phase lines (transfer.sourceOp store op) := by
  rcases bump_answer keeps answer with ⟨helper, ⟨sameTasks, requests, same⟩ |
    ⟨ch, nextTasks, requests, taken⟩⟩
  · refine ⟨helper, .waiting requests (sameTasks.trans tasks) ?_ ?_⟩
    · rw [helper]
      exact calls
    · rw [helperOf, helper, show (transfer.sourceOp store op).source.removed = _ from same]
      exact text
  · refine ⟨helper, .read ch transfer.source.removed requests ?_ ?_ taken ?_⟩
    · rw [nextTasks, tasks, List.nil_append]
    · rw [helper]
      exact calls
    · rw [helperOf, helper]
      exact text

/-- The rest of a line is where `read_line` expects it. -/
theorem readTo_line {text : Lines} {line body tail : List UInt8} (readTo : ReadTo text lines line)
    (notReturn : ∀ character ∈ body, character ≠ Lines.carriageReturn)
    (notTerminator : ¬(text.afterReturn = true ∧
      (body ++ Lines.carriageReturn :: tail).head? = some Lines.lineFeed))
    (terminator : tail = [] ∨ tail = [Lines.lineFeed]) :
    ReadTo ((body ++ Lines.carriageReturn :: tail).foldl Lines.next text)
      (lines ++ [line ++ body]) [] := by
  have notFeed : ¬(text.afterReturn = true ∧ body.head? = some Lines.lineFeed) := by
    rintro ⟨after, first⟩
    exact notTerminator ⟨after, by simp [List.head?_append, first]⟩
  rcases Lines.foldl_plain notReturn notFeed with ⟨complete, current⟩
  rw [List.foldl_append, List.foldl_cons, Lines.next_return, complete, current, readTo.complete,
    readTo.current]
  rcases terminator with rfl | rfl
  · exact ⟨rfl, rfl⟩
  · rw [List.foldl_cons, Lines.next_lineFeed rfl]
    exact ⟨rfl, rfl⟩

theorem going_readLine (source : Source transfer.source) (target : Target transfer.target)
    (idle : transfer.source.buffer.requests = []) (tasks : transfer.tasks = [])
    (written : Written before lines transfer) (calls : transfer.helper.calls = lines.length + 1)
    (text : ReadTo (Lines.read transfer.source.removed) lines
      (transfer.helperOf (copyFor lines false)).outbuf)
    (whole : WholeLine (Lines.read transfer.source.removed) transfer.source.buffer.unread) :
    Going before (readLine (copyFor lines false) transfer) := by
  have total : transfer.source.buffer.inAvail = transfer.source.buffer.unread.length :=
    source.invariant.consistent.total_eq
  rcases whole with empty | ⟨notTerminator, fits, lineEq⟩
  · have none : transfer.source.buffer.inAvail = 0 := by rw [total, empty, List.length_nil]
    rcases bumpc_answer source (copyFor lines false) idle with ⟨issued, answer⟩
    rcases Phase.of_answer answer tasks calls text (fun _ _ => rfl) with ⟨helper, phase⟩
    rw [readLine, if_pos none, issued]
    refine ⟨source.consumes trivial trivial, target, lines, ?_, phase⟩
    exact ⟨written.stored, written.called, by rw [helper]; exact written.callers⟩
  · have notReturn : ∀ character ∈ untilReturn transfer.source.buffer.unread,
        character ≠ Lines.carriageReturn := by
      intro character present
      simpa using List.mem_takeWhile_imp present
    have exists_tail : ∃ tail, (tail = [] ∨ tail = [Lines.lineFeed]) ∧
        transfer.source.buffer.unread =
          untilReturn transfer.source.buffer.unread ++ Lines.carriageReturn :: tail := by
      rcases lineEq with lineEq | lineEq
      · exact ⟨[], .inl rfl, lineEq⟩
      · exact ⟨[Lines.lineFeed], .inr rfl, lineEq⟩
    rcases exists_tail with ⟨tail, terminator, unread⟩
    rw [text.current] at fits
    rcases loop_line notReturn terminator tail.length source unread fits.2 with
      ⟨after, isAfter, removed, requests, looped⟩
    have some : transfer.source.buffer.inAvail =
        (untilReturn transfer.source.buffer.unread).length + tail.length + 1 := by
      rw [total]
      conv_lhs => rw [unread]
      rw [List.length_append, List.length_cons, Nat.add_assoc]
    have line := readTo_line text notReturn (by rw [← unread]; exact notTerminator) terminator
    have helper := helperOf_setHelper (copyFor lines false) true
      ⟨(transfer.helperOf (copyFor lines false)).total,
        (transfer.helperOf (copyFor lines false)).outbuf ++
          untilReturn transfer.source.buffer.unread⟩ { transfer with source := after }
    rw [readLine, if_neg (by omega), some, looped, flush_nonempty, helper]
    · refine ⟨isAfter, target, lines, ⟨written.stored, written.called, written.callers⟩, ?_⟩
      refine .ending _ fits.1 (requests.trans idle) ?_ calls (.terminator ?_)
      · simp [Transfer.connect, setHelper, tasks, copyFor]
      · change ReadTo (Lines.read after.removed) _ _
        rw [removed, List.append_assoc, ← unread, Lines.read_append]
        rw [← unread] at line
        exact line
    · exact target
    · rw [helper]
      exact fits.1

/-- The handler of a line calls `read_line` again, unless the source has ended. -/
theorem going_handler {line : List UInt8} (source : Source transfer.source)
    (target : Target transfer.target) (nonempty : line ≠ [])
    (idle : transfer.source.buffer.requests = []) (tasks : transfer.tasks = [])
    (calls : transfer.helper.calls = lines.length + 1)
    (stored : transfer.target.stored = before ++ (lines ++ [line]).flatten)
    (called : transfer.called = lines.map List.length)
    (callers : transfer.helper.callers = List.range lines.length)
    (ended : Ended lines line transfer.source)
    (whole : hasEnded transfer = true ∨
      WholeLine (Lines.read transfer.source.removed) transfer.source.buffer.unread) :
    Going before (handler (copyFor lines true) line.length transfer) := by
  have calledNext : transfer.called ++ [line.length] = (lines ++ [line]).map List.length := by
    simp [called]
  have callersNext : transfer.helper.callers ++ [lines.length] =
      List.range (lines ++ [line]).length := by
    simp [callers, List.range_succ]
  have total : transfer.source.buffer.inAvail = transfer.source.buffer.unread.length :=
    source.invariant.consistent.total_eq
  -- the handler leaves the source as it is
  have same : hasEnded (answered (copyFor lines true) line.length transfer) =
      hasEnded transfer := rfl
  by_cases finished : hasEnded transfer = true
  · have closed : transfer.source.buffer.canWrite = false ∧
        transfer.source.buffer.unread = [] := by
      simp only [hasEnded, total, Bool.and_eq_true, Bool.not_eq_true', beq_iff_eq,
        List.length_eq_zero_iff] at finished
      exact finished
    have all : (Lines.read transfer.source.removed).all = lines ++ [line] := by
      cases ended with
      | terminator text => simp [Lines.all, text.complete, text.current]
      | eof text => simp [Lines.all, text.complete, text.current, nonempty]
    rw [handler, same, if_pos finished]
    exact ⟨source, target, lines ++ [line], ⟨stored, calledNext, callersNext⟩,
      .done idle tasks closed.1 closed.2 all⟩
  · have text : ReadTo (Lines.read transfer.source.removed) (lines ++ [line]) [] := by
      cases ended with
      | terminator text => exact text
      | eof text closed unread =>
          exact (finished (by simp [hasEnded, closed, total, unread])).elim
    have wholeLine := whole.resolve_left finished
    have next : handler (copyFor lines true) line.length transfer =
        readLine (copyFor (lines ++ [line]) false)
          { transfer with
            helper := ⟨Function.update transfer.helper.helpers (lines ++ [line]).length .new,
              (lines ++ [line]).length + 1, transfer.helper.callers ++ [lines.length]⟩
            called := transfer.called ++ [line.length] } := by
      rw [handler, same, if_neg finished]
      simp [call, setHelper, answered, Transfer.callHandler, copyFor, calls]
    rw [next]
    apply going_readLine
    · exact source
    · exact target
    · exact idle
    · exact tasks
    · exact ⟨stored, calledNext, callersNext⟩
    · rfl
    · simpa [helperOf, copyFor, ReadHelper.new] using text
    · exact wholeLine

/-- The end of the source ends the line that has been begun. -/
theorem going_onRead_eof (written : Written before lines transfer)
    (source : Source transfer.source) (target : Target transfer.target)
    (idle : transfer.source.buffer.requests = []) (tasks : transfer.tasks = [])
    (calls : transfer.helper.calls = lines.length + 1)
    (text : ReadTo (Lines.read transfer.source.removed) lines
      (transfer.helperOf (copyFor lines false)).outbuf)
    (closed : transfer.source.buffer.canWrite = false)
    (unread : transfer.source.buffer.unread = []) :
    Going before (onRead (copyFor lines false) (.ch .eof) transfer) := by
  simp only [onRead, IntType.val, if_true]
  by_cases empty : (transfer.helperOf (copyFor lines false)).outbuf = []
  · rw [flush_empty]
    · refine ⟨source, target, lines, written, .done idle tasks closed unread ?_⟩
      rw [Lines.all, text.current, if_pos empty, text.complete]
    · exact empty
  · rw [flush_nonempty]
    · refine ⟨source, target, lines, ⟨written.stored, written.called, written.callers⟩,
        .ending _ empty idle ?_ calls (.eof text closed unread)⟩
      simp [Transfer.connect, tasks, copyFor, helperOf]
    · exact target
    · exact empty

/-- A carriage return ends the line, and takes a line feed along that is available. -/
theorem going_onRead_return (written : Written before lines transfer)
    (source : Source transfer.source) (target : Target transfer.target)
    (idle : transfer.source.buffer.requests = []) (tasks : transfer.tasks = [])
    (calls : transfer.helper.calls = lines.length + 1)
    {removed : List UInt8} (taken : transfer.source.removed = removed ++ [Lines.carriageReturn])
    (text : ReadTo (Lines.read removed) lines (transfer.helperOf (copyFor lines false)).outbuf)
    (nonempty : (transfer.helperOf (copyFor lines false)).outbuf ≠ []) :
    Going before
      (onRead (copyFor lines false) (.ch (.char Lines.carriageReturn)) transfer) := by
  have notEof : (IntType.char Lines.carriageReturn : IntType UInt8).val ≠ CharTraits.eof UInt8 :=
    wideTraits_uint8 _
  rcases updateAfterCr_spec (copyFor lines false) source with
    ⟨after, isAfter, requestsAfter, -, updated, left⟩
  have readEq : Lines.read transfer.source.removed =
      ⟨lines ++ [(transfer.helperOf (copyFor lines false)).outbuf], [], true⟩ := by
    rw [taken, Lines.read_append, List.foldl_cons, Lines.next_return, text.complete, text.current]
    rfl
  have ended : ReadTo (Lines.read after.removed)
      (lines ++ [(transfer.helperOf (copyFor lines false)).outbuf]) [] := by
    rcases left with ⟨-, same, -⟩ | ⟨-, one⟩
    · rw [same, readEq]
      exact ⟨rfl, rfl⟩
    · rw [one, Lines.read_append, readEq, List.foldl_cons, Lines.next_lineFeed rfl]
      exact ⟨rfl, rfl⟩
  simp only [onRead, if_neg notEof, val_char_eq, if_true, updated]
  rw [flush_nonempty]
  · refine ⟨isAfter, target, lines, ⟨written.stored, written.called, written.callers⟩,
      .ending _ nonempty (requestsAfter.trans idle) ?_ calls (.terminator ended)⟩
    simp [Transfer.connect, tasks, copyFor, helperOf]
  · exact target
  · exact nonempty

theorem going_onRead_plain (written : Written before lines transfer)
    (source : Source transfer.source) (target : Target transfer.target)
    (idle : transfer.source.buffer.requests = []) (tasks : transfer.tasks = [])
    (calls : transfer.helper.calls = lines.length + 1)
    {removed : List UInt8} {character : UInt8}
    (taken : transfer.source.removed = removed ++ [character])
    (text : ReadTo (Lines.read removed) lines (transfer.helperOf (copyFor lines false)).outbuf)
    (notReturn : character ≠ Lines.carriageReturn)
    (fits : Fits (Lines.read transfer.source.removed).current)
    (whole : WholeLine (Lines.read transfer.source.removed) transfer.source.buffer.unread) :
    Going before (onRead (copyFor lines false) (.ch (.char character)) transfer) := by
  have notEof : (IntType.char character : IntType UInt8).val ≠ CharTraits.eof UInt8 :=
    wideTraits_uint8 character
  have readEq : Lines.read transfer.source.removed = (Lines.read removed).next character := by
    rw [taken, Lines.read_append]
    rfl
  have notTerminator :
      ¬((Lines.read removed).afterReturn = true ∧ character = Lines.lineFeed) := by
    rintro ⟨afterReturn, rfl⟩
    apply fits.1
    rw [readEq, Lines.next_lineFeed afterReturn]
    exact Lines.current_of_afterReturn afterReturn
  have readTo : ReadTo (Lines.read transfer.source.removed) lines
      ((transfer.helperOf (copyFor lines false)).outbuf ++ [character]) := by
    rw [readEq, Lines.next_plain notReturn notTerminator, text.complete, text.current]
    exact ⟨rfl, rfl⟩
  have helper : (push (copyFor lines false) (.char character) transfer).helperOf
      (copyFor lines false) =
        (transfer.helperOf (copyFor lines false)).push (.char character) :=
    helperOf_setHelper _ _ _ _
  have notFull : ((push (copyFor lines false) (.char character) transfer).helperOf
      (copyFor lines false)).isFull = false := by
    rw [readTo.current] at fits
    rw [helper]
    simp only [ReadHelper.isFull, beq_eq_false_iff_ne]
    exact Nat.ne_of_lt fits.2
  simp only [onRead, if_neg notEof, val_char_eq, if_neg notReturn, notFull, Bool.false_eq_true,
    if_false]
  apply going_readLine
  · exact source
  · exact target
  · exact idle
  · exact tasks
  · exact ⟨written.stored, written.called, written.callers⟩
  · exact calls
  · rw [helper]
    exact readTo
  · exact whole

theorem Going.runTask (going : Going before transfer) (continues : Continues transfer .runTask) :
    Going before (impl.runTask transfer) := by
  rcases going with ⟨source, target, lines, written, phase⟩
  cases phase with
  | waiting requests tasks calls text =>
      simp only [Callbacks.runTask, tasks]
      exact ⟨source, target, lines, written, .waiting requests tasks calls text⟩
  | done requests tasks closed unread all =>
      simp only [Callbacks.runTask, tasks]
      exact ⟨source, target, lines, written, .done requests tasks closed unread all⟩
  | ending line nonempty requests tasks calls ended =>
      have whole := continues.2 (by simp [endsLine, tasks, copyFor])
      rcases target.write nonempty with ⟨count, wrote, nowStored⟩
      have nonzero : line.length ≠ 0 := by simpa using nonempty
      rcases wrote.sync with ⟨synced, stillStored⟩
      simp only [Callbacks.runTask, tasks, impl, onWrite, count, if_pos nonzero]
      rw [show (copyFor lines true).eofOrCrlf = true from rfl, if_pos rfl]
      apply going_handler
      · exact source
      · exact synced
      · exact nonempty
      · exact requests
      · rfl
      · exact calls
      · refine (stillStored.trans nowStored).trans ?_
        simp [written.stored]
      · exact written.called
      · exact written.callers
      · exact ended
      · exact whole
  | read ch removed requests tasks calls taken text =>
      have goesOn := continues.1 (copyFor lines false, ch) (by simp [arriving, tasks])
      have still : Written before lines { transfer with tasks := [] } :=
        ⟨written.stored, written.called, written.callers⟩
      simp only [Callbacks.runTask, tasks, impl]
      cases ch with
      | requiresAsync => exact taken.elim
      | eof =>
          rcases taken with ⟨rfl, closed, unread⟩
          exact going_onRead_eof still source target requests rfl calls text closed unread
      | char character =>
          by_cases isReturn : character = Lines.carriageReturn
          · subst isReturn
            rw [GoesOn, if_pos rfl] at goesOn
            exact going_onRead_return still source target requests rfl calls taken text goesOn
          · rw [GoesOn, if_neg isReturn] at goesOn
            exact going_onRead_plain still source target requests rfl calls taken text isReturn
              goesOn.1 goesOn.2

theorem Ended.produces {line : List UInt8} {source : Session UInt8 LineCopy}
    (ended : Ended lines line source) (isSource : Source source) {op : Op UInt8 LineCopy}
    (legal : op.Legal source.buffer) (same : (source.exec op).removed = source.removed) :
    Ended lines line (source.exec op) := by
  cases ended with
  | terminator text => exact .terminator (same ▸ text)
  | eof text closed unread =>
      rcases isSource.drained legal closed unread with ⟨still, drained⟩
      exact .eof (same ▸ text) still drained

theorem Going.sourceOp (going : Going before transfer) {op : Op UInt8 LineCopy}
    (produces : op.Produces) (legal : op.Legal transfer.source.buffer) :
    Going before (transfer.sourceOp (impl (α := UInt8)).store op) := by
  rcases going with ⟨source, target, lines, written, phase⟩
  have next := source.produces produces legal
  rcases written with ⟨stored, called, callers⟩
  cases phase with
  | waiting requests tasks calls text =>
      have keeps : ∀ completed heap, (impl (α := UInt8)).store completed heap = heap :=
        fun _ _ => rfl
      rcases Phase.of_answer (Answer.produces produces source.invariant legal requests) tasks
        calls text keeps with ⟨helper, phase⟩
      exact ⟨next, target, lines, ⟨stored, called, by rw [helper]; exact callers⟩, phase⟩
  | read ch removed requests tasks calls taken text =>
      rcases idle_produces produces requests (impl (α := UInt8)).store with ⟨after, still, same⟩
      rw [after]
      refine ⟨next, target, lines, ⟨stored, called, callers⟩,
        .read ch removed still tasks calls ?_ text⟩
      cases ch with
      | char character => exact same.trans taken
      | eof => exact ⟨same.trans taken.1, source.drained legal taken.2.1 taken.2.2⟩
      | requiresAsync => exact taken
  | ending line nonempty requests tasks calls ended =>
      rcases idle_produces produces requests (impl (α := UInt8)).store with ⟨after, still, same⟩
      rw [after]
      exact ⟨next, target, lines, ⟨stored, called, callers⟩,
        .ending line nonempty still tasks calls (ended.produces source legal same)⟩
  | done requests tasks closed unread all =>
      rcases idle_produces produces requests (impl (α := UInt8)).store with ⟨after, still, same⟩
      rcases source.drained legal closed unread with ⟨stillClosed, drained⟩
      rw [after]
      exact ⟨next, target, lines, ⟨stored, called, callers⟩,
        .done still tasks stillClosed drained (by rw [same]; exact all)⟩

theorem Going.targetOp (going : Going before transfer) {op : Op UInt8 ℕ}
    (consumes : op.Consumes) (legal : op.Legal transfer.target.buffer) :
    Going before (transfer.targetOp op) := by
  rcases going with ⟨source, target, lines, written, phase⟩
  rcases target.consumes consumes legal with ⟨still, same⟩
  refine ⟨source, still, lines,
    ⟨same.trans written.stored, written.called, written.callers⟩, ?_⟩
  cases phase with
  | waiting requests tasks calls text => exact .waiting requests tasks calls text
  | read ch removed requests tasks calls taken text =>
      exact .read ch removed requests tasks calls taken text
  | ending line nonempty requests tasks calls ended =>
      exact .ending line nonempty requests tasks calls ended
  | done requests tasks closed unread all => exact .done requests tasks closed unread all

theorem Going.step (going : Going before transfer) {event : TransferEvent UInt8 LineCopy}
    {next : LineRead UInt8} (step : continuing.step transfer event next) :
    Going before next := by
  rcases step with ⟨continues, legal, rfl⟩
  cases event with
  | source op => exact going.sourceOp legal.1 legal.2
  | target op => exact going.targetOp legal.1 legal.2
  | runTask => exact going.runTask continues

/-! ### Runs -/

/-- In the runs in which the chain goes on: once the source is closed and no task is left, the
lines of the source have been written to the target, and the handler of each of them has been
called once, with its length. -/
theorem readLine_lines {source : Session UInt8 LineCopy} {target : Session UInt8 ℕ}
    (produced : Produced source) (isOpen : Target target)
    (whole : WholeLine Lines.start source.buffer.unread)
    (reachable : continuing.Reachable (call (.new source target .new)) transfer)
    (closed : transfer.source.buffer.canWrite = false) (drained : transfer.tasks = []) :
    transfer.target.stored =
        target.stored ++ (Lines.ofText transfer.source.stored).flatten ∧
      transfer.called = (Lines.ofText transfer.source.stored).map List.length ∧
      transfer.helper.callers = List.range (Lines.ofText transfer.source.stored).length := by
  rcases produced.source with ⟨isSource, idle, removed⟩
  have going : Going target.stored transfer := by
    refine reachable.invariant (Going target.stored) ?_ fun _ _ _ going step => going.step step
    have text : Lines.read source.removed = Lines.start := by
      rw [removed]
      rfl
    apply @going_readLine target.stored []
    · exact isSource
    · exact isOpen
    · exact idle
    · rfl
    · exact ⟨(List.append_nil _).symm, rfl, rfl⟩
    · rfl
    · change ReadTo (Lines.read source.removed) _ _
      rw [text]
      exact ⟨rfl, rfl⟩
    · change WholeLine (Lines.read source.removed) _
      rw [text]
      exact whole
  rcases going with ⟨source, -, lines, written, phase⟩
  have none := requests_eq_nil_of_closed source.invariant.blocked closed
  cases phase with
  | waiting requests => simp [none] at requests
  | read ch removed requests tasks => simp [drained] at tasks
  | ending line nonempty requests tasks => simp [drained] at tasks
  | done requests tasks closed unread all =>
      have same : Lines.ofText transfer.source.stored = lines := by
        rw [source.stored, unread, List.append_nil]
        exact all
      rw [same]
      exact ⟨written.stored, written.called, written.callers⟩

def linesStarted : LineRead UInt8 :=
  call (.new (Session.new 2) (Session.new 2) .new)

/-- Two lines: the first in two pieces with both terminators in the second, the other one up to
the end. -/
def twoLines : List (TransferEvent UInt8 LineCopy) :=
  [.source (.write [97]), .runTask, .source (.write [98, 13, 10]), .runTask, .runTask,
    .source (.write [99]), .runTask, .source (.close false true), .runTask, .runTask]

theorem readLine_lines_two :
    let transfer := impl.run linesStarted twoLines
    transfer.target.stored = [] ++ (Lines.ofText transfer.source.stored).flatten ∧
      transfer.called = (Lines.ofText transfer.source.stored).map List.length ∧
      transfer.helper.callers = List.range (Lines.ofText transfer.source.stored).length := by
  have follows : continuing.Follows impl.exec linesStarted twoLines := by
    refine ⟨⟨trivial, ⟨trivial, trivial⟩, rfl⟩, ⟨?_, ?_, rfl⟩, ⟨trivial, ⟨trivial, trivial⟩, rfl⟩,
      ⟨?_, ?_, rfl⟩, ⟨?_, ?_, rfl⟩, ⟨trivial, ⟨trivial, trivial⟩, rfl⟩, ⟨?_, ?_, rfl⟩,
      ⟨trivial, ⟨rfl, trivial⟩, rfl⟩, ⟨?_, ?_, rfl⟩, ⟨?_, ?_, rfl⟩, trivial⟩
    all_goals
      first
      | change Transfer.tasks _ ≠ []
        decide +kernel
      | change (∀ arrived ∈ arriving _, GoesOn _ _ _ _) ∧ (_ → _ ∨ WholeLine _ _)
        decide +kernel
  have produced : Produced (Session.new 2 : Session UInt8 LineCopy) := ⟨2, .refl _⟩
  have isOpen : Target (Session.new 2 : Session UInt8 ℕ) := ⟨new_invariant 2, rfl⟩
  exact readLine_lines produced isOpen (.inl rfl) follows.reachable (by decide +kernel)
    (by decide +kernel)

/-- A carriage return and its line feed in two writes: the line feed goes to the next line. -/
theorem not_lines_split :
    let events := [.source (.write [97, 13]), .runTask, .runTask, .source (.write [10, 98, 13]),
      .runTask, .runTask, .source (.close false true), .runTask]
    let transfer := impl.run linesStarted events
    impl.system.Follows impl.exec linesStarted events ∧
      transfer.source.buffer.canWrite = false ∧ transfer.tasks = [] ∧
      transfer.source.stored = [97, 13, 10, 98, 13] ∧
      ¬(transfer.target.stored = [] ++ (Lines.ofText transfer.source.stored).flatten ∧
        transfer.called = (Lines.ofText transfer.source.stored).map List.length ∧
        transfer.helper.callers =
          List.range (Lines.ofText transfer.source.stored).length) := by
  refine ⟨⟨⟨⟨trivial, trivial⟩, rfl⟩, ⟨?_, rfl⟩, ⟨?_, rfl⟩, ⟨⟨trivial, trivial⟩, rfl⟩, ⟨?_, rfl⟩,
    ⟨?_, rfl⟩, ⟨⟨rfl, trivial⟩, rfl⟩, ⟨?_, rfl⟩, trivial⟩, by decide +kernel,
    by decide +kernel, by decide +kernel, by decide +kernel⟩
  all_goals
    change Transfer.tasks _ ≠ []
    decide +kernel

end LineRead

end Snode.Streams
