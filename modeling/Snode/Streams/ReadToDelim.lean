import Mathlib.Data.List.TakeWhile
import Snode.Streams.Istream

/-!
# Reading to a delimiter

`read_to_delim` collects the characters in front of a delimiter and writes them
to the target.  It takes them in a loop from what is available, and by callbacks
where nothing is.  The chain breaks where a `putn` has nothing to write and where
the loop runs out of characters, so what is proved of it is proved of the runs in
which neither happens.
-/

namespace Snode.Streams

open ProducerConsumerBuffer

/-- `delim_read_impl`.  The flag `eof_or_delim_` goes with the callback of a write; a copy bound
to a read never has it set. -/
abbrev DelimRead (α : Type) := Transfer α Unit Bool (ReadHelper α)

namespace DelimRead

variable {α : Type} [CharTraits α]

/-- `ch == traits::eof() || ch == delim`. -/
def isEnd (delim : Int) (ch : IntType α) : Bool :=
  decide (ch.val = CharTraits.eof α) || decide (ch.val = delim)

omit [CharTraits α] in
/-- `targetbuf_->putn(outbuf, write_pos, …)` with the flag of the copy that is bound. -/
def flush (eofOrDelim : Bool) (transfer : DelimRead α) : DelimRead α :=
  transfer.putn transfer.helper.outbuf eofOrDelim

omit [CharTraits α] in
def push (ch : IntType α) (transfer : DelimRead α) : DelimRead α :=
  { transfer with helper := transfer.helper.push ch }

variable [Inhabited α]

/-- The loop of `read_to_delim`; each turn takes a character. -/
def loop (delim : Int) : ℕ → DelimRead α → DelimRead α
  | 0, transfer => transfer
  | fuel + 1, transfer =>
      if 0 < transfer.source.buffer.inAvail then
        let (ch, transfer) := transfer.sbumpc
        if ch.val = CharTraits.requiresAsync α then
          transfer.bumpc ()
        else if isEnd delim ch then
          flush true transfer
        else
          let transfer := push ch transfer
          if transfer.helper.isFull then flush false transfer else loop delim fuel transfer
      else
        transfer

def readToDelim (delim : Int) (transfer : DelimRead α) : DelimRead α :=
  if transfer.source.buffer.inAvail = 0 then transfer.bumpc ()
  else loop delim transfer.source.buffer.inAvail transfer

/-- A `bumpc` is never completed with a size. -/
def onRead (delim : Int) (result : Completion α) (transfer : DelimRead α) : DelimRead α :=
  match result with
  | .size _ => transfer
  | .ch ch =>
      if isEnd delim ch then
        flush true transfer
      else
        let transfer := push ch transfer
        if transfer.helper.isFull then flush false transfer else readToDelim delim transfer

def onWrite (delim : Int) (eofOrDelim : Bool) (count : ℕ) (transfer : DelimRead α) :
    DelimRead α :=
  if count ≠ 0 then
    let transfer :=
      Transfer.targetOp { transfer with helper := transfer.helper.flushed count } .sync
    if eofOrDelim then transfer.callHandler count else readToDelim delim transfer
  else
    transfer.callHandler transfer.helper.total

def impl (delim : Int) : Callbacks α Unit Bool (ReadHelper α) where
  onRead _ := onRead delim
  onWrite := onWrite delim
  store _ helper := helper

/-! ### The runs in which the chain goes on -/

/-- The character is the delimiter. -/
def IsDelim (delim : Int) (character : UInt8) : Prop :=
  (character.toNat : Int) = delim

instance (delim : Int) (character : UInt8) : Decidable (IsDelim delim character) :=
  inferInstanceAs (Decidable ((character.toNat : Int) = delim))

/-- The characters before the first delimiter. -/
def untilDelim (delim : Int) (characters : List UInt8) : List UInt8 :=
  characters.takeWhile fun character => !decide (IsDelim delim character)

/-- Where `read_to_delim` is entered nothing is available, or a whole segment is. -/
def Whole (delim : Int) (outbuf unread : List UInt8) : Prop :=
  unread = [] ∨
    (∃ character ∈ unread, IsDelim delim character) ∧ Fits (outbuf ++ untilDelim delim unread)

instance (delim : Int) (outbuf unread : List UInt8) : Decidable (Whole delim outbuf unread) :=
  inferInstanceAs (Decidable (unread = [] ∨
    (∃ character ∈ unread, IsDelim delim character) ∧ Fits (outbuf ++ untilDelim delim unread)))

/-- What `on_read` is called with next. -/
def arriving (transfer : DelimRead UInt8) : Option (IntType UInt8) :=
  match transfer.tasks with
  | .onRead () (.ch ch) :: _ => some ch
  | _ => none

/-- `on_read` has something to write where it ends, and goes on where it can go on. -/
def GoesOn (delim : Int) (outbuf unread : List UInt8) (ch : IntType UInt8) : Prop :=
  if isEnd delim ch then outbuf ≠ []
  else Fits (outbuf ++ ch.toList) ∧ Whole delim (outbuf ++ ch.toList) unread

instance (delim : Int) (outbuf unread : List UInt8) (ch : IntType UInt8) :
    Decidable (GoesOn delim outbuf unread ch) :=
  inferInstanceAs (Decidable (if isEnd delim ch then outbuf ≠ []
    else Fits (outbuf ++ ch.toList) ∧ Whole delim (outbuf ++ ch.toList) unread))

def Continues (delim : Int) (transfer : DelimRead UInt8) :
    TransferEvent UInt8 Unit → Prop
  | .source _ | .target _ => True
  | .runTask =>
      ∀ ch ∈ arriving transfer,
        GoesOn delim transfer.helper.outbuf transfer.source.buffer.unread ch

/-- The runs all of whose steps go on. -/
def continuing (delim : Int) : Lts (DelimRead UInt8) (TransferEvent UInt8 Unit) where
  step transfer event next :=
    Continues delim transfer event ∧ (impl delim).system.step transfer event next

/-! ### Phases -/

/-- The segment has been taken from the source with the delimiter behind it, or up to the end. -/
inductive Ended (delim : Int) (segment : List UInt8) (source : Session UInt8 Unit) : Prop where
  | delimiter (character : UInt8) (isDelim : IsDelim delim character)
      (removed : source.removed = segment ++ [character])
  | eof (removed : source.removed = segment) (closed : source.buffer.canWrite = false)
      (unread : source.buffer.unread = [])

/-- Where the characters taken from the source are, for a target that held `before`. -/
inductive Phase (delim : Int) (before : List UInt8) (transfer : DelimRead UInt8) : Prop where
  | waiting (requests : transfer.source.buffer.requests = [bumpRequest ()])
      (tasks : transfer.tasks = []) (removed : transfer.source.removed = transfer.helper.outbuf)
      (stored : transfer.target.stored = before) (called : transfer.called = [])
  | read (ch : IntType UInt8) (requests : transfer.source.buffer.requests = [])
      (tasks : transfer.tasks = [.onRead () (.ch ch)])
      (taken : Taken transfer.helper.outbuf transfer.source ch)
      (stored : transfer.target.stored = before) (called : transfer.called = [])
  | ending (nonempty : transfer.helper.outbuf ≠ [])
      (requests : transfer.source.buffer.requests = [])
      (tasks : transfer.tasks = [.putn transfer.helper.outbuf true])
      (ended : Ended delim transfer.helper.outbuf transfer.source)
      (stored : transfer.target.stored = before) (called : transfer.called = [])
  | done (segment : List UInt8) (requests : transfer.source.buffer.requests = [])
      (tasks : transfer.tasks = []) (clean : ∀ character ∈ segment, ¬IsDelim delim character)
      (ended : Ended delim segment transfer.source)
      (stored : transfer.target.stored = before ++ segment)
      (called : transfer.called = [segment.length])

/-- What holds of a chain that has begun. -/
structure Going (delim : Int) (before : List UInt8) (transfer : DelimRead UInt8) : Prop where
  source : Source transfer.source
  target : Target transfer.target
  clean : ∀ character ∈ transfer.helper.outbuf, ¬IsDelim delim character
  phase : Phase delim before transfer

variable {delim : Int} {before : List UInt8} {transfer : DelimRead UInt8}

theorem not_isDelim_of_mem_untilDelim {characters : List UInt8} :
    ∀ character ∈ untilDelim delim characters, ¬IsDelim delim character := by
  intro character present
  simpa using List.mem_takeWhile_imp present

/-- Behind the segment is the delimiter. -/
theorem untilDelim_of_mem {characters : List UInt8}
    (present : ∃ character ∈ characters, IsDelim delim character) :
    ∃ delimiter rest, characters = untilDelim delim characters ++ delimiter :: rest ∧
      IsDelim delim delimiter := by
  induction characters with
  | nil => simp at present
  | cons character characters ih =>
      by_cases isDelim : IsDelim delim character
      · exact ⟨character, characters, by simp [untilDelim, isDelim], isDelim⟩
      · have later : ∃ character ∈ characters, IsDelim delim character := by
          simpa [isDelim] using present
        rcases ih later with ⟨delimiter, rest, split, found⟩
        refine ⟨delimiter, rest, ?_, found⟩
        simp only [untilDelim, List.takeWhile_cons, isDelim, decide_false, Bool.not_false, if_true,
          List.cons_append, List.cons.injEq, true_and]
        exact split

theorem isEnd_char (delim : Int) (character : UInt8) :
    isEnd delim (.char character) = decide (IsDelim delim character) := by
  have wide := wideTraits_uint8 character
  simp only [isEnd, IntType.val, wide, decide_false, Bool.false_or]
  rfl

theorem Phase.of_answer {op : Op UInt8 Unit}
    (answer : Answer (bumpRequest ()) (op.exec transfer.source.buffer))
    (tasks : transfer.tasks = []) (removed : transfer.source.removed = transfer.helper.outbuf)
    (stored : transfer.target.stored = before) (called : transfer.called = [])
    {store : Completed UInt8 Unit → ReadHelper UInt8 → ReadHelper UInt8}
    (keeps : ∀ completed helper, store completed helper = helper) :
    (transfer.sourceOp store op).helper = transfer.helper ∧
      Phase delim before (transfer.sourceOp store op) := by
  rcases bump_answer keeps answer with ⟨helper, ⟨sameTasks, requests, same⟩ |
    ⟨ch, nextTasks, requests, taken⟩⟩
  · refine ⟨helper, .waiting requests (sameTasks.trans tasks) ?_ stored called⟩
    rw [helper, ← removed]
    exact same
  · refine ⟨helper, .read ch requests ?_ ?_ stored called⟩
    · rw [nextTasks, tasks, List.nil_append]
    · rw [helper, ← removed]
      exact taken

theorem loop_turn (source : Source transfer.source) {character : UInt8} {rest : List UInt8}
    (unread : transfer.source.buffer.unread = character :: rest) (fuel : ℕ) :
    loop delim (fuel + 1) transfer =
      if IsDelim delim character then flush true transfer.sbumpc.2
      else
        if (push (.char character) transfer.sbumpc.2).helper.isFull then
          flush false (push (.char character) transfer.sbumpc.2)
        else loop delim fuel (push (.char character) transfer.sbumpc.2) := by
  have available : 0 < transfer.source.buffer.inAvail := by
    simp [inAvail, source.invariant.consistent.total_eq, unread]
  have value := (source.sbumpc unread).1
  simp only [loop, if_pos available, value, if_neg (val_char_ne_requiresAsync character), isEnd_char,
    decide_eq_true_eq]

/-- The loop takes a whole segment with its delimiter and writes it. -/
theorem loop_segment {characters rest : List UInt8} {delimiter : UInt8}
    (isDelim : IsDelim delim delimiter)
    (clean : ∀ character ∈ characters, ¬IsDelim delim character) (spare : ℕ)
    (source : Source transfer.source)
    (unread : transfer.source.buffer.unread = characters ++ delimiter :: rest)
    (short : (transfer.helper.outbuf ++ characters).length < bufSize) :
    ∃ source, Source source ∧
      source.removed = transfer.source.removed ++ characters ++ [delimiter] ∧
      source.buffer.requests = transfer.source.buffer.requests ∧
      loop delim (characters.length + spare + 1) transfer =
        flush true { transfer with
          source := source
          helper := ⟨transfer.helper.total, transfer.helper.outbuf ++ characters⟩ } := by
  induction characters generalizing transfer with
  | nil =>
      rcases source.sbumpc unread with ⟨-, next, removed, -, requests, -⟩
      refine ⟨transfer.sbumpc.2.source, next, ?_, requests, ?_⟩
      · rw [removed, List.append_nil]
      · rw [loop_turn source unread, if_pos isDelim, List.append_nil]
        rfl
  | cons character characters ih =>
      rcases source.sbumpc unread with ⟨-, next, removed, unreadNext, requests, -⟩
      have notDelim : ¬IsDelim delim character := clean character List.mem_cons_self
      let pushed := push (.char character) transfer.sbumpc.2
      have outbuf : pushed.helper.outbuf = transfer.helper.outbuf ++ [character] := rfl
      have notFull : pushed.helper.isFull = false := by
        simp only [List.length_append, List.length_cons] at short
        simp only [ReadHelper.isFull, outbuf, List.length_append, List.length_cons,
          List.length_nil, beq_eq_false_iff_ne]
        omega
      have isSource : Source pushed.source := next
      have still : (pushed.helper.outbuf ++ characters).length < bufSize := by
        simpa [outbuf] using short
      rcases ih (fun later present => clean later (List.mem_cons_of_mem _ present)) isSource
          unreadNext still with ⟨final, isFinal, removedFinal, requestsFinal, looped⟩
      refine ⟨final, isFinal, ?_, requestsFinal.trans requests, ?_⟩
      · rw [removedFinal, show pushed.source.removed = _ from removed]
        simp
      · rw [List.length_cons, Nat.add_right_comm _ 1, loop_turn source unread, if_neg notDelim]
        rw [show (push (.char character) transfer.sbumpc.2) = pushed from rfl, notFull,
          if_neg Bool.false_ne_true, looped]
        simp [pushed, push, ReadHelper.push, IntType.toList, Transfer.sbumpc]

/-- As many turns as there are characters are enough. -/
theorem loop_enough (source : Source transfer.source) (spare : ℕ) :
    loop delim (transfer.source.buffer.inAvail + spare) transfer =
      loop delim transfer.source.buffer.inAvail transfer := by
  rw [show transfer.source.buffer.inAvail = _ from source.invariant.consistent.total_eq]
  induction unread : transfer.source.buffer.unread generalizing transfer with
  | nil =>
      have available : ¬0 < transfer.source.buffer.inAvail := by
        simp [inAvail, source.invariant.consistent.total_eq, unread]
      cases spare with
      | zero => rfl
      | succ spare => simp [loop, available]
  | cons character rest ih =>
      rcases source.sbumpc unread with ⟨-, next, -, unreadNext, -, -⟩
      have isSource : Source (push (.char character) transfer.sbumpc.2).source := next
      rw [List.length_cons, Nat.add_right_comm, loop_turn source unread, loop_turn source unread,
        ih isSource unreadNext]

theorem flush_nonempty (target : Target transfer.target) (nonempty : transfer.helper.outbuf ≠ [])
    (eofOrDelim : Bool) :
    flush eofOrDelim transfer = transfer.connect [.putn transfer.helper.outbuf eofOrDelim] := by
  have positive : transfer.helper.outbuf.length ≠ 0 := by simpa using nonempty
  simp only [flush, Transfer.putn, if_pos positive, target.canWrite, Bool.not_true,
    Bool.false_eq_true, if_false]

theorem going_readToDelim (source : Source transfer.source) (target : Target transfer.target)
    (clean : ∀ character ∈ transfer.helper.outbuf, ¬IsDelim delim character)
    (idle : transfer.source.buffer.requests = []) (tasks : transfer.tasks = [])
    (removed : transfer.source.removed = transfer.helper.outbuf)
    (stored : transfer.target.stored = before) (called : transfer.called = [])
    (whole : Whole delim transfer.helper.outbuf transfer.source.buffer.unread) :
    Going delim before (readToDelim delim transfer) := by
  have total : transfer.source.buffer.inAvail = transfer.source.buffer.unread.length :=
    source.invariant.consistent.total_eq
  rcases whole with empty | ⟨present, fits⟩
  · have none : transfer.source.buffer.inAvail = 0 := by rw [total, empty, List.length_nil]
    rcases bumpc_answer source () idle with ⟨issued, answer⟩
    rcases Phase.of_answer answer tasks removed stored called (fun _ _ => rfl) with
      ⟨helper, phase⟩
    rw [readToDelim, if_pos none, issued]
    exact ⟨source.consumes trivial trivial, target, by rw [helper]; exact clean, phase⟩
  · rcases untilDelim_of_mem present with ⟨delimiter, rest, unread, isDelim⟩
    have others : ∀ character ∈ untilDelim delim transfer.source.buffer.unread,
        ¬IsDelim delim character := not_isDelim_of_mem_untilDelim
    have some : transfer.source.buffer.inAvail =
        (untilDelim delim transfer.source.buffer.unread).length + rest.length + 1 := by
      rw [total]
      conv_lhs => rw [unread]
      rw [List.length_append, List.length_cons, Nat.add_assoc]
    rcases loop_segment isDelim others rest.length source unread fits.2 with
      ⟨final, isFinal, removedFinal, requests, looped⟩
    rw [readToDelim, if_neg (by omega), some, looped, flush_nonempty]
    · refine ⟨isFinal, target, ?_, .ending fits.1 (requests.trans idle) ?_ ?_ stored called⟩
      · intro character present
        rcases List.mem_append.mp present with earlier | later
        · exact clean character earlier
        · exact others character later
      · simp [Transfer.connect, tasks]
      · refine .delimiter delimiter isDelim ?_
        rw [← removed]
        exact removedFinal
    · exact target
    · exact fits.1

theorem Going.runTask (going : Going delim before transfer)
    (continues : Continues delim transfer .runTask) :
    Going delim before ((impl delim).runTask transfer) := by
  rcases going with ⟨source, target, clean, phase⟩
  cases phase with
  | waiting requests tasks removed stored called =>
      simp only [Callbacks.runTask, tasks]
      exact ⟨source, target, clean, .waiting requests tasks removed stored called⟩
  | read ch requests tasks taken stored called =>
      have goesOn := continues ch (by simp [arriving, tasks])
      rw [GoesOn] at goesOn
      simp only [Callbacks.runTask, tasks, impl, onRead]
      by_cases ends : isEnd delim ch = true
      · rw [if_pos ends] at goesOn ⊢
        rw [flush_nonempty]
        · refine ⟨source, target, clean, .ending goesOn requests rfl ?_ stored called⟩
          cases ch with
          | char character =>
              rw [isEnd_char, decide_eq_true_eq] at ends
              exact .delimiter character ends taken
          | eof => exact .eof taken.1 taken.2.1 taken.2.2
          | requiresAsync => exact taken.elim
        · exact target
        · exact goesOn
      · rw [if_neg ends] at goesOn ⊢
        rcases goesOn with ⟨fits, whole⟩
        cases ch with
        | eof => simp [isEnd, IntType.val] at ends
        | requiresAsync => exact taken.elim
        | char character =>
            rw [isEnd_char, decide_eq_true_eq] at ends
            have notFull : (transfer.helper.push (.char character)).isFull = false := by
              simp only [ReadHelper.isFull, beq_eq_false_iff_ne]
              exact Nat.ne_of_lt fits.2
            simp only [push, notFull, Bool.false_eq_true, if_false]
            apply going_readToDelim
            · exact source
            · exact target
            · intro other present
              rcases List.mem_append.mp present with earlier | later
              · exact clean other earlier
              · rw [List.mem_singleton.mp later]
                exact ends
            · exact requests
            · rfl
            · exact taken
            · exact stored
            · exact called
            · exact whole
  | ending nonempty requests tasks ended stored called =>
      rcases target.write nonempty with ⟨count, written, nowStored⟩
      have nonzero : transfer.helper.outbuf.length ≠ 0 := by simpa using nonempty
      rcases written.sync with ⟨synced, stillStored⟩
      simp only [Callbacks.runTask, tasks, impl, onWrite, count, if_pos nonzero, if_true]
      refine ⟨source, synced, by simp [ReadHelper.flushed, Transfer.targetOp, Transfer.callHandler],
        .done transfer.helper.outbuf requests rfl clean ended ?_ ?_⟩
      · exact (stillStored.trans nowStored).trans (congrArg (· ++ _) stored)
      · exact congrArg (· ++ [transfer.helper.outbuf.length]) called
  | done segment requests tasks cleanSegment ended stored called =>
      simp only [Callbacks.runTask, tasks]
      exact ⟨source, target, clean, .done segment requests tasks cleanSegment ended stored called⟩

theorem Ended.produces {segment : List UInt8} {source : Session UInt8 Unit}
    (ended : Ended delim segment source) (isSource : Source source) {op : Op UInt8 Unit}
    (legal : op.Legal source.buffer) (same : (source.exec op).removed = source.removed) :
    Ended delim segment (source.exec op) := by
  cases ended with
  | delimiter character isDelim removed =>
      exact .delimiter character isDelim (same.trans removed)
  | eof removed closed unread =>
      rcases isSource.drained legal closed unread with ⟨still, drained⟩
      exact .eof (same.trans removed) still drained

theorem Going.sourceOp (going : Going delim before transfer) {op : Op UInt8 Unit}
    (produces : op.Produces) (legal : op.Legal transfer.source.buffer) :
    Going delim before (transfer.sourceOp (impl delim).store op) := by
  rcases going with ⟨source, target, clean, phase⟩
  have next := source.produces produces legal
  cases phase with
  | waiting requests tasks removed stored called =>
      have keeps : ∀ completed (helper : ReadHelper UInt8),
          (impl (α := UInt8) delim).store completed helper = helper := fun _ _ => rfl
      rcases Phase.of_answer (Answer.produces produces source.invariant legal requests) tasks
        removed stored called keeps with ⟨helper, phase⟩
      exact ⟨next, target, by rw [helper]; exact clean, phase⟩
  | read ch requests tasks taken stored called =>
      rcases idle_produces produces requests (impl delim).store with ⟨after, still, same⟩
      rw [after]
      refine ⟨next, target, clean, .read ch still tasks ?_ stored called⟩
      cases ch with
      | char character => exact same.trans taken
      | eof => exact ⟨same.trans taken.1, source.drained legal taken.2.1 taken.2.2⟩
      | requiresAsync => exact taken
  | ending nonempty requests tasks ended stored called =>
      rcases idle_produces produces requests (impl delim).store with ⟨after, still, same⟩
      rw [after]
      exact ⟨next, target, clean,
        .ending nonempty still tasks (ended.produces source legal same) stored called⟩
  | done segment requests tasks cleanSegment ended stored called =>
      rcases idle_produces produces requests (impl delim).store with ⟨after, still, same⟩
      rw [after]
      exact ⟨next, target, clean,
        .done segment still tasks cleanSegment (ended.produces source legal same) stored called⟩

theorem Going.targetOp (going : Going delim before transfer) {op : Op UInt8 ℕ}
    (consumes : op.Consumes) (legal : op.Legal transfer.target.buffer) :
    Going delim before (transfer.targetOp op) := by
  rcases going with ⟨source, target, clean, phase⟩
  rcases target.consumes consumes legal with ⟨still, same⟩
  refine ⟨source, still, clean, ?_⟩
  cases phase with
  | waiting requests tasks removed stored called =>
      exact .waiting requests tasks removed (same.trans stored) called
  | read ch requests tasks taken stored called =>
      exact .read ch requests tasks taken (same.trans stored) called
  | ending nonempty requests tasks ended stored called =>
      exact .ending nonempty requests tasks ended (same.trans stored) called
  | done segment requests tasks cleanSegment ended stored called =>
      exact .done segment requests tasks cleanSegment ended (same.trans stored) called

theorem Going.step (going : Going delim before transfer) {event : TransferEvent UInt8 Unit}
    {next : DelimRead UInt8} (step : (continuing delim).step transfer event next) :
    Going delim before next := by
  rcases step with ⟨continues, legal, rfl⟩
  cases event with
  | source op => exact going.sourceOp legal.1 legal.2
  | target op => exact going.targetOp legal.1 legal.2
  | runTask => exact going.runTask continues

/-! ### Runs -/

theorem untilDelim_of_ended {segment : List UInt8} {source : Session UInt8 Unit}
    (isSource : Source source) (clean : ∀ character ∈ segment, ¬IsDelim delim character)
    (ended : Ended delim segment source) :
    untilDelim delim source.stored = segment ∧
      source.removed = source.stored.take (segment.length + 1) := by
  have all : ∀ character ∈ segment, (!decide (IsDelim delim character)) = true := by
    intro character present
    simpa using clean character present
  have stored := isSource.stored
  cases ended with
  | delimiter character isDelim removed =>
      rw [removed] at stored
      have stops : (!decide (IsDelim delim character)) = false := by simpa using isDelim
      refine ⟨?_, ?_⟩
      · rw [stored, untilDelim, List.append_assoc, List.takeWhile_append_of_pos all]
        simp [stops]
      · rw [stored, removed, List.take_left' (by simp)]
  | eof removed closed unread =>
      rw [removed, unread, List.append_nil] at stored
      refine ⟨?_, ?_⟩
      · rw [stored, untilDelim, List.takeWhile_eq_self_iff.mpr all]
      · rw [stored, removed, List.take_of_length_le (Nat.le_succ _)]

/-- In the runs in which the chain goes on: once the source is closed and no task is left, the
characters before the delimiter have been appended to the target, the source is behind the
delimiter, and the handler has been called once, with their number. -/
theorem readToDelim_transfers {delim : Int} {source : Session UInt8 Unit}
    {target : Session UInt8 ℕ} (produced : Produced source) (isOpen : Target target)
    (whole : Whole delim [] source.buffer.unread)
    (reachable : (continuing delim).Reachable
      (readToDelim delim (.new source target .new)) transfer)
    (closed : transfer.source.buffer.canWrite = false) (drained : transfer.tasks = []) :
    transfer.target.stored = target.stored ++ untilDelim delim transfer.source.stored ∧
      transfer.source.removed =
        transfer.source.stored.take ((untilDelim delim transfer.source.stored).length + 1) ∧
      transfer.called = [(untilDelim delim transfer.source.stored).length] := by
  rcases produced.source with ⟨isSource, idle, removed⟩
  have going : Going delim target.stored transfer := by
    refine reachable.invariant (Going delim target.stored) ?_
      fun _ _ _ going step => going.step step
    apply going_readToDelim
    · exact isSource
    · exact isOpen
    · simp [Transfer.new, ReadHelper.new]
    · exact idle
    · rfl
    · exact removed
    · rfl
    · rfl
    · exact whole
  rcases going with ⟨source, -, -, phase⟩
  have none := requests_eq_nil_of_closed source.invariant.blocked closed
  cases phase with
  | waiting requests => simp [none] at requests
  | read ch requests tasks => simp [drained] at tasks
  | ending nonempty requests tasks => simp [drained] at tasks
  | done segment requests tasks clean ended stored called =>
      rcases untilDelim_of_ended source clean ended with ⟨same, taken⟩
      rw [same]
      exact ⟨stored, taken, called⟩

def commaStarted : DelimRead UInt8 :=
  readToDelim 44 (.new (Session.new 2) (Session.new 2) .new)

def inPieces : List (TransferEvent UInt8 Unit) :=
  [.source (.write [97]), .runTask, .source (.write [44, 98]), .runTask, .runTask,
    .source (.close false true)]

theorem readToDelim_transfers_pieces :
    let transfer := (impl 44).run commaStarted inPieces
    transfer.target.stored = [] ++ untilDelim 44 transfer.source.stored ∧
      transfer.source.removed =
        transfer.source.stored.take ((untilDelim 44 transfer.source.stored).length + 1) ∧
      transfer.called = [(untilDelim 44 transfer.source.stored).length] := by
  have follows : (continuing 44).Follows (impl 44).exec commaStarted inPieces := by
    refine ⟨⟨trivial, ⟨trivial, trivial⟩, rfl⟩, ⟨?_, ?_, rfl⟩, ⟨trivial, ⟨trivial, trivial⟩, rfl⟩,
      ⟨?_, ?_, rfl⟩, ⟨?_, ?_, rfl⟩, ⟨trivial, ⟨rfl, trivial⟩, rfl⟩, trivial⟩
    all_goals
      first
      | change Transfer.tasks _ ≠ []
        decide +kernel
      | change ∀ ch ∈ arriving _, GoesOn 44 _ _ ch
        decide +kernel
  have produced : Produced (Session.new 2 : Session UInt8 Unit) := ⟨2, .refl _⟩
  have isOpen : Target (Session.new 2 : Session UInt8 ℕ) := ⟨new_invariant 2, rfl⟩
  exact readToDelim_transfers produced isOpen (.inl rfl) follows.reachable (by decide +kernel)
    (by decide +kernel)

/-- Two characters in one write, with no delimiter: the loop takes the second, and nothing is
scheduled that would go on. -/
theorem not_transfers_exhausted :
    let events := [.source (.write [97, 98]), .runTask, .source (.close false true)]
    let transfer := (impl 44).run commaStarted events
    (impl 44).system.Follows (impl 44).exec commaStarted events ∧
      transfer.source.buffer.canWrite = false ∧ transfer.tasks = [] ∧
      transfer.source.stored = [97, 98] ∧
      ¬(transfer.target.stored = [] ++ untilDelim 44 transfer.source.stored ∧
        transfer.source.removed =
          transfer.source.stored.take ((untilDelim 44 transfer.source.stored).length + 1) ∧
        transfer.called = [(untilDelim 44 transfer.source.stored).length]) := by
  refine ⟨⟨⟨⟨trivial, trivial⟩, rfl⟩, ⟨?_, rfl⟩, ⟨⟨rfl, trivial⟩, rfl⟩, trivial⟩,
    by decide +kernel, by decide +kernel, by decide +kernel, ?_⟩
  · change Transfer.tasks _ ≠ []
    decide +kernel
  · decide +kernel

end DelimRead

end Snode.Streams
