import Snode.Streams.Calls

/-!
# The order of asynchronous reads

Reads that wait are served from the front of the queue, but a read that can be
satisfied when it is issued does not wait behind the others.  What a read gets
is located in the stream by how much was read before it.
-/

namespace Snode.Streams

open ProducerConsumerBuffer

variable {α : Type}

namespace Completed

variable {η : Type}

/-- Where in the stream the characters of a completed read are. -/
def position (completed : Completed α η) : ℕ :=
  completed.before.totalRead

/-- Every character one read gets precedes every character the other gets. -/
def Precedes (first second : Completed α η) : Prop :=
  ∀ i < first.delivered.length, ∀ j < second.delivered.length,
    first.position + i < second.position + j

end Completed

/-- An asynchronous read, or something else that happens to the buffer. -/
inductive ReadEvent (α : Type) where
  | getn (count : ℕ)
  | bumpc
  | op (op : Op α ℕ)

/-- A buffer with the reads issued on it; the handler of a read is its number. -/
structure Reads (α : Type) where
  session : Session α ℕ
  issued : ℕ
  /-- The reads that were completed, oldest first. -/
  delivered : List (Completed α ℕ)

namespace Reads

def new (allocSize : ℕ) : Reads α where
  session := Session.new allocSize
  issued := 0
  delivered := []

variable [Inhabited α] [CharTraits α]

def run (reads : Reads α) (op : Op α ℕ) : Reads α :=
  { reads with
    session := reads.session.exec op
    delivered := reads.delivered ++ (op.exec reads.session.buffer).completed }

def exec (reads : Reads α) : ReadEvent α → Reads α
  | .getn count => { reads.run (.getn count reads.issued) with issued := reads.issued + 1 }
  | .bumpc => { reads.run (.bumpc reads.issued) with issued := reads.issued + 1 }
  | .op op => reads.run op

omit [Inhabited α] [CharTraits α] in
def Legal (reads : Reads α) : ReadEvent α → Prop
  | .getn _ | .bumpc => True
  | .op op => op.issues = false ∧ op.Legal reads.session.buffer

omit [Inhabited α] [CharTraits α] in
/-- A read is issued in time when no earlier one waits, or it has to wait itself. -/
def InTime (reads : Reads α) : ReadEvent α → Prop
  | .getn count =>
      count = 0 ∨ reads.session.buffer.requests = [] ∨
        reads.session.buffer.canSatisfy count = false
  | .bumpc => reads.session.buffer.requests = [] ∨ reads.session.buffer.canSatisfy 1 = false
  | .op _ => True

/-- Reads and other operations in any order. -/
def system (α : Type) [Inhabited α] [CharTraits α] : Lts (Reads α) (ReadEvent α) where
  step reads event next := reads.Legal event ∧ next = reads.exec event

/-- The steps of which each read is issued in time. -/
def timely (α : Type) [Inhabited α] [CharTraits α] : Lts (Reads α) (ReadEvent α) where
  step reads event next := (system α).step reads event next ∧ reads.InTime event

/-- What holds when reads are served in the order in which they were issued: each gets the
characters at its position of the stream, and those of an earlier read come first. -/
structure ServedInOrder (reads : Reads α) : Prop where
  located : ∀ completed ∈ reads.delivered,
    completed.delivered <+: reads.session.stored.drop completed.position
  ordered : ∀ first ∈ reads.delivered, ∀ second ∈ reads.delivered,
    first.request.completionOp < second.request.completionOp → first.Precedes second

end Reads

/-! ### Positions -/

/-- Completed reads take what they get one behind the other, from a position on. -/
def Consecutive {η : Type} : ℕ → List (Completed α η) → Prop
  | _, [] => True
  | position, completed :: rest =>
      completed.position = position ∧ Consecutive (position + completed.delivered.length) rest

section

variable {η : Type}

theorem totalRead_complete {buffer : ProducerConsumerBuffer α η} {request : EvRequest η}
    (served : Served (buffer.complete request).1) :
    (buffer.complete request).2.totalRead =
      buffer.totalRead + (buffer.complete request).1.delivered.length := by
  rcases complete_request buffer request with ⟨sameRequest, sameBuffer⟩
  have consistent : buffer.Consistent := sameBuffer ▸ served.consistent
  rcases complete_spec consistent (sameRequest ▸ served.plain) with ⟨delivered, after, -⟩
  rw [after, delivered, read_totalRead consistent, if_pos rfl]

theorem consecutive_fulfillRequests (requests : List (EvRequest η))
    (buffer : ProducerConsumerBuffer α η)
    (served : ∀ completed ∈ (fulfillRequests requests buffer).2, Served completed) :
    Consecutive buffer.totalRead (fulfillRequests requests buffer).2 := by
  induction requests generalizing buffer with
  | nil => trivial
  | cons request rest ih =>
      by_cases satisfiable : buffer.canSatisfy request.size = true
      · simp only [fulfillRequests, if_pos satisfiable] at served ⊢
        have position : (buffer.complete request).1.position = buffer.totalRead :=
          congrArg totalRead (complete_request buffer request).2
        refine ⟨position, ?_⟩
        rw [← totalRead_complete (served _ List.mem_cons_self)]
        exact ih _ fun completed present => served completed (List.mem_cons_of_mem _ present)
      · simp only [fulfillRequests, if_neg satisfiable]
        trivial

theorem consecutive_exec [Inhabited α] [CharTraits α] {op : Op α η}
    {buffer : ProducerConsumerBuffer α η} (invariant : buffer.Invariant)
    (legal : op.Legal buffer) : Consecutive buffer.totalRead (op.exec buffer).completed := by
  have served := (op.exec_effect invariant legal).served
  have enqueued (request : EvRequest η) :
      Consecutive buffer.totalRead (buffer.enqueueRequest request).2 := by
    simp only [enqueueRequest]
    split
    · exact ⟨congrArg totalRead (complete_request buffer request).2, trivial⟩
    · trivial
  cases issues : op.issues with
  | true =>
      cases op with
      | getn count handler =>
          simp only [Op.exec, AsyncStreambuf.getn]
          split
          · split
            · trivial
            · exact enqueued _
          · trivial
      | bumpc handler =>
          simp only [Op.exec, AsyncStreambuf.bumpc]
          split
          · trivial
          · exact enqueued _
      | write | alloc | fill | commit | sync | close => simp [Op.issues] at issues
      | sbumpc | sgetc | sgetn | scopy | acquireRelease => simp [Op.issues] at issues
  | false =>
      rcases op.fulfils issues buffer with ⟨none, -⟩ | ⟨middle, completed, -, totalRead⟩
      · rw [none]
        trivial
      · rw [completed] at served ⊢
        rw [← totalRead]
        exact consecutive_fulfillRequests _ _ served

/-- Only completed requests are delivered to. -/
theorem removed_of_completed [Inhabited α] [CharTraits α] (op : Op α η)
    (buffer : ProducerConsumerBuffer α η) :
    (op.exec buffer).completed = [] ∨
      (op.exec buffer).removed = deliveredBy (op.exec buffer).completed := by
  cases op with
  | write | getn | bumpc | close => exact .inr rfl
  | fill | sbumpc | sgetc | sgetn | scopy => exact .inl rfl
  | alloc count =>
      simp only [Op.exec]
      split <;> exact .inl rfl
  | commit count =>
      simp only [Op.exec]
      split
      · exact .inr rfl
      · exact .inl rfl
  | sync =>
      simp only [Op.exec]
      split
      · exact .inr rfl
      · exact .inl rfl
  | acquireRelease guarded count =>
      simp only [Op.exec]
      split <;> exact .inl rfl

/-- One read ends before the other begins. -/
def EndsBefore (first second : Completed α η) : Prop :=
  first.position + first.delivered.length ≤ second.position

theorem Consecutive.bounds {position : ℕ} {completed : List (Completed α η)}
    (consecutive : Consecutive position completed) :
    completed.Pairwise EndsBefore ∧ ∀ read ∈ completed, position ≤ read.position ∧
      read.position + read.delivered.length ≤ position + (deliveredBy completed).length := by
  induction completed generalizing position with
  | nil => simp
  | cons first rest ih =>
      rcases consecutive with ⟨atPosition, others⟩
      rcases ih others with ⟨pairwise, bounds⟩
      have total : (deliveredBy (first :: rest)).length =
          first.delivered.length + (deliveredBy rest).length := by
        simp [deliveredBy]
      refine ⟨List.pairwise_cons.mpr ⟨fun read present => ?_, pairwise⟩, fun read present => ?_⟩
      · rw [EndsBefore, atPosition]
        exact (bounds read present).1
      · rcases List.mem_cons.mp present with rfl | later
        · omega
        · have within := bounds read later
          omega

theorem Consecutive.located {position : ℕ} {completed : List (Completed α η)}
    (consecutive : Consecutive position completed) {front : List α} (length : front.length = position)
    (rest : List α) :
    ∀ read ∈ completed,
      read.delivered <+: (front ++ (deliveredBy completed ++ rest)).drop read.position := by
  induction completed generalizing position front with
  | nil => simp
  | cons first others ih =>
      rcases consecutive with ⟨atPosition, consecutive⟩
      have split : front ++ (deliveredBy (first :: others) ++ rest) =
          (front ++ first.delivered) ++ (deliveredBy others ++ rest) := by
        simp [deliveredBy]
      intro read present
      rcases List.mem_cons.mp present with rfl | later
      · rw [split, List.append_assoc, atPosition, ← length, List.drop_left]
        exact List.prefix_append _ _
      · rw [split]
        exact ih consecutive (by simp [length]) read later

end

namespace Reads

variable [Inhabited α] [CharTraits α] {reads next : Reads α} {event : ReadEvent α}

omit [Inhabited α] [CharTraits α] in
/-- The handlers of the reads that were completed, then of those that wait. -/
def queue (reads : Reads α) : List ℕ :=
  (reads.delivered.map fun completed => completed.request.completionOp) ++
    reads.session.buffer.requests.map EvRequest.completionOp

omit [Inhabited α] [CharTraits α] in
theorem queue_of_serves {waiting later : List (EvRequest ℕ)} {completed : List (Completed α ℕ)}
    (serves : Serves waiting completed later) (delivered : List (Completed α ℕ)) :
    ((delivered ++ completed).map fun read => read.request.completionOp) ++
        later.map EvRequest.completionOp =
      (delivered.map fun read => read.request.completionOp) ++
        waiting.map EvRequest.completionOp := by
  rw [serves.inOrder]
  simp

omit [Inhabited α] [CharTraits α] in
/-- A read issued in time goes to the end of the queue. -/
theorem queue_of_enqueue (reads : Reads α) (request : EvRequest ℕ)
    (inTime : reads.session.buffer.requests = [] ∨
      reads.session.buffer.canSatisfy request.count = false) :
    ((reads.delivered ++ (reads.session.buffer.enqueueRequest request).2).map
        fun read => read.request.completionOp) ++
      (reads.session.buffer.enqueueRequest request).1.requests.map EvRequest.completionOp =
        reads.queue ++ [request.completionOp] := by
  simp only [enqueueRequest, EvRequest.size, queue]
  by_cases satisfiable : reads.session.buffer.canSatisfy request.count = true
  · have empty : reads.session.buffer.requests = [] := by
      rcases inTime with empty | unsatisfiable
      · exact empty
      · exact (Bool.false_ne_true (unsatisfiable.symm.trans satisfiable)).elim
    simp [satisfiable, complete_requests, (complete_request _ request).1, empty]
  · simp [satisfiable]

theorem queue_step (step : (timely α).step reads event next) :
    next.queue = reads.queue ∧ reads.issued ≤ next.issued ∨
      next.queue = reads.queue ++ [reads.issued] ∧ next.issued = reads.issued + 1 := by
  rcases step with ⟨⟨legal, rfl⟩, inTime⟩
  cases event with
  | getn count =>
      simp only [exec, run, queue, Session.exec, Op.exec, AsyncStreambuf.getn,
        ProducerConsumerBuffer.getn]
      by_cases nonzero : count ≠ 0
      · by_cases unreadable : (!reads.session.buffer.canRead) = true
        · simp [nonzero, unreadable]
        · simp only [if_pos nonzero, if_neg unreadable]
          exact .inr ⟨queue_of_enqueue reads ⟨count, .advanceOnce, true, reads.issued⟩
            (inTime.resolve_left nonzero), trivial⟩
      · simp [nonzero]
  | bumpc =>
      simp only [exec, run, queue, Session.exec, Op.exec, AsyncStreambuf.bumpc,
        ProducerConsumerBuffer.bumpc]
      by_cases unreadable : (!reads.session.buffer.canRead) = true
      · simp [unreadable]
      · simp only [if_neg unreadable]
        exact .inr ⟨queue_of_enqueue reads ⟨1, .advanceOnce, false, reads.issued⟩ inTime, trivial⟩
  | op op =>
      exact .inl ⟨queue_of_serves (op.serves legal.1 _) _, le_rfl⟩

/-- The operation on the buffer that an event is. -/
theorem exec_eq_run (legal : reads.Legal event) :
    ∃ op : Op α ℕ, op.Legal reads.session.buffer ∧
      (reads.exec event).session = (reads.run op).session ∧
      (reads.exec event).delivered = (reads.run op).delivered := by
  cases event with
  | getn count => exact ⟨.getn count reads.issued, trivial, rfl, rfl⟩
  | bumpc => exact ⟨.bumpc reads.issued, trivial, rfl, rfl⟩
  | op op => exact ⟨op, legal.2, rfl, rfl⟩

/-! ### Runs -/

/-- What was delivered so far, and where. -/
structure Positioned (reads : Reads α) : Prop where
  refines : ∃ channel, reads.session.Refines channel
  read : ∀ completed ∈ reads.delivered,
    completed.position + completed.delivered.length ≤ reads.session.buffer.totalRead
  located : ∀ completed ∈ reads.delivered,
    completed.delivered <+: reads.session.stored.drop completed.position
  pairwise : reads.delivered.Pairwise EndsBefore

theorem Positioned.step (positioned : Positioned reads)
    (step : (system α).step reads event next) : Positioned next := by
  rcases step with ⟨legal, rfl⟩
  rcases exec_eq_run legal with ⟨op, legalOp, session, delivered⟩
  rcases positioned with ⟨⟨channel, refines⟩, read, located, pairwise⟩
  have effect := Op.exec_effect refines.invariant legalOp
  have consecutive := consecutive_exec refines.invariant legalOp
  rcases consecutive.bounds with ⟨newPairwise, bounds⟩
  have total := effect.totalRead_eq
  have delivers : (deliveredBy (op.exec reads.session.buffer).completed).length ≤
      (op.exec reads.session.buffer).removed.length := by
    rcases removed_of_completed op reads.session.buffer with none | removed
    · simp [none, deliveredBy]
    · rw [removed]
  refine ⟨?_, ?_, ?_, ?_⟩
  · rw [session]
    exact ⟨_, Session.exec_refines refines legalOp⟩
  · rw [delivered, session]
    intro completed present
    change _ ≤ (op.exec reads.session.buffer).next.totalRead
    rcases List.mem_append.mp present with old | new
    · have before := read completed old
      omega
    · have within := bounds completed new
      omega
  · rw [delivered, session]
    intro completed present
    change _ <+: (reads.session.stored ++ (op.exec reads.session.buffer).stored).drop _
    rcases List.mem_append.mp present with old | new
    · rw [List.drop_append]
      exact (located completed old).trans (List.prefix_append _ _)
    · have history := channel.removed_append_unread
      rw [refines.stored_eq, refines.removed_eq, refines.unread_eq] at history
      have removed : (op.exec reads.session.buffer).removed =
          deliveredBy (op.exec reads.session.buffer).completed := by
        rcases removed_of_completed op reads.session.buffer with none | removed
        · simp [none] at new
        · exact removed
      rw [← history, List.append_assoc, effect.moved, removed]
      exact consecutive.located refines.totalRead_eq.symm _ completed new
  · rw [delivered]
    refine List.pairwise_append.mpr ⟨pairwise, newPairwise, fun old isOld new isNew => ?_⟩
    have before := read old isOld
    have after := (bounds new isNew).1
    simp only [EndsBefore]
    omega

/-- The queue is in issue order. -/
structure Queued (reads : Reads α) : Prop where
  increasing : reads.queue.Pairwise (· < ·)
  issued : ∀ handler ∈ reads.queue, handler < reads.issued

theorem Queued.step (queued : Queued reads) (step : (timely α).step reads event next) :
    Queued next := by
  rcases queued with ⟨increasing, issued⟩
  rcases queue_step step with ⟨queue, later⟩ | ⟨queue, later⟩
  · refine ⟨queue ▸ increasing, fun handler present => ?_⟩
    have before := issued handler (queue ▸ present)
    omega
  · refine ⟨?_, fun handler present => ?_⟩
    · rw [queue]
      refine List.pairwise_append.mpr ⟨increasing, List.pairwise_singleton _ _, ?_⟩
      intro handler present new isNew
      rw [List.mem_singleton.mp isNew]
      exact issued handler present
    · rw [queue] at present
      rcases List.mem_append.mp present with old | new
      · have before := issued handler old
        omega
      · rw [List.mem_singleton.mp new]
        omega

omit [Inhabited α] [CharTraits α] in
theorem positioned_new (allocSize : ℕ) : Positioned (new allocSize : Reads α) :=
  ⟨⟨_, Session.new_refines allocSize⟩, by simp [new], by simp [new], by simp [new]⟩

/-- As long as reads are issued in time they are served in the order in which they were issued. -/
theorem servedInOrder {allocSize : ℕ} (reachable : (timely α).Reachable (new allocSize) reads) :
    ServedInOrder reads := by
  have positioned : Positioned reads :=
    reachable.invariant Positioned (positioned_new allocSize)
      fun _ _ _ positioned step => positioned.step step.1
  have queued : Queued reads := by
    refine reachable.invariant Queued ⟨?_, ?_⟩ fun _ _ _ queued step => queued.step step
    · simp [queue, new, Session.new, ProducerConsumerBuffer.new]
    · simp [queue, new, Session.new, ProducerConsumerBuffer.new]
  refine ⟨positioned.located, ?_⟩
  have increasing : reads.delivered.Pairwise fun first second =>
      first.request.completionOp < second.request.completionOp :=
    List.pairwise_map.mp (List.pairwise_append.mp queued.increasing).1
  have ordered : reads.delivered.Pairwise fun first second =>
      first.request.completionOp < second.request.completionOp → first.Precedes second := by
    refine positioned.pairwise.imp ?_
    intro first second ends earlier i iLt j jLt
    simp only [EndsBefore] at ends
    omega
  have others : reads.delivered.Pairwise (flip fun first second =>
      first.request.completionOp < second.request.completionOp → first.Precedes second) := by
    refine increasing.imp ?_
    intro first second earlier later
    omega
  intro first isFirst second isSecond
  exact ordered.forall_of_forall_of_flip (fun read _ same => (lt_irrefl _ same).elim) others
    isFirst isSecond

theorem reachable_timely {start : Reads α} (reachable : (timely α).Reachable start reads)
    (event : ReadEvent α) (legal : reads.Legal event) (inTime : reads.InTime event) :
    (timely α).Reachable start (reads.exec event) :=
  reachable.tail ⟨⟨legal, rfl⟩, inTime⟩

/-- Two reads wait when the first characters are written. -/
theorem servedInOrder_getn_bumpc :
    ServedInOrder ((((new 2 : Reads UInt8).exec (.getn 2)).exec .bumpc).exec
      (.op (.write [1, 2, 3]))) := by
  refine servedInOrder (reachable_timely (reachable_timely (reachable_timely (.refl (new 2))
    (.getn 2) trivial ?_) .bumpc trivial ?_) (.op (.write [1, 2, 3])) ⟨rfl, trivial⟩ trivial)
  · exact .inr (.inl rfl)
  · exact .inr (by decide)

/-- A read of one character overtakes one of four. -/
theorem not_servedInOrder_bumpc :
    let reads := ((((new 2 : Reads UInt8).exec (.getn 4)).exec (.op (.write [1, 2]))).exec
      .bumpc).exec (.op (.write [3, 4, 5]))
    (system UInt8).Reachable (new 2) reads ∧ reads.session.buffer.canRead = true ∧
      ¬ServedInOrder reads := by
  have run : (system UInt8).Run (new 2)
      [.getn 4, .op (.write [1, 2]), .bumpc, .op (.write [3, 4, 5])] _ :=
    .cons ⟨trivial, rfl⟩ (.cons ⟨⟨rfl, trivial⟩, rfl⟩ (.cons ⟨trivial, rfl⟩
      (.single ⟨⟨rfl, trivial⟩, rfl⟩)))
  refine ⟨⟨_, run⟩, rfl, fun served => ?_⟩
  have overtaken := served.ordered _ (List.mem_cons_of_mem _ List.mem_cons_self) _
    List.mem_cons_self (by decide) 0 (by decide) 0 (by decide)
  revert overtaken
  decide

end Reads

end Snode.Streams
