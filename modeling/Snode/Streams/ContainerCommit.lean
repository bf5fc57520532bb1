import Snode.Streams.ContainerBuffer

/-!
# Committing to a container buffer

`alloc` and `commit` of `container_buffer` behind those of the base class.  `alloc`
grows the collection by all that is asked for, and `commit` moves the position over
what was filled, so that the collection keeps what was allocated furthest.
-/

namespace Snode.Streams

namespace ContainerBuffer

variable {α : Type}

/-- `container_buffer::alloc`: whether there is memory, which is what is at the position. -/
def allocBlock [Inhabited α] (buffer : ContainerBuffer α) (count : ℕ) :
    Bool × ContainerBuffer α :=
  if !buffer.canWrite then
    (false, buffer)
  else
    (true, buffer.resizeForWrite (buffer.currentPosition + count))

def commitBlock (buffer : ContainerBuffer α) (count : ℕ) : ContainerBuffer α :=
  buffer.updateCurrentPosition (buffer.currentPosition + count)

/-- `async_streambuf::alloc`; no memory is a null pointer. -/
def alloc [Inhabited α] (buffer : ContainerBuffer α) (count : ℕ) :
    Except String (Bool × ContainerBuffer α) :=
  if !buffer.canWrite then
    .ok (false, buffer)
  else if buffer.alloced then
    .error ("The buffer is already allocated, " ++
      "this maybe caused by overlap of stream read or write")
  else
    let (allocResult, buffer) := buffer.allocBlock count
    .ok (allocResult, { buffer with alloced := buffer.alloced || allocResult })

/-- `async_streambuf::commit`. -/
def commit (buffer : ContainerBuffer α) (count : ℕ) : Except String (ContainerBuffer α) :=
  if buffer.canWrite then
    if !buffer.alloced then
      .error "The buffer needs to allocate first"
    else
      .ok { buffer.commitBlock count with alloced := false }
  else
    .ok buffer

/-- The caller writes to the memory it was given. -/
def fill (buffer : ContainerBuffer α) (source : List α) : ContainerBuffer α :=
  { buffer with
    data := buffer.data.take buffer.currentPosition ++ source ++
      buffer.data.drop (buffer.currentPosition + source.length) }

end ContainerBuffer

/-- An allocation, what the caller puts into it, and how much of it is committed. -/
structure Batch (α : Type) where
  count : ℕ
  source : List α
  committed : ℕ
  positive : 1 ≤ count
  filled : source.length ≤ committed
  fits : committed ≤ count

namespace ContainerBuffer

variable {α : Type} [Inhabited α]

/-- One allocation with its commit: the committed start of the memory, and the buffer. -/
def publish (buffer : ContainerBuffer α) (batch : Batch α) :
    Except String (List α × ContainerBuffer α) := do
  let (_, allocated) ← buffer.alloc batch.count
  let filled := allocated.fill batch.source
  let next ← filled.commit batch.committed
  return ((filled.data.drop filled.currentPosition).take batch.committed, next)

/-- Some allocations, each committed before the next: what was committed in all. -/
def publishAll (buffer : ContainerBuffer α) :
    List (Batch α) → Except String (List α × ContainerBuffer α)
  | [] => .ok ([], buffer)
  | batch :: batches => do
      let (published, next) ← buffer.publish batch
      let (others, final) ← next.publishAll batches
      return (published ++ others, final)

/-- A collection with something written over it at a position. -/
def overwritten (data : List α) (position : ℕ) (source : List α) : List α :=
  data.take position ++ source ++ data.drop (position + source.length)

/-- How much some batches commit. -/
def committedSize (batches : List (Batch α)) : ℕ :=
  (batches.map Batch.committed).sum

/-- The end of the furthest allocation. -/
def furthest : ℕ → List (Batch α) → ℕ
  | _, [] => 0
  | position, batch :: batches =>
      max (position + batch.count) (furthest (position + batch.committed) batches)

/-- A buffer open for writing that has no memory given out. -/
structure Ready (buffer : ContainerBuffer α) : Prop where
  inside : buffer.currentPosition ≤ buffer.data.length
  writable : buffer.canWrite = true
  free : buffer.alloced = false
  sound : buffer.failed = false

variable {buffer : ContainerBuffer α}

theorem resizeForWrite_eq (buffer : ContainerBuffer α) (newPos : ℕ) :
    buffer.resizeForWrite newPos =
      { buffer with
        data := buffer.data ++ List.replicate (newPos - buffer.data.length) default } := by
  rw [resizeForWrite]
  split
  · rfl
  · next enough =>
      have nothing : newPos - buffer.data.length = 0 := by omega
      rw [nothing, List.replicate_zero, List.append_nil]

omit [Inhabited α] in
theorem length_overwritten {data : List α} {position : ℕ} (inside : position ≤ data.length)
    (source : List α) :
    (overwritten data position source).length = max data.length (position + source.length) := by
  simp only [overwritten, List.length_append, List.length_take, List.length_drop]
  omega

omit [Inhabited α] in
theorem take_overwritten {data : List α} {position : ℕ} (inside : position ≤ data.length)
    (source : List α) :
    (overwritten data position source).take (position + source.length) =
      data.take position ++ source := by
  have length : (data.take position ++ source).length = position + source.length := by
    rw [List.length_append, List.length_take_of_le inside]
  rw [overwritten, List.take_left' length]

omit [Inhabited α] in
theorem drop_overwritten {data : List α} {position : ℕ} (inside : position ≤ data.length)
    (source : List α) :
    (overwritten data position source).drop (position + source.length) =
      data.drop (position + source.length) := by
  have length : (data.take position ++ source).length = position + source.length := by
    rw [List.length_append, List.length_take_of_le inside]
  rw [overwritten, List.drop_left' length]

section Memory

variable {data source : List α} {position count committed : ℕ}

/-- The memory of an allocation, as far as it is committed, in place of what was there. -/
theorem overwritten_allocated (inside : position ≤ data.length)
    (filled : source.length ≤ committed) (fits : committed ≤ count) :
    let memory := overwritten
      (data ++ List.replicate (position + count - data.length) default) position source
    ∃ published, (memory.drop position).take committed = published ∧ source <+: published ∧
      published.length = committed ∧ position + committed ≤ memory.length ∧
      memory = overwritten data position published ++
        List.replicate ((position + count - data.length) - (position + committed - data.length))
          default := by
  intro memory
  let published := (memory.drop position).take committed
  let allocated := data ++ List.replicate (position + count - data.length) default
  have allocatedLength : allocated.length = max data.length (position + count) := by
    simp only [allocated, List.length_append, List.length_replicate]
    omega
  have insideAllocated : position ≤ allocated.length := by omega
  have takenLength : (allocated.take position).length = position :=
    List.length_take_of_le insideAllocated
  have memoryLength : memory.length = allocated.length := by
    rw [length_overwritten insideAllocated]
    omega
  have publishedLength : published.length = committed := by
    simp only [published, List.length_take, List.length_drop]
    omega
  refine ⟨published, rfl, ?_, publishedLength, by omega, ?_⟩
  · have front : memory.drop position = source ++ allocated.drop (position + source.length) := by
      simp only [memory, overwritten, List.append_assoc]
      rw [List.drop_left' takenLength]
    simp only [published, front, List.take_append]
    rw [List.take_of_length_le filled]
    exact List.prefix_append _ _
  · have takeMemory : memory.take position = data.take position := by
      have takeAllocated : allocated.take position = data.take position :=
        List.take_append_of_le_length inside
      simp only [memory, overwritten, List.append_assoc]
      rw [List.take_left' takenLength, takeAllocated]
    have dropMemory : memory.drop (position + committed) =
        data.drop (position + committed) ++
          List.replicate ((position + count - data.length) -
            (position + committed - data.length)) default := by
      have further : position + committed =
          (position + source.length) + (committed - source.length) := by omega
      have behind : memory.drop (position + committed) =
          allocated.drop (position + committed) := by
        rw [further, ← List.drop_drop, drop_overwritten insideAllocated, List.drop_drop]
      rw [behind, List.drop_append, List.drop_replicate]
    have split : memory = memory.take position ++
        (published ++ (memory.drop position).drop committed) := by
      rw [List.take_append_drop, List.take_append_drop]
    rw [List.drop_drop, takeMemory, dropMemory] at split
    rw [split, overwritten, publishedLength]
    simp only [List.append_assoc]

/-- What is written over the end of what was written before. -/
theorem overwritten_twice (inside : position ≤ data.length) (extra : ℕ) (first second : List α) :
    ∃ kept, overwritten (overwritten data position first ++ List.replicate extra default)
        (position + first.length) second =
      overwritten data position (first ++ second) ++ List.replicate kept default := by
  have length := length_overwritten inside first
  let kept := extra - (position + (first ++ second).length -
    (overwritten data position first).length)
  refine ⟨kept, ?_⟩
  have front : (overwritten data position first ++ List.replicate extra default).take
      (position + first.length) = data.take position ++ first := by
    rw [List.take_append_of_le_length (by omega), take_overwritten inside]
  have back : (overwritten data position first ++ List.replicate extra default).drop
      (position + first.length + second.length) =
        data.drop (position + (first ++ second).length) ++ List.replicate kept default := by
    have further : position + first.length + second.length =
        position + (first ++ second).length := by
      rw [List.length_append, Nat.add_assoc]
    rw [List.drop_append, List.drop_replicate, ← List.drop_drop, drop_overwritten inside,
      List.drop_drop, further]
  rw [overwritten, front, back, overwritten]
  simp only [List.append_assoc]

end Memory

omit [Inhabited α] in
theorem commit_eq {count : ℕ} (writable : buffer.canWrite = true) (alloced : buffer.alloced = true)
    (inside : buffer.currentPosition + count ≤ buffer.data.length) :
    buffer.commit count =
      .ok { buffer with currentPosition := buffer.currentPosition + count, alloced := false } := by
  rw [commit, if_pos writable, commitBlock, updateCurrentPosition_eq inside]
  simp [alloced]

theorem alloc_eq (writable : buffer.canWrite = true) (free : buffer.alloced = false)
    (count : ℕ) :
    buffer.alloc count = .ok (true,
      { buffer with
        data := buffer.data ++
          List.replicate (buffer.currentPosition + count - buffer.data.length) default
        alloced := true }) := by
  simp [alloc, allocBlock, writable, free, resizeForWrite_eq]

/-- One pair writes what was committed over the collection; what else was allocated stays. -/
theorem publish_eq (ready : Ready buffer) (batch : Batch α) :
    ∃ published extra, batch.source <+: published ∧ published.length = batch.committed ∧
      buffer.publish batch = .ok (published,
        { buffer with
          data := overwritten buffer.data buffer.currentPosition published ++
            List.replicate extra default
          currentPosition := buffer.currentPosition + batch.committed
          alloced := false }) ∧
      (overwritten buffer.data buffer.currentPosition published ++
          List.replicate extra default : List α).length =
        max buffer.data.length (buffer.currentPosition + batch.count) := by
  have fits := batch.fits
  let allocated : ContainerBuffer α :=
    { buffer with
      data := buffer.data ++
        List.replicate (buffer.currentPosition + batch.count - buffer.data.length) default
      alloced := true }
  rcases overwritten_allocated ready.inside batch.filled batch.fits with
    ⟨published, taken, starts, length, within, memory⟩
  have committed : (allocated.fill batch.source).commit batch.committed = .ok
      { buffer with
        data := (allocated.fill batch.source).data
        currentPosition := buffer.currentPosition + batch.committed
        alloced := false } :=
    commit_eq ready.writable rfl within
  let extra := (buffer.currentPosition + batch.count - buffer.data.length) -
    (buffer.currentPosition + batch.committed - buffer.data.length)
  have filled : (allocated.fill batch.source).data = overwritten buffer.data
      buffer.currentPosition published ++ List.replicate extra default := memory
  refine ⟨published, extra, starts, length, ?_, ?_⟩
  · rw [← filled, publish, alloc_eq ready.writable ready.free, ← taken]
    change ((allocated.fill batch.source).commit batch.committed).bind _ = _
    rw [committed]
    rfl
  · rw [← filled]
    simp only [fill, allocated, List.length_append, List.length_take, List.length_drop,
      List.length_replicate]
    have inside := ready.inside
    have short := batch.filled
    omega

/-- What was committed, piece by piece: each begins with what the caller put there. -/
def Pieces (batches : List (Batch α)) (published : List α) : Prop :=
  ∃ pieces : List (List α), published = pieces.flatten ∧
    List.Forall₂ (fun batch piece => batch.source <+: piece ∧ piece.length = batch.committed)
      batches pieces

/-- The run lemma: what was committed is written over the collection, which is as long as the
furthest allocation made it. -/
theorem publishAll_eq (ready : Ready buffer) (batches : List (Batch α)) :
    ∃ published final extra, buffer.publishAll batches = .ok (published, final) ∧
      Pieces batches published ∧ published.length = committedSize batches ∧
      final.currentPosition = buffer.currentPosition + committedSize batches ∧
      final.data = overwritten buffer.data buffer.currentPosition published ++
        List.replicate extra default ∧
      final.data.length =
        max buffer.data.length (furthest buffer.currentPosition batches) := by
  induction batches generalizing buffer with
  | nil =>
      refine ⟨[], buffer, 0, rfl, ⟨[], rfl, .nil⟩, rfl, rfl, ?_, ?_⟩
      · simp [overwritten]
      · simp [furthest]
  | cons batch batches ih =>
      rcases publish_eq ready batch with ⟨piece, extra, starts, length, publishes, grown⟩
      have fits := batch.fits
      have inside := ready.inside
      let next : ContainerBuffer α :=
        { buffer with
          data := overwritten buffer.data buffer.currentPosition piece ++
            List.replicate extra default
          currentPosition := buffer.currentPosition + batch.committed
          alloced := false }
      have nextReady : Ready next := by
        refine ⟨?_, ready.writable, rfl, ready.sound⟩
        change buffer.currentPosition + batch.committed ≤ next.data.length
        have nextLength : next.data.length = _ := grown
        omega
      rcases ih nextReady with
        ⟨published, final, more, runs, ⟨pieces, whole, each⟩, size, position, data, dataLength⟩
      rcases overwritten_twice inside extra piece published with ⟨kept, both⟩
      refine ⟨piece ++ published, final, kept + more, ?_, ?_, ?_, ?_, ?_, ?_⟩
      · simp only [publishAll, publishes, bind, Except.bind]
        change ((next.publishAll batches).bind _) = _
        rw [runs]
        rfl
      · refine ⟨piece :: pieces, ?_, .cons ⟨starts, length⟩ each⟩
        rw [List.flatten_cons, whole]
      · rw [List.length_append, length, size]
        rfl
      · rw [position]
        change buffer.currentPosition + batch.committed + committedSize batches =
          buffer.currentPosition + (batch.committed + committedSize batches)
        omega
      · rw [length] at both
        rw [data, ← List.replicate_append_replicate, ← List.append_assoc, ← both]
      · rw [dataLength, furthest]
        have nextLength : next.data.length = _ := grown
        change max next.data.length
          (furthest (buffer.currentPosition + batch.committed) batches) = _
        omega

omit [Inhabited α] in
/-- The furthest allocation is one of them, begun where the commits before it left the position. -/
theorem furthest_le_iff (position bound : ℕ) (batches : List (Batch α)) :
    furthest position batches ≤ bound ↔
      ∀ before batch after, batches = before ++ batch :: after →
        position + committedSize before + batch.count ≤ bound := by
  induction batches generalizing position with
  | nil =>
      refine iff_of_true (Nat.zero_le _) ?_
      intro before batch after whole
      simp at whole
  | cons first rest ih =>
      rw [furthest, Nat.max_le, ih]
      constructor
      · rintro ⟨firstWithin, others⟩ before batch after whole
        cases before with
        | nil =>
            have same : first = batch := (List.cons.inj whole).1
            rw [← same]
            exact firstWithin
        | cons earlier before =>
            rcases List.cons.inj whole with ⟨rfl, restWhole⟩
            have within := others before batch after restWhole
            change position + (first.committed + committedSize before) + batch.count ≤ bound
            omega
      · intro all
        refine ⟨all [] first rest rfl, ?_⟩
        intro before batch after whole
        have within := all (first :: before) batch after (congrArg (first :: ·) whole)
        change position + (first.committed + committedSize before) + batch.count ≤ bound at within
        omega

/-- The collection is the original with what was committed written over it exactly when no
allocation reached beyond the original or beyond the last commit. -/
theorem publishes_iff (ready : Ready buffer) (batches : List (Batch α)) :
    ∃ published final, buffer.publishAll batches = .ok (published, final) ∧
      Pieces batches published ∧
      final.currentPosition = buffer.currentPosition + committedSize batches ∧
      (final.data = overwritten buffer.data buffer.currentPosition published ↔
        ∀ before batch after, batches = before ++ batch :: after →
          buffer.currentPosition + committedSize before + batch.count ≤
            max buffer.data.length (buffer.currentPosition + committedSize batches)) := by
  rcases publishAll_eq ready batches with
    ⟨published, final, extra, runs, pieces, size, position, data, length⟩
  refine ⟨published, final, runs, pieces, position, ?_⟩
  have written := length_overwritten ready.inside published
  rw [← furthest_le_iff]
  constructor
  · intro exact
    rw [exact, written, size] at length
    omega
  · intro within
    have nothing : extra = 0 := by
      rw [data, List.length_append, List.length_replicate, written, size] at length
      omega
    rw [data, nothing, List.replicate_zero, List.append_nil]

/-- Ten places for two characters. -/
def twoOfTen : Batch UInt8 where
  count := 10
  source := [65, 66]
  committed := 2
  positive := by decide
  filled := by decide
  fits := by decide

theorem publishes_iff_twoOfTen :
    ∃ published final,
      (start (List.replicate 12 7) false true).publishAll [twoOfTen] = .ok (published, final) ∧
        Pieces [twoOfTen] published ∧
        final.currentPosition = 0 + committedSize [twoOfTen] ∧
        (final.data = overwritten (List.replicate 12 7) 0 published ↔
          ∀ before batch after, [twoOfTen] = before ++ batch :: after →
            0 + committedSize before + batch.count ≤
              max (List.replicate 12 (7 : UInt8)).length (0 + committedSize [twoOfTen])) := by
  have ready : Ready (start (List.replicate 12 (7 : UInt8)) false true) :=
    ⟨by decide, rfl, rfl, rfl⟩
  exact publishes_iff ready [twoOfTen]

/-- What was allocated and not committed is part of the collection. -/
theorem not_published_twoOfTen :
    ((start [] false true).publishAll [twoOfTen]).map (fun result => (result.1, result.2.data)) =
        .ok ([65, 66], [65, 66, 0, 0, 0, 0, 0, 0, 0, 0]) ∧
      overwritten [] 0 [65, 66] = ([65, 66] : List UInt8) :=
  ⟨rfl, rfl⟩

end ContainerBuffer

end Snode.Streams
