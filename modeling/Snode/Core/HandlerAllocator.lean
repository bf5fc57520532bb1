import Mathlib.Data.List.Nodup
import Snode.Lib.Lts

/-!
# Memory of handlers

`handler_allocator` has a single block, and leaves to the global heap what asks for memory while
the block is in use, or does not fit in it.
-/

namespace Snode.Core

/-- Where memory is. -/
inductive Pointer where
  /-- `storage_.address()`. -/
  | storage
  | heap (address : ℕ)
  deriving DecidableEq

structure HandlerAllocator where
  inUse : Bool

namespace HandlerAllocator

/-- `alloc_size`, which is the size of `storage_`. -/
def allocSize : ℕ := 1024

def new : HandlerAllocator :=
  ⟨false⟩

/-- `allocate`, for the address that `::operator new` would return. -/
def allocate (allocator : HandlerAllocator) (size address : ℕ) : Pointer × HandlerAllocator :=
  if !allocator.inUse && decide (size < allocSize) then (.storage, { allocator with inUse := true })
  else (.heap address, allocator)

/-- `deallocate`, and the address that is given to `::operator delete`. -/
def deallocate (allocator : HandlerAllocator) : Pointer → Option ℕ × HandlerAllocator
  | .storage => (none, { allocator with inUse := false })
  | .heap address => (some address, allocator)

end HandlerAllocator

/-- An allocator, the global heap, and the operations that use their memory. -/
structure HandlerMemory where
  allocator : HandlerAllocator
  /-- The addresses that were allocated and not deleted. -/
  heap : List ℕ
  /-- The memory of the operations under way, with the size that they asked for. -/
  held : List (Pointer × ℕ)

/-- What an operation does when it starts and before its handler is called. -/
inductive MemoryEvent where
  | allocate (size address : ℕ)
  | deallocate (pointer : Pointer)

namespace HandlerMemory

def new : HandlerMemory :=
  ⟨.new, [], []⟩

def pointers (memory : HandlerMemory) : List Pointer :=
  memory.held.map Prod.fst

/-- What the heap returns is not in use, and an operation deallocates what it holds. -/
def Legal (memory : HandlerMemory) : MemoryEvent → Prop
  | .allocate _ address => address ∉ memory.heap
  | .deallocate pointer => pointer ∈ memory.pointers

def exec (memory : HandlerMemory) : MemoryEvent → HandlerMemory
  | .allocate size address =>
      let (pointer, allocator) := memory.allocator.allocate size address
      { allocator
        heap := if pointer = .heap address then address :: memory.heap else memory.heap
        held := (pointer, size) :: memory.held }
  | .deallocate pointer =>
      let (deleted, allocator) := memory.allocator.deallocate pointer
      { allocator
        heap := deleted.elim memory.heap memory.heap.erase
        held := memory.held.eraseP fun entry => entry.1 = pointer }

def system : Lts HandlerMemory MemoryEvent where
  step memory event next := memory.Legal event ∧ next = memory.exec event

/-- No two operations hold the same memory, and nothing is allocated but what they hold. -/
structure Sound (memory : HandlerMemory) : Prop where
  apart : memory.pointers.Nodup
  inUse : memory.allocator.inUse = true ↔ Pointer.storage ∈ memory.pointers
  fits : ∀ size, (Pointer.storage, size) ∈ memory.held → size < HandlerAllocator.allocSize
  once : memory.heap.Nodup
  heap : ∀ address, address ∈ memory.heap ↔ Pointer.heap address ∈ memory.pointers

theorem sound_new : new.Sound where
  apart := List.nodup_nil
  inUse := by simp [new, pointers, HandlerAllocator.new]
  fits := by simp [new]
  once := List.nodup_nil
  heap := by simp [new, pointers]

variable {memory : HandlerMemory}

theorem Sound.allocate (sound : memory.Sound) {address : ℕ} (free : address ∉ memory.heap)
    (size : ℕ) : (memory.exec (.allocate size address)).Sound := by
  by_cases block : memory.allocator.inUse = false ∧ size < HandlerAllocator.allocSize
  · have unheld : Pointer.storage ∉ memory.pointers := by
      rw [← sound.inUse, block.1]
      exact Bool.false_ne_true
    have next : memory.exec (.allocate size address) =
        ⟨⟨true⟩, memory.heap, (.storage, size) :: memory.held⟩ := by
      simp [exec, HandlerAllocator.allocate, block]
    rw [next]
    refine ⟨List.nodup_cons.mpr ⟨unheld, sound.apart⟩, ?_, ?_, sound.once, ?_⟩
    · exact iff_of_true rfl List.mem_cons_self
    · intro other present
      rcases List.mem_cons.mp present with same | present
      · rw [(Prod.mk.inj same).2]
        exact block.2
      · exact sound.fits other present
    · intro other
      rw [sound.heap]
      simp [pointers]
  · have next : memory.exec (.allocate size address) =
        ⟨memory.allocator, address :: memory.heap, (.heap address, size) :: memory.held⟩ := by
      have refused : ¬(!memory.allocator.inUse && decide (size < HandlerAllocator.allocSize)) =
          true := by
        simpa using block
      simp only [exec, HandlerAllocator.allocate, if_neg refused, if_true]
    have unheld : Pointer.heap address ∉ memory.pointers := by
      rw [← sound.heap]
      exact free
    rw [next]
    refine ⟨List.nodup_cons.mpr ⟨unheld, sound.apart⟩, ?_, ?_,
      List.nodup_cons.mpr ⟨free, sound.once⟩, ?_⟩
    · rw [sound.inUse]
      simp [pointers]
    · intro other present
      rcases List.mem_cons.mp present with same | present
      · cases same
      · exact sound.fits other present
    · intro other
      simp only [pointers, List.mem_cons, List.map_cons, Pointer.heap.injEq, sound.heap]

theorem pointers_eraseP (pointer : Pointer) (held : List (Pointer × ℕ)) :
    (held.eraseP fun entry => entry.1 = pointer).map Prod.fst =
      (held.map Prod.fst).erase pointer := by
  induction held with
  | nil => rfl
  | cons entry held ih =>
      by_cases same : entry.1 = pointer
      · simp [same]
      · simp [same, ih]

theorem Sound.deallocate (sound : memory.Sound) {pointer : Pointer}
    (held : pointer ∈ memory.pointers) : (memory.exec (.deallocate pointer)).Sound := by
  have pointers : (memory.exec (.deallocate pointer)).pointers = memory.pointers.erase pointer :=
    pointers_eraseP pointer memory.held
  have left (other : Pointer) :
      other ∈ memory.pointers.erase pointer ↔ other ≠ pointer ∧ other ∈ memory.pointers :=
    sound.apart.mem_erase_iff
  have apart := sound.apart.erase pointer
  have fits (size : ℕ) (present : (Pointer.storage, size) ∈
      memory.held.eraseP fun entry => entry.1 = pointer) : size < HandlerAllocator.allocSize :=
    sound.fits size (List.mem_of_mem_eraseP present)
  cases pointer with
  | storage =>
      refine ⟨pointers ▸ apart, ?_, fits, sound.once, ?_⟩
      · rw [pointers, left]
        exact iff_of_false Bool.false_ne_true fun both => both.1 rfl
      · intro address
        have other : Pointer.heap address ≠ .storage := by simp
        rw [pointers, left, ← sound.heap, and_iff_right other]
        rfl
  | heap deleted =>
      refine ⟨pointers ▸ apart, ?_, fits, sound.once.erase deleted, ?_⟩
      · have other : Pointer.storage ≠ .heap deleted := by simp
        rw [pointers, left, ← sound.inUse, and_iff_right other]
        rfl
      · intro address
        rw [pointers, left, ← sound.heap]
        exact sound.once.mem_erase_iff.trans (and_congr_left' (by simp))

theorem Sound.step (sound : memory.Sound) {event : MemoryEvent} {next : HandlerMemory}
    (step : system.step memory event next) : next.Sound := by
  rcases step with ⟨legal, rfl⟩
  cases event with
  | allocate size address => exact sound.allocate legal size
  | deallocate pointer => exact sound.deallocate legal

/-- Whatever operations start and end, none gets memory that another one holds, and what was
allocated on the heap is deleted once. -/
theorem memory_apart (reachable : system.Reachable new memory) : memory.Sound :=
  reachable.invariant Sound sound_new fun _ _ _ sound step => sound.step step

/-- Two operations at a time. -/
theorem memory_apart_two :
    ((new.exec (.allocate 64 7)).exec (.allocate 64 7)).Sound := by
  have first : system.step new (.allocate 64 7) _ := ⟨List.not_mem_nil, rfl⟩
  have second : system.step (new.exec (.allocate 64 7)) (.allocate 64 7) _ :=
    ⟨List.not_mem_nil, rfl⟩
  exact memory_apart ((Lts.Reachable.refl _).tail first |>.tail second)

end HandlerMemory

end Snode.Core
