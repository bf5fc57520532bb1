import Mathlib.Data.List.Basic

/-!
# FIFO channels

What a first-in first-out byte channel is for, independently of how one is
built: everything that was ever stored, of which a prefix has been removed.
The prefix condition is a field, so a channel that loses, duplicates or
reorders a character cannot be written down.
-/

universe u

/-- A channel together with its whole history. -/
structure Channel (α : Type u) where
  /-- Every character stored so far, oldest first. -/
  stored : List α
  /-- Every character removed so far, oldest first. -/
  removed : List α
  removed_prefix : removed <+: stored

namespace Channel

variable {α : Type u}

/-- The characters that were stored and not removed yet. -/
def unread (channel : Channel α) : List α :=
  channel.stored.drop channel.removed.length

/-- The channel nothing was ever stored in. -/
def empty : Channel α where
  stored := []
  removed := []
  removed_prefix := List.prefix_rfl

/-- Store characters at the end. -/
def push (channel : Channel α) (characters : List α) : Channel α where
  stored := channel.stored ++ characters
  removed := channel.removed
  removed_prefix := channel.removed_prefix.trans (List.prefix_append _ _)

theorem removed_append_unread (channel : Channel α) :
    channel.removed ++ channel.unread = channel.stored := by
  rcases channel with ⟨stored, removed, rest, rfl⟩
  simp [unread]

/-- Remove the oldest `count` unread characters, or all of them if there are fewer. -/
def pop (channel : Channel α) (count : ℕ) : Channel α where
  stored := channel.stored
  removed := channel.removed ++ channel.unread.take count
  removed_prefix := by
    refine ⟨channel.unread.drop count, ?_⟩
    rw [List.append_assoc, List.take_append_drop, removed_append_unread]

@[simp]
theorem unread_push (channel : Channel α) (characters : List α) :
    (channel.push characters).unread = channel.unread ++ characters := by
  rcases channel with ⟨stored, removed, rest, rfl⟩
  simp [unread, push]

@[simp]
theorem unread_pop (channel : Channel α) (count : ℕ) :
    (channel.pop count).unread = channel.unread.drop count := by
  have history := (channel.pop count).removed_append_unread
  have before := channel.removed_append_unread
  rw [← List.take_append_drop count channel.unread, ← List.append_assoc] at before
  exact List.append_cancel_left (history.trans before.symm)

end Channel
