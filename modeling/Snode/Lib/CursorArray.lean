import Mathlib.Data.List.Basic

/-!
# Arrays with a cursor

An array that has a default character in every cell behind its size, and one cursor
for reading and writing.  The cursor never leaves the array.
-/

universe u

structure CursorArray (α : Type u) [Inhabited α] where
  cells : ℕ → α
  size : ℕ
  cursor : ℕ
  blank : ∀ index, size ≤ index → cells index = default
  cursor_le : cursor ≤ size

namespace CursorArray

variable {α : Type u} [Inhabited α]

/-- A collection as an array, with the cursor at its beginning. -/
def ofList (data : List α) : CursorArray α where
  cells index := data.getD index default
  size := data.length
  cursor := 0
  blank index behind := by
    rw [List.getD_eq_getElem?_getD, List.getElem?_eq_none behind]
    rfl
  cursor_le := Nat.zero_le _

/-- The characters from the cursor on: `count` of them, or as many as there are. -/
def peek (array : CursorArray α) (count : ℕ) : List α :=
  (List.range (min count (array.size - array.cursor))).map fun offset =>
    array.cells (array.cursor + offset)

/-- Move the cursor over characters that were read. -/
def skip (array : CursorArray α) (count : ℕ) : CursorArray α :=
  { array with
    cursor := min (array.cursor + count) array.size
    cursor_le := Nat.min_le_right _ _ }

/-- Overwrite what is at the cursor, and go behind it. -/
def write (array : CursorArray α) (source : List α) : CursorArray α where
  cells index :=
    if array.cursor ≤ index ∧ index < array.cursor + source.length then
      source.getD (index - array.cursor) default
    else
      array.cells index
  size := max array.size (array.cursor + source.length)
  cursor := array.cursor + source.length
  blank index behind := by
    rw [if_neg (by omega)]
    exact array.blank index (by omega)
  cursor_le := Nat.le_max_right _ _

/-- Move the cursor to a position within the array. -/
def moveTo (array : CursorArray α) (target : ℕ) (within : target ≤ array.size) :
    CursorArray α :=
  { array with
    cursor := target
    cursor_le := within }

/-- Move the cursor anywhere; the array grows to get there. -/
def extendTo (array : CursorArray α) (target : ℕ) : CursorArray α where
  cells := array.cells
  size := max array.size target
  cursor := target
  blank index behind := array.blank index (by omega)
  cursor_le := Nat.le_max_right _ _

/-- The array is the collection with its cursor at a position. -/
structure Holds (array : CursorArray α) (data : List α) (position : ℕ) : Prop where
  size : array.size = data.length
  cursor : array.cursor = position
  cells : ∀ index, array.cells index = data.getD index default

theorem holds_ofList (data : List α) : (ofList data).Holds data 0 where
  size := rfl
  cursor := rfl
  cells _ := rfl

namespace Holds

variable {array : CursorArray α} {data : List α} {position : ℕ}

theorem position_le (holds : array.Holds data position) : position ≤ data.length := by
  rw [← holds.cursor, ← holds.size]
  exact array.cursor_le

theorem peek_eq (holds : array.Holds data position) (count : ℕ) :
    array.peek count = (data.drop position).take count := by
  apply List.ext_getElem
  · simp [peek, holds.size, holds.cursor]
  · intro index small other
    have bound : position + index < data.length := by
      simp only [List.length_take, List.length_drop] at other
      omega
    simp [peek, holds.cells, holds.cursor, List.getD_eq_getElem?_getD, bound]

theorem skip (holds : array.Holds data position) (count : ℕ) :
    (array.skip count).Holds data (min (position + count) data.length) where
  size := holds.size
  cursor := by simp only [CursorArray.skip, holds.cursor, holds.size]
  cells := holds.cells

theorem moveTo (holds : array.Holds data position) {target : ℕ} (within : target ≤ array.size) :
    (array.moveTo target within).Holds data target where
  size := holds.size
  cursor := rfl
  cells := holds.cells

theorem extendTo (holds : array.Holds data position) (target : ℕ) :
    (array.extendTo target).Holds
      (data ++ List.replicate (target - data.length) default) target where
  size := by
    simp only [CursorArray.extendTo, holds.size, List.length_append, List.length_replicate]
    omega
  cursor := rfl
  cells index := by
    change array.cells index = _
    rw [holds.cells]
    by_cases inside : index < data.length
    · rw [List.getD_eq_getElem?_getD, List.getD_eq_getElem?_getD,
        List.getElem?_append_left inside]
    · have outside := Nat.le_of_not_lt inside
      simp only [List.getD_eq_getElem?_getD, List.getElem?_append_right outside,
        List.getElem?_eq_none outside, List.getElem?_replicate]
      split <;> rfl

theorem write (holds : array.Holds data position) (source : List α) :
    (array.write source).Holds
      (data.take position ++ source ++ data.drop (position + source.length))
      (position + source.length) where
  size := by
    have inside := holds.position_le
    simp only [CursorArray.write, holds.size, holds.cursor, List.length_append, List.length_take,
      List.length_drop]
    omega
  cursor := by simp only [CursorArray.write, holds.cursor]
  cells index := by
    have inside := holds.position_le
    have taken : (data.take position).length = position := List.length_take_of_le inside
    simp only [CursorArray.write, holds.cursor, holds.cells, List.getD_eq_getElem?_getD]
    rw [List.append_assoc]
    split
    · next between =>
        rw [List.getElem?_append_right (by omega), taken,
          List.getElem?_append_left (by omega)]
    · next elsewhere =>
        by_cases before : index < position
        · rw [List.getElem?_append_left (by omega), List.getElem?_take_of_lt before]
        · rw [List.getElem?_append_right (by omega), taken,
            List.getElem?_append_right (by omega), List.getElem?_drop]
          congr 2
          omega

end Holds

end CursorArray
