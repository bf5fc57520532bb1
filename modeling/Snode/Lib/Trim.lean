import Mathlib.Data.List.DropRight

/-!
# Trimming

A list less the elements with a property at its two ends, and lists that have none
there.
-/

universe u

namespace List

variable {α : Type u} {p : α → Bool} {list before after : List α} {element : α}

/-- A list without the elements with a property at its ends. -/
def trim (p : α → Bool) (list : List α) : List α :=
  (list.dropWhile p).rdropWhile p

/-- Neither end of a list has a property. -/
structure Trimmed (p : α → Bool) (list : List α) : Prop where
  first : ∀ element, list.head? = some element → p element = false
  last : ∀ element, list.getLast? = some element → p element = false

/-! ### One end -/

theorem rdropWhile_append_of_pos (all : ∀ element ∈ after, p element = true) :
    (list ++ after).rdropWhile p = list.rdropWhile p := by
  have reversed : ∀ element ∈ after.reverse, p element = true := by simpa using all
  rw [rdropWhile, reverse_append, dropWhile_append_of_pos reversed, rdropWhile]

theorem rdropWhile_append_cons (stops : p element = false) (after : List α) :
    (list ++ element :: after).rdropWhile p = list ++ element :: after.rdropWhile p := by
  rw [rdropWhile, rdropWhile, reverse_append, reverse_cons, append_assoc, dropWhile_append]
  split
  · next ended =>
      have none : after.reverse.dropWhile p = [] := isEmpty_iff.mp ended
      simp [none, stops]
  · simp

theorem dropWhile_append_cons (stops : p element = false) (after : List α) :
    (list ++ element :: after).dropWhile p = list.dropWhile p ++ element :: after := by
  rw [dropWhile_append]
  split
  · next ended =>
      have none : list.dropWhile p = [] := isEmpty_iff.mp ended
      simp [none, stops]
  · rfl

theorem dropWhile_of_first
    (first : ∀ element, list.head? = some element → p element = false) :
    list.dropWhile p = list := by
  cases list with
  | nil => rfl
  | cons element list => simp [first element rfl]

theorem rdropWhile_of_last
    (last : ∀ element, list.getLast? = some element → p element = false) :
    list.rdropWhile p = list := by
  rw [rdropWhile, dropWhile_of_first, reverse_reverse]
  intro element isFirst
  apply last
  rwa [head?_reverse] at isFirst

theorem first_dropWhile (list : List α) (element : α)
    (isFirst : (list.dropWhile p).head? = some element) : p element = false := by
  have stopped := head?_dropWhile_not p list
  rw [isFirst] at stopped
  simpa using stopped

theorem last_rdropWhile (element : α) (isLast : (list.rdropWhile p).getLast? = some element) :
    p element = false := by
  rw [rdropWhile, getLast?_reverse] at isLast
  exact first_dropWhile _ element isLast

theorem exists_dropWhile (p : α → Bool) (list : List α) :
    ∃ before, list = before ++ list.dropWhile p ∧ ∀ element ∈ before, p element = true := by
  refine ⟨list.takeWhile p, takeWhile_append_dropWhile.symm, ?_⟩
  intro element taken
  exact mem_takeWhile_imp taken

theorem exists_rdropWhile (p : α → Bool) (list : List α) :
    ∃ after, list = list.rdropWhile p ++ after ∧ ∀ element ∈ after, p element = true := by
  refine ⟨list.rtakeWhile p, rdropWhile_append_rtakeWhile.symm, ?_⟩
  intro element taken
  exact mem_rtakeWhile_imp taken

/-! ### Both ends -/

namespace Trimmed

theorem nil : ([] : List α).Trimmed p where
  first element isFirst := by simp at isFirst
  last element isLast := by simp at isLast

theorem trim_eq (trimmed : list.Trimmed p) : list.trim p = list := by
  rw [trim, dropWhile_of_first trimmed.first, rdropWhile_of_last trimmed.last]

end Trimmed

theorem trim_append_of_pos (all : ∀ element ∈ before, p element = true) :
    (before ++ list).trim p = list.trim p := by
  rw [trim, dropWhile_append_of_pos all, trim]

theorem trim_append_right_of_pos (all : ∀ element ∈ after, p element = true) :
    (list ++ after).trim p = list.trim p := by
  rw [trim, trim, dropWhile_append]
  split
  · next ended =>
      have none : list.dropWhile p = [] := isEmpty_iff.mp ended
      rw [none, rdropWhile_nil, rdropWhile_eq_nil_iff]
      intro element present
      exact all element ((dropWhile_sublist p).subset present)
  · exact rdropWhile_append_of_pos all

/-- What is put around a trimmed list is trimmed off. -/
theorem Trimmed.trim_around (trimmed : list.Trimmed p)
    (allBefore : ∀ element ∈ before, p element = true)
    (allAfter : ∀ element ∈ after, p element = true) :
    (before ++ list ++ after).trim p = list := by
  rw [append_assoc, trim_append_of_pos allBefore, trim_append_right_of_pos allAfter,
    trimmed.trim_eq]

/-- An element without the property keeps what is on its inner sides. -/
theorem trim_append_cons (stops : p element = false) (before after : List α) :
    (before ++ element :: after).trim p =
      before.dropWhile p ++ element :: after.rdropWhile p := by
  rw [trim, dropWhile_append_cons stops, rdropWhile_append_cons stops]

theorem trimmed_trim (p : α → Bool) (list : List α) : (list.trim p).Trimmed p where
  last := last_rdropWhile
  first := by
    intro element isFirst
    rcases exists_rdropWhile p (list.dropWhile p) with ⟨after, whole, -⟩
    apply first_dropWhile list
    rw [whole, head?_append]
    rw [trim] at isFirst
    rw [isFirst, Option.some_or]

theorem trim_dropWhile (p : α → Bool) (list : List α) :
    (list.dropWhile p).trim p = list.trim p := by
  rw [trim, dropWhile_idempotent, trim]

/-- A list is what is left of it with something trimmed off on each side. -/
theorem exists_trim (p : α → Bool) (list : List α) :
    ∃ before after, list = before ++ list.trim p ++ after ∧
      (∀ element ∈ before, p element = true) ∧ ∀ element ∈ after, p element = true := by
  rcases exists_dropWhile p list with ⟨before, front, allBefore⟩
  rcases exists_rdropWhile p (list.dropWhile p) with ⟨after, back, allAfter⟩
  refine ⟨before, after, ?_, allBefore, allAfter⟩
  rw [append_assoc, trim, ← back]
  exact front

theorem trim_eq_nil_iff : list.trim p = [] ↔ ∀ element ∈ list, p element = true := by
  constructor
  · intro empty
    rcases exists_trim p list with ⟨before, after, whole, allBefore, allAfter⟩
    rw [empty, append_nil] at whole
    rw [whole]
    intro element present
    rcases mem_append.mp present with inBefore | inAfter
    · exact allBefore element inBefore
    · exact allAfter element inAfter
  · intro all
    have nothing : ∀ element ∈ ([] : List α), p element = true := by simp
    have around := Trimmed.nil.trim_around all nothing
    simpa using around

theorem trim_subset (p : α → Bool) (list : List α) : list.trim p ⊆ list := by
  intro element present
  rcases exists_trim p list with ⟨before, after, whole, -⟩
  rw [whole]
  simp [present]

end List
