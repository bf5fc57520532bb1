import Mathlib.Data.List.Induction

/-!
# Indices that wrap around

A list stored one element after the other at positions counted modulo a period, as by an
index that overflows.  Each position holds the last element that was stored there.
-/

namespace List

variable {α : Type*}

/-- Stores the elements of a list in a target, from a position on. -/
def storeWrapped (period : ℕ) : ℕ → List α → List α → List α
  | _, target, [] => target
  | position, target, value :: rest =>
      storeWrapped period (position + 1) (target.set (position % period) value) rest

/-- The last of `count` positions that is stored at an index. -/
def lastStored (period count index : ℕ) : ℕ :=
  index + period * ((count - 1 - index) / period)

/-- Every element that is stored over another one, or that another one is stored over, is
blank. -/
def SurvivesWrap (period : ℕ) (blank : α) (values : List α) : Prop :=
  ∀ index value, values[index]? = some value →
    period ≤ index ∨ index + period < values.length → value = blank

variable {period : ℕ}

@[simp]
theorem length_storeWrapped (position : ℕ) (target values : List α) :
    (storeWrapped period position target values).length = target.length := by
  induction values generalizing position target with
  | nil => rfl
  | cons value rest ih => rw [storeWrapped, ih, length_set]

theorem storeWrapped_concat (position : ℕ) (target front : List α) (last : α) :
    storeWrapped period position target (front ++ [last]) =
      (storeWrapped period position target front).set
        ((position + front.length) % period) last := by
  induction front generalizing position target with
  | nil => rfl
  | cons value rest ih =>
      have further : position + 1 + rest.length = position + (value :: rest).length := by
        simp only [length_cons]
        omega
      rw [cons_append, storeWrapped, storeWrapped, ih, further]

theorem lastStored_self (count index : ℕ) (residue : count % period = index) :
    lastStored period (count + 1) index = count := by
  have parts := Nat.mod_add_div count period
  have distance : count + 1 - 1 - index = period * (count / period) := by omega
  rcases Nat.eq_zero_or_pos period with none | positive
  · subst none
    simp only [lastStored, Nat.zero_mul, Nat.add_zero]
    simpa using residue.symm
  · rw [lastStored, distance, Nat.mul_div_cancel_left _ positive, ← residue]
    exact parts

theorem lastStored_succ {count index : ℕ} (inside : index < count) (within : index < period)
    (other : count % period ≠ index) :
    lastStored period (count + 1) index = lastStored period count index := by
  have positive : 0 < period := by omega
  have indivisible : ¬period ∣ count - index := by
    rintro ⟨turns, distance⟩
    apply other
    have whole : count = index + period * turns := by omega
    rw [whole, Nat.add_mul_mod_self_left, Nat.mod_eq_of_lt within]
  have previous : count - index = count - 1 - index + 1 := by omega
  have turns : (count - index) / period = (count - 1 - index) / period := by
    rw [previous, Nat.succ_div, if_neg, Nat.add_zero]
    rw [← previous]
    exact indivisible
  have same : count + 1 - 1 - index = count - index := by omega
  rw [lastStored, lastStored, same, turns]

theorem lastStored_lt {count index : ℕ} (inside : index < count) :
    lastStored period count index < count := by
  have turns := Nat.mul_div_le (count - 1 - index) period
  rw [lastStored]
  omega

theorem le_lastStored {count index : ℕ} (positive : 0 < period)
    (further : index + period < count) : period ≤ lastStored period count index := by
  have turn : 1 ≤ (count - 1 - index) / period := by
    rw [Nat.le_div_iff_mul_le positive]
    omega
  have whole := Nat.mul_le_mul_left period turn
  rw [lastStored]
  omega

theorem lastStored_of_le {count index : ℕ} (inside : index < count)
    (last : count ≤ index + period) : lastStored period count index = index := by
  have none : (count - 1 - index) / period = 0 := by
    apply Nat.div_eq_of_lt
    omega
  rw [lastStored, none, Nat.mul_zero, Nat.add_zero]

/-- By induction from the end of the list: the last store decides about its own position. -/
theorem getElem?_storeWrapped (positive : 0 < period) {target values : List α}
    (fits : values.length ≤ target.length) (index : ℕ) :
    (storeWrapped period 0 target values)[index]? =
      if index < period ∧ index < values.length then
        values[lastStored period values.length index]?
      else target[index]? := by
  induction values using reverseRecOn with
  | nil => simp [storeWrapped]
  | append_singleton front last ih =>
      have shorter : front.length + 1 ≤ target.length := by simpa using fits
      rw [storeWrapped_concat, Nat.zero_add, getElem?_set, ih (by omega), length_append,
        length_singleton, length_storeWrapped]
      by_cases here : front.length % period = index
      · have within : index < period := by
          rw [← here]
          exact Nat.mod_lt _ positive
        have reached : index ≤ front.length := by
          rw [← here]
          exact Nat.mod_le _ _
        rw [if_pos here, if_pos (by omega), if_pos ⟨within, by omega⟩, lastStored_self _ _ here,
          getElem?_concat_length]
      · rw [if_neg here]
        by_cases within : index < period ∧ index < front.length
        · rw [if_pos within, if_pos ⟨within.1, by omega⟩,
            lastStored_succ within.2 within.1 here,
            getElem?_append_left (lastStored_lt within.2)]
        · have outside : ¬(index < period ∧ index < front.length + 1) := by
            rintro ⟨small, reached⟩
            have atEnd : front.length = index := by omega
            apply here
            rw [atEnd, Nat.mod_eq_of_lt small]
          rw [if_neg within, if_neg outside]

/-- A list comes back as it was from a blank target of its length if and only if it survives
the wrapping. -/
theorem storeWrapped_eq_iff (positive : 0 < period) (blank : α) (values : List α) :
    storeWrapped period 0 (replicate values.length blank) values = values ↔
      values.SurvivesWrap period blank := by
  have fits : values.length ≤ (replicate values.length blank).length := by simp
  have stored := getElem?_storeWrapped positive fits
  constructor
  · intro same
    rw [same] at stored
    have beyond : ∀ index value, values[index]? = some value → period ≤ index →
        value = blank := by
      intro index value present far
      have inside := (getElem?_eq_some_iff.mp present).1
      have kept := stored index
      rw [present, if_neg (by omega), getElem?_replicate, if_pos inside] at kept
      exact Option.some.inj kept
    intro index value present lost
    have inside := (getElem?_eq_some_iff.mp present).1
    by_cases far : period ≤ index
    · exact beyond index value present far
    · have overwritten : index + period < values.length := by omega
      have kept := stored index
      rw [present, if_pos ⟨by omega, inside⟩] at kept
      exact beyond _ value kept.symm (le_lastStored positive overwritten)
  · intro survives
    apply ext_getElem?
    intro index
    rw [stored index]
    by_cases within : index < period ∧ index < values.length
    · rw [if_pos within]
      by_cases overwritten : index + period < values.length
      · have before : lastStored period values.length index < values.length :=
          lastStored_lt within.2
        have later := getElem?_eq_getElem before
        have here := getElem?_eq_getElem within.2
        rw [later, here,
          survives _ _ later (.inl (le_lastStored positive overwritten)),
          survives _ _ here (.inr overwritten)]
      · rw [lastStored_of_le within.2 (by omega)]
    · rw [if_neg within, getElem?_replicate]
      by_cases inside : index < values.length
      · have here := getElem?_eq_getElem inside
        rw [if_pos inside, here, survives _ _ here (.inl (by omega))]
      · rw [if_neg inside, getElem?_eq_none (by omega)]

theorem survivesWrap_of_le {blank : α} {values : List α} (short : values.length ≤ period) :
    values.SurvivesWrap period blank := by
  intro index value present lost
  have inside := (getElem?_eq_some_iff.mp present).1
  omega

end List
