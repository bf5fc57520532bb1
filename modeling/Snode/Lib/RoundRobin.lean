import Mathlib.Data.Int.CardIntervalMod
import Mathlib.Data.List.Nodup

/-!
# Taking turns

Entries with the indices up to a period are taken one after the other, from some index on
and then from the first one again.
-/

universe u

namespace List

variable {α : Type u}

/-- The entries of some turns. -/
def turns (entry : ℕ → α) (period start count : ℕ) : List α :=
  (range count).map fun turn => entry ((start + turn) % period)

variable {entry : ℕ → α} {period : ℕ}

@[simp]
theorem turns_zero (entry : ℕ → α) (period start : ℕ) : turns entry period start 0 = [] :=
  rfl

@[simp]
theorem length_turns (entry : ℕ → α) (period start count : ℕ) :
    (turns entry period start count).length = count := by
  rw [turns, length_map, length_range]

theorem turns_succ (entry : ℕ → α) (period start count : ℕ) :
    turns entry period start (count + 1) =
      entry (start % period) :: turns entry period (start + 1) count := by
  rw [turns, range_succ_eq_map, map_cons, map_map, turns]
  simp [Function.comp_def, Nat.add_assoc, Nat.add_comm 1]

/-- Only the place of the start in the period counts. -/
theorem turns_mod (entry : ℕ → α) (period start count : ℕ) :
    turns entry period (start % period) count = turns entry period start count := by
  simp only [turns, Nat.mod_add_mod]

theorem mem_turns (positive : 0 < period) {start count : ℕ} {value : α}
    (present : value ∈ turns entry period start count) : ∃ index < period, entry index = value := by
  rcases mem_map.mp present with ⟨turn, -, rfl⟩
  exact ⟨(start + turn) % period, Nat.mod_lt _ positive, rfl⟩

/-- Nobody's turn comes twice within a period. -/
theorem nodup_turns (distinct : ∀ i < period, ∀ j < period, entry i = entry j → i = j)
    (start : ℕ) {count : ℕ} (within : count ≤ period) :
    (turns entry period start count).Nodup := by
  apply Nodup.map_on _ nodup_range
  intro first firstIn second secondIn same
  rw [mem_range] at firstIn secondIn
  have positive : 0 < period := by omega
  have place := distinct _ (Nat.mod_lt _ positive) _ (Nat.mod_lt _ positive) same
  have congruent : first ≡ second [MOD period] := Nat.ModEq.add_left_cancel' start place
  exact Nat.ModEq.eq_of_lt_of_lt congruent (by omega) (by omega)

/-- The turns of an index are those of one residue. -/
theorem turn_eq_iff (start turn : ℕ) {index : ℕ} (inside : index < period) :
    (start + turn) % period = index ↔
      turn ≡ index + (period - start % period) [MOD period] := by
  have parts := Nat.mod_add_div start period
  have below := Nat.mod_lt start (by omega : 0 < period)
  have whole : start + (index + (period - start % period)) =
      index + period * (start / period + 1) := by
    rw [Nat.mul_add_one]
    omega
  have back : start + (index + (period - start % period)) ≡ index [MOD period] := by
    rw [whole]
    exact Nat.add_mul_mod_self_left _ _ _
  constructor
  · intro here
    apply Nat.ModEq.add_left_cancel' start
    apply Nat.ModEq.trans _ back.symm
    rw [Nat.ModEq, here, Nat.mod_eq_of_lt inside]
  · intro congruent
    have forth := (congruent.add_left start).trans back
    rwa [Nat.ModEq, Nat.mod_eq_of_lt inside] at forth

/-- An entry has had its turn in every full period, and perhaps in the one that was begun. -/
theorem count_turns [BEq α] [LawfulBEq α]
    (distinct : ∀ i < period, ∀ j < period, entry i = entry j → i = j)
    (start count : ℕ) {index : ℕ} (inside : index < period) :
    (turns entry period start count).count (entry index) = count / period +
      if (index + (period - start % period)) % period < count % period then 1 else 0 := by
  have positive : 0 < period := by omega
  rw [turns, List.count, countP_map, ← Nat.count_modEq_card _ positive, Nat.count]
  apply countP_congr
  intro turn _
  rw [Function.comp_apply, beq_iff_eq, decide_eq_true_eq, ← turn_eq_iff start turn inside]
  constructor
  · exact distinct _ (Nat.mod_lt _ positive) _ inside
  · exact congrArg entry

/-- No entry is two turns ahead of another one. -/
theorem count_turns_le [BEq α] [LawfulBEq α]
    (distinct : ∀ i < period, ∀ j < period, entry i = entry j → i = j)
    (start count : ℕ) {index other : ℕ} (inside : index < period) (otherInside : other < period) :
    (turns entry period start count).count (entry index) ≤
      (turns entry period start count).count (entry other) + 1 := by
  rw [count_turns distinct start count inside, count_turns distinct start count otherInside]
  split <;> split <;> omega

end List
