import Mathlib.Order.WellFounded
import Snode.Lib.Lts

/-!
# Fair executions

An execution goes on forever; where the system does nothing, it stays in the same
state.  Steps belong to actors.  An actor that can go on from some time on goes on at
some later time: with that, a rank that the actor in charge lowers and nobody else
raises leads to a goal.
-/

universe u v w

namespace Lts

variable {σ : Type u} {ι : Type v} {κ : Type w}

/-- An infinite sequence of steps and pauses. -/
structure Execution (system : Lts σ ι) where
  state : ℕ → σ
  label : ℕ → Option ι
  follows : ∀ time,
    (label time = none ∧ state (time + 1) = state time) ∨
      ∃ event, label time = some event ∧ system.step (state time) event (state (time + 1))

/-- An actor can do something in a state. -/
def Enabled (system : Lts σ ι) (actor : ι → Option κ) (who : κ) (s : σ) : Prop :=
  ∃ event t, actor event = some who ∧ system.step s event t

namespace Execution

variable {system : Lts σ ι} {actor : ι → Option κ}

/-- No actor waits forever for a step it can take all the time. -/
def Fair (execution : system.Execution) (actor : ι → Option κ) : Prop :=
  ∀ who start, (∀ time, start ≤ time → system.Enabled actor who (execution.state time)) →
    ∃ time event, start ≤ time ∧ execution.label time = some event ∧ actor event = some who

theorem reachable (execution : system.Execution) (time : ℕ) :
    system.Reachable (execution.state 0) (execution.state time) := by
  induction time with
  | zero => exact .refl _
  | succ time ih =>
      rcases execution.follows time with ⟨-, same⟩ | ⟨event, -, step⟩
      · rw [same]
        exact ih
      · exact ih.tail step

/-- The rule of progress: until the goal is reached, the actor in charge can go on and
lowers the rank when it does, and others leave the rank and the charge as they are. -/
theorem eventually {execution : system.Execution} (fair : execution.Fair actor)
    {β : Type*} [LT β] [WellFoundedLT β] (rank : σ → β) (charge : σ → κ) (going goal : σ → Prop)
    (enabled : ∀ time, going (execution.state time) →
      system.Enabled actor (charge (execution.state time)) (execution.state time))
    (progress : ∀ time event, going (execution.state time) →
      execution.label time = some event →
      goal (execution.state (time + 1)) ∨ going (execution.state (time + 1)) ∧
        (rank (execution.state (time + 1)) < rank (execution.state time) ∨
          rank (execution.state (time + 1)) = rank (execution.state time) ∧
            charge (execution.state (time + 1)) = charge (execution.state time) ∧
            actor event ≠ some (charge (execution.state time))))
    (start : ℕ) (starts : going (execution.state start)) :
    ∃ time, start ≤ time ∧ goal (execution.state time) := by
  generalize same : rank (execution.state start) = value
  induction value using WellFoundedLT.induction generalizing start with
  | ind value ih =>
      subst same
      by_contra never
      have later : ∀ time, start ≤ time → going (execution.state time) ∧
          rank (execution.state time) = rank (execution.state start) ∧
          charge (execution.state time) = charge (execution.state start) := by
        intro time after
        induction time, after using Nat.le_induction with
        | base => exact ⟨starts, rfl, rfl⟩
        | succ time after before =>
            rcases before with ⟨goes, sameRank, sameCharge⟩
            rcases execution.follows time with ⟨-, stays⟩ | ⟨event, label, -⟩
            · rw [stays]
              exact ⟨goes, sameRank, sameCharge⟩
            · rcases progress time event goes label with reached | ⟨goesOn, lower | kept⟩
              · exact (never ⟨time + 1, by omega, reached⟩).elim
              · rw [sameRank] at lower
                rcases ih _ lower (time + 1) goesOn rfl with ⟨reached, behind, atGoal⟩
                exact (never ⟨reached, by omega, atGoal⟩).elim
              · exact ⟨goesOn, kept.1.trans sameRank, kept.2.1.trans sameCharge⟩
      have allEnabled : ∀ time, start ≤ time →
          system.Enabled actor (charge (execution.state start)) (execution.state time) := by
        intro time after
        rcases later time after with ⟨goes, -, sameCharge⟩
        rw [← sameCharge]
        exact enabled time goes
      rcases fair _ start allEnabled with ⟨time, event, after, label, acts⟩
      rcases later time after with ⟨goes, sameRank, sameCharge⟩
      rcases progress time event goes label with reached | ⟨goesOn, lower | kept⟩
      · exact never ⟨time + 1, by omega, reached⟩
      · rw [sameRank] at lower
        rcases ih _ lower (time + 1) goesOn rfl with ⟨reached, behind, atGoal⟩
        exact never ⟨reached, by omega, atGoal⟩
      · rw [sameCharge] at kept
        exact kept.2.2 acts

/-- An actor that can never go on for good is treated fairly. -/
theorem fair_of_stuck {execution : system.Execution}
    (stuck : ∀ who start, ∃ time, start ≤ time ∧
      ¬system.Enabled actor who (execution.state time)) : execution.Fair actor := by
  intro who start enabled
  rcases stuck who start with ⟨time, after, disabled⟩
  exact (disabled (enabled time after)).elim

end Execution

/-- A run, after which nothing happens any more. -/
theorem Run.execution {system : Lts σ ι} {s t : σ} {labels : List ι} (run : system.Run s labels t) :
    ∃ execution : system.Execution, execution.state 0 = s ∧
      ∀ time, labels.length ≤ time → execution.state time = t := by
  induction run with
  | nil =>
      refine ⟨⟨fun _ => s, fun _ => none, fun _ => .inl ⟨rfl, rfl⟩⟩, rfl, fun _ _ => rfl⟩
  | @snoc t u labels label run step ih =>
      rcases ih with ⟨before, begins, ends⟩
      let state (time : ℕ) := if time ≤ labels.length then before.state time else u
      let label? (time : ℕ) :=
        if time < labels.length then before.label time
        else if time = labels.length then some label else none
      refine ⟨⟨state, label?, fun time => ?_⟩, ?_, fun time after => ?_⟩
      · rcases lt_trichotomy time labels.length with early | rfl | late
        · have now : state time = before.state time := if_pos early.le
          have next : state (time + 1) = before.state (time + 1) := if_pos early
          have same : label? time = before.label time := if_pos early
          rw [now, next, same]
          exact before.follows time
        · have now : state labels.length = t := (if_pos le_rfl).trans (ends _ le_rfl)
          have next : state (labels.length + 1) = u := if_neg (Nat.not_succ_le_self _)
          have same : label? labels.length = some label :=
            (if_neg (lt_irrefl _)).trans (if_pos rfl)
          rw [now, next, same]
          exact .inr ⟨label, rfl, step⟩
        · have now : state time = u := if_neg late.not_ge
          have next : state (time + 1) = u := if_neg (late.trans (Nat.lt_succ_self time)).not_ge
          have same : label? time = none := (if_neg late.not_gt).trans (if_neg late.ne')
          rw [now, next, same]
          exact .inl ⟨rfl, rfl⟩
      · have first : state 0 = before.state 0 := if_pos (Nat.zero_le _)
        exact first.trans begins
      · rw [List.length_append, List.length_singleton] at after
        exact if_neg (Nat.not_le_of_lt after)

end Lts
