import Mathlib.Data.List.Basic

/-!
# Labelled transition systems

States, labels and runs, with the rules by which the rest of the development
reasons about whole runs: an inductive invariant holds of every state reached,
and what is computed step by step is a run.
-/

universe u v

/-- A labelled transition system with states `σ` and labels `ι`. -/
structure Lts (σ : Type u) (ι : Type v) where
  /-- `step s i t`: in state `s` the system can do `i` and then be in state `t`. -/
  step : σ → ι → σ → Prop

namespace Lts

variable {σ : Type u} {ι : Type v} {system : Lts σ ι}

/-- A finite run, extended at its end so that histories grow the way they are recorded. -/
inductive Run (system : Lts σ ι) : σ → List ι → σ → Prop where
  | nil (s : σ) : Run system s [] s
  | snoc {s t u : σ} {labels : List ι} {label : ι} (run : Run system s labels t)
      (step : system.step t label u) : Run system s (labels ++ [label]) u

/-- The states some run reaches. -/
def Reachable (system : Lts σ ι) (s t : σ) : Prop :=
  ∃ labels, system.Run s labels t

/-- The steps with an allowed label. -/
def restrict (system : Lts σ ι) (allowed : ι → Prop) : Lts σ ι where
  step s label t := allowed label ∧ system.step s label t

/-- The steps that are allowed in the state they are taken in. -/
def guard (system : Lts σ ι) (allowed : σ → ι → Prop) : Lts σ ι where
  step s label t := allowed s label ∧ system.step s label t

namespace Run

theorem single {s t : σ} {label : ι} (step : system.step s label t) :
    system.Run s [label] t :=
  Run.snoc (Run.nil s) step

theorem append {s t u : σ} {first second : List ι} (left : system.Run s first t)
    (right : system.Run t second u) : system.Run s (first ++ second) u := by
  induction right with
  | nil => simpa using left
  | snoc _ step ih =>
      rw [← List.append_assoc]
      exact Run.snoc ih step

theorem cons {s t u : σ} {label : ι} {labels : List ι} (step : system.step s label t)
    (run : system.Run t labels u) : system.Run s (label :: labels) u :=
  (single step).append run

/-- A run can be cut anywhere. -/
theorem split {s u : σ} {first second : List ι} (run : system.Run s (first ++ second) u) :
    ∃ t, system.Run s first t ∧ system.Run t second u := by
  generalize whole : first ++ second = labels at run
  induction run generalizing second with
  | nil =>
      rcases List.append_eq_nil_iff.mp whole with ⟨rfl, rfl⟩
      exact ⟨s, .nil s, .nil s⟩
  | @snoc t u labels label run step ih =>
      rcases List.eq_nil_or_concat' second with rfl | ⟨front, last, rfl⟩
      · rw [List.append_nil] at whole
        exact ⟨u, whole ▸ .snoc run step, .nil u⟩
      · rw [← List.append_assoc] at whole
        rcases List.append_inj' whole rfl with ⟨sameLabels, sameLabel⟩
        rcases List.cons.inj sameLabel with ⟨rfl, -⟩
        rcases ih sameLabels with ⟨middle, before, after⟩
        exact ⟨middle, before, .snoc after step⟩

/-- Where steps are computed, so are runs. -/
theorem eq_foldl {s t : σ} {labels : List ι} (run : system.Run s labels t) {exec : σ → ι → σ}
    (computed : ∀ s label t, system.step s label t → t = exec s label) :
    t = labels.foldl exec s := by
  induction run with
  | nil => rfl
  | snoc _ step ih => rw [List.foldl_concat, ← ih, computed _ _ _ step]

theorem restrict {s t : σ} {labels : List ι} (run : system.Run s labels t) {allowed : ι → Prop}
    (all : ∀ label ∈ labels, allowed label) : (system.restrict allowed).Run s labels t := by
  induction run with
  | nil => exact Run.nil _
  | snoc _ step ih =>
      exact Run.snoc (ih fun label present => all label (List.mem_append_left _ present))
        ⟨all _ (by simp), step⟩

/-- A run is one of another system when an invariant makes its steps so. -/
theorem transfer {s t : σ} {labels : List ι} (run : system.Run s labels t) {other : Lts σ ι}
    (property : σ → Prop) (initially : property s)
    (preserved : ∀ s label t, property s → system.step s label t → property t)
    (same : ∀ s label t, property s → system.step s label t → other.step s label t) :
    other.Run s labels t := by
  have both : property t ∧ other.Run s labels t := by
    induction run with
    | nil => exact ⟨initially, Run.nil _⟩
    | snoc _ step ih =>
        exact ⟨preserved _ _ _ ih.1 step, Run.snoc ih.2 (same _ _ _ ih.1 step)⟩
  exact both.2

theorem mono {s t : σ} {labels : List ι} (run : system.Run s labels t) {other : Lts σ ι}
    (weaker : ∀ s label t, system.step s label t → other.step s label t) :
    other.Run s labels t :=
  run.transfer (fun _ => True) trivial (fun _ _ _ _ _ => trivial)
    fun s label t _ step => weaker s label t step

/-- The rule of invariants: what holds at the start and is kept by every step holds
wherever a run arrives. -/
theorem invariant {s t : σ} {labels : List ι} (run : system.Run s labels t)
    (property : σ → Prop) (initially : property s)
    (preserved : ∀ s label t, property s → system.step s label t → property t) :
    property t := by
  induction run with
  | nil => exact initially
  | snoc _ step ih => exact preserved _ _ _ ih step

/-- The same rule for properties of the labels of the run and the state it arrived in. -/
theorem history {s t : σ} {labels : List ι} (run : system.Run s labels t)
    (property : List ι → σ → Prop) (initially : property [] s)
    (preserved : ∀ labels t label u, property labels t → system.step t label u →
      property (labels ++ [label]) u) :
    property labels t := by
  induction run with
  | nil => exact initially
  | snoc _ step ih => exact preserved _ _ _ _ ih step

end Run

namespace Reachable

theorem refl (s : σ) : system.Reachable s s :=
  ⟨[], Run.nil s⟩

theorem tail {s t u : σ} {label : ι} (reachable : system.Reachable s t)
    (step : system.step t label u) : system.Reachable s u := by
  rcases reachable with ⟨labels, run⟩
  exact ⟨labels ++ [label], Run.snoc run step⟩

theorem head {s t u : σ} {label : ι} (step : system.step s label t)
    (reachable : system.Reachable t u) : system.Reachable s u := by
  rcases reachable with ⟨labels, run⟩
  exact ⟨label :: labels, Run.cons step run⟩

theorem trans {s t u : σ} (first : system.Reachable s t) (second : system.Reachable t u) :
    system.Reachable s u := by
  rcases first with ⟨before, run⟩
  rcases second with ⟨after, rest⟩
  exact ⟨before ++ after, run.append rest⟩

theorem mono {s t : σ} (reachable : system.Reachable s t) {other : Lts σ ι}
    (weaker : ∀ s label t, system.step s label t → other.step s label t) :
    other.Reachable s t := by
  rcases reachable with ⟨labels, run⟩
  exact ⟨labels, run.mono weaker⟩

theorem invariant {s t : σ} (reachable : system.Reachable s t) (property : σ → Prop)
    (initially : property s)
    (preserved : ∀ s label t, property s → system.step s label t → property t) :
    property t := by
  rcases reachable with ⟨labels, run⟩
  exact run.invariant property initially preserved

end Reachable

/-- What `exec` computes are steps of the system, label after label. -/
def Follows (system : Lts σ ι) (exec : σ → ι → σ) : σ → List ι → Prop
  | _, [] => True
  | s, label :: labels =>
      system.step s label (exec s label) ∧ Follows system exec (exec s label) labels

theorem follows_append {exec : σ → ι → σ} {s : σ} {first second : List ι} :
    system.Follows exec s (first ++ second) ↔
      system.Follows exec s first ∧ system.Follows exec (first.foldl exec s) second := by
  induction first generalizing s with
  | nil => simp [Follows]
  | cons label first ih => rw [List.cons_append, Follows, Follows, ih, and_assoc, List.foldl_cons]

theorem Follows.run {exec : σ → ι → σ} {s : σ} {labels : List ι}
    (follows : system.Follows exec s labels) : system.Run s labels (labels.foldl exec s) := by
  induction labels generalizing s with
  | nil => exact .nil s
  | cons label labels ih => exact .cons follows.1 (ih follows.2)

theorem Follows.reachable {exec : σ → ι → σ} {s : σ} {labels : List ι}
    (follows : system.Follows exec s labels) : system.Reachable s (labels.foldl exec s) :=
  ⟨labels, follows.run⟩

end Lts
