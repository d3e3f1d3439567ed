import GitScale.Foundation.Transition
import Mathlib.Data.List.Induction

/-!
# Invariants about the past

Some invariants say that what the state holds now was so at an earlier point of the run.  They
mention the states that the run has passed through, of which each step adds one.
-/

namespace GitScale.Foundation

variable {State Label : Type*} {step : State → Label → Option State}

/-- The run passes through the state. -/
def Visited (step : State → Label → Option State) (start : State) (schedule : List Label)
    (reached : State) : Prop :=
  ∃ front rest, schedule = front ++ rest ∧ run step start front = some reached

theorem visited_concat {start state next : State} {schedule : List Label} {label : Label}
    (completed : run step start schedule = some state) (taken : step state label = some next) :
    Visited step start (schedule ++ [label]) =
      fun reached => Visited step start schedule reached ∨ reached = next := by
  funext reached
  apply propext
  constructor
  · rintro ⟨front, rest, split, reaches⟩
    rcases List.eq_nil_or_concat rest with rfl | ⟨others, last, rfl⟩
    · rw [List.append_nil] at split
      subst split
      rw [run_append completed, run_cons_iff] at reaches
      rcases reaches with ⟨after, taken', done⟩
      cases taken.symm.trans taken'
      cases done
      exact .inr rfl
    · rw [List.concat_eq_append, ← List.append_assoc] at split
      rcases List.append_inj' split rfl with ⟨rfl, -⟩
      exact .inl ⟨front, others, rfl, reaches⟩
  · rintro (⟨front, rest, rfl, reaches⟩ | rfl)
    · exact ⟨front, rest ++ [label], by rw [List.append_assoc], reaches⟩
    · refine ⟨schedule ++ [label], [], by rw [List.append_nil], ?_⟩
      rw [run_append completed, run_cons_iff]
      exact ⟨reached, taken, rfl⟩

theorem Meets.of_append {guard : State → Label → Prop} {state : State} {front rest : List Label}
    (meets : Meets step guard state (front ++ rest)) : Meets step guard state front := by
  induction front generalizing state with
  | nil => trivial
  | cons label front inductionHypothesis =>
      exact ⟨meets.1, fun next taken => inductionHypothesis (meets.2 next taken)⟩

/-- Invariant rule for guarded runs, with the states seen so far at hand. -/
theorem invariant_of_visited {guard : State → Label → Prop} {Inv : (State → Prop) → State → Prop}
    {start : State} (initial : Inv (· = start) start)
    (preserved : ∀ seen state label next, guard state label → seen state → Inv seen state →
      step state label = some next → Inv (fun reached => seen reached ∨ reached = next) next) :
    ∀ (schedule : List Label) (final : State), Meets step guard start schedule →
      run step start schedule = some final → Inv (Visited step start schedule) final := by
  intro schedule
  induction schedule using List.reverseRecOn with
  | nil =>
      intro final _ completed
      cases completed
      have only : Visited step start [] = (· = start) := by
        funext reached
        apply propext
        constructor
        · rintro ⟨front, rest, split, reaches⟩
          rcases List.append_eq_nil_iff.mp split.symm with ⟨rfl, -⟩
          exact (Option.some.inj reaches).symm
        · rintro rfl
          exact ⟨[], [], rfl, rfl⟩
      rw [only]
      exact initial
  | append_singleton front label inductionHypothesis =>
      intro final meets completed
      rcases run_append_iff.mp completed with ⟨state, before, after⟩
      rcases run_cons_iff.mp after with ⟨next, taken, done⟩
      cases done
      have guarded : guard state label := (meets.of_run before).1
      have holds := inductionHypothesis state meets.of_append before
      rw [visited_concat before taken]
      exact preserved _ state label final guarded ⟨front, [], by simp, before⟩ holds taken

end GitScale.Foundation
