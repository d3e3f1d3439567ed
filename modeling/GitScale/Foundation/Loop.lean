import Mathlib.Tactic.TypeStar

/-!
# Loops that read their surroundings

The body of a loop leaves with a result or goes on with another state.  What an iteration
reads from outside (clocks, answers of a service) is its input, and the inputs are given by
the number of the iteration, so one loop covers every behaviour of the surroundings.
-/

namespace GitScale.Foundation

variable {State Input Result : Type*}

/-- At most `fuel` iterations, the first of which reads the input number `first`. -/
def iterate (body : Input → State → Result ⊕ State) (inputs : Nat → Input) :
    Nat → Nat → State → Option Result
  | 0, _, _ => none
  | fuel + 1, first, state =>
      match body (inputs first) state with
      | .inl result => some result
      | .inr next => iterate body inputs fuel (first + 1) next

/-- The loop leaves after finitely many iterations. -/
def Returns (body : Input → State → Result ⊕ State) (inputs : Nat → Input) (first : Nat)
    (state : State) : Prop :=
  ∃ fuel result, iterate body inputs fuel first state = some result

section Rules

variable {body : Input → State → Result ⊕ State} {inputs : Nat → Input} {first : Nat}
  {state next : State}

theorem returns_of_inl {result : Result} (leaves : body (inputs first) state = .inl result) :
    Returns body inputs first state :=
  ⟨1, result, by simp only [iterate, leaves]⟩

theorem returns_of_inr (onward : body (inputs first) state = .inr next)
    (returns : Returns body inputs (first + 1) next) : Returns body inputs first state := by
  rcases returns with ⟨fuel, result, left⟩
  refine ⟨fuel + 1, result, ?_⟩
  simp only [iterate, onward]
  exact left

/-- A loop whose body keeps an invariant and never leaves from it runs forever. -/
theorem not_returns_of_invariant (Inv : State → Prop)
    (endless : ∀ first state, Inv state →
      ∃ next, body (inputs first) state = .inr next ∧ Inv next) (holds : Inv state) :
    ¬ Returns body inputs first state := by
  rintro ⟨fuel, result, left⟩
  induction fuel generalizing first state with
  | zero => cases left
  | succ fuel inductionHypothesis =>
      rcases endless first state holds with ⟨next, onward, kept⟩
      simp only [iterate, onward] at left
      exact inductionHypothesis kept left

/-- A loop returns when its iterations lower a variant, except that a state may be kept
until an input that is due for it; such an input has to come. -/
theorem returns_of_variant (Inv : State → Prop) (Due : State → Nat → Prop)
    (variant : State → Nat)
    (progress : ∀ first state next, Inv state → body (inputs first) state = .inr next →
      Inv next ∧ (variant next < variant state ∨ next = state ∧ ¬ Due state first))
    (fair : ∀ first state, Inv state → ∃ distance, Due state (first + distance))
    (holds : Inv state) : Returns body inputs first state := by
  induction bound : variant state using Nat.strongRecOn generalizing first state with
  | ind bound lower =>
      subst bound
      rcases fair first state holds with ⟨distance, due⟩
      -- the state stays the same until the input that is due, so count down to it
      induction distance generalizing first with
      | zero =>
          cases taken : body (inputs first) state with
          | inl result => exact returns_of_inl taken
          | inr next =>
              rcases progress first state next holds taken with ⟨kept, smaller | ⟨-, early⟩⟩
              · exact returns_of_inr taken (lower (variant next) smaller kept rfl)
              · exact absurd due early
      | succ distance inductionHypothesis =>
          cases taken : body (inputs first) state with
          | inl result => exact returns_of_inl taken
          | inr next =>
              rcases progress first state next holds taken with ⟨kept, smaller | ⟨rfl, -⟩⟩
              · exact returns_of_inr taken (lower (variant next) smaller kept rfl)
              · apply returns_of_inr taken
                apply inductionHypothesis
                rw [Nat.add_right_comm]
                exact due

end Rules

end GitScale.Foundation
