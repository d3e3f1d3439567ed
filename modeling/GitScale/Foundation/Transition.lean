import Mathlib.Logic.Basic
import Mathlib.Tactic.TypeStar

/-!
# Partial transition systems

A component is described by one partial step function: `step state label` is the
state reached by taking `label`, or `none` when `label` is not enabled.  A
schedule is a list of labels, so an interleaving of several processes is just one
schedule.  The two rules below turn a fact about one step into a fact about every
run; the second one restricts the steps that a run may take.
-/

namespace GitScale.Foundation

variable {State Label : Type*}

/-- Execute a schedule.  The result is `none` as soon as one label is not
enabled. -/
def run (step : State → Label → Option State) :
    State → List Label → Option State
  | state, [] => some state
  | state, label :: rest =>
      match step state label with
      | none => none
      | some next => run step next rest

/-- Every label of the schedule is taken from a state that `guard` accepts for
it. -/
def Meets (step : State → Label → Option State)
    (guard : State → Label → Prop) : State → List Label → Prop
  | _, [] => True
  | state, label :: rest =>
      guard state label ∧
        ∀ next, step state label = some next → Meets step guard next rest

variable {step : State → Label → Option State} {guard : State → Label → Prop}

/-- Guarded runs can be checked by executing them. -/
instance decidableMeets [∀ state label, Decidable (guard state label)] :
    ∀ (state : State) (schedule : List Label),
      Decidable (Meets step guard state schedule)
  | _, [] => isTrue trivial
  | state, label :: rest =>
      match taken : step state label with
      | none =>
          decidable_of_iff (guard state label) (by simp [Meets, taken])
      | some next =>
          have := decidableMeets next rest
          decidable_of_iff (guard state label ∧ Meets step guard next rest)
            (by simp [Meets, taken])

@[simp] theorem run_nil (state : State) : run step state [] = some state := rfl

/-- A completed run of a nonempty schedule begins with an enabled step. -/
theorem run_cons_iff {state final : State} {label : Label} {rest : List Label} :
    run step state (label :: rest) = some final ↔
      ∃ next, step state label = some next ∧ run step next rest = some final := by
  have unfolds : run step state (label :: rest) =
      match step state label with
      | none => none
      | some next => run step next rest := rfl
  rw [unfolds]
  cases taken : step state label with
  | none =>
      constructor
      · intro completed
        cases completed
      · rintro ⟨next, found, -⟩
        cases found
  | some next =>
      constructor
      · intro completed
        exact ⟨next, rfl, completed⟩
      · rintro ⟨_, ⟨⟩, completed⟩
        exact completed

/-- Completed runs compose. -/
theorem run_append {front : List Label} {state reached : State}
    (completed : run step state front = some reached) (rest : List Label) :
    run step state (front ++ rest) = run step reached rest := by
  induction front generalizing state with
  | nil =>
      cases completed
      rfl
  | cons label front inductionHypothesis =>
      rcases run_cons_iff.mp completed with ⟨next, taken, completed⟩
      rw [List.cons_append, run, taken]
      exact inductionHypothesis completed

/-- A completed run can be cut anywhere. -/
theorem run_append_iff {front rest : List Label} {state final : State} :
    run step state (front ++ rest) = some final ↔
      ∃ reached, run step state front = some reached ∧ run step reached rest = some final := by
  constructor
  · intro completed
    induction front generalizing state with
    | nil => exact ⟨state, rfl, completed⟩
    | cons label front inductionHypothesis =>
        rcases run_cons_iff.mp completed with ⟨next, taken, completed⟩
        obtain ⟨reached, before, after⟩ := inductionHypothesis completed
        exact ⟨reached, run_cons_iff.mpr ⟨next, taken, before⟩, after⟩
  · rintro ⟨reached, before, after⟩
    rw [run_append before, after]

/-- A guard that looks at the label only holds all along when it holds of every label. -/
theorem meets_of_forall {accept : Label → Prop} (schedule : List Label) :
    ∀ state : State, (∀ label ∈ schedule, accept label) →
      Meets step (fun _ label => accept label) state schedule := by
  induction schedule with
  | nil => exact fun _ _ => trivial
  | cons label rest inductionHypothesis =>
      intro state accepted
      refine ⟨accepted label List.mem_cons_self, ?_⟩
      intro next _
      exact inductionHypothesis next fun other member => accepted other (.tail label member)

/-- A guarded step, and the guard of the rest after it. -/
theorem Meets.cons {state next : State} {label : Label} {rest : List Label}
    (guarded : guard state label) (taken : step state label = some next)
    (later : Meets step guard next rest) : Meets step guard state (label :: rest) := by
  refine ⟨guarded, ?_⟩
  intro reached same
  rcases Option.some.inj (taken.symm.trans same) with rfl
  exact later

/-- Two guards of a run are one. -/
theorem Meets.and {other : State → Label → Prop} {state : State} {schedule : List Label}
    (meets : Meets step guard state schedule) (meets' : Meets step other state schedule) :
    Meets step (fun state label => guard state label ∧ other state label) state schedule := by
  induction schedule generalizing state with
  | nil => trivial
  | cons label rest inductionHypothesis =>
      refine ⟨⟨meets.1, meets'.1⟩, ?_⟩
      intro next taken
      exact inductionHypothesis (meets.2 next taken) (meets'.2 next taken)

/-- What remains of a guarded run is guarded. -/
theorem Meets.of_run {front rest : List Label} {state reached : State}
    (meets : Meets step guard state (front ++ rest))
    (completed : run step state front = some reached) : Meets step guard reached rest := by
  induction front generalizing state with
  | nil =>
      cases completed
      exact meets
  | cons label front inductionHypothesis =>
      rcases run_cons_iff.mp completed with ⟨next, taken, completed⟩
      exact inductionHypothesis (meets.2 next taken) completed

/-- Invariant rule for runs whose steps all satisfy a guard. -/
theorem invariant_of_meets {Inv : State → Prop}
    (preserved : ∀ state label next, guard state label → Inv state →
      step state label = some next → Inv next) :
    ∀ (schedule : List Label) (state final : State),
      Meets step guard state schedule → Inv state →
      run step state schedule = some final → Inv final := by
  intro schedule
  induction schedule with
  | nil =>
      intro state final _ holds reached
      cases reached
      exact holds
  | cons label rest inductionHypothesis =>
      intro state final meets holds reached
      rcases run_cons_iff.mp reached with ⟨next, taken, reached⟩
      exact inductionHypothesis next final (meets.2 next taken)
        (preserved state label next meets.1 holds taken) reached

/-- Invariant rule for arbitrary runs. -/
theorem invariant_of_run {Inv : State → Prop}
    (preserved : ∀ state label next, Inv state →
      step state label = some next → Inv next) :
    ∀ (schedule : List Label) (state final : State), Inv state →
      run step state schedule = some final → Inv final := by
  intro schedule
  induction schedule with
  | nil =>
      intro state final holds reached
      cases reached
      exact holds
  | cons label rest inductionHypothesis =>
      intro state final holds reached
      rcases run_cons_iff.mp reached with ⟨next, taken, reached⟩
      exact inductionHypothesis next final
        (preserved state label next holds taken) reached

/-- `Inv` holds in every state that the schedule passes through. -/
def Throughout (step : State → Label → Option State) (Inv : State → Prop)
    (state : State) (schedule : List Label) : Prop :=
  ∀ front rest reached, schedule = front ++ rest →
    run step state front = some reached → Inv reached

theorem throughout_cons_iff {Inv : State → Prop} {state : State} {label : Label}
    {rest : List Label} :
    Throughout step Inv state (label :: rest) ↔
      Inv state ∧ ∀ next, step state label = some next → Throughout step Inv next rest := by
  constructor
  · intro throughout
    refine ⟨throughout [] (label :: rest) state rfl rfl, ?_⟩
    intro next taken front remaining reached split completed
    apply throughout (label :: front) remaining reached
    · rw [split, List.cons_append]
    · exact run_cons_iff.mpr ⟨next, taken, completed⟩
  · intro both front remaining reached split completed
    cases front with
    | nil =>
        cases completed
        exact both.1
    | cons first front =>
        rcases List.cons.inj split with ⟨rfl, tail⟩
        rcases run_cons_iff.mp completed with ⟨next, taken, completed⟩
        exact both.2 next taken front remaining reached tail completed

/-- A run whose steps all satisfy a guard keeps the invariant all along. -/
theorem throughout_of_meets {Inv : State → Prop}
    (preserved : ∀ state label next, guard state label → Inv state →
      step state label = some next → Inv next) :
    ∀ (schedule : List Label) (state : State), Meets step guard state schedule → Inv state →
      Throughout step Inv state schedule := by
  intro schedule
  induction schedule with
  | nil =>
      intro state _ holds front rest reached split completed
      rcases List.append_eq_nil_iff.mp split.symm with ⟨rfl, -⟩
      cases completed
      exact holds
  | cons label rest inductionHypothesis =>
      intro state meets holds
      refine throughout_cons_iff.mpr ⟨holds, ?_⟩
      intro next taken
      exact inductionHypothesis next (meets.2 next taken)
        (preserved state label next meets.1 holds taken)

/-- When the guard says exactly which steps keep the invariant, the invariant holds
throughout a run if and only if every step meets the guard. -/
theorem throughout_iff_meets {Inv : State → Prop}
    (exact_guard : ∀ state label next, Inv state → step state label = some next →
      (Inv next ↔ guard state label))
    (disabled : ∀ state label, step state label = none → guard state label) :
    ∀ (schedule : List Label) (state : State), Inv state →
      (Throughout step Inv state schedule ↔ Meets step guard state schedule) := by
  intro schedule
  induction schedule with
  | nil =>
      intro state holds
      refine iff_of_true ?_ trivial
      intro front rest reached split completed
      rcases List.append_eq_nil_iff.mp split.symm with ⟨rfl, -⟩
      cases completed
      exact holds
  | cons label rest inductionHypothesis =>
      intro state holds
      rw [throughout_cons_iff]
      cases taken : step state label with
      | none => simp [Meets, taken, holds, disabled state label taken]
      | some next =>
          have one := exact_guard state label next holds taken
          simp only [Meets, taken, holds, true_and, Option.some.injEq, forall_eq']
          constructor
          · intro throughout
            have kept : Inv next := throughout [] rest next rfl rfl
            exact ⟨one.mp kept, (inductionHypothesis next kept).mp throughout⟩
          · intro both
            exact (inductionHypothesis next (one.mpr both.1)).mpr both.2

/-- When a step that misses the guard leads to states that are never repaired, a run ends in
the invariant if and only if all of its steps meet the guard. -/
theorem meets_iff_of_doomed {assumed : State → Label → Prop} {Inv Doomed : State → Prop}
    (kept : ∀ state label next, assumed state label → guard state label → Inv state →
      step state label = some next → Inv next)
    (dooms : ∀ state label next, assumed state label → ¬ guard state label → Inv state →
      step state label = some next → Doomed next)
    (stays : ∀ state label next, assumed state label → Doomed state →
      step state label = some next → Doomed next)
    (apart : ∀ state, Inv state → ¬ Doomed state) :
    ∀ (schedule : List Label) (state final : State),
      Meets step assumed state schedule → Inv state →
      run step state schedule = some final →
      (Inv final ↔ Meets step guard state schedule) := by
  intro schedule
  induction schedule with
  | nil =>
      intro state final _ holds reached
      cases reached
      exact iff_of_true holds trivial
  | cons label rest inductionHypothesis =>
      intro state final meets holds reached
      rcases run_cons_iff.mp reached with ⟨next, taken, reached⟩
      have onward := meets.2 next taken
      by_cases guarded : guard state label
      · have next_holds := kept state label next meets.1 guarded holds taken
        rw [inductionHypothesis next final onward next_holds reached]
        simp [Meets, guarded, taken]
      · have doomed := dooms state label next meets.1 guarded holds taken
        have final_doomed := invariant_of_meets stays rest next final onward doomed reached
        refine iff_of_false ?_ ?_
        · intro final_holds
          exact apart final final_holds final_doomed
        · intro guarded_run
          exact guarded guarded_run.1

/-- An invariant that every run keeps can be assumed while another one is looked at. -/
theorem throughout_and_iff {Aux Inv : State → Prop}
    (preserved : ∀ state label next, Aux state → step state label = some next → Aux next)
    {state : State} (holds : Aux state) (schedule : List Label) :
    Throughout step (fun reached => Aux reached ∧ Inv reached) state schedule ↔
      Throughout step Inv state schedule := by
  constructor
  · intro both front rest reached split completed
    exact (both front rest reached split completed).2
  · intro throughout front rest reached split completed
    exact ⟨invariant_of_run preserved front state reached holds completed,
      throughout front rest reached split completed⟩

/-- `Rel` relates every state that the schedule passes through to every later one. -/
def Onward (step : State → Label → Option State) (Rel : State → State → Prop)
    (state : State) (schedule : List Label) : Prop :=
  ∀ front between rest earlier later, schedule = front ++ (between ++ rest) →
    run step state front = some earlier → run step earlier between = some later →
    Rel earlier later

/-- When the guard says exactly which steps stay within a preorder, the states of a run
are ordered by it if and only if every step meets the guard. -/
theorem onward_iff_meets {Rel : State → State → Prop} (refl : ∀ state, Rel state state)
    (trans : ∀ first second third, Rel first second → Rel second third → Rel first third)
    (exact_guard : ∀ state label next, step state label = some next →
      (Rel state next ↔ guard state label))
    (disabled : ∀ state label, step state label = none → guard state label) :
    ∀ (schedule : List Label) (state : State),
      Onward step Rel state schedule ↔ Meets step guard state schedule := by
  intro schedule state
  constructor
  · intro onward
    induction schedule generalizing state with
    | nil => trivial
    | cons label rest inductionHypothesis =>
        cases taken : step state label with
        | none => exact ⟨disabled state label taken, by simp [taken]⟩
        | some next =>
            have one : Rel state next := by
              apply onward [] [label] rest state next rfl rfl
              exact run_cons_iff.mpr ⟨next, taken, rfl⟩
            refine ⟨(exact_guard state label next taken).mp one, ?_⟩
            intro reached equal
            cases taken.symm.trans equal
            apply inductionHypothesis
            intro front between remaining earlier later split before after
            apply onward (label :: front) between remaining earlier later _ _ after
            · rw [split, List.cons_append]
            · exact run_cons_iff.mpr ⟨next, taken, before⟩
  · intro meets front between rest earlier later split before after
    rw [split] at meets
    have remaining : Meets step guard earlier (between ++ rest) := meets.of_run before
    clear split before meets
    induction between generalizing earlier with
    | nil =>
        cases after
        exact refl _
    | cons label between inductionHypothesis =>
        rcases run_cons_iff.mp after with ⟨next, taken, after⟩
        exact trans earlier next later ((exact_guard earlier label next taken).mpr remaining.1)
          (inductionHypothesis next after (remaining.2 next taken))

end GitScale.Foundation
