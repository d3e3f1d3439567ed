import GitScale.Foundation.Service

/-!
# Isolation

A service keeps two kinds of calls apart when the calls of one kind leave alone what the answers to
those of the other kind depend on.  Then the answers to the visible calls are the same in any
traffic of hidden ones.
-/

namespace GitScale.Foundation

variable {State Call Answer : Type*}

/-- The calls with their answers. -/
def transcript (serve : State → Call → Answer × State) :
    State → List Call → List (Call × Answer)
  | _, [] => []
  | state, call :: rest => (call, (serve state call).1) :: transcript serve (serve state call).2 rest

/-- What one call has to keep for the visible calls to be isolated: hidden calls preserve the
agreement of two states, and visible ones are answered alike in states that agree. -/
structure Isolates (visible : Call → Bool) (agree : State → State → Prop)
    (serve : State → Call → Answer × State) : Prop where
  hidden : ∀ {state other call}, agree state other → visible call = false →
    agree (serve state call).2 other
  answer : ∀ {state other call}, agree state other → visible call = true →
    (serve state call).1 = (serve other call).1
  next : ∀ {state other call}, agree state other → visible call = true →
    agree (serve state call).2 (serve other call).2

/-- The hidden calls can be removed. -/
theorem Isolates.transcript_filter {visible : Call → Bool} {agree : State → State → Prop}
    {serve : State → Call → Answer × State} (isolates : Isolates visible agree serve)
    {state other : State} (agreed : agree state other) (calls : List Call) :
    (transcript serve state calls).filter (fun exchange => visible exchange.1) =
      transcript serve other (calls.filter visible) := by
  induction calls generalizing state other with
  | nil => rfl
  | cons call rest inductionHypothesis =>
      cases seen : visible call with
      | false =>
          simp only [transcript, List.filter_cons, seen, Bool.false_eq_true, if_false]
          exact inductionHypothesis (isolates.hidden agreed seen)
      | true =>
          simp only [transcript, List.filter_cons, seen, if_true]
          rw [isolates.answer agreed seen, inductionHypothesis (isolates.next agreed seen)]

end GitScale.Foundation
