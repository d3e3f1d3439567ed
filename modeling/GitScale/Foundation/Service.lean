import Mathlib.Data.List.Basic
import Mathlib.Order.Defs.PartialOrder
import Mathlib.Tactic.TypeStar

/-!
# Services that answer calls

A service answers one call after another.  Two implementations of one interface agree when a
relation between their states makes every answer equal and is kept by every call.  Each call
carries a stamp, and the calls come in the order of their stamps, so the relation may depend on
the last one.
-/

namespace GitScale.Foundation

variable {State Other Call Answer Stamp : Type*}

/-- The answers to a sequence of calls. -/
def answers (serve : State → Call → Answer × State) : State → List Call → List Answer
  | _, [] => []
  | state, call :: rest => (serve state call).1 :: answers serve (serve state call).2 rest

/-- The state after a sequence of calls. -/
def finalState (serve : State → Call → Answer × State) : State → List Call → State
  | state, [] => state
  | state, call :: rest => finalState serve (serve state call).2 rest

/-- What every call keeps holds after every sequence of calls. -/
theorem finalState_induction {serve : State → Call → Answer × State} (invariant : State → Prop)
    {allowed : Call → Prop}
    (step : ∀ state call, allowed call → invariant state → invariant (serve state call).2)
    {state : State} {calls : List Call} (permitted : ∀ call ∈ calls, allowed call)
    (start : invariant state) : invariant (finalState serve state calls) := by
  induction calls generalizing state with
  | nil => exact start
  | cons call rest inductionHypothesis =>
      apply inductionHypothesis (fun call member => permitted call (List.mem_cons_of_mem _ member))
      exact step state call (permitted call List.mem_cons_self) start

/-- What one call has to keep for two implementations to agree. -/
structure Simulates [Preorder Stamp] (stamp : Call → Stamp) (allowed : Call → Prop)
    (related : Stamp → State → Other → Prop) (first : State → Call → Answer × State)
    (second : Other → Call → Answer × Other) : Prop where
  answer : ∀ {now state other call}, related now state other → now ≤ stamp call → allowed call →
    (first state call).1 = (second other call).1
  next : ∀ {now state other call}, related now state other → now ≤ stamp call → allowed call →
    related (stamp call) (first state call).2 (second other call).2

variable [Preorder Stamp] {stamp : Call → Stamp} {allowed : Call → Prop}
  {related : Stamp → State → Other → Prop} {first : State → Call → Answer × State}
  {second : Other → Call → Answer × Other}

/-- Related states give the same answers from now on. -/
theorem Simulates.answers_eq_of_related (simulates : Simulates stamp allowed related first second)
    {calls : List Call} (permitted : ∀ call ∈ calls, allowed call)
    (ordered : (calls.map stamp).Pairwise (· ≤ ·)) {now : Stamp} {state : State} {other : Other}
    (later : ∀ call ∈ calls, now ≤ stamp call) (start : related now state other) :
    answers first state calls = answers second other calls := by
  induction calls generalizing now state other with
  | nil => rfl
  | cons call rest inductionHypothesis =>
      have due := later call List.mem_cons_self
      have permit := permitted call List.mem_cons_self
      rw [List.map_cons, List.pairwise_cons] at ordered
      rw [answers, answers, simulates.answer start due permit]
      congr 1
      apply inductionHypothesis
      · intro call membership
        exact permitted call (List.mem_cons_of_mem _ membership)
      · exact ordered.2
      · intro call membership
        exact ordered.1 (stamp call) (List.mem_map_of_mem membership)
      · exact simulates.next start due permit

/-- States that are related at any time give the same answers. -/
theorem Simulates.answers_eq (simulates : Simulates stamp allowed related first second)
    {calls : List Call} (permitted : ∀ call ∈ calls, allowed call)
    (ordered : (calls.map stamp).Pairwise (· ≤ ·)) {state : State} {other : Other}
    (start : ∀ now, related now state other) :
    answers first state calls = answers second other calls := by
  cases calls with
  | nil => rfl
  | cons call rest =>
      apply simulates.answers_eq_of_related permitted ordered _ (start (stamp call))
      intro later membership
      rcases List.mem_cons.mp membership with rfl | membership
      · exact le_refl _
      · rw [List.map_cons, List.pairwise_cons] at ordered
        exact ordered.1 (stamp later) (List.mem_map_of_mem membership)

end GitScale.Foundation
