import Mathlib.Data.List.Basic

/-!
# Histories

A history is a list of events, oldest first, that only grows at its end.  The
lemmas say where a marked event can stand after the history has grown.
-/

namespace GitScale.Foundation

variable {Event : Type*}

/-- A marked event of a grown history stands in the old part or in the new one. -/
theorem append_eq_append_cons {history grown before between : List Event}
    {marked : Event} (split : history ++ grown = before ++ marked :: between) :
    (∃ rest, history = before ++ marked :: rest ∧ between = rest ++ grown) ∨
      ∃ start, before = history ++ start ∧ grown = start ++ marked :: between := by
  rcases List.append_eq_append_iff.mp split with ⟨start, earlier, later⟩ |
    ⟨rest, earlier, later⟩
  · exact Or.inr ⟨start, earlier, later⟩
  · cases rest with
    | nil =>
        refine Or.inr ⟨[], ?_, ?_⟩
        · simpa using earlier.symm
        · simpa using later.symm
    | cons first rest =>
        rcases List.cons.inj later with ⟨rfl, rfl⟩
        exact Or.inl ⟨rest, earlier, rfl⟩

/-- Growing a history by one event. -/
theorem concat_eq_append_cons {history before between : List Event}
    {latest marked : Event} (split : history ++ [latest] = before ++ marked :: between) :
    (∃ rest, history = before ++ marked :: rest ∧ between = rest ++ [latest]) ∨
      (before = history ∧ marked = latest ∧ between = []) := by
  rcases append_eq_append_cons split with old | ⟨start, earlier, later⟩
  · exact Or.inl old
  · cases start with
    | nil =>
        rcases List.cons.inj later with ⟨same, rest⟩
        exact Or.inr ⟨by simpa using earlier, same.symm, rest.symm⟩
    | cons first start =>
        rcases List.cons.inj later with ⟨-, rest⟩
        exact absurd rest.symm (by simp)

section Since

variable [DecidableEq Event]

/-- The history from the first occurrence of an event on. -/
def since (marked : Event) (history : List Event) : List Event :=
  history.dropWhile fun event => event ≠ marked

theorem since_append {marked : Event} {history : List Event} (happened : marked ∈ history)
    (grown : List Event) : since marked (history ++ grown) = since marked history ++ grown := by
  induction history with
  | nil => exact absurd happened List.not_mem_nil
  | cons first rest inductionHypothesis =>
      by_cases equal : first = marked
      · simp [since, equal]
      · have later : marked ∈ rest :=
          (List.mem_cons.mp happened).resolve_left fun same => equal same.symm
        simpa [since, equal] using inductionHypothesis later

theorem mem_of_mem_since {marked event : Event} {history : List Event}
    (membership : event ∈ since marked history) : marked ∈ history := by
  induction history with
  | nil => exact absurd membership List.not_mem_nil
  | cons first rest inductionHypothesis =>
      by_cases equal : first = marked
      · simp [equal]
      · have later : event ∈ since marked rest := by
          simpa [since, equal] using membership
        exact List.mem_cons_of_mem _ (inductionHypothesis later)

theorem mem_since_append {marked event : Event} {history : List Event}
    (membership : event ∈ since marked history) (grown : List Event) :
    event ∈ since marked (history ++ grown) := by
  rw [since_append (mem_of_mem_since membership)]
  exact List.mem_append_left _ membership

/-- What happens next happens after everything that has happened. -/
theorem mem_since_of_mem {marked event : Event} {history grown : List Event}
    (happened : marked ∈ history) (membership : event ∈ grown) :
    event ∈ since marked (history ++ grown) := by
  rw [since_append happened]
  exact List.mem_append_right _ membership

end Since

end GitScale.Foundation
