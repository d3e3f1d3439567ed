import Mathlib.Data.List.Basic
import Mathlib.Tactic.TypeStar

/-!
# Texts cut at a separator

A text with a separator in it is cut in one way only where the separator does not occur before,
or does not occur behind.
-/

namespace GitScale.Foundation

variable {Symbol : Type*} {front front' back back' : List Symbol} {separator : Symbol}

/-- What stands before the first separator is determined. -/
theorem cut_at_first (absent : separator ∉ front) (absent' : separator ∉ front')
    (equal : front ++ separator :: back = front' ++ separator :: back') :
    front = front' ∧ back = back' := by
  induction front generalizing front' with
  | nil =>
      cases front' with
      | nil => exact ⟨rfl, (List.cons.inj equal).2⟩
      | cons first others =>
          rcases List.cons.inj equal with ⟨same, -⟩
          exact absurd (same ▸ List.mem_cons_self) absent'
  | cons first others inductionHypothesis =>
      cases front' with
      | nil =>
          rcases List.cons.inj equal with ⟨same, -⟩
          exact absurd (same ▸ List.mem_cons_self) absent
      | cons first' others' =>
          rcases List.cons.inj equal with ⟨same, rest⟩
          rcases inductionHypothesis (fun later => absent (List.mem_cons_of_mem _ later))
            (fun later => absent' (List.mem_cons_of_mem _ later)) rest with ⟨rfl, rfl⟩
          exact ⟨by rw [same], rfl⟩

/-- What stands behind the last separator is determined. -/
theorem cut_at_last (absent : separator ∉ back) (absent' : separator ∉ back')
    (equal : front ++ separator :: back = front' ++ separator :: back') :
    front = front' ∧ back = back' := by
  have reversed := congrArg List.reverse equal
  simp only [List.reverse_append, List.reverse_cons, List.append_assoc,
    List.singleton_append] at reversed
  rcases cut_at_first (fun member => absent (List.mem_reverse.mp member))
    (fun member => absent' (List.mem_reverse.mp member)) reversed with ⟨backs, fronts⟩
  exact ⟨List.reverse_injective fronts, List.reverse_injective backs⟩

end GitScale.Foundation
