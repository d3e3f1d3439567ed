import Mathlib.Data.List.Nodup

/-!
# Keeping the first value of each key

A loop that remembers the keys it has seen and keeps a value only when its key is new.
-/

namespace GitScale.Foundation

variable {α κ : Type*} [DecidableEq κ] (key : α → κ)

/-- One iteration: the keys seen so far and the values kept so far. -/
def addUnseen (state : List κ × List α) (value : α) : List κ × List α :=
  if key value ∈ state.1 then state else (key value :: state.1, state.2 ++ [value])

/-- From distinct keys the loop keeps every value whose key was not seen before. -/
theorem foldl_addUnseen {values : List α} (distinct : (values.map key).Nodup)
    (seen : List κ) (kept : List α) :
    (values.foldl (addUnseen key) (seen, kept)).2 =
      kept ++ values.filter fun value => key value ∉ seen := by
  induction values generalizing seen kept with
  | nil => simp
  | cons value rest inductionHypothesis =>
      rw [List.map_cons, List.nodup_cons] at distinct
      rw [List.foldl_cons, addUnseen]
      split
      · next old =>
          rw [inductionHypothesis distinct.2, List.filter_cons_of_neg (by simpa using old)]
      · next new =>
          -- The key of `value` does not occur again, so seeing it changes nothing.
          have same : (rest.filter fun other => key other ∉ key value :: seen) =
              rest.filter fun other => key other ∉ seen := by
            apply List.filter_congr
            intro other membership
            have differ : key other ≠ key value := fun equal =>
              distinct.1 (equal ▸ List.mem_map_of_mem membership)
            simp [differ]
          rw [inductionHypothesis distinct.2, same,
            List.filter_cons_of_pos (by simpa using new)]
          simp

/-- From distinct keys the loop sees exactly the keys of the values. -/
theorem mem_foldl_addUnseen {values : List α} (seen : List κ) (kept : List α) {found : κ} :
    found ∈ (values.foldl (addUnseen key) (seen, kept)).1 ↔
      found ∈ seen ∨ found ∈ values.map key := by
  induction values generalizing seen kept with
  | nil => simp
  | cons value rest inductionHypothesis =>
      rw [List.foldl_cons, addUnseen]
      split
      · next old =>
          rw [inductionHypothesis, List.map_cons, List.mem_cons]
          constructor
          · rintro (earlier | later)
            · exact Or.inl earlier
            · exact Or.inr (Or.inr later)
          · rintro (earlier | rfl | later)
            · exact Or.inl earlier
            · exact Or.inl old
            · exact Or.inr later
      · rw [inductionHypothesis, List.map_cons, List.mem_cons, List.mem_cons, or_assoc,
          or_left_comm]

end GitScale.Foundation
