import Mathlib.Data.List.Infix

/-!
# Reading a message from its end

Parts of a concatenation that can be told apart when the message is read from its end: a
part after the last separator, and a word of a code in which no word ends another.
-/

namespace GitScale.Foundation

variable {Symbol Letter : Type*}

/-- The last occurrence of a separator splits a message in one way. -/
theorem append_separator_inj {left right left' right' : List Symbol} {separator : Symbol}
    (absent : separator ∉ right) (absent' : separator ∉ right')
    (equal : left ++ separator :: right = left' ++ separator :: right') :
    left = left' ∧ right = right' := by
  rcases List.append_eq_append_iff.mp equal with ⟨between, later, rest⟩ |
    ⟨between, later, rest⟩
  · cases between with
    | nil => exact ⟨by simpa using later.symm, (List.cons.inj rest).2⟩
    | cons first between =>
        rw [(List.cons.inj rest).2] at absent
        exact absurd (by simp) absent
  · cases between with
    | nil => exact ⟨by simpa using later, (List.cons.inj rest).2.symm⟩
    | cons first between =>
        rw [(List.cons.inj rest).2] at absent'
        exact absurd (by simp) absent'

/-- No word of the code ends another one. -/
def SuffixFree (code : Letter → List Symbol) : Prop :=
  ∀ letter letter', code letter <:+ code letter' → letter = letter'

/-- A word of a suffix-free code is read off the end in one way. -/
theorem SuffixFree.append_inj {code : Letter → List Symbol} (free : SuffixFree code)
    {front front' : List Symbol} {letter letter' : Letter}
    (equal : front ++ code letter = front' ++ code letter') :
    front = front' ∧ letter = letter' := by
  have ends : code letter <:+ front ++ code letter := List.suffix_append _ _
  have ends' : code letter' <:+ front ++ code letter := equal ▸ List.suffix_append _ _
  have same : letter = letter' := by
    rcases List.suffix_or_suffix_of_suffix ends ends' with shorter | shorter
    · exact free _ _ shorter
    · exact (free _ _ shorter).symm
  rw [same] at equal
  exact ⟨List.append_cancel_right equal, same⟩

end GitScale.Foundation
