import Mathlib.Data.List.Basic
import Mathlib.Data.List.Forall2
import Mathlib.Data.List.Induction

/-!
# Hash chains

A chain is a list of rows.  A row names the hash of its predecessor and carries a hash of
its own, which a digest computes from the predecessor's hash and the row.  The digest may
refuse a row.

A chain commits to its content: where the digest of a row determines both the
predecessor's hash and what the row says, two chains of equal length with the same last
hash say the same at every position.
-/

namespace GitScale.Foundation

variable {Row Hash Error : Type*}

/-- How the rows of a chain are linked. -/
structure Linking (Row Hash Error : Type*) where
  prevOf : Row → Hash
  hashOf : Row → Hash
  digest : Hash → Row → Except Error Hash

namespace Linking

variable (linking : Linking Row Hash Error)

/-- The rows are linked one to the other, the first one to `start`. -/
def Linked (start : Hash) : List Row → Prop
  | [] => True
  | row :: rest =>
      linking.prevOf row = start ∧ linking.digest start row = .ok (linking.hashOf row) ∧
        Linked (linking.hashOf row) rest

/-- The hash that the next row has to name. -/
def tip (start : Hash) : List Row → Hash
  | [] => start
  | row :: rest => tip (linking.hashOf row) rest

variable {linking} {start : Hash}

@[simp] theorem tip_nil : linking.tip start [] = start := rfl

theorem tip_append (front back : List Row) :
    linking.tip start (front ++ back) = linking.tip (linking.tip start front) back := by
  induction front generalizing start with
  | nil => rfl
  | cons row rest inductionHypothesis => exact inductionHypothesis

@[simp] theorem tip_concat (front : List Row) (last : Row) :
    linking.tip start (front ++ [last]) = linking.hashOf last :=
  tip_append front [last]

/-- A chain is linked when its parts are. -/
theorem linked_append_iff {front back : List Row} :
    linking.Linked start (front ++ back) ↔
      linking.Linked start front ∧ linking.Linked (linking.tip start front) back := by
  induction front generalizing start with
  | nil => simp [Linked]
  | cons row rest inductionHypothesis =>
      simp only [List.cons_append, Linked, tip, inductionHypothesis, and_assoc]

theorem linked_concat_iff {front : List Row} {last : Row} :
    linking.Linked start (front ++ [last]) ↔
      linking.Linked start front ∧ linking.prevOf last = linking.tip start front ∧
        linking.digest (linking.tip start front) last = .ok (linking.hashOf last) := by
  rw [linked_append_iff]
  simp only [Linked, and_true]

/-- Every row of a chain carries the digest of itself and its predecessor. -/
theorem Linked.digest_of_mem {rows : List Row} (linked : linking.Linked start rows)
    {row : Row} (member : row ∈ rows) :
    linking.digest (linking.prevOf row) row = .ok (linking.hashOf row) := by
  induction rows generalizing start with
  | nil => exact absurd member List.not_mem_nil
  | cons first rest inductionHypothesis =>
      rcases linked with ⟨named, computed, linked⟩
      rcases List.mem_cons.mp member with same | later
      · rw [same, named]
        exact computed
      · exact inductionHypothesis linked later

/-- A row put in the place of another one with the same links breaks the chain unless its
own digest is right. -/
theorem Linked.set_iff {rows : List Row} (linked : linking.Linked start rows) {index : Nat}
    {row other : Row} (present : rows[index]? = some row)
    (samePrev : linking.prevOf other = linking.prevOf row)
    (sameHash : linking.hashOf other = linking.hashOf row) :
    linking.Linked start (rows.set index other) ↔
      linking.digest (linking.prevOf row) other = .ok (linking.hashOf row) := by
  induction rows generalizing start index with
  | nil => simp at present
  | cons first rest inductionHypothesis =>
      rcases linked with ⟨named, computed, linked⟩
      cases index with
      | zero =>
          rw [List.getElem?_cons_zero, Option.some.injEq] at present
          rw [List.set_cons_zero, Linked, samePrev, sameHash, ← present]
          simp [named, linked]
      | succ index =>
          rw [List.getElem?_cons_succ] at present
          rw [List.set_cons_succ, Linked]
          simp [named, computed, inductionHypothesis linked present]

/-- What holds of `start` and of every digest holds of the hash that a row names. -/
theorem Linked.prevOf_induction (Property : Hash → Prop) {rows : List Row}
    (linked : linking.Linked start rows) (initial : Property start)
    (computed : ∀ prev row hash, linking.digest prev row = .ok hash → Property hash)
    {row : Row} (member : row ∈ rows) : Property (linking.prevOf row) := by
  induction rows generalizing start with
  | nil => exact absurd member List.not_mem_nil
  | cons first rest inductionHypothesis =>
      rcases linked with ⟨named, digested, linked⟩
      rcases List.mem_cons.mp member with same | later
      · rw [same, named]
        exact initial
      · exact inductionHypothesis linked (computed _ _ _ digested) later

/-- Commitment.  The induction is on the last row: its digest gives back the hash of its
predecessor, which is the last hash of the chain that remains. -/
theorem Linked.commits {Same : Row → Row → Prop} {left right : List Row}
    (linkedLeft : linking.Linked start left) (linkedRight : linking.Linked start right)
    (equalLength : left.length = right.length)
    (equalTip : linking.tip start left = linking.tip start right)
    (binding : ∀ row ∈ left, ∀ row' ∈ right, linking.hashOf row = linking.hashOf row' →
      linking.prevOf row = linking.prevOf row' ∧ Same row row') :
    List.Forall₂ Same left right := by
  induction left using List.reverseRecOn generalizing right with
  | nil =>
      rw [List.length_nil] at equalLength
      rw [List.length_eq_zero_iff.mp equalLength.symm]
      exact List.Forall₂.nil
  | append_singleton front row inductionHypothesis =>
      cases right using List.reverseRecOn with
      | nil => simp at equalLength
      | append_singleton front' row' =>
          rw [tip_concat, tip_concat] at equalTip
          rcases linked_concat_iff.mp linkedLeft with ⟨linkedLeft, named, -⟩
          rcases linked_concat_iff.mp linkedRight with ⟨linkedRight, named', -⟩
          rcases binding row List.mem_concat_self row' List.mem_concat_self equalTip with
            ⟨predecessor, same⟩
          have equalFront : front.length = front'.length := by simpa using equalLength
          have earlier : List.Forall₂ Same front front' := by
            apply inductionHypothesis linkedLeft linkedRight equalFront
            · rw [← named, ← named', predecessor]
            · intro first member first' member'
              exact binding first (List.mem_append_left _ member) first'
                (List.mem_append_left _ member')
          exact List.rel_append earlier (List.Forall₂.cons same List.Forall₂.nil)

end Linking

end GitScale.Foundation
