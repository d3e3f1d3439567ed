import Mathlib.Data.List.Basic

/-!
# Messages in chunks

A message is cut into chunks of a fixed size; only the last one may be shorter.  A reader
takes a known number of symbols off a stream or fails.
-/

namespace GitScale.Foundation

variable {Symbol : Type*}

/-- At most `fuel` chunks of a message. -/
def chunksWithin (size : Nat) : Nat → List Symbol → List (List Symbol)
  | 0, _ => []
  | _ + 1, [] => []
  | fuel + 1, first :: rest =>
      (first :: rest).take size :: chunksWithin size fuel ((first :: rest).drop size)

/-- The chunks of a message. -/
def chunks (size : Nat) (message : List Symbol) : List (List Symbol) :=
  chunksWithin size message.length message

section Chunks

variable {size : Nat} {message : List Symbol}

theorem flatten_chunksWithin (positive : 0 < size) {fuel : Nat}
    (enough : message.length ≤ fuel) : (chunksWithin size fuel message).flatten = message := by
  induction fuel generalizing message with
  | zero =>
      rw [List.length_eq_zero_iff.mp (Nat.le_zero.mp enough)]
      rfl
  | succ fuel inductionHypothesis =>
      cases message with
      | nil => rfl
      | cons first rest =>
          have shorter : ((first :: rest).drop size).length ≤ fuel := by
            rw [List.length_drop]
            omega
          rw [chunksWithin, List.flatten_cons, inductionHypothesis shorter,
            List.take_append_drop]

/-- The chunks make up the message. -/
theorem flatten_chunks (positive : 0 < size) : (chunks size message).flatten = message :=
  flatten_chunksWithin positive (Nat.le_refl _)

/-- No chunk is longer than the size. -/
theorem length_le_of_mem_chunksWithin {fuel : Nat} {chunk : List Symbol}
    (member : chunk ∈ chunksWithin size fuel message) : chunk.length ≤ size := by
  induction fuel generalizing message with
  | zero => cases member
  | succ fuel inductionHypothesis =>
      cases message with
      | nil => cases member
      | cons first rest =>
          rcases List.mem_cons.mp member with rfl | later
          · exact List.length_take_le ..
          · exact inductionHypothesis later

theorem length_le_of_mem_chunks {chunk : List Symbol}
    (member : chunk ∈ chunks size message) : chunk.length ≤ size :=
  length_le_of_mem_chunksWithin member

/-- No chunk is empty. -/
theorem ne_nil_of_mem_chunksWithin (positive : 0 < size) {fuel : Nat} {chunk : List Symbol}
    (member : chunk ∈ chunksWithin size fuel message) : chunk ≠ [] := by
  induction fuel generalizing message with
  | zero => cases member
  | succ fuel inductionHypothesis =>
      cases message with
      | nil => cases member
      | cons first rest =>
          rcases List.mem_cons.mp member with rfl | later
          · obtain ⟨less, rfl⟩ := Nat.exists_eq_succ_of_ne_zero (Nat.ne_of_gt positive)
            exact List.cons_ne_nil _ _
          · exact inductionHypothesis later

/-- A full chunk is cut off the front. -/
theorem chunksWithin_append (positive : 0 < size) {fuel : Nat} {chunk : List Symbol}
    (full : chunk.length = size) (rest : List Symbol) :
    chunksWithin size (fuel + 1) (chunk ++ rest) = chunk :: chunksWithin size fuel rest := by
  cases chunk with
  | nil => exact absurd full (Nat.ne_of_lt positive)
  | cons first others =>
      rw [List.cons_append, chunksWithin, ← List.cons_append, List.take_left' full,
        List.drop_left' full]

/-- What fits into one chunk is the last one. -/
theorem chunksWithin_of_length_le {fuel : Nat} (nonempty : message ≠ [])
    (short : message.length ≤ size) : chunksWithin size (fuel + 1) message = [message] := by
  cases message with
  | nil => exact absurd rfl nonempty
  | cons first rest =>
      rw [chunksWithin, List.take_of_length_le short, List.drop_of_length_le short]
      cases fuel <;> rfl

end Chunks

/-- Take `count` symbols off a stream. -/
def readFull (count : Nat) (stream : List Symbol) : Option (List Symbol × List Symbol) :=
  if count ≤ stream.length then some (stream.take count, stream.drop count) else none

theorem readFull_append {count : Nat} {front : List Symbol} (exactly : front.length = count)
    (rest : List Symbol) : readFull count (front ++ rest) = some (front, rest) := by
  simp [readFull, ← exactly]

end GitScale.Foundation
