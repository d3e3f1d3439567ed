import Mathlib.Algebra.Ring.Nat
import Mathlib.Data.List.Basic

/-!
# Streams that arrive in pieces

A reader hands out a stream piece by piece, never more than it is asked for, some pieces
perhaps empty, and reports the end with its last piece or after it.  Filling a buffer reads
until the buffer is full or the stream ends.  What it gathers does not depend on the pieces.
-/

namespace GitScale.Foundation

/-- What is left of a stream; `eager` says whether the end comes with the last piece. -/
structure Feed (Symbol : Type*) where
  pieces : List (List Symbol)
  eager : Bool

/-- How the filling of a buffer ends: with all it asked for, in the middle, or before the first
symbol. -/
inductive Filled (Symbol : Type*) where
  | full (symbols : List Symbol)
  | short (symbols : List Symbol)
  | ended

namespace Feed

variable {Symbol : Type*}

/-- The symbols that are left. -/
def content (feed : Feed Symbol) : List Symbol := feed.pieces.flatten

/-- One read of at most `limit` symbols: what it delivers, and whether it reports the end. -/
def read (limit : Nat) (feed : Feed Symbol) : (List Symbol × Bool) × Feed Symbol :=
  match feed.pieces with
  | [] => (([], true), feed)
  | piece :: rest =>
      let left := if limit < piece.length then piece.drop limit :: rest else rest
      ((piece.take limit, feed.eager && left.isEmpty), ⟨left, feed.eager⟩)

/-- Read until `count` symbols are gathered or the end is reported, in at most `fuel` reads. -/
def gather (count : Nat) : Nat → Feed Symbol → List Symbol → List Symbol × Feed Symbol
  | 0, feed, gathered => (gathered, feed)
  | fuel + 1, feed, gathered =>
      if count ≤ gathered.length then (gathered, feed)
      else
        let answer := feed.read (count - gathered.length)
        if answer.1.2 then (gathered ++ answer.1.1, answer.2)
        else gather count fuel answer.2 (gathered ++ answer.1.1)

/-- A bound on the reads that are left. -/
def size (feed : Feed Symbol) : Nat := (feed.pieces.map fun piece => piece.length + 1).sum

/-- Fill a buffer of `count` symbols. -/
def fill (count : Nat) (feed : Feed Symbol) : Filled Symbol × Feed Symbol :=
  let answer := gather count (feed.size + 1) feed []
  if count ≤ answer.1.length then (.full answer.1, answer.2)
  else if answer.1.isEmpty then (.ended, answer.2)
  else (.short answer.1, answer.2)

section Reads

variable {feed : Feed Symbol} {limit : Nat}

/-- A read takes its piece off the stream. -/
theorem content_read (limit : Nat) (feed : Feed Symbol) :
    (feed.read limit).1.1 ++ (feed.read limit).2.content = feed.content := by
  rcases feed with ⟨_ | ⟨piece, rest⟩, eager⟩
  · rfl
  · unfold read content
    dsimp only
    split
    · rw [List.flatten_cons, ← List.append_assoc, List.take_append_drop, List.flatten_cons]
    · rename_i whole
      rw [List.take_of_length_le (Nat.not_lt.mp whole), List.flatten_cons]

theorem length_read_le (limit : Nat) (feed : Feed Symbol) :
    (feed.read limit).1.1.length ≤ limit := by
  rcases feed with ⟨_ | ⟨piece, rest⟩, eager⟩
  · exact Nat.zero_le limit
  · exact List.length_take_le limit piece

/-- After the end nothing is left. -/
theorem content_of_ended (ended : (feed.read limit).1.2 = true) :
    (feed.read limit).2.content = [] := by
  rcases feed with ⟨_ | ⟨piece, rest⟩, eager⟩
  · rfl
  · unfold read at ended ⊢
    dsimp only at ended ⊢
    have empty := (Bool.and_eq_true_iff.mp ended).2
    rw [content, List.isEmpty_iff.mp empty]
    rfl

/-- A read that does not report the end makes progress. -/
theorem size_read_lt (positive : 0 < limit) (more : (feed.read limit).1.2 = false) :
    (feed.read limit).2.size < feed.size := by
  rcases feed with ⟨_ | ⟨piece, rest⟩, eager⟩
  · cases more
  · unfold read size
    dsimp only
    split
    · rw [List.map_cons, List.sum_cons, List.map_cons, List.sum_cons, List.length_drop]
      omega
    · rw [List.map_cons, List.sum_cons]
      omega

end Reads

/-- What is gathered is what the stream begins with, and the rest stays on it. -/
theorem gather_spec (count : Nat) : ∀ (fuel : Nat) (feed : Feed Symbol) (gathered : List Symbol),
    feed.size < fuel →
    (gather count fuel feed gathered).1 =
        gathered ++ feed.content.take (count - gathered.length) ∧
      (gather count fuel feed gathered).2.content =
        feed.content.drop (count - gathered.length) := by
  intro fuel
  induction fuel with
  | zero =>
      intro feed gathered enough
      cases enough
  | succ fuel inductionHypothesis =>
      intro feed gathered enough
      rw [gather]
      by_cases full : count ≤ gathered.length
      · rw [if_pos full, Nat.sub_eq_zero_of_le full]
        simp
      · rw [if_neg full]
        have positive : 0 < count - gathered.length := by omega
        have split := content_read (count - gathered.length) feed
        have short := length_read_le (count - gathered.length) feed
        dsimp only
        generalize answered : feed.read (count - gathered.length) = answer at split short ⊢
        split
        · rename_i ended
          have nothing : answer.2.content = [] := by
            rw [← answered] at ended ⊢
            exact content_of_ended ended
          rw [nothing, List.append_nil] at split
          rw [← split, List.take_of_length_le short, List.drop_of_length_le short]
          exact ⟨rfl, nothing⟩
        · rename_i more
          have smaller : answer.2.size < fuel := by
            have progress := size_read_lt positive
              (by rw [answered]; exact Bool.eq_false_iff.mpr more : (feed.read _).1.2 = false)
            rw [answered] at progress
            omega
          have later := inductionHypothesis answer.2 (gathered ++ answer.1.1) smaller
          have remaining : count - (gathered ++ answer.1.1).length =
              count - gathered.length - answer.1.1.length := by
            rw [List.length_append]
            omega
          rw [remaining] at later
          rw [later.1, later.2, ← split, List.take_append, List.drop_append,
            List.take_of_length_le short, List.drop_of_length_le short]
          simp

section Fill

variable {count : Nat} {feed : Feed Symbol}

/-- What `fill` returns for what was gathered. -/
theorem fill_eq {gathered : List Symbol} (first : feed.content.take count = gathered) :
    ∃ rest, rest.content = feed.content.drop count ∧
      feed.fill count =
        if count ≤ gathered.length then (.full gathered, rest)
        else if gathered.isEmpty then (.ended, rest) else (.short gathered, rest) := by
  have spec := gather_spec count (feed.size + 1) feed [] (Nat.lt_succ_self _)
  rw [List.nil_append, List.length_nil, Nat.sub_zero, first] at spec
  refine ⟨_, spec.2, ?_⟩
  unfold fill
  dsimp only
  rw [spec.1]

/-- A buffer is filled when the stream has enough symbols. -/
theorem fill_full (enough : count ≤ feed.content.length) :
    ∃ rest, feed.fill count = (.full (feed.content.take count), rest) ∧
      rest.content = feed.content.drop count := by
  rcases fill_eq (Eq.refl (feed.content.take count)) with ⟨rest, left, filled⟩
  refine ⟨rest, ?_, left⟩
  rw [filled, if_pos (by rw [List.length_take]; omega)]

/-- A stream with fewer symbols ends in the middle of the buffer. -/
theorem fill_short (few : feed.content.length < count) (nonempty : feed.content ≠ []) :
    ∃ rest, feed.fill count = (.short feed.content, rest) := by
  rcases fill_eq (List.take_of_length_le (Nat.le_of_lt few)) with ⟨rest, -, filled⟩
  refine ⟨rest, ?_⟩
  rw [filled, if_neg (Nat.not_le.mpr few), if_neg (by simpa using nonempty)]

/-- An empty stream ends before the buffer. -/
theorem fill_ended (positive : 0 < count) (nothing : feed.content = []) :
    ∃ rest, feed.fill count = (.ended, rest) := by
  have first : feed.content.take count = [] := by rw [nothing, List.take_nil]
  rcases fill_eq first with ⟨rest, -, filled⟩
  refine ⟨rest, ?_⟩
  rw [filled, List.length_nil, if_neg (Nat.not_le.mpr positive)]
  rfl

/-- Whether it ends in the middle of the buffer or before it, the buffer is not full. -/
theorem fill_few (positive : 0 < count) (few : feed.content.length < count) :
    ∃ filled rest, feed.fill count = (filled, rest) ∧ ∀ buffer, filled ≠ .full buffer := by
  by_cases nothing : feed.content = []
  · rcases fill_ended positive nothing with ⟨rest, ended⟩
    exact ⟨_, rest, ended, nofun⟩
  · rcases fill_short few nothing with ⟨rest, short⟩
    exact ⟨_, rest, short, nofun⟩

end Fill

end Feed

end GitScale.Foundation
