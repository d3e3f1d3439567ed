import Mathlib.Data.List.Basic

/-!
# Scanners

A loop over a text that decides at each position what to emit and how far to go on.  It always
goes on by at least one symbol, so it ends on every text.
-/

namespace GitScale.Foundation

universe u

variable {Symbol Error Piece : Type*}

/-- One iteration: from the symbol at the position and the text after it, the pieces that are
emitted and the number of further symbols that are taken. -/
abbrev ScanStep (Symbol Error Piece : Type*) :=
  Symbol → List Symbol → Except Error (List Piece × Nat)

/-- At most `fuel` iterations, which are enough for a text of that length. -/
def scanLoop (next : ScanStep Symbol Error Piece) : Nat → List Symbol → Except Error (List Piece)
  | _, [] => .ok []
  | 0, _ => .ok []
  | fuel + 1, symbol :: rest =>
      match next symbol rest with
      | .error error => .error error
      | .ok (pieces, taken) => (pieces ++ ·) <$> scanLoop next fuel (rest.drop taken)

/-- The pieces of a whole text, or the first error. -/
def scan (next : ScanStep Symbol Error Piece) (text : List Symbol) : Except Error (List Piece) :=
  scanLoop next text.length text

variable {next : ScanStep Symbol Error Piece} {symbol : Symbol} {text rest : List Symbol}

theorem scanLoop_eq_scanLoop {fuel fuel' : Nat} (enough : text.length ≤ fuel)
    (enough' : text.length ≤ fuel') : scanLoop next fuel text = scanLoop next fuel' text := by
  induction fuel generalizing text fuel' with
  | zero =>
      rw [List.length_eq_zero_iff.mp (Nat.le_zero.mp enough)]
      simp only [scanLoop]
  | succ fuel inductionHypothesis =>
      cases text with
      | nil => simp only [scanLoop]
      | cons symbol rest =>
          cases fuel' with
          | zero => exact absurd enough' (by simp)
          | succ fuel' =>
              rw [scanLoop, scanLoop]
              cases next symbol rest with
              | error error => rfl
              | ok emitted =>
                  have shorter : (rest.drop emitted.2).length ≤ rest.length := by simp
                  have others := inductionHypothesis
                    (Nat.le_trans shorter (Nat.le_of_succ_le_succ enough))
                    (Nat.le_trans shorter (Nat.le_of_succ_le_succ enough'))
                  simp only [others]

@[simp] theorem scan_nil : scan next [] = .ok [] := rfl

theorem scan_cons :
    scan next (symbol :: rest) =
      match next symbol rest with
      | .error error => .error error
      | .ok (pieces, taken) => (pieces ++ ·) <$> scan next (rest.drop taken) := by
  rw [scan, List.length_cons, scanLoop]
  cases next symbol rest with
  | error error => rfl
  | ok emitted =>
      have shorter : (rest.drop emitted.2).length ≤ rest.length := by simp
      simp only [scan, scanLoop_eq_scanLoop shorter (Nat.le_refl _)]

/-- One iteration emits its pieces and goes on after what it took. -/
theorem scan_cons_of_ok {pieces : List Piece} {taken : Nat}
    (emits : next symbol rest = .ok (pieces, taken)) :
    scan next (symbol :: rest) = (pieces ++ ·) <$> scan next (rest.drop taken) := by
  rw [scan_cons, emits]

theorem scan_cons_of_error {error : Error} (fails : next symbol rest = .error error) :
    scan next (symbol :: rest) = .error error := by
  rw [scan_cons, fails]

/-- An iteration that takes a run of symbols and nothing else. -/
theorem scan_append_of_ok {run : List Symbol} {pieces : List Piece}
    (emits : next symbol (run ++ rest) = .ok (pieces, run.length)) :
    scan next (symbol :: (run ++ rest)) = (pieces ++ ·) <$> scan next rest := by
  rw [scan_cons_of_ok emits, List.drop_left]

theorem map_eq_ok_iff {First Second : Type u} {change : First → Second}
    {result : Except Error First} {value : Second} :
    change <$> result = .ok value ↔ ∃ first, result = .ok first ∧ change first = value := by
  cases result with
  | error error => simp [Functor.map, Except.map]
  | ok first => simp [Functor.map, Except.map]

end GitScale.Foundation
