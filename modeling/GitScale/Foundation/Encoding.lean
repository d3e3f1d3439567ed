import Mathlib.Logic.Function.Basic
import Mathlib.Data.List.Basic
import Mathlib.Tactic.TypeStar

/-!
# Texts that delimit themselves

An encoding delimits a value if its text is the front of no other value's text, whatever
admissible text comes after the two.  What may come after is a predicate, since the text of
a number ends only where no digit follows.  The rules put encodings together; the ones for
lists ask of each element only that it is delimited itself, so they serve inductions over
nested values.
-/

namespace GitScale.Foundation

variable {Symbol Value First Second : Type*} {Ends Ends' : List Symbol → Prop}
  {encode : Value → List Symbol}

/-- The text of `value`, followed by an admissible text, is read in one way only. -/
def Delimits (Ends : List Symbol → Prop) (encode : Value → List Symbol) (value : Value) :
    Prop :=
  ∀ ⦃other : Value⦄ ⦃rest rest' : List Symbol⦄, Ends rest → Ends rest' →
    encode value ++ rest = encode other ++ rest' → value = other ∧ rest = rest'

/-- Any text may come after. -/
def anywhere : List Symbol → Prop := fun _ => True

theorem Delimits.injective (delimits : ∀ value, Delimits Ends encode value) (ends : Ends []) :
    Function.Injective encode := by
  intro value other same
  exact (delimits value ends ends (by rw [same])).1

/-- An encoding that some reader undoes. -/
theorem Delimits.of_read {read : List Symbol → Option (Value × List Symbol)}
    (reads : ∀ value rest, Ends rest → read (encode value ++ rest) = some (value, rest))
    (value : Value) : Delimits Ends encode value := by
  intro other rest rest' ends ends' same
  have readings := (reads value rest ends).symm.trans (same ▸ reads other rest' ends')
  simpa using readings

/-- A fixed text in front. -/
theorem Delimits.prepend {value : Value} (front : List Symbol)
    (delimits : Delimits Ends encode value) :
    Delimits Ends (fun value => front ++ encode value) value := by
  intro other rest rest' ends ends' same
  rw [List.append_assoc, List.append_assoc] at same
  exact delimits ends ends' (List.append_cancel_left same)

/-- A fixed text behind, with which what follows is admissible. -/
theorem Delimits.append {value : Value} (back : List Symbol)
    (delimits : Delimits Ends encode value) (ends : ∀ rest, Ends (back ++ rest)) :
    Delimits anywhere (fun value => encode value ++ back) value := by
  intro other rest rest' _ _ same
  rw [List.append_assoc, List.append_assoc] at same
  obtain ⟨equal, remaining⟩ := delimits (ends rest) (ends rest') same
  exact ⟨equal, List.append_cancel_left remaining⟩

/-- One text after another. -/
theorem Delimits.pair {encodeFirst : First → List Symbol} {encodeSecond : Second → List Symbol}
    {pair : First × Second} (first : Delimits Ends encodeFirst pair.1)
    (second : Delimits Ends' encodeSecond pair.2)
    (ends : ∀ other rest, Ends' rest → Ends (encodeSecond other ++ rest)) :
    Delimits Ends' (fun pair => encodeFirst pair.1 ++ encodeSecond pair.2) pair := by
  intro other rest rest' endsRest endsRest' same
  rw [List.append_assoc, List.append_assoc] at same
  obtain ⟨equal, remaining⟩ := first (ends _ _ endsRest) (ends _ _ endsRest') same
  obtain ⟨equal', same'⟩ := second endsRest endsRest' remaining
  exact ⟨Prod.ext equal equal', same'⟩

/-! ## Lists -/

section Lists

variable {comma close : Symbol}

/-- The texts of the elements one after another, up to a symbol that starts none of them. -/
def terminated (close : Symbol) (encode : Value → List Symbol) (values : List Value) :
    List Symbol :=
  values.flatMap encode ++ [close]

theorem delimits_terminated
    (starts : ∀ value rest, (encode value ++ rest).head? ≠ some close)
    (delimits : ∀ value, Delimits anywhere encode value) (values : List Value) :
    Delimits anywhere (terminated close encode) values := by
  intro others rest rest' _ _ same
  induction values generalizing others with
  | nil =>
      cases others with
      | nil => exact ⟨rfl, List.append_cancel_left same⟩
      | cons other others =>
          simp only [terminated, List.flatMap_cons, List.append_assoc] at same
          exact absurd (congrArg List.head? same).symm (starts other _)
  | cons value values inductionHypothesis =>
      cases others with
      | nil =>
          simp only [terminated, List.flatMap_cons, List.append_assoc] at same
          exact absurd (congrArg List.head? same) (starts value _)
      | cons other others =>
          simp only [terminated, List.flatMap_cons, List.append_assoc] at same
          obtain ⟨equal, remaining⟩ := delimits value trivial trivial same
          simp only [← List.append_assoc] at remaining
          obtain ⟨equal', same'⟩ := inductionHypothesis remaining
          exact ⟨by rw [equal, equal'], same'⟩

/-- The elements after the first, each with the separator before it, and the closing
symbol. -/
def separatedTail (comma close : Symbol) (encode : Value → List Symbol) :
    List Value → List Symbol
  | [] => [close]
  | value :: values => comma :: (encode value ++ separatedTail comma close encode values)

/-- The elements with separators between them and the closing symbol. -/
def separated (comma close : Symbol) (encode : Value → List Symbol) :
    List Value → List Symbol
  | [] => [close]
  | value :: values => encode value ++ separatedTail comma close encode values

theorem separatedTail_map {Source : Type*} (image : Source → Value) (values : List Source) :
    separatedTail comma close encode (values.map image) =
      separatedTail comma close (fun value => encode (image value)) values := by
  induction values with
  | nil => rfl
  | cons value values inductionHypothesis =>
      rw [List.map_cons, separatedTail, separatedTail, inductionHypothesis]

theorem separated_map {Source : Type*} (image : Source → Value) (values : List Source) :
    separated comma close encode (values.map image) =
      separated comma close (fun value => encode (image value)) values := by
  cases values with
  | nil => rfl
  | cons value values => rw [List.map_cons, separated, separated, separatedTail_map]

theorem ends_separatedTail (endsComma : ∀ rest, Ends (comma :: rest))
    (endsClose : ∀ rest, Ends (close :: rest)) (values : List Value) (rest : List Symbol) :
    Ends (separatedTail comma close encode values ++ rest) := by
  cases values with
  | nil => exact endsClose rest
  | cons value values =>
      rw [separatedTail, List.cons_append]
      exact endsComma _

theorem delimits_separatedTail (different : comma ≠ close)
    (endsComma : ∀ rest, Ends (comma :: rest)) (endsClose : ∀ rest, Ends (close :: rest))
    {values : List Value} (delimits : ∀ value ∈ values, Delimits Ends encode value) :
    Delimits anywhere (separatedTail comma close encode) values := by
  intro others rest rest' _ _ same
  induction values generalizing others with
  | nil =>
      cases others with
      | nil => exact ⟨rfl, List.append_cancel_left same⟩
      | cons other others => exact absurd (List.cons.inj same).1.symm different
  | cons value values inductionHypothesis =>
      cases others with
      | nil => exact absurd (List.cons.inj same).1 different
      | cons other others =>
          simp only [separatedTail, List.cons_append, List.append_assoc] at same
          have bodies := (List.cons.inj same).2
          obtain ⟨equal, remaining⟩ := delimits value List.mem_cons_self
            (ends_separatedTail endsComma endsClose values rest)
            (ends_separatedTail endsComma endsClose others rest') bodies
          obtain ⟨equal', same'⟩ := inductionHypothesis
            (fun value membership => delimits value (List.mem_cons_of_mem _ membership)) remaining
          exact ⟨by rw [equal, equal'], same'⟩

theorem delimits_separated (different : comma ≠ close)
    (endsComma : ∀ rest, Ends (comma :: rest)) (endsClose : ∀ rest, Ends (close :: rest))
    (starts : ∀ value rest, (encode value ++ rest).head? ≠ some close)
    {values : List Value} (delimits : ∀ value ∈ values, Delimits Ends encode value) :
    Delimits anywhere (separated comma close encode) values := by
  intro others rest rest' _ _ same
  cases values with
  | nil =>
      cases others with
      | nil => exact ⟨rfl, List.append_cancel_left same⟩
      | cons other others =>
          rw [separated, separated, List.append_assoc] at same
          exact absurd (congrArg List.head? same).symm (starts other _)
  | cons value values =>
      cases others with
      | nil =>
          rw [separated, separated, List.append_assoc] at same
          exact absurd (congrArg List.head? same) (starts value _)
      | cons other others =>
          rw [separated, separated, List.append_assoc,
            List.append_assoc] at same
          obtain ⟨equal, remaining⟩ := delimits value List.mem_cons_self
            (ends_separatedTail endsComma endsClose values rest)
            (ends_separatedTail endsComma endsClose others rest') same
          have others := delimits_separatedTail different endsComma endsClose
            (fun value membership => delimits value (List.mem_cons_of_mem _ membership))
          obtain ⟨equal', same'⟩ := others trivial trivial remaining
          exact ⟨by rw [equal, equal'], same'⟩

end Lists

end GitScale.Foundation
