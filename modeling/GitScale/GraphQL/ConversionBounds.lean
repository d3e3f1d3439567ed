import GitScale.GraphQL.DocumentValues
import GitScale.GraphQL.ObjectLiteral

/-!
# The conversion of parsed literals stays in bounds

The loop over a string in `graphqlObjectToJSON` goes beyond the end of a text only after a
backslash at the end, which no value of a parsed document has.
-/

namespace GitScale.GraphQL

open Foundation Go

/-- What follows the first bytes of a text ends as the text does. -/
theorem getLast?_ne_of_drop {text : Text} {value : UInt8} (ending : text.getLast? ≠ some value)
    (count : Nat) : (text.drop count).getLast? ≠ some value := by
  intro last
  rw [List.getLast?_drop] at last
  split at last
  · cases last
  · exact ending last

/-- A string goes beyond the end of a text only after a backslash at the end. -/
theorem stringTaken_ne_none {text : Text} (ending : text.getLast? ≠ some backslash) :
    stringTaken text ≠ none := by
  induction text using stringTaken.induct with
  | case1 => exact Option.some_ne_none 0
  | case2 => exact absurd rfl ending
  | case3 head rest inductionHypothesis =>
      have later := inductionHypothesis (getLast?_ne_of_drop ending 2)
      simpa [stringTaken] using later
  | case4 rest different =>
      unfold stringTaken
      rw [if_neg different, if_pos rfl]
      exact Option.some_ne_none 1
  | case5 value rest notBackslash notQuote inductionHypothesis =>
      have later := inductionHypothesis (getLast?_ne_of_drop ending 1)
      unfold stringTaken
      rw [if_neg notBackslash, if_neg notQuote]
      simpa using later

/-- Only a string can go out of range. -/
theorem convertNext_ne_panic {value : UInt8} {rest : Text}
    (ending : rest.getLast? ≠ some backslash) : convertNext value rest ≠ .error .panic := by
  unfold convertNext
  split_ifs with blank comma mark string number letter
  · simp
  · simp
  · simp
  · cases taken : stringTaken rest with
    | none => exact absurd taken (stringTaken_ne_none ending)
    | some count => simp
  · simp
  · simp
  · simp

theorem graphqlObjectToJSON_ne_panic {text : Text} (ending : text.getLast? ≠ some backslash) :
    graphqlObjectToJSON text ≠ .error .panic := by
  unfold graphqlObjectToJSON
  -- The text that is left gets shorter and keeps its end.
  induction length : text.length using Nat.strong_induction_on generalizing text with
  | _ count inductionHypothesis =>
      cases text with
      | nil => simp
      | cons value rest =>
          have tail : rest.getLast? ≠ some backslash := getLast?_ne_of_drop ending 1
          rw [scan_cons]
          cases emits : convertNext value rest with
          | error failure =>
              intro same
              cases same
              exact convertNext_ne_panic tail emits
          | ok emitted =>
              have shorter : (rest.drop emitted.2).length < count := by
                rw [← length, List.length_drop, List.length_cons]
                omega
              have later := inductionHypothesis _ shorter (getLast?_ne_of_drop tail emitted.2) rfl
              dsimp only
              cases result : scan convertNext (rest.drop emitted.2) with
              | error failure =>
                  intro same
                  cases same
                  exact later result
              | ok out =>
                  intro same
                  cases same

/-- The conversion of every value of a parsed document ends, with JSON or with an error, and not
with a slice out of range; further iterations would not change what it returns. -/
theorem conversion_in_bounds {source : Text} {document : Document} {next : Nat}
    (accepted : parseQuery source = .ok document next) {value : ArgValue}
    (listed : value ∈ document.values) :
    ((∃ out, graphqlObjectToJSON (toBytes value.raw) = .ok out) ∨
      ∃ message, graphqlObjectToJSON (toBytes value.raw) = .error (.error message)) ∧
    ∀ fuel, (toBytes value.raw).length ≤ fuel →
      scanLoop convertNext fuel (toBytes value.raw) = graphqlObjectToJSON (toBytes value.raw) := by
  have ending := (parsed_of_mem_values accepted value listed).ending
  refine ⟨?_, fun fuel enough => scanLoop_eq_scanLoop enough (Nat.le_refl _)⟩
  cases result : graphqlObjectToJSON (toBytes value.raw) with
  | ok out => exact .inl ⟨out, rfl⟩
  | error failure =>
      cases failure with
      | error message => exact .inr ⟨message, rfl⟩
      | panic => exact absurd result (graphqlObjectToJSON_ne_panic ending)

/-- A block string with a backslash before its closing quotes. -/
def blockString : ArgValue := ⟨none, "\"\"\"b\\\"\"\""⟩

def blockStringQuery : Text := utf8 "\x7b a(x: \"\"\"b\\\"\"\") \x7d"

def blockStringDocument : Document :=
  ⟨[⟨.query, "", [.field (.mk "a" "" [("x", blockString)] [] [])]⟩], []⟩

theorem conversion_in_bounds_blockString :
    parseQuery blockStringQuery = .ok blockStringDocument 18 ∧
      blockString ∈ blockStringDocument.values ∧
      ((∃ out, graphqlObjectToJSON (toBytes blockString.raw) = .ok out) ∨
        ∃ message, graphqlObjectToJSON (toBytes blockString.raw) = .error (.error message)) := by
  have accepted : parseQuery blockStringQuery = .ok blockStringDocument 18 := by decide +kernel
  have listed : blockString ∈ blockStringDocument.values := by decide
  exact ⟨accepted, listed, (conversion_in_bounds accepted listed).1⟩

end GitScale.GraphQL
