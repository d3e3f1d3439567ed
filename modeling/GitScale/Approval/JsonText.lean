import GitScale.Foundation.Entries
import GitScale.GraphQL.Json
import Mathlib.Data.List.Basic

/-!
# JSON texts and what they mean

The tree of a JSON text, with its numbers and strings as they are written, and the value that
it means under a reading of numbers and strings.  The members of an object are a map there.
-/

namespace GitScale.Approval

open Foundation Go GraphQL

/-! ## Trees -/

/-- The tree of a JSON text; a string by its text between the quotes. -/
inductive JsonTree where
  | null
  | bool (value : Bool)
  | number (numeral : Numeral)
  | string (body : Text)
  | array (elements : List JsonTree)
  | object (members : List (Text × JsonTree))

/-- Induction with the elements and the members at hand. -/
theorem JsonTree.induction {property : JsonTree → Prop} (null : property .null)
    (bool : ∀ value, property (.bool value)) (number : ∀ numeral, property (.number numeral))
    (string : ∀ body, property (.string body))
    (array : ∀ elements, (∀ element ∈ elements, property element) → property (.array elements))
    (object : ∀ members, (∀ member ∈ members, property member.2) → property (.object members))
    (tree : JsonTree) : property tree := by
  refine @JsonTree.rec property (fun elements => ∀ element ∈ elements, property element)
    (fun members => ∀ member ∈ members, property member.2) (fun member => property member.2)
    null bool number string array object ?_ ?_ ?_ ?_ ?_ tree
  · simp
  · intro first others holds later
    exact List.forall_mem_cons.mpr ⟨holds, later⟩
  · simp
  · intro first others holds later
    exact List.forall_mem_cons.mpr ⟨holds, later⟩
  · intro key value holds
    exact holds

mutual

/-- The tokens that a tree is written with. -/
def JsonTree.tokens : JsonTree → List JsonToken
  | .null => [.null]
  | .bool value => [.boolean value]
  | .number numeral => [.number numeral]
  | .string body => [.string body]
  | .array elements => .mark .openBracket :: (elementTokens elements ++ [.mark .closeBracket])
  | .object members => .mark .openBrace :: (memberTokens members ++ [.mark .closeBrace])

/-- The elements of an array with the commas between them. -/
def elementTokens : List JsonTree → List JsonToken
  | [] => []
  | [element] => element.tokens
  | element :: rest => element.tokens ++ .comma :: elementTokens rest

/-- The members of an object with the commas between them. -/
def memberTokens : List (Text × JsonTree) → List JsonToken
  | [] => []
  | [(key, value)] => .string key :: .mark .colon :: value.tokens
  | (key, value) :: rest =>
      .string key :: .mark .colon :: (value.tokens ++ .comma :: memberTokens rest)

end

/-- The text is valid JSON with the given tree. -/
def Denotes (text : Text) (tree : JsonTree) : Prop := lexJson text = .ok tree.tokens

/-! ## Reading trees -/

mutual

/-- `valueInterface` on the tokens: the tree at their start, and the tokens after it. -/
def readTree : Nat → List JsonToken → Option (JsonTree × List JsonToken)
  | 0, _ => none
  | _ + 1, .null :: rest => some (.null, rest)
  | _ + 1, .boolean value :: rest => some (.bool value, rest)
  | _ + 1, .number numeral :: rest => some (.number numeral, rest)
  | _ + 1, .string body :: rest => some (.string body, rest)
  | _ + 1, .mark .openBracket :: .mark .closeBracket :: rest => some (.array [], rest)
  | fuel + 1, .mark .openBracket :: rest => do
      let (elements, rest) ← readArray fuel rest
      return (.array elements, rest)
  | _ + 1, .mark .openBrace :: .mark .closeBrace :: rest => some (.object [], rest)
  | fuel + 1, .mark .openBrace :: rest => do
      let (members, rest) ← readObject fuel rest
      return (.object members, rest)
  | _ + 1, _ => none

/-- `arrayInterface` after the opening bracket of an array that is not empty. -/
def readArray : Nat → List JsonToken → Option (List JsonTree × List JsonToken)
  | 0, _ => none
  | fuel + 1, tokens => do
      let (element, rest) ← readTree fuel tokens
      match rest with
      | .mark .closeBracket :: rest => some ([element], rest)
      | .comma :: rest => do
          let (others, rest) ← readArray fuel rest
          return (element :: others, rest)
      | _ => none

/-- `objectInterface` after the opening brace of an object that is not empty. -/
def readObject : Nat → List JsonToken → Option (List (Text × JsonTree) × List JsonToken)
  | 0, _ => none
  | fuel + 1, .string key :: .mark .colon :: tokens => do
      let (value, rest) ← readTree fuel tokens
      match rest with
      | .mark .closeBrace :: rest => some ([(key, value)], rest)
      | .comma :: rest => do
          let (others, rest) ← readObject fuel rest
          return ((key, value) :: others, rest)
      | _ => none
  | _ + 1, _ => none

end

/-- The tree of a text.  Two calls are enough for each token. -/
def readJson (text : Text) : Option JsonTree :=
  match lexJson text with
  | .error _ => none
  | .ok tokens =>
      match readTree (2 * tokens.length) tokens with
      | some (tree, []) => some tree
      | _ => none

/-- A tree starts with a token that no array or object ends with. -/
theorem JsonTree.tokens_eq_cons (tree : JsonTree) :
    ∃ first others, tree.tokens = first :: others ∧ first ≠ .mark .closeBracket := by
  cases tree with
  | null => exact ⟨_, _, by rw [JsonTree.tokens], by decide⟩
  | bool value => exact ⟨_, _, by rw [JsonTree.tokens], by simp⟩
  | number numeral => exact ⟨_, _, by rw [JsonTree.tokens], by simp⟩
  | string body => exact ⟨_, _, by rw [JsonTree.tokens], by simp⟩
  | array elements => exact ⟨_, _, by rw [JsonTree.tokens], by decide⟩
  | object members => exact ⟨_, _, by rw [JsonTree.tokens], by decide⟩

theorem elementTokens_cons (element : JsonTree) (others : List JsonTree) :
    elementTokens (element :: others) =
      element.tokens ++ if others = [] then [] else .comma :: elementTokens others := by
  cases others with
  | nil => simp [elementTokens]
  | cons other others => rw [elementTokens.eq_def]; simp

theorem memberTokens_cons (key : Text) (value : JsonTree) (others : List (Text × JsonTree)) :
    memberTokens ((key, value) :: others) =
      .string key :: .mark .colon ::
        (value.tokens ++ if others = [] then [] else .comma :: memberTokens others) := by
  cases others with
  | nil => simp [memberTokens]
  | cons other others => rw [memberTokens.eq_def]; simp

/-- A tree is read from its tokens, whatever comes after them. -/
def Readable (tree : JsonTree) : Prop :=
  ∀ fuel rest, 2 * tree.tokens.length ≤ fuel →
    readTree fuel (tree.tokens ++ rest) = some (tree, rest)

theorem readArray_elementTokens {element : JsonTree} {others : List JsonTree}
    (readable : ∀ tree ∈ element :: others, Readable tree) (fuel : Nat) (rest : List JsonToken)
    (enough : 2 * (elementTokens (element :: others)).length + 1 ≤ fuel) :
    readArray fuel (elementTokens (element :: others) ++ .mark .closeBracket :: rest) =
      some (element :: others, rest) := by
  induction others generalizing element fuel with
  | nil =>
      cases fuel with
      | zero => omega
      | succ fuel =>
          rw [elementTokens_cons, if_pos rfl, List.append_nil] at enough ⊢
          have first := readable element List.mem_cons_self fuel (.mark .closeBracket :: rest)
            (by omega)
          rw [readArray, first]
          rfl
  | cons other others inductionHypothesis =>
      cases fuel with
      | zero => omega
      | succ fuel =>
          rw [elementTokens_cons, if_neg (List.cons_ne_nil _ _)] at enough ⊢
          rw [List.length_append, List.length_cons] at enough
          have first := readable element List.mem_cons_self fuel
            (.comma :: (elementTokens (other :: others) ++ .mark .closeBracket :: rest)) (by omega)
          have later := inductionHypothesis
            (fun tree member => readable tree (List.mem_cons_of_mem _ member)) fuel (by omega)
          rw [List.append_assoc, List.cons_append, readArray, first]
          simp [later]

theorem readObject_memberTokens {key : Text} {value : JsonTree} {others : List (Text × JsonTree)}
    (readable : ∀ member ∈ (key, value) :: others, Readable member.2) (fuel : Nat)
    (rest : List JsonToken)
    (enough : 2 * (memberTokens ((key, value) :: others)).length + 1 ≤ fuel) :
    readObject fuel (memberTokens ((key, value) :: others) ++ .mark .closeBrace :: rest) =
      some ((key, value) :: others, rest) := by
  induction others generalizing key value fuel with
  | nil =>
      cases fuel with
      | zero => omega
      | succ fuel =>
          rw [memberTokens_cons, if_pos rfl, List.append_nil] at enough ⊢
          rw [List.length_cons, List.length_cons] at enough
          have first := readable (key, value) List.mem_cons_self fuel (.mark .closeBrace :: rest)
            (by dsimp only; omega)
          rw [List.cons_append, List.cons_append, readObject, first]
          rfl
  | cons other others inductionHypothesis =>
      cases fuel with
      | zero => omega
      | succ fuel =>
          obtain ⟨otherKey, otherValue⟩ := other
          rw [memberTokens_cons, if_neg (List.cons_ne_nil _ _)] at enough ⊢
          simp only [List.length_cons, List.length_append] at enough
          have first := readable (key, value) List.mem_cons_self fuel
            (.comma :: (memberTokens ((otherKey, otherValue) :: others) ++
              .mark .closeBrace :: rest)) (by dsimp only; omega)
          have later := inductionHypothesis
            (fun member inside => readable member (List.mem_cons_of_mem _ inside)) fuel (by omega)
          rw [List.cons_append, List.cons_append, List.append_assoc, List.cons_append, readObject,
            first]
          simp [later]

/-- A single token is read as it is. -/
theorem readable_of_single {tree : JsonTree} {token : JsonToken} (single : tree.tokens = [token])
    (reads : ∀ fuel rest, readTree (fuel + 1) (token :: rest) = some (tree, rest)) :
    Readable tree := by
  intro fuel rest enough
  rw [single, List.length_singleton] at enough
  cases fuel with
  | zero => omega
  | succ fuel =>
      rw [single]
      exact reads fuel rest

theorem readTree_array {fuel : Nat} {first : JsonToken} {tokens rest : List JsonToken}
    {elements : List JsonTree} (different : first ≠ .mark .closeBracket)
    (inside : readArray fuel (first :: tokens) = some (elements, rest)) :
    readTree (fuel + 1) (.mark .openBracket :: first :: tokens) = some (.array elements, rest) := by
  rw [readTree.eq_def]
  simp [inside, different]

theorem readTree_object {fuel : Nat} {key : Text} {tokens rest : List JsonToken}
    {members : List (Text × JsonTree)}
    (inside : readObject fuel (.string key :: tokens) = some (members, rest)) :
    readTree (fuel + 1) (.mark .openBrace :: .string key :: tokens) =
      some (.object members, rest) := by
  rw [readTree.eq_def]
  simp [inside]

theorem readable_array {elements : List JsonTree}
    (readable : ∀ element ∈ elements, Readable element) : Readable (.array elements) := by
  intro fuel rest enough
  rw [JsonTree.tokens] at enough ⊢
  simp only [List.length_cons, List.length_append, List.length_nil] at enough
  cases fuel with
  | zero => omega
  | succ fuel =>
      rw [List.cons_append, List.append_assoc, List.cons_append, List.nil_append]
      cases elements with
      | nil => rfl
      | cons element others =>
          have inside := readArray_elementTokens readable fuel rest (by omega)
          obtain ⟨first, tokens, start, different⟩ := element.tokens_eq_cons
          rw [elementTokens_cons, start, List.cons_append, List.cons_append] at inside ⊢
          exact readTree_array different inside

theorem readable_object {members : List (Text × JsonTree)}
    (readable : ∀ member ∈ members, Readable member.2) : Readable (.object members) := by
  intro fuel rest enough
  rw [JsonTree.tokens] at enough ⊢
  simp only [List.length_cons, List.length_append, List.length_nil] at enough
  cases fuel with
  | zero => omega
  | succ fuel =>
      rw [List.cons_append, List.append_assoc, List.cons_append, List.nil_append]
      cases members with
      | nil => rfl
      | cons member others =>
          obtain ⟨key, value⟩ := member
          have inside := readObject_memberTokens readable fuel rest (by omega)
          rw [memberTokens_cons, List.cons_append] at inside ⊢
          exact readTree_object inside

theorem readable (tree : JsonTree) : Readable tree := by
  induction tree using JsonTree.induction with
  | null => exact readable_of_single (by rw [JsonTree.tokens]) fun _ _ => rfl
  | bool value => exact readable_of_single (by rw [JsonTree.tokens]) fun _ _ => rfl
  | number numeral => exact readable_of_single (by rw [JsonTree.tokens]) fun _ _ => rfl
  | string body => exact readable_of_single (by rw [JsonTree.tokens]) fun _ _ => rfl
  | array elements inductionHypothesis => exact readable_array inductionHypothesis
  | object members inductionHypothesis => exact readable_object inductionHypothesis

theorem readJson_of_denotes {text : Text} {tree : JsonTree} (denotes : Denotes text tree) :
    readJson text = some tree := by
  have read := readable tree (2 * tree.tokens.length) [] (Nat.le_refl _)
  rw [List.append_nil] at read
  unfold readJson
  rw [denotes]
  dsimp only
  rw [read]

/-! ## Size and numbers of a tree -/

mutual

/-- How deep arrays and objects are nested in each other. -/
def JsonTree.depth : JsonTree → Nat
  | .null => 0
  | .bool _ => 0
  | .number _ => 0
  | .string _ => 0
  | .array elements => elementDepth elements + 1
  | .object members => memberDepth members + 1

def elementDepth : List JsonTree → Nat
  | [] => 0
  | element :: rest => max element.depth (elementDepth rest)

def memberDepth : List (Text × JsonTree) → Nat
  | [] => 0
  | (_, value) :: rest => max value.depth (memberDepth rest)

end

mutual

/-- The numbers in a text, those of overwritten members included. -/
def JsonTree.numerals : JsonTree → List Numeral
  | .null => []
  | .bool _ => []
  | .number numeral => [numeral]
  | .string _ => []
  | .array elements => elementNumerals elements
  | .object members => memberNumerals members

def elementNumerals : List JsonTree → List Numeral
  | [] => []
  | element :: rest => element.numerals ++ elementNumerals rest

def memberNumerals : List (Text × JsonTree) → List Numeral
  | [] => []
  | (_, value) :: rest => value.numerals ++ memberNumerals rest

end

theorem mem_elementNumerals {elements : List JsonTree} {element : JsonTree} {numeral : Numeral}
    (inside : element ∈ elements) (occurs : numeral ∈ element.numerals) :
    numeral ∈ elementNumerals elements := by
  induction elements with
  | nil => cases inside
  | cons first others inductionHypothesis =>
      rw [elementNumerals, List.mem_append]
      rcases List.mem_cons.mp inside with rfl | later
      · exact .inl occurs
      · exact .inr (inductionHypothesis later)

theorem mem_memberNumerals {members : List (Text × JsonTree)} {entry : Text × JsonTree}
    {numeral : Numeral} (inside : entry ∈ members) (occurs : numeral ∈ entry.2.numerals) :
    numeral ∈ memberNumerals members := by
  induction members with
  | nil => cases inside
  | cons first others inductionHypothesis =>
      rw [memberNumerals, List.mem_append]
      rcases List.mem_cons.mp inside with rfl | later
      · exact .inl occurs
      · exact .inr (inductionHypothesis later)

/-! ## Meanings -/

/-- A JSON value: the members of an object are a map from keys. -/
inductive JsonMeaning (Number Word : Type) where
  | null
  | bool (value : Bool)
  | number (number : Number)
  | string (word : Word)
  | array (elements : List (JsonMeaning Number Word))
  | object (members : Word → Option (JsonMeaning Number Word))

section Meaning

variable {Number Word : Type} [DecidableEq Word] (number : Numeral → Number) (word : Text → Word)

mutual

/-- The value of a tree under a reading of its numbers and strings.  The last member with a
key counts. -/
def JsonTree.meaning : JsonTree → JsonMeaning Number Word
  | .null => .null
  | .bool value => .bool value
  | .number numeral => .number (number numeral)
  | .string body => .string (word body)
  | .array elements => .array (elementMeanings elements)
  | .object members => .object fun key => lastEntry key (memberMeanings members)

def elementMeanings : List JsonTree → List (JsonMeaning Number Word)
  | [] => []
  | element :: rest => element.meaning :: elementMeanings rest

def memberMeanings : List (Text × JsonTree) → List (Word × JsonMeaning Number Word)
  | [] => []
  | (key, value) :: rest => (word key, value.meaning) :: memberMeanings rest

end

theorem elementMeanings_eq (elements : List JsonTree) :
    elementMeanings number word elements = elements.map (JsonTree.meaning number word) := by
  induction elements with
  | nil => rfl
  | cons element rest inductionHypothesis =>
      rw [elementMeanings, inductionHypothesis, List.map_cons]

theorem memberMeanings_eq (members : List (Text × JsonTree)) :
    memberMeanings number word members =
      members.map fun entry => (word entry.1, entry.2.meaning number word) := by
  induction members with
  | nil => rfl
  | cons entry rest inductionHypothesis =>
      rw [memberMeanings, inductionHypothesis, List.map_cons]

/-- The tree of the last member with a key. -/
def lastTree (key : Word) (members : List (Text × JsonTree)) : Option JsonTree :=
  lastEntry key (members.map fun entry => (word entry.1, entry.2))

theorem lastEntry_memberMeanings (key : Word) (members : List (Text × JsonTree)) :
    lastEntry key (memberMeanings number word members) =
      (lastTree word key members).map (JsonTree.meaning number word) := by
  rw [lastTree, ← lastEntry_map, List.map_map, memberMeanings_eq]
  rfl

theorem exists_of_lastTree {key : Word} {members : List (Text × JsonTree)} {tree : JsonTree}
    (found : lastTree word key members = some tree) : ∃ entry ∈ members, entry.2 = tree := by
  obtain ⟨entry, inside, same⟩ := List.mem_map.mp (mem_of_lastEntry found)
  exact ⟨entry, inside, congrArg Prod.snd same⟩

end Meaning

/-! ## Characters -/

/-- The characters of a string, from its text between the quotes.  Half of a surrogate pair by
itself and a byte that is no part of a character are different from all characters and from
each other. -/
def characterCodes : Nat → Text → List Nat
  | _, [] => []
  | 0, _ => []
  | fuel + 1, value :: rest =>
      if value = backslash then
        match codeUnit (value :: rest) with
        | some code =>
            match (codeUnit (rest.drop 5)).bind (surrogatePair code) with
            | some rune => rune :: characterCodes fuel (rest.drop 11)
            | none => code :: characterCodes fuel (rest.drop 5)
        | none => escapeRune (rest.headD 0) :: characterCodes fuel (rest.drop 1)
      else if decodeRune (value :: rest) = (runeError, 1) then
        (0x110000 + value.toNat) :: characterCodes fuel rest
      else (decodeRune (value :: rest)).1 ::
        characterCodes fuel (rest.drop ((decodeRune (value :: rest)).2 - 1))

def characters (body : Text) : List Nat := characterCodes body.length body

/-- The two texts denote the same JSON value. -/
def SameValue (tree tree' : JsonTree) : Prop :=
  tree.meaning Numeral.value characters = tree'.meaning Numeral.value characters

end GitScale.Approval
