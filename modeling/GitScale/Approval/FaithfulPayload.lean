import GitScale.Approval.CanonicalJson

/-!
# Faithful payloads

A canonical payload stands for the value of its text as far as a `float64` and a Go string can
hold it.  Texts with other numbers can be taken for each other, told apart although their values
are equal, or refused.
-/

namespace GitScale.Approval

open Foundation Go GraphQL

/-! ## Two readings of a text -/

mutual

/-- The strings of a text and the keys of its members. -/
def JsonTree.words : JsonTree → List Text
  | .null => []
  | .bool _ => []
  | .number _ => []
  | .string body => [body]
  | .array elements => elementWords elements
  | .object members => memberWords members

def elementWords : List JsonTree → List Text
  | [] => []
  | element :: rest => element.words ++ elementWords rest

def memberWords : List (Text × JsonTree) → List Text
  | [] => []
  | (key, value) :: rest => key :: (value.words ++ memberWords rest)

end

theorem mem_elementWords {elements : List JsonTree} {element : JsonTree} {body : Text}
    (inside : element ∈ elements) (occurs : body ∈ element.words) :
    body ∈ elementWords elements := by
  induction elements with
  | nil => cases inside
  | cons first others inductionHypothesis =>
      rw [elementWords, List.mem_append]
      rcases List.mem_cons.mp inside with rfl | later
      · exact .inl occurs
      · exact .inr (inductionHypothesis later)

theorem mem_memberWords {members : List (Text × JsonTree)} {entry : Text × JsonTree} {body : Text}
    (inside : entry ∈ members) (occurs : body = entry.1 ∨ body ∈ entry.2.words) :
    body ∈ memberWords members := by
  induction members with
  | nil => cases inside
  | cons first others inductionHypothesis =>
      rw [memberWords, List.mem_cons, List.mem_append]
      rcases List.mem_cons.mp inside with rfl | later
      · exact occurs.imp_right .inl
      · exact .inr (.inr (inductionHypothesis later))

section Readings

variable {Number Number' Word Word' : Type} [DecidableEq Word] [DecidableEq Word']
  {number : Numeral → Number} {number' : Numeral → Number'} {word : Text → Word}
  {word' : Text → Word'}

/-- Two readings agree on which numbers and which words of the texts are equal. -/
structure Agree (number : Numeral → Number) (number' : Numeral → Number') (word : Text → Word)
    (word' : Text → Word') (numerals : List Numeral) (words : List Text) : Prop where
  numbers : ∀ numeral ∈ numerals, ∀ other ∈ numerals,
    number numeral = number other ↔ number' numeral = number' other
  words : ∀ body ∈ words, ∀ other ∈ words, word body = word other ↔ word' body = word' other

/-- The key of a member finds the same member under both readings. -/
theorem lastTree_congr {members : List (Text × JsonTree)} {key : Text}
    (words : ∀ entry ∈ members, word entry.1 = word key ↔ word' entry.1 = word' key) :
    lastTree word (word key) members = lastTree word' (word' key) members := by
  unfold lastTree
  induction members with
  | nil => rfl
  | cons entry members inductionHypothesis =>
      have later := inductionHypothesis fun entry inside =>
        words entry (List.mem_cons_of_mem _ inside)
      have here := words entry List.mem_cons_self
      rw [List.map_cons, List.map_cons, lastEntry, lastEntry, later]
      simp only [here]

theorem lastTree_eq_none {members : List (Text × JsonTree)} {key : Word}
    (absent : ∀ entry ∈ members, word entry.1 ≠ key) : lastTree word key members = none := by
  rw [Option.eq_none_iff_forall_ne_some]
  intro tree found
  obtain ⟨entry, inside, same⟩ := List.mem_map.mp (mem_of_lastEntry found)
  exact absent entry inside (congrArg Prod.fst same)

/-- Objects that are equal under one reading are equal under the other one, if their members
are. -/
theorem members_of_agree {First Second : Type} {image : JsonTree → First}
    {image' : JsonTree → Second} {members others : List (Text × JsonTree)}
    (words : ∀ entry ∈ members ++ others, ∀ other ∈ members ++ others,
      word entry.1 = word other.1 ↔ word' entry.1 = word' other.1)
    (alike : ∀ entry ∈ members, ∀ other ∈ others,
      image entry.2 = image other.2 → image' entry.2 = image' other.2)
    (same : ∀ key, (lastTree word key members).map image = (lastTree word key others).map image)
    (key : Word') :
    (lastTree word' key members).map image' = (lastTree word' key others).map image' := by
  by_cases present : ∃ entry ∈ members ++ others, word' entry.1 = key
  · obtain ⟨entry, inside, rfl⟩ := present
    have found : lastTree word (word entry.1) members = lastTree word' (word' entry.1) members :=
      lastTree_congr fun other member => words other (List.mem_append_left _ member) entry inside
    have found' : lastTree word (word entry.1) others = lastTree word' (word' entry.1) others :=
      lastTree_congr fun other member => words other (List.mem_append_right _ member) entry inside
    have equal := same (word entry.1)
    rw [found, found'] at equal
    cases first : lastTree word' (word' entry.1) members with
    | none =>
        cases second : lastTree word' (word' entry.1) others with
        | none => rfl
        | some tree' =>
            rw [first, second] at equal
            cases equal
    | some tree =>
        cases second : lastTree word' (word' entry.1) others with
        | none =>
            rw [first, second] at equal
            cases equal
        | some tree' =>
            obtain ⟨member, isMember, rfl⟩ := exists_of_lastTree word' first
            obtain ⟨other, isOther, rfl⟩ := exists_of_lastTree word' second
            rw [first, second] at equal
            exact congrArg some (alike member isMember other isOther (Option.some.inj equal))
  · have absent : ∀ entry ∈ members ++ others, word' entry.1 ≠ key := fun entry inside same =>
      present ⟨entry, inside, same⟩
    rw [lastTree_eq_none fun entry inside => absent entry (List.mem_append_left _ inside),
      lastTree_eq_none fun entry inside => absent entry (List.mem_append_right _ inside)]

variable {numerals : List Numeral} {bodies : List Text}

/-- Under readings that agree, the same objects have equal meanings, if their members do. -/
theorem object_meaning_eq_iff {members members' : List (Text × JsonTree)}
    (words : ∀ entry ∈ members ++ members', ∀ other ∈ members ++ members',
      word entry.1 = word other.1 ↔ word' entry.1 = word' other.1)
    (alike : ∀ entry ∈ members, ∀ other ∈ members',
      entry.2.meaning number word = other.2.meaning number word ↔
        entry.2.meaning number' word' = other.2.meaning number' word') :
    (JsonTree.object members).meaning number word = (JsonTree.object members').meaning number word ↔
      (JsonTree.object members).meaning number' word' =
        (JsonTree.object members').meaning number' word' := by
  simp only [JsonTree.meaning, JsonMeaning.object.injEq, funext_iff, lastEntry_memberMeanings]
  constructor
  · apply members_of_agree words
    exact fun entry member other member' => (alike entry member other member').mp
  · apply members_of_agree
    · exact fun entry member other member' => (words entry member other member').symm
    · exact fun entry member other member' => (alike entry member other member').mpr

/-- Under readings that agree, the same trees have equal meanings. -/
theorem meaning_eq_iff_of_agree (agree : Agree number number' word word' numerals bodies)
    {tree tree' : JsonTree} (inside : tree.numerals ⊆ numerals) (within : tree.words ⊆ bodies)
    (inside' : tree'.numerals ⊆ numerals) (within' : tree'.words ⊆ bodies) :
    tree.meaning number word = tree'.meaning number word ↔
      tree.meaning number' word' = tree'.meaning number' word' := by
  induction tree using JsonTree.induction generalizing tree' with
  | null => cases tree' <;> simp [JsonTree.meaning]
  | bool value => cases tree' <;> simp [JsonTree.meaning]
  | number numeral =>
      cases tree' with
      | number other =>
          have mine : numeral ∈ numerals := inside (by simp [JsonTree.numerals])
          have other : other ∈ numerals := inside' (by simp [JsonTree.numerals])
          simp [JsonTree.meaning, agree.numbers _ mine _ other]
      | null | bool | string | array | object => simp [JsonTree.meaning]
  | string body =>
      cases tree' with
      | string other =>
          have mine : body ∈ bodies := within (by simp [JsonTree.words])
          have other : other ∈ bodies := within' (by simp [JsonTree.words])
          simp [JsonTree.meaning, agree.words _ mine _ other]
      | null | bool | number | array | object => simp [JsonTree.meaning]
  | array elements inductionHypothesis =>
      cases tree' with
      | array elements' =>
          simp only [JsonTree.meaning, JsonMeaning.array.injEq, elementMeanings_eq]
          apply map_eq_map_iff_of
          intro element member other member'
          apply inductionHypothesis element member
          · exact fun numeral occurs => inside (mem_elementNumerals member occurs)
          · exact fun body occurs => within (mem_elementWords member occurs)
          · exact fun numeral occurs => inside' (mem_elementNumerals member' occurs)
          · exact fun body occurs => within' (mem_elementWords member' occurs)
      | null | bool | number | string | object => simp [JsonTree.meaning]
  | object members inductionHypothesis =>
      cases tree' with
      | object members' =>
          have keys : ∀ entry ∈ members ++ members', entry.1 ∈ bodies := by
            intro entry member
            rcases List.mem_append.mp member with left | right
            · exact within (mem_memberWords left (.inl rfl))
            · exact within' (mem_memberWords right (.inl rfl))
          apply object_meaning_eq_iff
          · exact fun entry member other member' =>
              agree.words _ (keys entry member) _ (keys other member')
          · intro entry member other member'
            apply inductionHypothesis entry member
            · exact fun numeral occurs => inside (mem_memberNumerals member occurs)
            · exact fun body occurs => within (mem_memberWords member (.inr occurs))
            · exact fun numeral occurs => inside' (mem_memberNumerals member' occurs)
            · exact fun body occurs => within' (mem_memberWords member' (.inr occurs))
      | null | bool | number | string | array => simp [JsonTree.meaning]

end Readings

/-! ## Numbers that a `float64` holds -/

/-- The number is the value of a `float64` and not minus zero, and its exponent is below 10000. -/
structure Numeral.Exact (numeral : Numeral) : Prop where
  exponent : ∀ exponent ∈ numeral.exponent, digitsValue exponent.digits < 10000
  range : |numeral.value| < outOfRange
  value : magnitude (nearest |numeral.value|) = |numeral.value|
  zero : numeral.value = 0 → numeral.negative = false

theorem value_eq (numeral : Numeral) :
    numeral.value = if numeral.negative then -|numeral.value| else |numeral.value| := by
  have scale : (0 : Rat) ≤ (10 : Rat) ^ (numeral.exponent.elim 0 Exponent.value) :=
    zpow_nonneg (by norm_num) _
  have size : (0 : Rat) ≤ digitsValue numeral.integer +
      (digitsValue numeral.fraction : Rat) / (10 : Rat) ^ numeral.fraction.length := by positivity
  have product := mul_nonneg size scale
  unfold Numeral.value
  dsimp only
  cases numeral.negative with
  | true =>
      rw [if_pos rfl, if_pos rfl, neg_mul, abs_neg, abs_of_nonneg product]
  | false =>
      rw [if_neg (by decide), if_neg (by decide), abs_of_nonneg product]

theorem signOf_floatBits {negative : Bool} {bits : Nat} (small : bits < 2 ^ 63) :
    signOf (floatBits negative bits) = negative := by
  unfold signOf floatBits
  rw [UInt64.toNat_ofNat']
  cases negative with
  | true =>
      rw [if_pos rfl, decide_eq_true_iff]
      omega
  | false =>
      rw [if_neg (by decide), decide_eq_false_iff_not]
      omega

theorem Numeral.Exact.small {numeral : Numeral} (exact : Numeral.Exact numeral) :
    nearest |numeral.value| < 2 ^ 63 := by
  have finite := (nearest_lt_infinityBits_iff (abs_nonneg numeral.value)).mpr exact.range
  unfold infinityBits at finite
  omega

theorem Numeral.Exact.parsedBits_eq {numeral : Numeral} (exact : Numeral.Exact numeral) :
    parsedBits numeral = nearestBits numeral := by
  rw [parsedBits, nearestBits, readMagnitude_eq exact.exponent]

/-- Exact numbers have the same bits exactly if they have the same value. -/
theorem parsedBits_eq_iff {numeral other : Numeral} (exact : Numeral.Exact numeral)
    (exact' : Numeral.Exact other) :
    parsedBits numeral = parsedBits other ↔ numeral.value = other.value := by
  rw [exact.parsedBits_eq, exact'.parsedBits_eq]
  constructor
  · intro same
    have magnitudes := congrArg magnitudeBits same
    have signs := congrArg signOf same
    unfold nearestBits at magnitudes signs
    rw [magnitudeBits_floatBits exact.small, magnitudeBits_floatBits exact'.small] at magnitudes
    rw [signOf_floatBits exact.small, signOf_floatBits exact'.small] at signs
    rw [value_eq numeral, value_eq other, signs, ← exact.value, ← exact'.value, magnitudes]
  · intro same
    have signs : numeral.negative = other.negative := by
      by_cases zero : numeral.value = 0
      · rw [exact.zero zero, exact'.zero (same ▸ zero)]
      · have positive : 0 < |numeral.value| := abs_pos.mpr zero
        have first := value_eq numeral
        have second := value_eq other
        rw [← same] at second
        cases negative : numeral.negative with
        | true =>
            cases negative' : other.negative with
            | true => rfl
            | false =>
                simp only [negative, if_true] at first
                simp only [negative', Bool.false_eq_true, if_false] at second
                linarith
        | false =>
            cases negative' : other.negative with
            | false => rfl
            | true =>
                simp only [negative, Bool.false_eq_true, if_false] at first
                simp only [negative', if_true] at second
                linarith
    rw [nearestBits, nearestBits, same, signs]

/-! ## Strings of characters -/

/-- All that stands between the quotes are characters. -/
def WellFormed (body : Text) : Prop := ∀ code ∈ characters body, code.isValidChar

theorem singleUnit_of_valid {code : Nat} (valid : code.isValidChar) : singleUnit code = code := by
  unfold singleUnit
  rw [if_neg]
  unfold Nat.isValidChar at valid
  omega

/-- Characters are decoded as they are. -/
theorem runes_eq_of_valid (fuel : Nat) (body : Text)
    (valid : ∀ code ∈ characterCodes fuel body, code.isValidChar) :
    runes fuel body = characterCodes fuel body := by
  induction fuel generalizing body with
  | zero => cases body <;> rfl
  | succ fuel inductionHypothesis =>
      cases body with
      | nil => rfl
      | cons value rest =>
          rw [characterCodes.eq_def] at valid ⊢
          rw [runes.eq_def]
          dsimp only at valid ⊢
          by_cases escaped : value = backslash
          · simp only [if_pos escaped] at valid ⊢
            cases unit : codeUnit (value :: rest) with
            | none =>
                simp only [unit] at valid ⊢
                rw [inductionHypothesis _ fun code later =>
                  valid code (List.mem_cons_of_mem _ later)]
            | some code =>
                simp only [unit] at valid ⊢
                cases pair : (codeUnit (rest.drop 5)).bind (surrogatePair code) with
                | some rune =>
                    simp only [pair] at valid ⊢
                    rw [inductionHypothesis _ fun code later =>
                      valid code (List.mem_cons_of_mem _ later)]
                | none =>
                    simp only [pair] at valid ⊢
                    rw [singleUnit_of_valid (valid code List.mem_cons_self),
                      inductionHypothesis _ fun code later =>
                        valid code (List.mem_cons_of_mem _ later)]
          · simp only [if_neg escaped] at valid ⊢
            by_cases broken : decodeRune (value :: rest) = (runeError, 1)
            · simp only [if_pos broken] at valid
              have wrong := valid _ List.mem_cons_self
              unfold Nat.isValidChar at wrong
              omega
            · simp only [if_neg broken] at valid ⊢
              rw [inductionHypothesis _ fun code later => valid code (List.mem_cons_of_mem _ later)]

theorem WellFormed.unquote_eq {body : Text} (wellFormed : WellFormed body) :
    unquote body = String.ofList ((characters body).map Char.ofNat) := by
  rw [unquote, runes_eq_of_valid _ _ wellFormed]
  rfl

theorem toNat_ofNat_of_valid {code : Nat} (valid : code.isValidChar) :
    (Char.ofNat code).toNat = code := by
  rw [Char.ofNat, dif_pos valid]
  rfl

theorem WellFormed.characters_eq {body : Text} (wellFormed : WellFormed body) :
    characters body = (unquote body).toList.map Char.toNat := by
  rw [wellFormed.unquote_eq, String.toList_ofList, List.map_map]
  have same : (characters body).map (Char.toNat ∘ Char.ofNat) = (characters body).map id := by
    apply List.map_congr_left
    intro code occurs
    exact toNat_ofNat_of_valid (wellFormed code occurs)
  rw [same, List.map_id]

/-- Strings of characters are equal exactly if their characters are. -/
theorem unquote_eq_iff {body other : Text} (wellFormed : WellFormed body)
    (wellFormed' : WellFormed other) :
    unquote body = unquote other ↔ characters body = characters other := by
  constructor
  · intro same
    rw [wellFormed.characters_eq, wellFormed'.characters_eq, same]
  · intro same
    rw [wellFormed.unquote_eq, wellFormed'.unquote_eq, same]

/-! ## Faithful payloads -/

/-- The text loses nothing when it is decoded: it is not nested too deep, each number is the value
of a `float64` and not minus zero, and all strings consist of characters. -/
structure JsonTree.Exact (tree : JsonTree) : Prop where
  depth : tree.depth ≤ maxNestingDepth
  numbers : ∀ numeral ∈ tree.numerals, Numeral.Exact numeral
  words : ∀ body ∈ tree.words, WellFormed body

/-- What decoding does to the texts agrees with their values.  Texts with the same value can be
decoded, the signs of their zeros are the same, and no keys become equal; texts with different
values are different after rounding, or one of them cannot be decoded. -/
structure Kept (tree tree' : JsonTree) : Prop where
  same : SameValue tree tree' → tree.Decodable ∧ tree'.Decodable ∧ SameRounded tree tree'
  different : tree.Decodable → tree'.Decodable → SameRounded tree tree' → SameValue tree tree'

theorem JsonTree.Exact.decodable {tree : JsonTree} (exact : tree.Exact) : tree.Decodable :=
  ⟨exact.depth, fun numeral occurs => by
    rw [readMagnitude_eq (exact.numbers numeral occurs).exponent]
    exact (exact.numbers numeral occurs).range⟩

theorem sameRounded_iff_of_exact {tree tree' : JsonTree} (exact : tree.Exact)
    (exact' : tree'.Exact) : SameRounded tree tree' ↔ SameValue tree tree' := by
  have agree : Agree parsedBits Numeral.value unquote characters
      (tree.numerals ++ tree'.numerals) (tree.words ++ tree'.words) := by
    constructor
    · intro numeral occurs other occurs'
      apply parsedBits_eq_iff
      · exact (List.mem_append.mp occurs).elim (exact.numbers numeral) (exact'.numbers numeral)
      · exact (List.mem_append.mp occurs').elim (exact.numbers other) (exact'.numbers other)
    · intro body occurs other occurs'
      apply unquote_eq_iff
      · exact (List.mem_append.mp occurs).elim (exact.words body) (exact'.words body)
      · exact (List.mem_append.mp occurs').elim (exact.words other) (exact'.words other)
  exact meaning_eq_iff_of_agree agree (List.subset_append_left _ _)
    (List.subset_append_left _ _) (List.subset_append_right _ _) (List.subset_append_right _ _)

theorem kept_of_exact {tree tree' : JsonTree} (exact : tree.Exact) (exact' : tree'.Exact) :
    Kept tree tree' where
  same value :=
    ⟨exact.decodable, exact'.decodable, (sameRounded_iff_of_exact exact exact').mpr value⟩
  different _ _ := (sameRounded_iff_of_exact exact exact').mp

theorem faithful_iff_kept (describe : Bytes → String) {first second : Text}
    {tree tree' : JsonTree} (denotes : Denotes first tree) (denotes' : Denotes second tree') :
    (SameBytes describe first second ↔ SameValue tree tree') ↔ Kept tree tree' := by
  rw [sameBytes_iff describe denotes denotes']
  constructor
  · intro faithful
    exact ⟨faithful.mpr, fun decodable decodable' rounded =>
      faithful.mp ⟨decodable, decodable', rounded⟩⟩
  · intro kept
    exact ⟨fun accepted => kept.different accepted.1 accepted.2.1 accepted.2.2, kept.same⟩

/-- Valid JSON texts have equal canonical payloads exactly if they have the same value, where
decoding keeps the values, and in particular where it loses nothing. -/
theorem canonicalPayload_faithful_iff (describe : Bytes → String) {first second : Text}
    {tree tree' : JsonTree} (denotes : Denotes first tree) (denotes' : Denotes second tree') :
    ((SameBytes describe first second ↔ SameValue tree tree') ↔ Kept tree tree') ∧
      (tree.Exact → tree'.Exact → (SameBytes describe first second ↔ SameValue tree tree')) := by
  have general := faithful_iff_kept describe denotes denotes'
  exact ⟨general, fun exact exact' => general.mpr (kept_of_exact exact exact')⟩

/-- Two members in one order and in the other one. -/
def forwardTree : JsonTree := .object [(utf8 "a", .array [.bool true]), (utf8 "b", .null)]

def backwardTree : JsonTree := .object [(utf8 "b", .null), (utf8 "a", .array [.bool true])]

/-- A tree without numbers and with the words `a` and `b` loses nothing. -/
theorem exact_of_words {tree : JsonTree} (depth : tree.depth ≤ maxNestingDepth)
    (numerals : tree.numerals = []) (words : tree.words ⊆ [utf8 "a", utf8 "b"]) : tree.Exact := by
  refine ⟨depth, ?_, ?_⟩
  · intro numeral occurs
    rw [numerals] at occurs
    cases occurs
  · intro body occurs
    have valid : WellFormed (utf8 "a") ∧ WellFormed (utf8 "b") := by
      unfold WellFormed Nat.isValidChar
      decide
    rcases List.mem_pair.mp (words occurs) with rfl | rfl
    · exact valid.1
    · exact valid.2

theorem sameValue_reordered : SameValue forwardTree backwardTree := by
  have different : characters (utf8 "a") ≠ characters (utf8 "b") := by decide
  unfold SameValue forwardTree backwardTree
  simp only [JsonTree.meaning, JsonMeaning.object.injEq]
  funext key
  simp only [memberMeanings, lastEntry]
  by_cases first : characters (utf8 "a") = key
  · subst first
    simp [different.symm]
  · by_cases second : characters (utf8 "b") = key
    · subst second
      simp [different]
    · simp [first, second]

theorem canonicalPayload_faithful_iff_reordered :
    SameBytes (fun _ => "") (utf8 "\x7b\"a\":[true],\"b\":null\x7d")
      (utf8 "\x7b \"b\" : null, \"a\" : [ true ] \x7d") := by
  have denotes : Denotes (utf8 "\x7b\"a\":[true],\"b\":null\x7d") forwardTree := rfl
  have denotes' : Denotes (utf8 "\x7b \"b\" : null, \"a\" : [ true ] \x7d") backwardTree := rfl
  have forward : forwardTree.Exact := exact_of_words (by decide) rfl (by decide)
  have backward : backwardTree.Exact := exact_of_words (by decide) rfl (by decide)
  exact ((canonicalPayload_faithful_iff _ denotes denotes').2 forward backward).mpr
    sameValue_reordered

/-- A whole number. -/
def wholeNumeral (digits : String) : Numeral := ⟨false, utf8 digits, [], none⟩

theorem decodable_number {numeral : Numeral} (range : readMagnitude numeral < outOfRange) :
    (JsonTree.number numeral).Decodable := by
  refine ⟨Nat.zero_le _, ?_⟩
  intro other occurs
  rw [JsonTree.numerals, List.mem_singleton] at occurs
  rwa [occurs]

/-- No `float64` lies between 2^53 and 2^53 + 2. -/
theorem neighbours_not_faithful :
    Denotes (utf8 "9007199254740993") (.number (wholeNumeral "9007199254740993")) ∧
      Denotes (utf8 "9007199254740992") (.number (wholeNumeral "9007199254740992")) ∧
      ¬ (SameBytes (fun _ => "") (utf8 "9007199254740993") (utf8 "9007199254740992") ↔
        SameValue (.number (wholeNumeral "9007199254740993"))
          (.number (wholeNumeral "9007199254740992"))) := by
  have denotes : Denotes (utf8 "9007199254740993") (.number (wholeNumeral "9007199254740993")) :=
    rfl
  have denotes' : Denotes (utf8 "9007199254740992") (.number (wholeNumeral "9007199254740992")) :=
    rfl
  refine ⟨denotes, denotes', ?_⟩
  rw [faithful_iff_kept _ denotes denotes']
  intro kept
  have value : (wholeNumeral "9007199254740993").value = 9007199254740993 := by decide +kernel
  have value' : (wholeNumeral "9007199254740992").value = 9007199254740992 := by decide +kernel
  have rounded : SameRounded (.number (wholeNumeral "9007199254740993"))
      (.number (wholeNumeral "9007199254740992")) := by
    have bits : parsedBits (wholeNumeral "9007199254740993") =
        parsedBits (wholeNumeral "9007199254740992") := by decide +kernel
    simp only [SameRounded, JsonTree.meaning, bits]
  have equal := kept.different (decodable_number (by decide +kernel))
    (decodable_number (by decide +kernel)) rounded
  simp only [SameValue, JsonTree.meaning, JsonMeaning.number.injEq, value, value'] at equal
  norm_num at equal

end GitScale.Approval
