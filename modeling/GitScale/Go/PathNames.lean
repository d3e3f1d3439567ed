import GitScale.Go.PathSyntax

/-!
# Names that match a shell pattern

A pattern matches some name exactly if it is well formed and each of its classes has a
character.  Such a name can be taken no longer than the pattern and different from it, unless
the pattern is plain, and then it matches itself only.
-/

namespace GitScale.Go

open Foundation

/-! ## Names for patterns -/

/-- A name that can stand for part of a pattern: it is not longer, it differs unless the part
is plain, and it keeps the characters around it whole. -/
structure Stands (text name : Text) : Prop where
  short : name.length ≤ text.length
  plain : name = text → Plain text
  whole : ∀ front back, Whole (front ++ (text ++ back)) → Whole (front ++ (name ++ back))

section Stands

variable {text text' name name' : Text}

theorem stands_nil : Stands [] [] where
  short := Nat.le_refl _
  plain := fun _ => by simp [Plain]
  whole := fun _ _ whole => whole

theorem Stands.append (stands : Stands text name) (stands' : Stands text' name') :
    Stands (text ++ text') (name ++ name') where
  short := by
    have first := stands.short
    have second := stands'.short
    simp only [List.length_append]
    omega
  plain := by
    intro same
    have first := stands.short
    have second := stands'.short
    have lengths := congrArg List.length same
    simp only [List.length_append] at lengths
    obtain ⟨fronts, backs⟩ := List.append_inj same (by omega)
    intro value member
    rcases List.mem_append.mp member with left | right
    · exact stands.plain fronts value left
    · exact stands'.plain backs value right
  whole := by
    intro front back whole
    rw [List.append_assoc] at whole ⊢
    have first := stands.whole front (text' ++ back) whole
    rw [← List.append_assoc front] at first ⊢
    exact stands'.whole (front ++ name) back first

/-- Stars can be left out. -/
theorem stands_stars {stars : Text} (only : ∀ value ∈ stars, value = byte '*') :
    Stands stars [] where
  short := Nat.zero_le _
  plain := fun same => by simp [Plain, ← same]
  whole := by
    intro front back whole
    induction stars with
    | nil => exact whole
    | cons first stars inductionHypothesis =>
        rw [only first List.mem_cons_self] at whole
        obtain ⟨left, right⟩ := whole.split (by decide)
        exact inductionHypothesis (fun value member => only value (List.mem_cons_of_mem first member))
          (left.append right)

/-- A character in the place of a text that has an ASCII byte at either end. -/
theorem stands_whole {first last : UInt8} {inner : Text} (ascii : first < 0x80)
    (ascii' : last < 0x80) (short : name.length ≤ (first :: (inner ++ [last])).length)
    (different : name ≠ first :: (inner ++ [last])) (whole : Whole name) :
    Stands (first :: (inner ++ [last])) name where
  short := short
  plain := fun same => absurd same different
  whole := by
    intro front back spelled
    have shape : front ++ ((first :: (inner ++ [last])) ++ back) =
        front ++ first :: (inner ++ last :: back) := by simp
    rw [shape] at spelled
    obtain ⟨left, rest⟩ := spelled.split ascii
    exact left.append (whole.append (rest.split ascii').2)

end Stands

/-! ## Terms that match -/

/-- Some character is in the class, or out of it if it is negated. -/
def Term.Matchable : Term → Prop
  | .any => True
  | .literal _ => True
  | .charClass negated ranges =>
      ∃ character : Char, inRanges ranges character.toNat ≠ negated

section Terms

variable {term : Term} {terms : List Term} {text name rest : Text}

theorem exists_char_decodeRune (first : UInt8) (rest : Text) :
    ∃ character : Char, character.toNat = (decodeRune (first :: rest)).1 := by
  by_cases valid : decodeRune (first :: rest) = (runeError, 1)
  · exact ⟨'\uFFFD', by rw [valid]; rfl⟩
  · obtain ⟨character, same, -⟩ := (encoded_of_decodeRune valid).exists_char
    exact ⟨character, same⟩

theorem matchable_of_take (taken : term.take name = some rest) : term.Matchable := by
  cases term with
  | any => trivial
  | literal value => trivial
  | charClass negated ranges =>
      cases name with
      | nil => cases taken
      | cons first others =>
          rw [Term.take] at taken
          split at taken
          · next admitted =>
              obtain ⟨character, same⟩ := exists_char_decodeRune first others
              exact ⟨character, by rw [same]; exact admitted⟩
          · cases taken

/-- A chunk that matches has a matchable term in each place. -/
theorem matchable_of_matchChunk (matched : matchChunk terms name = some rest) :
    ∀ term ∈ terms, term.Matchable := by
  induction terms generalizing name with
  | nil => simp
  | cons term terms inductionHypothesis =>
      rw [matchChunk, Option.bind_eq_some_iff] at matched
      obtain ⟨after, taken, later⟩ := matched
      intro other member
      cases List.mem_cons.mp member with
      | inl same => exact same ▸ matchable_of_take taken
      | inr listed => exact inductionHypothesis later other listed

/-- A class takes the bytes of any of its characters. -/
theorem take_charClass {negated : Bool} {ranges : List (Nat × Nat)} {character : Char}
    (admitted : inRanges ranges character.toNat ≠ negated) (rest : Text) :
    (Term.charClass negated ranges).take (String.utf8EncodeChar character ++ rest) =
      some rest := by
  have encoded := encoded_utf8EncodeChar character
  have decoded := encoded.decodeRune_append rest
  cases bytes : String.utf8EncodeChar character with
  | nil => exact absurd bytes encoded.ne_nil
  | cons first others =>
      rw [bytes, List.cons_append] at decoded
      rw [List.cons_append, Term.take, decoded, if_pos admitted]
      simp

/-- A matchable class has a character that is no longer than its text. -/
theorem exists_char_charClass {negated : Bool} {ranges : List (Nat × Nat)} {inner : Text}
    (nonempty : inner ≠ [])
    (lows : ∀ range ∈ ranges, ∃ bytes, Encoded bytes range.1 ∧ bytes.length ≤ inner.length)
    (matchable : (Term.charClass negated ranges).Matchable) :
    ∃ character : Char, inRanges ranges character.toNat ≠ negated ∧
      (String.utf8EncodeChar character).length ≤
        (if negated then [byte '^'] else []).length + inner.length + 2 := by
  obtain ⟨character, admitted⟩ := matchable
  cases negated with
  | true =>
      have bounds := (encoded_utf8EncodeChar character).code_bounds
      have positive := List.length_pos_iff.mpr nonempty
      exact ⟨character, admitted, by simp only [if_true, List.length_singleton]; omega⟩
  | false =>
      -- The lower end of the range that admits the character is in the text.
      have found : inRanges ranges character.toNat = true := by simpa using admitted
      obtain ⟨range, listed, bounds⟩ := List.any_eq_true.mp found
      rw [Bool.and_eq_true, decide_eq_true_eq, decide_eq_true_eq] at bounds
      obtain ⟨bytes, encoded, short⟩ := lows range listed
      obtain ⟨low, same, width⟩ := encoded.exists_char
      have ownRange : inRanges ranges low.toNat = true := by
        apply List.any_eq_true.mpr
        refine ⟨range, listed, ?_⟩
        rw [same, Bool.and_eq_true, decide_eq_true_eq, decide_eq_true_eq]
        exact ⟨Nat.le_refl _, Nat.le_trans bounds.1 bounds.2⟩
      exact ⟨low, by simp [ownRange], by rw [width]; simp; omega⟩

theorem take_any_ascii {value : UInt8} (ascii : value < 0x80) (noSlash : value ≠ byte '/')
    (rest : Text) : Term.any.take (value :: rest) = some rest := by
  have decoded : decodeRune (value :: rest) = (value.toNat, 1) :=
    (Encoded.one ascii).decodeRune_append rest
  rw [Term.take, if_neg noSlash, decoded]
  rfl

theorem whole_ascii (character : Char) (ascii : String.utf8EncodeChar character = [byte character]) :
    Whole [byte character] := ascii ▸ whole_utf8EncodeChar character

/-- A matchable term has a name that stands for its text. -/
theorem exists_name_of_spellsTerm (spells : SpellsTerm term text) (matchable : term.Matchable) :
    ∃ name, name ≠ [] ∧ Stands text name ∧ ∀ rest, term.take (name ++ rest) = some rest := by
  cases spells with
  | any =>
      refine ⟨[byte 'a'], List.cons_ne_nil _ _, ⟨Nat.le_refl _, ?_, ?_⟩,
        take_any_ascii (by decide) (by decide)⟩
      · intro same
        exact absurd same (by decide)
      · intro front back whole
        obtain ⟨left, right⟩ := whole.split (by decide)
        exact left.append ((whole_ascii 'a' rfl).append right)
  | @literal value plain =>
      refine ⟨[value], List.cons_ne_nil _ _, ⟨Nat.le_refl _, ?_, fun _ _ whole => whole⟩, ?_⟩
      · intro _ other member
        rw [List.mem_singleton.mp member]
        exact plain
      · intro rest
        rw [List.singleton_append, Term.take, if_pos rfl]
  | escaped value =>
      refine ⟨[value], List.cons_ne_nil _ _, ⟨by simp, ?_, ?_⟩, ?_⟩
      · intro same
        exact absurd (congrArg List.length same) (by simp)
      · intro front back whole
        obtain ⟨left, right⟩ := whole.split (by decide)
        exact left.append right
      · intro rest
        rw [List.singleton_append, Term.take, if_pos rfl]
  | @charClass negated ranges inner nonempty lows =>
      obtain ⟨character, admitted, short⟩ := exists_char_charClass nonempty lows matchable
      have encoded := encoded_utf8EncodeChar character
      refine ⟨String.utf8EncodeChar character, encoded.ne_nil, ?_, take_charClass admitted⟩
      rw [← List.append_assoc]
      apply stands_whole (by decide) (by decide)
      · simp only [List.length_cons, List.length_append, List.length_nil]
        omega
      · -- A sequence with a bracket in it is the bracket alone.
        intro same
        have bracket : byte '[' ∈ String.utf8EncodeChar character := by
          rw [same]
          exact List.mem_cons_self
        have single := encoded.single_of_mem_ascii (by decide) bracket
        rw [single] at same
        exact absurd (congrArg List.length same) (by simp)
      · exact whole_utf8EncodeChar character

/-- Terms that are matchable have a name that stands for their text. -/
theorem exists_name_of_spells (spells : Spells terms text)
    (matchable : ∀ term ∈ terms, term.Matchable) :
    ∃ name, (text ≠ [] → name ≠ []) ∧ Stands text name ∧
      ∀ rest, matchChunk terms (name ++ rest) = some rest := by
  induction spells with
  | nil => exact ⟨[], fun nonempty => nonempty, stands_nil, fun rest => rfl⟩
  | @cons term terms text rest first others inductionHypothesis =>
      obtain ⟨block, present, stands, takes⟩ :=
        exists_name_of_spellsTerm first (matchable term List.mem_cons_self)
      obtain ⟨name, -, stands', matched⟩ := inductionHypothesis fun other member =>
        matchable other (List.mem_cons_of_mem term member)
      refine ⟨block ++ name, fun _ => by simp [present], stands.append stands', fun tail => ?_⟩
      rw [List.append_assoc, matchChunk, takes]
      exact matched tail

end Terms

/-! ## Patterns that match some name -/

/-- The chunk is well formed and each of its terms is matchable. -/
def Chunk.Matchable (chunk : Chunk) : Prop :=
  ∃ terms, readTerms chunk.body = .ok terms ∧ ∀ term ∈ terms, term.Matchable

/-- Every chunk of the pattern can be matched. -/
def MatchableText (pattern : Text) : Prop := ∀ chunk ∈ chunks pattern, chunk.Matchable

/-- Every chunk of the pattern can be matched. -/
def Matchable (pattern : String) : Prop := MatchableText (utf8 pattern)

section Chunks

variable {terms : List Term} {pattern name rest : Text}

/-- A place found for a chunk is a match at some part of the name. -/
theorem matchChunk_of_firstFit {star last : Bool}
    (found : firstFit star last terms name = some rest) :
    ∃ part, matchChunk terms part = some rest := by
  induction name with
  | nil =>
      rw [firstFit] at found
      split at found
      case h_1 fit =>
          cases found
          exact ⟨[], (Option.filter_eq_some_iff.mp fit).1⟩
      case h_2 => cases found
  | cons first name inductionHypothesis =>
      rw [firstFit] at found
      split at found
      case h_1 fit =>
          cases found
          exact ⟨first :: name, (Option.filter_eq_some_iff.mp fit).1⟩
      case h_2 =>
          split at found
          case isTrue => exact inductionHypothesis found
          case isFalse => cases found

/-- A match at the front that takes enough is the first one. -/
theorem firstFit_of_matchChunk (star : Bool) {last : Bool}
    (matched : matchChunk terms name = some rest) (enough : last = true → rest = []) :
    firstFit star last terms name = some rest := by
  have fits : (rest.isEmpty || !last) = true := by
    cases last with
    | false => simp
    | true => simp [enough rfl]
  have filtered : (matchChunk terms name).filter (fun rest => rest.isEmpty || !last) =
      some rest := by
    rw [matched, Option.filter_some, if_pos fits]
  cases name with
  | nil => rw [firstFit, filtered]
  | cons first name => rw [firstFit, filtered]

theorem matchable_of_matchChunks {parts : List Chunk} (cut : Cut parts pattern)
    (matched : matchChunks parts name = some true) : ∀ chunk ∈ parts, chunk.Matchable := by
  induction cut generalizing name with
  | nil => simp
  | @cons stars body rest others only progress kept ended later inductionHypothesis =>
      rw [matchChunks] at matched
      split at matched
      case isTrue trailing =>
          rw [Bool.and_eq_true, List.isEmpty_iff] at trailing
          have last : others = [] := Cut.eq_nil (ended trailing.2 ▸ later)
          rw [last]
          intro only membership
          rw [List.mem_singleton.mp membership]
          exact ⟨[], by rw [trailing.2]; rfl, by simp⟩
      case isFalse =>
          cases read : readTerms body with
          | error => simp [read] at matched
          | ok terms =>
              simp only [read] at matched
              cases found : firstFit (!stars.isEmpty) others.isEmpty terms name with
              | none => simp [found] at matched
              | some rest =>
                  simp only [found] at matched
                  obtain ⟨part, fits⟩ := matchChunk_of_firstFit found
                  intro other membership
                  cases List.mem_cons.mp membership with
                  | inl same =>
                      rw [same]
                      exact ⟨terms, read, matchable_of_matchChunk fits⟩
                  | inr listed => exact inductionHypothesis matched other listed

/-- Stars at the end of a pattern have a name of one letter. -/
theorem stands_trailing {stars : Text} (only : ∀ value ∈ stars, value = byte '*')
    (present : stars ≠ []) : Stands stars [byte 'a'] where
  short := List.length_pos_iff.mpr present
  plain := by
    intro same
    have star := only (byte 'a') (by rw [← same]; exact List.mem_cons_self)
    exact absurd star (by decide)
  whole := by
    intro front back whole
    cases stars with
    | nil => exact absurd rfl present
    | cons first stars =>
        rw [only first List.mem_cons_self] at whole
        obtain ⟨left, right⟩ := whole.split (by decide)
        have remaining := (stands_stars fun value member =>
          only value (List.mem_cons_of_mem first member)).whole [] back right
        exact left.append ((whole_ascii 'a' rfl).append remaining)

/-- A pattern whose chunks can be matched has a name that stands for it. -/
theorem exists_name_of_cut {parts : List Chunk} (cut : Cut parts pattern)
    (matchable : ∀ chunk ∈ parts, chunk.Matchable) :
    ∃ name, (pattern ≠ [] → name ≠ []) ∧ Stands pattern name ∧
      matchChunks parts name = some true := by
  induction cut with
  | nil => exact ⟨[], fun nonempty => nonempty, stands_nil, rfl⟩
  | @cons stars body rest others only progress kept ended later inductionHypothesis =>
      by_cases trailing : body = []
      · have starred : stars ≠ [] := by simpa [trailing] using progress
        refine ⟨[byte 'a'], fun _ => List.cons_ne_nil _ _, ?_, ?_⟩
        · rw [trailing, ended trailing, List.append_nil, List.append_nil]
          exact stands_trailing only starred
        · have onlyStars : (!stars.isEmpty && body.isEmpty) = true := by
            simp [starred, trailing]
          rw [matchChunks, if_pos onlyStars]
          rfl
      · obtain ⟨name, -, stands, matched⟩ := inductionHypothesis fun other member =>
          matchable other (List.mem_cons_of_mem _ member)
        obtain ⟨terms, read, possible⟩ := matchable _ List.mem_cons_self
        obtain ⟨front, present, standsFront, fits⟩ :=
          exists_name_of_spells (spells_of_readTerms read kept) possible
        have whole : others.isEmpty = true → name = [] := by
          intro last
          rw [List.isEmpty_iff] at last
          rw [last] at matched
          simpa [matchChunks] using matched
        have continues : ¬ (!stars.isEmpty && body.isEmpty) = true := by simp [trailing]
        refine ⟨front ++ name, fun _ => by simp [present trailing], ?_, ?_⟩
        · exact (stands_stars only).append (standsFront.append stands)
        · rw [matchChunks, if_neg continues, read]
          simp only [firstFit_of_matchChunk (!stars.isEmpty) (fits name) whole]
          exact matched

/-- The pattern is well formed. -/
def validPattern (pattern : Text) : Bool :=
  (chunks pattern).all fun chunk => (readTerms chunk.body).toBool

theorem matchChunks_ne_none_iff {parts : List Chunk} (cut : Cut parts pattern) (name : Text) :
    matchChunks parts name ≠ none ↔
      (parts.all fun chunk => (readTerms chunk.body).toBool) = true := by
  induction cut generalizing name with
  | nil => simp [matchChunks]
  | @cons stars body rest others only progress kept ended later inductionHypothesis =>
      rw [matchChunks, List.all_cons]
      split
      · next trailing =>
          rw [Bool.and_eq_true, List.isEmpty_iff] at trailing
          have last : others = [] := Cut.eq_nil (ended trailing.2 ▸ later)
          have empty : body = [] := trailing.2
          rw [last, empty]
          exact ⟨fun _ => rfl, fun _ => by simp⟩
      · cases read : readTerms body with
        | error => simp [Except.toBool]
        | ok terms =>
            cases found : firstFit (!stars.isEmpty) others.isEmpty terms name with
            | none => simp [found, Except.toBool]
            | some rest => simpa [found, Except.toBool] using inductionHypothesis rest

/-- Whether a pattern is malformed does not depend on the name. -/
theorem pathMatchText_ne_none_iff (pattern name : Text) :
    pathMatchText pattern name ≠ none ↔ validPattern pattern = true :=
  matchChunks_ne_none_iff (cut_chunks pattern) name

theorem matchableText_of_pathMatchText (matched : pathMatchText pattern name = some true) :
    MatchableText pattern :=
  matchable_of_matchChunks (cut_chunks pattern) matched

/-- A matchable pattern has a name that stands for it and matches. -/
theorem MatchableText.exists_name (matchable : MatchableText pattern) :
    ∃ name, (pattern ≠ [] → name ≠ []) ∧ Stands pattern name ∧
      pathMatchText pattern name = some true :=
  exists_name_of_cut (cut_chunks pattern) matchable

theorem exists_pathMatch_iff (pattern : String) :
    (∃ name, pathMatch pattern name = some true) ↔ Matchable pattern := by
  constructor
  · intro ⟨name, matched⟩
    exact matchableText_of_pathMatchText matched
  · intro matchable
    obtain ⟨text, -, stands, matched⟩ := matchable.exists_name
    have whole : Whole text := by
      simpa using stands.whole [] [] (by simpa using whole_utf8 pattern)
    obtain ⟨name, rfl⟩ := whole.exists_string
    exact ⟨name, matched⟩

end Chunks

/-! ## Plain patterns -/

section Plain

variable {pattern name rest : Text}

theorem Plain.tail {first : UInt8} (plain : Plain (first :: rest)) : Plain rest :=
  fun value member => plain value (List.mem_cons_of_mem first member)

theorem Plain.head {first : UInt8} (plain : Plain (first :: rest)) : first ∉ metacharacters :=
  plain first List.mem_cons_self

theorem scanBody_of_plain (plain : Plain pattern) : scanBody false pattern = pattern := by
  induction pattern with
  | nil => rfl
  | cons first rest inductionHypothesis =>
      have head := plain.head
      simp only [metacharacters, List.mem_cons, List.not_mem_nil, or_false, not_or] at head
      obtain ⟨noStar, -, noOpen, noEscape⟩ := head
      rw [scanBody_cons noEscape, inductionHypothesis plain.tail]
      simp [noOpen, noStar]

theorem readTerms_of_plain (plain : Plain pattern) :
    readTerms pattern = .ok (pattern.map .literal) := by
  induction pattern with
  | nil => rfl
  | cons first rest inductionHypothesis =>
      have head := plain.head
      simp only [metacharacters, List.mem_cons, List.not_mem_nil, or_false, not_or] at head
      obtain ⟨-, noQuestion, noOpen, noEscape⟩ := head
      have emits : nextTerm first rest = .ok ([.literal first], 0) := by
        simp [nextTerm, noOpen, noQuestion, noEscape]
      have others := inductionHypothesis plain.tail
      rw [readTerms] at others
      rw [readTerms, scan_cons_of_ok emits, List.drop_zero, others]
      rfl

theorem matchChunk_literal (pattern name rest : Text) :
    matchChunk (pattern.map .literal) name = some rest ↔ name = pattern ++ rest := by
  induction pattern generalizing name with
  | nil => simp [matchChunk]
  | cons first pattern inductionHypothesis =>
      rw [List.map_cons, matchChunk, Option.bind_eq_some_iff, List.cons_append]
      cases name with
      | nil => simp [Term.take]
      | cons other name =>
          rw [List.cons.injEq, ← inductionHypothesis name, Term.take]
          by_cases same : first = other
          · simp [same]
          · simp [same, eq_comm]

theorem chunks_of_plain (plain : Plain pattern) (nonempty : pattern ≠ []) :
    chunks pattern = [⟨false, pattern⟩] := by
  cases pattern with
  | nil => exact absurd rfl nonempty
  | cons first rest =>
      have noStar : first ≠ byte '*' := by
        intro star
        exact plain.head (by rw [star]; decide)
      have text : (first :: rest).dropWhile (fun value => decide (value = byte '*')) =
          first :: rest := by
        rw [List.dropWhile_cons, if_neg (by simpa using noStar)]
      have emits : scanChunk first rest = .ok ([⟨false, first :: rest⟩], rest.length) := by
        simp [scanChunk, text, scanBody_of_plain plain, noStar]
      rw [chunks, scan_cons_of_ok emits, List.drop_length]
      rfl

/-- Without a star the last chunk takes the whole name or does not match. -/
theorem firstFit_last (terms : List Term) (name : Text) :
    firstFit false true terms name = (matchChunk terms name).filter (·.isEmpty) := by
  cases fit : (matchChunk terms name).filter (·.isEmpty) with
  | none =>
      cases name with
      | nil => simp [firstFit, fit]
      | cons first name => simp [firstFit, fit]
  | some rest =>
      cases name with
      | nil => simp [firstFit, fit]
      | cons first name => simp [firstFit, fit]

/-- A pattern without special bytes matches itself only. -/
theorem pathMatchText_of_plain (plain : Plain pattern) :
    pathMatchText pattern name = some true ↔ name = pattern := by
  by_cases empty : pattern = []
  · rw [empty, pathMatchText, show chunks [] = [] from rfl, matchChunks]
    simp
  · rw [pathMatchText, chunks_of_plain plain empty, matchChunks, if_neg (by simp),
      readTerms_of_plain plain]
    simp only [List.isEmpty_nil, firstFit_last]
    have literal := matchChunk_literal pattern name []
    rw [List.append_nil] at literal
    by_cases same : name = pattern
    · rw [literal.mpr same, Option.filter_some, if_pos List.isEmpty_nil]
      simp [same, matchChunks]
    · have unmatched : (matchChunk (pattern.map .literal) name).filter (·.isEmpty) = none := by
        rw [Option.filter_eq_none_iff]
        intro rest matched empty
        rw [List.isEmpty_iff.mp empty] at matched
        exact same (literal.mp matched)
      simp [unmatched, same]

end Plain

end GitScale.Go
