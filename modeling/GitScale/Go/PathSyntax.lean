import GitScale.Go.PathMatch

/-!
# The texts of shell patterns

What the reading of a pattern takes from its text: the text of each term, and the stars and
the body of each chunk.  A star within a body is always part of a class, since the scanner
and the reader agree on where a class ends.
-/

namespace GitScale.Go

open Foundation

/-! ## What the terms of a chunk spell -/

/-- The bytes that are not literals of a pattern. -/
def metacharacters : List UInt8 := [byte '*', byte '?', byte '[', byte '\\']

/-- The text has no such byte. -/
def Plain (text : Text) : Prop := ∀ value ∈ text, value ∉ metacharacters

/-- The texts of one term.  The lower end of each range of a class is in its text. -/
inductive SpellsTerm : Term → Text → Prop
  | any : SpellsTerm .any [byte '?']
  | literal {value : UInt8} (plain : value ∉ metacharacters) : SpellsTerm (.literal value) [value]
  | escaped (value : UInt8) : SpellsTerm (.literal value) [byte '\\', value]
  | charClass {negated : Bool} {ranges : List (Nat × Nat)} {inner : Text}
      (nonempty : inner ≠ [])
      (lows : ∀ range ∈ ranges, ∃ bytes, Encoded bytes range.1 ∧ bytes.length ≤ inner.length) :
      SpellsTerm (.charClass negated ranges)
        (byte '[' :: ((if negated then [byte '^'] else []) ++ (inner ++ [byte ']'])))

/-- The texts of a sequence of terms. -/
inductive Spells : List Term → Text → Prop
  | nil : Spells [] []
  | cons {term : Term} {terms : List Term} {text rest : Text} (first : SpellsTerm term text)
      (others : Spells terms rest) : Spells (term :: terms) (text ++ rest)

section Reading

variable {inrange : Bool} {value : UInt8} {text rest chunk bytes : Text} {code : Nat}

@[simp] theorem scanBody_nil : scanBody inrange [] = [] := by simp [scanBody]

theorem scanBody_escape (escaped : UInt8) :
    scanBody inrange (byte '\\' :: escaped :: rest) =
      byte '\\' :: escaped :: scanBody inrange rest := by
  rw [scanBody, if_pos rfl]

theorem scanBody_cons (noEscape : value ≠ byte '\\') :
    scanBody inrange (value :: rest) =
      if value = byte '[' then value :: scanBody true rest
      else if value = byte ']' then value :: scanBody false rest
      else if value = byte '*' ∧ inrange = false then []
      else value :: scanBody inrange rest := by
  rw [scanBody.eq_def]
  simp only
  rw [if_neg noEscape]

theorem scanBody_open : scanBody inrange (byte '[' :: rest) = byte '[' :: scanBody true rest := by
  rw [scanBody_cons (by decide), if_pos rfl]

theorem scanBody_close :
    scanBody inrange (byte ']' :: rest) = byte ']' :: scanBody false rest := by
  rw [scanBody_cons (by decide), if_neg (by decide), if_pos rfl]

/-- Any other byte is kept, a star only within brackets. -/
theorem scanBody_other (noEscape : value ≠ byte '\\') (noOpen : value ≠ byte '[')
    (noClose : value ≠ byte ']') (kept : value = byte '*' → inrange = true) :
    scanBody inrange (value :: rest) = value :: scanBody inrange rest := by
  rw [scanBody_cons noEscape, if_neg noOpen, if_neg noClose, if_neg]
  intro ⟨star, outside⟩
  rw [kept star] at outside
  cases outside

theorem scanBody_idempotent (inrange : Bool) (text : Text) :
    scanBody inrange (scanBody inrange text) = scanBody inrange text := by
  fun_induction scanBody inrange text with
  | case1 => simp
  | case2 => simp [scanBody]
  | case3 inrange escaped rest inductionHypothesis =>
      rw [scanBody_escape, inductionHypothesis]
  | case4 inrange rest _ inductionHypothesis => rw [scanBody_open, inductionHypothesis]
  | case5 inrange rest _ _ inductionHypothesis => rw [scanBody_close, inductionHypothesis]
  | case6 => simp
  | case7 inrange value rest noEscape noOpen noClose outside inductionHypothesis =>
      rw [scanBody_other noEscape noOpen noClose, inductionHypothesis]
      intro star
      simpa [star] using outside

/-- A byte of a longer sequence is none of the special ones. -/
theorem scanBody_append_high (high : ∀ value ∈ bytes, ¬ value < 0x80) :
    scanBody inrange (bytes ++ rest) = bytes ++ scanBody inrange rest := by
  induction bytes with
  | nil => rfl
  | cons first bytes inductionHypothesis =>
      have leading := high first List.mem_cons_self
      have other : ∀ character, byte character < 0x80 → first ≠ byte character :=
        fun character ascii same => leading (same ▸ ascii)
      rw [List.cons_append, scanBody_other (other _ (by decide)) (other _ (by decide))
        (other _ (by decide)) fun star => absurd star (other _ (by decide)),
        inductionHypothesis fun value member => high value (List.mem_cons_of_mem first member)]
      rfl

theorem Encoded.tail_high (encoded : Encoded (value :: bytes) code) :
    ∀ other ∈ bytes, ¬ other < 0x80 := by
  intro other member ascii
  have single := encoded.single_of_mem_ascii ascii (List.mem_cons_of_mem value member)
  rw [(List.cons.inj single).2] at member
  simp at member

/-- Within brackets the scanner keeps every rune but a closing bracket. -/
theorem scanBody_append_encoded (encoded : Encoded bytes code)
    (noEscape : bytes.head? ≠ some (byte '\\')) (noClose : bytes.head? ≠ some (byte ']')) :
    scanBody true (bytes ++ rest) = bytes ++ scanBody true rest := by
  cases bytes with
  | nil => rfl
  | cons first others =>
      have notEscape : first ≠ byte '\\' := fun same => noEscape (by rw [same]; rfl)
      have notClose : first ≠ byte ']' := fun same => noClose (by rw [same]; rfl)
      rw [List.cons_append, List.cons_append, ← scanBody_append_high encoded.tail_high]
      by_cases opening : first = byte '['
      · rw [opening, scanBody_open]
      · exact scanBody_other notEscape opening notClose fun _ => rfl

/-- A rune is read off the front of a text. -/
theorem encoded_append_of_decodeRune (nonempty : text ≠ [])
    (valid : decodeRune text ≠ (runeError, 1)) :
    ∃ bytes, Encoded bytes (decodeRune text).1 ∧ text = bytes ++ text.drop (decodeRune text).2 := by
  cases text with
  | nil => exact absurd rfl nonempty
  | cons first others =>
      exact ⟨_, encoded_of_decodeRune valid, (List.take_append_drop _ _).symm⟩

/-- A rune of a class is escaped, or it is neither a backslash nor a closing bracket. -/
theorem getEsc_cases (read : getEsc chunk = some (code, rest)) :
    ∃ bytes, Encoded bytes code ∧
      (chunk = byte '\\' :: (bytes ++ rest) ∨
        chunk = bytes ++ rest ∧ bytes.head? ≠ some (byte '\\') ∧
          bytes.head? ≠ some (byte ']')) := by
  cases chunk with
  | nil => cases read
  | cons first others =>
      rw [getEsc] at read
      split at read
      · cases read
      · next allowed =>
          rw [not_or] at allowed
          simp only at read
          generalize unescaped : (if first = byte '\\' then others else first :: others) =
            remaining at read
          split at read
          · cases read
          · next decodable =>
              rw [not_or, not_or] at decodable
              obtain ⟨nonempty, valid, -⟩ := decodable
              obtain ⟨bytes, encoded, cut⟩ := encoded_append_of_decodeRune nonempty valid
              rw [Option.some.injEq, Prod.mk.injEq] at read
              rw [read.1] at encoded
              rw [read.2] at cut
              refine ⟨bytes, encoded, ?_⟩
              split at unescaped
              · next backslash =>
                  left
                  rw [backslash, unescaped, cut]
              · next regular =>
                  right
                  have front : bytes.head? = some first := by
                    have heads := congrArg List.head? (unescaped.trans cut)
                    rw [List.head?_append_of_ne_nil _ encoded.ne_nil] at heads
                    exact heads.symm
                  refine ⟨unescaped.trans cut, ?_, ?_⟩
                  · simpa [front] using regular
                  · simpa [front] using allowed.2

/-- The scanner keeps a rune of a class, with the backslash before it. -/
theorem getEsc_spec (read : getEsc chunk = some (code, rest)) :
    ∃ front bytes, chunk = front ++ (bytes ++ rest) ∧ Encoded bytes code ∧
      scanBody true chunk = front ++ (bytes ++ scanBody true rest) := by
  obtain ⟨bytes, encoded, rfl | ⟨rfl, noEscape, noClose⟩⟩ := getEsc_cases read
  · refine ⟨[byte '\\'], bytes, rfl, encoded, ?_⟩
    cases bytes with
    | nil => exact absurd rfl encoded.ne_nil
    | cons escaped bytes =>
        rw [List.cons_append, scanBody_escape, scanBody_append_high encoded.tail_high]
        rfl
  · exact ⟨[], bytes, rfl, encoded, scanBody_append_encoded encoded noEscape noClose⟩

theorem readRange_spec {range : Nat × Nat} (read : readRange chunk = some (range, rest)) :
    ∃ text bytes, chunk = text ++ rest ∧ Encoded bytes range.1 ∧
      bytes.length ≤ text.length ∧ scanBody true chunk = text ++ scanBody true rest := by
  rw [readRange, Option.bind_eq_some_iff] at read
  obtain ⟨⟨low, after⟩, first, read⟩ := read
  obtain ⟨front, bytes, spelled, encoded, scanned⟩ := getEsc_spec first
  simp only at read
  split at read
  · next dash =>
      rw [Option.map_eq_some_iff] at read
      obtain ⟨⟨high, remainder⟩, second, read⟩ := read
      cases read
      obtain ⟨front', bytes', spelled', -, scanned'⟩ := getEsc_spec second
      obtain ⟨tail, rfl⟩ := List.head?_eq_some_iff.mp dash
      rw [List.tail_cons] at spelled' scanned'
      refine ⟨front ++ (bytes ++ byte '-' :: (front' ++ bytes')), bytes, ?_, encoded, ?_, ?_⟩
      · rw [spelled, spelled']
        simp
      · simp only [List.length_append, List.length_cons]
        omega
      · rw [scanned, scanBody_other (by decide) (by decide) (by decide) (fun _ => rfl), scanned']
        simp
  · cases read
    refine ⟨front ++ bytes, bytes, ?_, encoded, ?_, ?_⟩
    · rw [spelled, List.append_assoc]
    · simp
    · rw [scanned, List.append_assoc]

/-- The ranges end at the first closing bracket that is not escaped. -/
theorem readRanges_spec {fuel : Nat} {started : Bool} {ranges : List (Nat × Nat)}
    (read : readRanges fuel started chunk = some (ranges, rest)) :
    ∃ inner, chunk = inner ++ byte ']' :: rest ∧ (started = false → inner ≠ []) ∧
      (∀ range ∈ ranges, ∃ bytes, Encoded bytes range.1 ∧ bytes.length ≤ inner.length) ∧
      scanBody true chunk = inner ++ byte ']' :: scanBody false rest := by
  induction fuel generalizing started chunk ranges with
  | zero => cases read
  | succ fuel inductionHypothesis =>
      rw [readRanges] at read
      split at read
      · next closing =>
          cases read
          rw [Bool.and_eq_true, decide_eq_true_eq] at closing
          obtain ⟨tail, rfl⟩ := List.head?_eq_some_iff.mp closing.2
          refine ⟨[], rfl, by simp [closing.1], by simp, ?_⟩
          rw [scanBody_close]
          rfl
      · rw [Option.bind_eq_some_iff] at read
        obtain ⟨⟨range, after⟩, first, read⟩ := read
        rw [Option.map_eq_some_iff] at read
        obtain ⟨⟨others, remainder⟩, later, read⟩ := read
        cases read
        obtain ⟨text, bytes, spelled, encoded, short, scanned⟩ := readRange_spec first
        obtain ⟨inner, rfl, -, lows, scanned'⟩ := inductionHypothesis later
        have nonempty : text ≠ [] := by
          intro empty
          rw [empty] at short
          exact encoded.ne_nil (List.length_eq_zero_iff.mp (Nat.le_zero.mp short))
        refine ⟨text ++ inner, ?_, fun _ => by simp [nonempty], ?_, ?_⟩
        · rw [spelled, List.append_assoc]
        · intro other member
          rw [List.length_append]
          cases List.mem_cons.mp member with
          | inl same => exact ⟨bytes, same ▸ encoded, by omega⟩
          | inr listed =>
              obtain ⟨low, encodedLow, bounded⟩ := lows other listed
              exact ⟨low, encodedLow, by omega⟩
        · rw [scanned, scanned', List.append_assoc]

theorem readClass_spec {negated : Bool} {term : Term} {taken : Nat}
    (read : readClass negated text = some (term, taken)) :
    ∃ ranges inner, term = .charClass negated ranges ∧ inner ≠ [] ∧
      (∀ range ∈ ranges, ∃ bytes, Encoded bytes range.1 ∧ bytes.length ≤ inner.length) ∧
      text = inner ++ byte ']' :: text.drop taken ∧
      scanBody true text = inner ++ byte ']' :: scanBody false (text.drop taken) := by
  rw [readClass, Option.map_eq_some_iff] at read
  obtain ⟨⟨ranges, rest⟩, ranged, read⟩ := read
  cases read
  obtain ⟨inner, spelled, nonempty, lows, scanned⟩ := readRanges_spec ranged
  have remainder : text.drop (text.length - rest.length) = rest := by
    have suffix : rest <:+ text := ⟨inner ++ [byte ']'], by rw [spelled]; simp⟩
    exact (List.suffix_iff_eq_drop.mp suffix).symm
  refine ⟨ranges, inner, rfl, nonempty rfl, lows, ?_, ?_⟩
  · rw [remainder]
    exact spelled
  · rw [remainder]
    exact scanned

/-- A class takes its own text, with the caret of a negated one, off the front of what the scanner
keeps. -/
theorem openClass_spec {term : Term} {taken : Nat}
    (read : (if rest.head? = some (byte '^') then
        (readClass true rest.tail).map fun read => (read.1, read.2 + 1)
      else readClass false rest) = some (term, taken)) :
    ∃ text, SpellsTerm term text ∧ byte '[' :: rest = text ++ rest.drop taken ∧
      scanBody false (byte '[' :: rest) = text ++ scanBody false (rest.drop taken) := by
  rw [scanBody_open]
  split at read
  · next caret =>
      rw [Option.map_eq_some_iff] at read
      obtain ⟨⟨term, count⟩, classRead, same⟩ := read
      cases same
      obtain ⟨tail, rfl⟩ := List.head?_eq_some_iff.mp caret
      obtain ⟨ranges, inner, rfl, nonempty, lows, spelled, scanned⟩ := readClass_spec classRead
      rw [List.tail_cons] at spelled scanned
      refine ⟨_, .charClass nonempty lows, ?_, ?_⟩
      · rw [List.drop_succ_cons]
        nth_rewrite 1 [spelled]
        simp
      · rw [scanBody_other (by decide) (by decide) (by decide) (fun _ => rfl), scanned,
          List.drop_succ_cons]
        simp
  · obtain ⟨ranges, inner, rfl, nonempty, lows, spelled, scanned⟩ := readClass_spec read
    refine ⟨_, .charClass nonempty lows, ?_, ?_⟩
    · nth_rewrite 1 [spelled]
      simp
    · rw [scanned]
      simp

/-- A term takes its own text off the front of what the scanner keeps. -/
theorem nextTerm_spec {first : UInt8} {emitted : List Term} {taken : Nat}
    (read : nextTerm first rest = .ok (emitted, taken)) (regular : first ≠ byte '*') :
    ∃ term text, emitted = [term] ∧ SpellsTerm term text ∧
      first :: rest = text ++ rest.drop taken ∧
      scanBody false (first :: rest) = text ++ scanBody false (rest.drop taken) := by
  unfold nextTerm at read
  split at read
  · next opening =>
      split at read
      · next term count classRead =>
          cases read
          obtain ⟨text, spells, spelled, scanned⟩ := openClass_spec classRead
          rw [opening]
          exact ⟨term, text, rfl, spells, spelled, scanned⟩
      · cases read
  · next noOpen =>
      split at read
      · next question =>
          cases read
          rw [question]
          exact ⟨_, _, rfl, .any, rfl,
            scanBody_other (by decide) (by decide) (by decide) (fun star => by cases star)⟩
      · next noQuestion =>
          split at read
          · next backslash =>
              cases rest with
              | nil => cases read
              | cons escaped rest =>
                  cases read
                  rw [backslash]
                  exact ⟨_, _, rfl, .escaped escaped, rfl, scanBody_escape escaped⟩
          · next noEscape =>
              cases read
              have plain : first ∉ metacharacters := by
                simp [metacharacters, regular, noQuestion, noOpen, noEscape]
              refine ⟨_, _, rfl, .literal plain, rfl, ?_⟩
              by_cases closing : first = byte ']'
              · rw [closing]
                exact scanBody_close
              · exact scanBody_other noEscape noOpen closing fun star => absurd star regular

/-- The terms of a chunk spell it out. -/
theorem spells_of_readTerms {terms : List Term} (read : readTerms chunk = .ok terms)
    (kept : scanBody false chunk = chunk) : Spells terms chunk := by
  induction size : chunk.length using Nat.strongRecOn generalizing chunk terms with
  | _ size inductionHypothesis =>
      cases chunk with
      | nil =>
          cases read
          exact .nil
      | cons first rest =>
          have regular : first ≠ byte '*' := by
            rintro rfl
            rw [scanBody_cons (by decide)] at kept
            cases kept
          rw [readTerms] at read
          cases emits : nextTerm first rest with
          | error error =>
              rw [scan_cons_of_error emits] at read
              cases read
          | ok step =>
              obtain ⟨emitted, taken⟩ := step
              rw [scan_cons_of_ok emits, map_eq_ok_iff] at read
              obtain ⟨others, later, rfl⟩ := read
              obtain ⟨term, text, rfl, spells, spelled, scanned⟩ := nextTerm_spec emits regular
              rw [kept, spelled] at scanned
              have rest_kept := (List.append_cancel_left scanned).symm
              rw [spelled]
              apply Spells.cons spells
              apply inductionHypothesis (rest.drop taken).length _ later rest_kept rfl
              rw [← size, List.length_drop, List.length_cons]
              omega

end Reading

/-! ## What the chunks of a pattern spell -/

/-- A pattern is its chunks with their stars.  Only the last chunk may have no body. -/
inductive Cut : List Chunk → Text → Prop
  | nil : Cut [] []
  | cons {stars body rest : Text} {others : List Chunk}
      (only : ∀ value ∈ stars, value = byte '*') (progress : stars ++ body ≠ [])
      (kept : scanBody false body = body) (ended : body = [] → rest = [])
      (later : Cut others rest) :
      Cut (⟨!stars.isEmpty, body⟩ :: others) (stars ++ (body ++ rest))

theorem Cut.eq_nil {parts : List Chunk} (cut : Cut parts []) : parts = [] := by
  generalize empty : ([] : Text) = pattern at cut
  cases cut with
  | nil => rfl
  | cons only progress kept ended later =>
      rw [← List.append_assoc] at empty
      exact absurd (List.append_eq_nil_iff.mp empty.symm).1 progress

theorem scanBody_ne_nil {first : UInt8} {rest : Text} (regular : first ≠ byte '*') :
    scanBody false (first :: rest) ≠ [] := by
  by_cases escape : first = byte '\\'
  · rw [escape]
    cases rest with
    | nil => exact List.cons_ne_nil _ _
    | cons escaped rest =>
        rw [scanBody_escape]
        exact List.cons_ne_nil _ _
  · rw [scanBody_cons escape]
    split_ifs with opening closing star
    · exact List.cons_ne_nil _ _
    · exact List.cons_ne_nil _ _
    · exact absurd star.1 regular
    · exact List.cons_ne_nil _ _

theorem scanBody_isPrefix (inrange : Bool) (text : Text) : scanBody inrange text <+: text := by
  fun_induction scanBody inrange text with
  | case1 => exact List.prefix_refl _
  | case2 => exact List.prefix_refl _
  | case3 inrange escaped rest inductionHypothesis =>
      rw [List.prefix_cons_inj, List.prefix_cons_inj]
      exact inductionHypothesis
  | case4 inrange rest _ inductionHypothesis =>
      rw [List.prefix_cons_inj]
      exact inductionHypothesis
  | case5 inrange rest _ _ inductionHypothesis =>
      rw [List.prefix_cons_inj]
      exact inductionHypothesis
  | case6 => exact List.nil_prefix
  | case7 inrange value rest _ _ _ _ inductionHypothesis =>
      rw [List.prefix_cons_inj]
      exact inductionHypothesis

/-- After its stars a pattern that goes on has a body. -/
theorem scanBody_dropWhile_ne_nil {pattern : Text}
    (present : pattern.dropWhile (· = byte '*') ≠ []) :
    scanBody false (pattern.dropWhile (· = byte '*')) ≠ [] := by
  have stops := List.head?_dropWhile_not (fun value => decide (value = byte '*')) pattern
  cases shape : pattern.dropWhile (· = byte '*') with
  | nil => exact absurd shape present
  | cons head tail =>
      have regular : head ≠ byte '*' := by
        rw [shape] at stops
        simpa using stops
      exact scanBody_ne_nil regular

/-- What is left of a text, counted from its second character. -/
theorem drop_rest_of_append {first : UInt8} {rest front remainder : Text}
    (spelled : first :: rest = front ++ remainder) (progress : front ≠ []) :
    rest.drop (rest.length - remainder.length) = remainder := by
  cases front with
  | nil => exact absurd rfl progress
  | cons head others =>
      rw [List.cons_append, List.cons.injEq] at spelled
      rw [spelled.2, List.length_append, Nat.add_sub_cancel, List.drop_left]

/-- The first chunk of a pattern and what is left after it. -/
theorem chunks_cons (first : UInt8) (rest : Text) :
    ∃ stars body remainder, first :: rest = stars ++ (body ++ remainder) ∧
      (∀ value ∈ stars, value = byte '*') ∧ stars ++ body ≠ [] ∧
      scanBody false body = body ∧ (body = [] → remainder = []) ∧
      chunks (first :: rest) = ⟨!stars.isEmpty, body⟩ :: chunks remainder := by
  let stars := (first :: rest).takeWhile (· = byte '*')
  let text := (first :: rest).dropWhile (· = byte '*')
  let body := scanBody false text
  let remainder := text.drop body.length
  have keptFront : text = body ++ remainder :=
    (List.prefix_iff_eq_append.mp (scanBody_isPrefix false text)).symm
  have spelled : first :: rest = stars ++ (body ++ remainder) := by
    rw [← keptFront]
    exact List.takeWhile_append_dropWhile.symm
  have starts : (!stars.isEmpty) = decide (first = byte '*') := by
    by_cases star : first = byte '*'
    · simp [stars, star]
    · simp [stars, star]
  have ended : body = [] → remainder = [] := by
    intro empty
    have exhausted : text = [] := by
      by_contra present
      exact scanBody_dropWhile_ne_nil present empty
    rw [exhausted] at keptFront
    exact (List.append_eq_nil_iff.mp keptFront.symm).2
  have progress : stars ++ body ≠ [] := by
    intro empty
    have bodyEmpty := (List.append_eq_nil_iff.mp empty).2
    rw [ended bodyEmpty, List.append_nil, empty] at spelled
    cases spelled
  have dropped : rest.drop (rest.length - (text.length - body.length)) = remainder := by
    have amount : text.length - body.length = remainder.length := List.length_drop.symm
    rw [amount]
    have whole : first :: rest = (stars ++ body) ++ remainder := by
      rw [spelled, List.append_assoc]
    exact drop_rest_of_append whole progress
  have emits : scanChunk first rest =
      .ok ([⟨decide (first = byte '*'), body⟩],
        rest.length - (text.length - body.length)) := rfl
  refine ⟨stars, body, remainder, spelled, ?_, progress,
    scanBody_idempotent false text, ended, ?_⟩
  · intro value member
    simpa using List.all_eq_true.mp List.all_takeWhile value member
  · rw [chunks, scan_cons_of_ok emits, dropped, starts, chunks]
    cases scan scanChunk remainder with
    | ok others => rfl
    | error impossible => exact impossible.elim

theorem cut_chunks (pattern : Text) : Cut (chunks pattern) pattern := by
  induction size : pattern.length using Nat.strongRecOn generalizing pattern with
  | _ size inductionHypothesis =>
      cases pattern with
      | nil => exact .nil
      | cons first rest =>
          obtain ⟨stars, body, remainder, spelled, only, progress, kept, ended, cut⟩ :=
            chunks_cons first rest
          have positive := List.length_pos_iff.mpr progress
          rw [cut, spelled]
          apply Cut.cons only progress kept ended
          apply inductionHypothesis remainder.length _ remainder rfl
          rw [← size, spelled, ← List.append_assoc, List.length_append]
          omega

end GitScale.Go
