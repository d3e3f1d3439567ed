import GitScale.Go.JsonWriter

/-!
# Raw messages

A `json.RawMessage` is written into the message around it without its blanks and with the
characters escaped that HTML or JavaScript would stumble on.  It keeps its meaning: every string
in it decodes to what it decoded to before.
-/

namespace GitScale.Go

open Foundation GraphQL Approval

/-! ## Closed texts of strings -/

/-- The text between the quotes of a string, by what it consists of. -/
inductive Closed : Text → Prop where
  | nil : Closed []
  | plain {value : UInt8} {rest : Text} (notQuote : value ≠ quote) (notEscape : value ≠ backslash)
      (visible : ¬ value < 0x20) (closed : Closed rest) : Closed (value :: rest)
  | escape {letter : UInt8} {rest : Text} (standard : isEscape letter = true)
      (closed : Closed rest) : Closed (backslash :: letter :: rest)
  | unicode {first second third fourth : UInt8} {rest : Text}
      (hex : [first, second, third, fourth].all isHex = true) (closed : Closed rest) :
      Closed (backslash :: byte 'u' :: first :: second :: third :: fourth :: rest)

theorem closed_of_readBody {text body : Text} (read : readBody text = some body) :
    Closed body := by
  fun_induction readBody text generalizing body with
  | case2 rest =>
      cases read
      exact .nil
  | case4 letter rest standard _ inductionHypothesis =>
      rcases Option.map_eq_some_iff.mp read with ⟨inner, readInner, rfl⟩
      exact .escape standard (inductionHypothesis readInner)
  | case5 first second third fourth rest hex _ _ inductionHypothesis =>
      rcases Option.map_eq_some_iff.mp read with ⟨inner, readInner, rfl⟩
      exact .unicode hex (inductionHypothesis readInner)
  | case10 value rest notQuote notEscape visible inductionHypothesis =>
      rcases Option.map_eq_some_iff.mp read with ⟨inner, readInner, rfl⟩
      exact .plain notQuote notEscape visible (inductionHypothesis readInner)
  | _ => cases read

theorem Closed.closes {body : Text} (closed : Closed body) : Closes body := by
  intro rest
  induction closed with
  | nil => exact readBody_quote
  | plain notQuote notEscape visible closed inductionHypothesis =>
      rw [List.cons_append, readBody_plain notQuote notEscape visible, inductionHypothesis]
      rfl
  | escape standard closed inductionHypothesis =>
      rw [List.cons_append, List.cons_append, readBody_escape standard, inductionHypothesis]
      rfl
  | unicode hex closed inductionHypothesis =>
      simp only [List.cons_append]
      rw [readBody_unicode hex, inductionHypothesis]
      rfl

theorem closes_iff {body : Text} : Closes body ↔ Closed body :=
  ⟨fun closes => closed_of_readBody (closes []), Closed.closes⟩

/-! ## Escaping -/

/-- `<`, `>` and `&`. -/
def isHTML (value : UInt8) : Bool :=
  value = byte '<' || value = byte '>' || value = byte '&'

/-- What is written for the line and the paragraph separator, by their last byte. -/
def separatorEscape (third : UInt8) : Text :=
  [backslash, byte 'u', byte '2', byte '0', byte '2', byte (hexDigit (third &&& 0xf))]

/-- The text of a string as `compact` of `encoding/json` copies it. -/
def escapeBody : Text → Text
  | [] => []
  | first :: rest =>
      if isHTML first then escapeAscii first ++ escapeBody rest
      else
        match rest with
        | second :: third :: others =>
            if first = 0xE2 ∧ second = 0x80 ∧ (third = 0xA8 ∨ third = 0xA9) then
              separatorEscape third ++ escapeBody others
            else first :: escapeBody (second :: third :: others)
        | short => first :: escapeBody short

/-- One step of the copy: a character is escaped, a separator is escaped, or a byte is kept. -/
theorem escapeBody_cons (first : UInt8) (rest : Text) :
    (isHTML first = true ∧ escapeBody (first :: rest) = escapeAscii first ++ escapeBody rest) ∨
    (∃ third others, first = 0xE2 ∧ rest = 0x80 :: third :: others ∧
      (third = 0xA8 ∨ third = 0xA9) ∧
      escapeBody (first :: rest) = separatorEscape third ++ escapeBody others) ∨
    (isHTML first = false ∧
      (∀ third others, first = 0xE2 → rest = 0x80 :: third :: others →
        ¬ (third = 0xA8 ∨ third = 0xA9)) ∧
      escapeBody (first :: rest) = first :: escapeBody rest) := by
  cases html : isHTML first with
  | true =>
      refine .inl ⟨rfl, ?_⟩
      rw [escapeBody.eq_def]
      simp only [html, if_true]
  | false =>
      have unfolded := escapeBody.eq_def (first :: rest)
      simp only [html, Bool.false_eq_true, if_false] at unfolded
      match rest, unfolded with
      | [], unfolded => exact .inr (.inr ⟨rfl, by simp, unfolded⟩)
      | [second], unfolded => exact .inr (.inr ⟨rfl, by simp, unfolded⟩)
      | second :: third :: others, unfolded =>
          by_cases separator : first = 0xE2 ∧ second = 0x80 ∧ (third = 0xA8 ∨ third = 0xA9)
          · simp only [separator, and_self, if_true] at unfolded
            refine .inr (.inl ⟨third, others, separator.1, ?_, separator.2.2, ?_⟩)
            · rw [separator.2.1]
            · rw [separator.1, separator.2.1]
              simpa [separator.1, separator.2.1, separator.2.2] using unfolded
          · simp only [separator, if_false] at unfolded
            refine .inr (.inr ⟨rfl, ?_, unfolded⟩)
            intro third' others' lead same last
            cases same
            exact separator ⟨lead, rfl, last⟩

theorem escapeBody_of_kept {first : UInt8} (plain : isHTML first = false) (lead : first ≠ 0xE2)
    (rest : Text) : escapeBody (first :: rest) = first :: escapeBody rest := by
  rcases escapeBody_cons first rest with ⟨html, -⟩ | ⟨third, others, isLead, -⟩ | ⟨-, -, kept⟩
  · rw [plain] at html
    cases html
  · exact absurd isLead lead
  · exact kept

/-! ## Runes -/

/-- A byte that continues a rune. -/
def isContinuation (value : UInt8) : Bool := within 0x80 0xBF value

theorem isContinuation_spec : ∀ value, isContinuation value = true →
    isHTML value = false ∧ value ≠ 0xE2 ∧ value ≠ backslash ∧ ¬ value < 0x80 :=
  forall_byte (by decide)

theorem Encoded.continued {first : UInt8} {others : Text} {code : Nat}
    (encoded : Encoded (first :: others) code) : others.all isContinuation = true := by
  have second {lead value : UInt8}
      (bounds : within (secondBounds lead).1 (secondBounds lead).2 value = true) :
      isContinuation value = true := by
    rw [within_secondBounds_iff] at bounds
    exact within_iff.mpr ⟨bounds.1, bounds.2.1⟩
  cases encoded with
  | one ascii => rfl
  | two leading bounds width => simp [second bounds]
  | three leading bounds longer continued width =>
      have third := show isContinuation _ = true from continued
      simp [second bounds, third]
  | four leading bounds longer continued longest width =>
      have third := show isContinuation _ = true from continued
      have fourth := show isContinuation _ = true from (Bool.and_eq_true _ _ ▸ width).2
      simp [second bounds, third, fourth]

theorem escapeBody_append {front : Text} (continued : front.all isContinuation = true)
    (rest : Text) : escapeBody (front ++ rest) = front ++ escapeBody rest := by
  induction front with
  | nil => rfl
  | cons first front inductionHypothesis =>
      rw [List.all_cons, Bool.and_eq_true] at continued
      have spec := isContinuation_spec first continued.1
      rw [List.cons_append, escapeBody_of_kept spec.1 spec.2.1, inductionHypothesis continued.2,
        List.cons_append]

/-- Bytes that continue a rune are copies. -/
theorem exists_of_escapeBody {front tail rest : Text} (continued : front.all isContinuation = true)
    (copied : escapeBody rest = front ++ tail) : ∃ others, rest = front ++ others := by
  induction front generalizing rest with
  | nil => exact ⟨rest, rfl⟩
  | cons value front inductionHypothesis =>
      rw [List.all_cons, Bool.and_eq_true] at continued
      have spec := isContinuation_spec value continued.1
      cases rest with
      | nil => cases copied
      | cons first rest =>
          rcases escapeBody_cons first rest with
            ⟨html, escaped⟩ | ⟨third, others, -, -, -, escaped⟩ | ⟨-, -, kept⟩
          · have starts : (escapeAscii first).head? = some backslash := by
              have each : ∀ value, isHTML value = true →
                  (escapeAscii value).head? = some backslash := forall_byte (by decide)
              exact each first html
            rw [escaped] at copied
            have heads := congrArg List.head? copied
            rw [List.head?_append, starts, List.cons_append, List.head?_cons] at heads
            exact absurd (Option.some.inj heads).symm spec.2.2.1
          · rw [escaped] at copied
            have heads := congrArg List.head? copied
            exact absurd (Option.some.inj heads).symm spec.2.2.1
          · rw [kept, List.cons_append, List.cons.injEq] at copied
            rcases inductionHypothesis continued.2 copied.2 with ⟨others, rfl⟩
            exact ⟨others, by rw [copied.1, List.cons_append]⟩

theorem exists_of_decodeRune {first : UInt8} {rest : Text}
    (valid : decodeRune (first :: rest) ≠ (runeError, 1)) :
    ∃ front others code, rest = front ++ others ∧ Encoded (first :: front) code := by
  have encoded := encoded_of_decodeRune valid
  cases width : (decodeRune (first :: rest)).2 with
  | zero =>
      rw [width, List.take_zero] at encoded
      exact absurd rfl encoded.ne_nil
  | succ count =>
      rw [width, List.take_succ_cons] at encoded
      exact ⟨rest.take count, rest.drop count, _, (List.take_append_drop count rest).symm, encoded⟩

/-- Copying does not change the rune at the front, nor what follows it. -/
theorem decodeRune_escapeBody (first : UInt8) (rest : Text) :
    ∃ front others code, rest = front ++ others ∧ front.all isContinuation = true ∧
      decodeRune (first :: rest) = (code, front.length + 1) ∧
      decodeRune (first :: escapeBody rest) = (code, front.length + 1) := by
  by_cases valid : decodeRune (first :: rest) = (runeError, 1)
  · by_cases copied : decodeRune (first :: escapeBody rest) = (runeError, 1)
    · exact ⟨[], rest, runeError, rfl, rfl, valid, copied⟩
    · rcases exists_of_decodeRune copied with ⟨front, tail, code, split, encoded⟩
      rcases exists_of_escapeBody encoded.continued split with ⟨others, rfl⟩
      have decoded := encoded.decodeRune_append others
      rw [List.cons_append, valid] at decoded
      exact absurd decoded.symm encoded.ne_broken
  · rcases exists_of_decodeRune valid with ⟨front, others, code, rfl, encoded⟩
    refine ⟨front, others, code, rfl, encoded.continued, ?_, ?_⟩
    · have decoded := encoded.decodeRune_append others
      rwa [List.cons_append, List.length_cons] at decoded
    · have decoded := encoded.decodeRune_append (escapeBody others)
      rw [escapeBody_append encoded.continued]
      rwa [List.cons_append, List.length_cons] at decoded

theorem Closed.of_append {front others : Text} (continued : front.all isContinuation = true)
    (closed : Closed (front ++ others)) : Closed others := by
  induction front with
  | nil => exact closed
  | cons first front inductionHypothesis =>
      rw [List.all_cons, Bool.and_eq_true] at continued
      have spec := isContinuation_spec first continued.1
      rw [List.cons_append] at closed
      generalize split : first :: (front ++ others) = text at closed
      cases closed with
      | nil => cases split
      | plain notQuote notEscape visible closed =>
          cases split
          exact inductionHypothesis continued.2 closed
      | escape standard closed => exact absurd (List.cons.inj split).1 spec.2.2.1
      | unicode hex closed => exact absurd (List.cons.inj split).1 spec.2.2.1

theorem codeUnit_unicode (first second third fourth : UInt8) (rest : Text) :
    codeUnit (backslash :: byte 'u' :: first :: second :: third :: fourth :: rest) =
      some (unitValue first second third fourth) := by
  rw [codeUnit, if_pos ⟨rfl, rfl⟩, unitValue]

theorem codeUnit_of_ne {first : UInt8} (notEscape : first ≠ backslash) (rest : Text) :
    codeUnit (first :: rest) = none := by
  unfold codeUnit
  split
  · rename_i equal
    cases equal
    exact if_neg fun both => notEscape both.1
  · rfl

theorem codeUnit_escape {letter : UInt8} (standard : isEscape letter = true) (rest : Text) :
    codeUnit (backslash :: letter :: rest) = none := by
  have notUnicode : letter ≠ byte 'u' := by
    rintro rfl
    exact absurd standard (by decide)
  unfold codeUnit
  split
  · rename_i equal
    cases equal
    exact if_neg fun both => notUnicode both.2
  · rfl

/-- `<`, `>` and `&` before and after the escaping. -/
theorem charForms_isHTML {first : UInt8} (html : isHTML first = true) :
    CharForm (Char.ofNat first.toNat) [first] ∧
      CharForm (Char.ofNat first.toNat) (escapeAscii first) := by
  have each : ∀ value, isHTML value = true → value < 0x80 ∧
      value.toNat = (Char.ofNat value.toNat).toNat ∧
      value ≠ quote ∧ value ≠ backslash ∧ ¬ value < 0x20 := forall_byte (by decide)
  rcases each first html with ⟨ascii, code, notQuote, notEscape, visible⟩
  refine ⟨.plain (Encoded.congr (.one ascii) code) ?_, charForm_escapeAscii ascii code⟩
  intro value member
  rw [List.mem_singleton.mp member]
  exact ⟨notQuote, notEscape, visible⟩

/-- The separators before and after the escaping. -/
theorem charForms_separator {third : UInt8} (last : third = 0xA8 ∨ third = 0xA9) :
    ∃ character, CharForm character [0xE2, 0x80, third] ∧
      CharForm character (separatorEscape third) := by
  have visible : ∀ value ∈ [0xE2, 0x80, third],
      value ≠ quote ∧ value ≠ backslash ∧ ¬ value < 0x20 := by
    rw [List.forall_mem_cons, List.forall_mem_cons, List.forall_mem_singleton]
    rcases last with rfl | rfl
    · exact ⟨by decide, by decide, by decide⟩
    · exact ⟨by decide, by decide, by decide⟩
  rcases last with rfl | rfl
  · refine ⟨Char.ofNat 0x2028, .plain (.congr (.three ?_ ?_ ?_ ?_ ?_) ?_) visible,
      .unicode ?_ ?_ ?_⟩ <;> decide
  · refine ⟨Char.ofNat 0x2029, .plain (.congr (.three ?_ ?_ ?_ ?_ ?_) ?_) visible,
      .unicode ?_ ?_ ?_⟩ <;> decide

theorem CharForm.codeUnit_append {character : Char} {text : Text}
    (form : CharForm character text) (rest : Text) (code : Nat) :
    (codeUnit (text ++ rest)).bind (surrogatePair code) = none := by
  cases form with
  | plain encoded visible =>
      cases text with
      | nil => exact absurd rfl encoded.ne_nil
      | cons first others =>
          rw [List.cons_append, codeUnit_of_ne (visible first List.mem_cons_self).2.1]
          rfl
  | escape standard value =>
      simp only [List.cons_append, List.nil_append]
      rw [codeUnit_escape standard]
      rfl
  | unicode hex value single =>
      simp only [List.cons_append, List.nil_append]
      rw [codeUnit_unicode, value, Option.bind_some, surrogatePair, if_neg (by omega)]

theorem escapeBody_escape {letter : UInt8} (standard : isEscape letter = true) (rest : Text) :
    escapeBody (backslash :: letter :: rest) = backslash :: letter :: escapeBody rest := by
  have spec : ∀ letter, isEscape letter = true → isHTML letter = false ∧ letter ≠ 0xE2 :=
    forall_byte (by decide)
  rw [escapeBody_of_kept (by decide) (by decide),
    escapeBody_of_kept (spec letter standard).1 (spec letter standard).2]

theorem escapeBody_unicode {first second third fourth : UInt8}
    (hex : [first, second, third, fourth].all isHex = true) (rest : Text) :
    escapeBody (backslash :: byte 'u' :: first :: second :: third :: fourth :: rest) =
      backslash :: byte 'u' :: first :: second :: third :: fourth :: escapeBody rest := by
  have spec : ∀ digit, isHex digit = true → isHTML digit = false ∧ digit ≠ 0xE2 :=
    forall_byte (by decide)
  have kept {digit : UInt8} (member : digit ∈ [first, second, third, fourth]) (others : Text) :
      escapeBody (digit :: others) = digit :: escapeBody others := by
    have facts := spec digit (List.all_eq_true.mp hex digit member)
    exact escapeBody_of_kept facts.1 facts.2 others
  rw [escapeBody_of_kept (by decide) (by decide), escapeBody_of_kept (by decide) (by decide),
    kept (by simp), kept (by simp), kept (by simp), kept (by simp)]

/-- An escape is followed by the same half of a pair, if any, before and after the copy. -/
theorem pair_escapeBody {rest : Text} (closed : Closed rest) (code : Nat) :
    (codeUnit (escapeBody rest)).bind (surrogatePair code) =
      (codeUnit rest).bind (surrogatePair code) := by
  cases closed with
  | nil => rfl
  | @plain first others notQuote notEscape visible closed =>
      rw [codeUnit_of_ne notEscape others]
      rcases escapeBody_cons first others with
        ⟨html, escaped⟩ | ⟨third, after, -, -, last, escaped⟩ | ⟨-, -, kept⟩
      · rw [escaped]
        exact (charForms_isHTML html).2.codeUnit_append _ code
      · rcases charForms_separator last with ⟨character, -, form⟩
        rw [escaped]
        exact form.codeUnit_append _ code
      · rw [kept, codeUnit_of_ne notEscape]
  | escape standard closed =>
      rw [escapeBody_escape standard, codeUnit_escape standard, codeUnit_escape standard]
  | unicode hex closed => rw [escapeBody_unicode hex, codeUnit_unicode, codeUnit_unicode]

/-- A character that is written in one way in the text and in another one in its copy. -/
theorem runes_of_charForms {character : Char} {front copied others : Text}
    (form : CharForm character front) (form' : CharForm character copied)
    (later : ∀ {fuel fuel' : Nat}, (escapeBody others).length ≤ fuel → others.length ≤ fuel' →
      runes fuel (escapeBody others) = runes fuel' others)
    {fuel fuel' : Nat} (enough : (copied ++ escapeBody others).length ≤ fuel)
    (enough' : (front ++ others).length ≤ fuel') :
    runes fuel (copied ++ escapeBody others) = runes fuel' (front ++ others) := by
  have some : 0 < front.length := List.length_pos_iff.mpr form.ne_nil
  have some' : 0 < copied.length := List.length_pos_iff.mpr form'.ne_nil
  rw [List.length_append] at enough enough'
  cases fuel with
  | zero => omega
  | succ fuel =>
      cases fuel' with
      | zero => omega
      | succ fuel' =>
          rw [runes_charForm form', runes_charForm form]
          exact congrArg (_ :: ·) (later (by omega) (by omega))

theorem runes_escapeBody {body : Text} (closed : Closed body) {fuel fuel' : Nat}
    (enough : (escapeBody body).length ≤ fuel) (enough' : body.length ≤ fuel') :
    runes fuel (escapeBody body) = runes fuel' body := by
  -- by the length of the text, since a rune takes several bytes
  induction length : body.length using Nat.strong_induction_on generalizing body fuel fuel' with
  | h count inductionHypothesis =>
      subst length
      cases closed with
      | nil =>
          rw [escapeBody, runes, runes]
      | @plain first rest notQuote notEscape visible closed =>
          rcases escapeBody_cons first rest with
            ⟨html, escaped⟩ | ⟨third, others, rfl, rfl, last, escaped⟩ | ⟨-, -, kept⟩
          · rw [escaped] at enough ⊢
            apply runes_of_charForms (charForms_isHTML html).1 (charForms_isHTML html).2 _ enough
            · exact enough'
            · intro fuel fuel' enough enough'
              exact inductionHypothesis rest.length (Nat.lt_succ_self _) closed enough enough' rfl
          · rcases charForms_separator last with ⟨character, form, form'⟩
            have continued : ([0x80, third] : Text).all isContinuation = true := by
              rcases last with rfl | rfl <;> decide
            have closed' : Closed others := Closed.of_append continued closed
            rw [escaped] at enough ⊢
            apply runes_of_charForms form form' _ enough
            · exact enough'
            · intro fuel fuel' enough enough'
              exact inductionHypothesis others.length (by simp only [List.length_cons]; omega)
                closed' enough enough' rfl
          · rcases decodeRune_escapeBody first rest with
              ⟨front, others, code, rfl, continued, decoded, copied⟩
            rw [kept, escapeBody_append continued] at enough ⊢
            rw [escapeBody_append continued] at copied
            simp only [List.length_cons, List.length_append] at enough enough'
            cases fuel with
            | zero => omega
            | succ fuel =>
                cases fuel' with
                | zero => omega
                | succ fuel' =>
                    rw [runes, if_neg notEscape, copied, runes, if_neg notEscape, decoded,
                      Nat.add_sub_cancel, List.drop_left, List.drop_left]
                    exact congrArg (_ :: ·) (inductionHypothesis others.length
                      (by simp only [List.length_cons, List.length_append]; omega)
                      (closed.of_append continued) (by omega) (by omega) rfl)
      | @escape letter rest standard closed =>
          have value : ∀ letter, isEscape letter = true →
              escapeRune letter = (Char.ofNat (escapeRune letter)).toNat := forall_byte (by decide)
          have form : CharForm (Char.ofNat (escapeRune letter)) [backslash, letter] :=
            .escape standard (value letter standard)
          rw [escapeBody_escape standard] at enough ⊢
          apply runes_of_charForms form form _ enough enough'
          intro fuel fuel' enough enough'
          exact inductionHypothesis rest.length (by simp only [List.length_cons]; omega)
            closed enough enough' rfl
      | @unicode first second third fourth rest hex closed =>
          rw [escapeBody_unicode hex] at enough ⊢
          simp only [List.length_cons] at enough enough'
          cases fuel with
          | zero => omega
          | succ fuel =>
              cases fuel' with
              | zero => omega
              | succ fuel' =>
                  rw [runes, if_pos rfl, codeUnit_unicode, runes, if_pos rfl, codeUnit_unicode]
                  have after : ∀ text : Text,
                      (byte 'u' :: first :: second :: third :: fourth :: text).drop 5 = text :=
                    fun _ => rfl
                  simp only [after, pair_escapeBody closed]
                  cases pair : (codeUnit rest).bind
                      (surrogatePair (unitValue first second third fourth)) with
                  | none =>
                      exact congrArg (_ :: ·) (inductionHypothesis rest.length
                        (by simp only [List.length_cons]; omega) closed (by omega) (by omega) rfl)
                  | some rune =>
                      cases closed with
                      | nil => cases pair
                      | plain notQuote notEscape visible closed =>
                          rw [codeUnit_of_ne notEscape] at pair
                          cases pair
                      | escape standard closed =>
                          rw [codeUnit_escape standard] at pair
                          cases pair
                      | @unicode _ _ _ _ others hex' closed =>
                          rw [escapeBody_unicode hex'] at enough ⊢
                          simp only [List.length_cons] at enough enough'
                          exact congrArg (_ :: ·) (inductionHypothesis others.length
                            (by simp only [List.length_cons]; omega) closed (by omega) (by omega)
                            rfl)

/-- A string decodes to the same text before and after the copy. -/
theorem unquote_escapeBody {body : Text} (closes : Closes body) :
    GraphQL.unquote (escapeBody body) = GraphQL.unquote body := by
  rw [GraphQL.unquote, GraphQL.unquote,
    runes_escapeBody (closes_iff.mp closes) (Nat.le_refl _) (Nat.le_refl _)]

theorem closed_of_charForm {character : Char} {text rest : Text} (form : CharForm character text)
    (closed : Closed rest) : Closed (text ++ rest) := by
  cases form with
  | plain encoded visible =>
      clear encoded
      induction text with
      | nil => exact closed
      | cons value others inductionHypothesis =>
          rcases visible value List.mem_cons_self with ⟨notQuote, notEscape, seen⟩
          exact .plain notQuote notEscape seen (inductionHypothesis
            fun other member => visible other (List.mem_cons_of_mem _ member))
  | escape standard value => exact .escape standard closed
  | unicode hex value single => exact .unicode hex closed

theorem closes_escapeBody {body : Text} (closes : Closes body) : Closes (escapeBody body) := by
  have closed := closes_iff.mp closes
  rw [closes_iff]
  clear closes
  induction length : body.length using Nat.strong_induction_on generalizing body with
  | h count inductionHypothesis =>
      subst length
      cases closed with
      | nil => exact .nil
      | @plain first rest notQuote notEscape visible closed =>
          rcases escapeBody_cons first rest with
            ⟨html, escaped⟩ | ⟨third, others, rfl, rfl, last, escaped⟩ | ⟨-, -, kept⟩
          · rw [escaped]
            exact closed_of_charForm (charForms_isHTML html).2
              (inductionHypothesis rest.length (Nat.lt_succ_self _) closed rfl)
          · rcases charForms_separator last with ⟨character, -, form⟩
            have continued : ([0x80, third] : Text).all isContinuation = true := by
              rcases last with rfl | rfl <;> decide
            rw [escaped]
            exact closed_of_charForm form (inductionHypothesis others.length
              (by simp only [List.length_cons]; omega) (Closed.of_append continued closed) rfl)
          · rw [kept]
            exact .plain notQuote notEscape visible
              (inductionHypothesis rest.length (Nat.lt_succ_self _) closed rfl)
      | @escape letter rest standard closed =>
          rw [escapeBody_escape standard]
          exact .escape standard (inductionHypothesis rest.length
            (by simp only [List.length_cons]; omega) closed rfl)
      | @unicode first second third fourth rest hex closed =>
          rw [escapeBody_unicode hex]
          exact .unicode hex (inductionHypothesis rest.length
            (by simp only [List.length_cons]; omega) closed rfl)

/-! ## Texts and trees -/

theorem valid_of_readExponent {text : Text} {exponent : Option Exponent}
    (read : readExponent text = some exponent) : exponent.all Exponent.valid = true := by
  unfold readExponent at read
  split at read
  · cases read
    rfl
  · rename_i first rest
    by_cases letter : isExponentLetter first = true
    · rw [if_pos letter] at read
      dsimp only at read
      split at read
      · cases read
      · rename_i nonempty
        cases read
        rw [Option.all_some, Exponent.valid, letter, List.all_takeWhile]
        simp only [Bool.not_eq_true] at nonempty
        rw [nonempty]
        cases sign : rest.head?.filter isSign with
        | none => rfl
        | some value => simp [(Option.filter_eq_some_iff.mp sign).2]
    · rw [if_neg letter] at read
      cases read
      rfl

theorem valid_of_readUnsigned {negative : Bool} {text : Text} {numeral : Numeral}
    (read : readUnsigned negative text = some numeral) : numeral.valid = true := by
  rcases Option.bind_eq_some_iff.mp read with ⟨fraction, readFirst, read⟩
  rcases Option.bind_eq_some_iff.mp read with ⟨exponent, readLast, read⟩
  have digits : fraction.all isDigit = true := by
    unfold GraphQL.readFraction at readFirst
    split at readFirst
    · cases readFirst
      rfl
    · split at readFirst
      · split at readFirst
        · cases readFirst
        · cases readFirst
          exact List.all_takeWhile
      · cases readFirst
        rfl
  by_cases integer : isInteger (text.takeWhile isDigit) = true
  · rw [if_pos integer] at read
    cases read
    rw [Numeral.valid, integer, digits, valid_of_readExponent readLast]
    rfl
  · rw [if_neg integer] at read
    cases read

theorem valid_of_readNumeral {text : Text} {numeral : Numeral}
    (read : readNumeral text = some numeral) : numeral.valid = true := by
  unfold readNumeral at read
  split at read
  · exact valid_of_readUnsigned read
  · exact valid_of_readUnsigned read

theorem written_of_nextToken {value : UInt8} {rest : Text} {pieces : List JsonToken} {taken : Nat}
    (emitted : nextToken value rest = .ok (pieces, taken)) :
    ∀ token ∈ pieces, Written token := by
  unfold nextToken at emitted
  split at emitted
  · cases emitted
    simp
  · split at emitted
    · rename_i token punctuator
      cases emitted
      rw [List.forall_mem_singleton]
      unfold punctuatorToken at punctuator
      split_ifs at punctuator <;> cases punctuator <;> trivial
    · split at emitted
      · split at emitted
        · rename_i body read
          cases emitted
          rw [List.forall_mem_singleton]
          exact (closed_of_readBody read).closes
        · cases emitted
      · split at emitted
        · split at emitted
          · rename_i numeral read
            cases emitted
            rw [List.forall_mem_singleton]
            exact valid_of_readNumeral read
          · cases emitted
        · split_ifs at emitted <;> cases emitted <;> rw [List.forall_mem_singleton] <;> trivial

/-- The tokens of a text are read back wherever they are written. -/
theorem written_of_lexJson {text : Text} {tokens : List JsonToken}
    (lexed : lexJson text = .ok tokens) : ∀ token ∈ tokens, Written token := by
  induction length : text.length using Nat.strong_induction_on generalizing text tokens with
  | h count inductionHypothesis =>
      subst length
      cases text with
      | nil =>
          cases lexed
          simp
      | cons value rest =>
          rw [lexJson, scan_cons] at lexed
          cases emitted : nextToken value rest with
          | error error =>
              rw [emitted] at lexed
              cases lexed
          | ok step =>
              rcases step with ⟨pieces, taken⟩
              rw [emitted] at lexed
              rcases map_eq_ok_iff.mp lexed with ⟨later, lexedLater, rfl⟩
              have shorter : (rest.drop taken).length < (value :: rest).length := by
                rw [List.length_drop, List.length_cons]
                omega
              have laterWritten := inductionHypothesis _ shorter lexedLater rfl
              rw [List.forall_mem_append]
              exact ⟨written_of_nextToken emitted, laterWritten⟩

mutual

/-- A tree with the strings as `compact` copies them. -/
def escapeTree : JsonTree → JsonTree
  | .null => .null
  | .bool value => .bool value
  | .number numeral => .number numeral
  | .string body => .string (escapeBody body)
  | .array elements => .array (escapeElements elements)
  | .object members => .object (escapeMembers members)

def escapeElements : List JsonTree → List JsonTree
  | [] => []
  | element :: rest => escapeTree element :: escapeElements rest

def escapeMembers : List (Text × JsonTree) → List (Text × JsonTree)
  | [] => []
  | (key, value) :: rest => (escapeBody key, escapeTree value) :: escapeMembers rest

end

theorem escapeElements_eq (elements : List JsonTree) :
    escapeElements elements = elements.map escapeTree := by
  induction elements with
  | nil => rfl
  | cons element rest inductionHypothesis =>
      rw [escapeElements, inductionHypothesis, List.map_cons]

theorem escapeMembers_eq (members : List (Text × JsonTree)) :
    escapeMembers members =
      members.map fun member => (escapeBody member.1, escapeTree member.2) := by
  induction members with
  | nil => rfl
  | cons member rest inductionHypothesis =>
      rw [escapeMembers, inductionHypothesis, List.map_cons]

/-- What `json.Marshal` writes for a `json.RawMessage`. -/
def marshalRaw (raw : Text) : Option JsonTree := (readJson raw).map escapeTree

theorem marshals_escapeTree (tree : JsonTree) (marshals : Marshals tree) :
    Marshals (escapeTree tree) := by
  induction tree using JsonTree.induction with
  | null | bool | number => simpa only [escapeTree] using marshals
  | string body =>
      rw [escapeTree]
      have closes : Closes body := by
        apply marshals (.string body)
        rw [JsonTree.tokens]
        exact List.mem_cons_self
      intro token member
      rw [JsonTree.tokens, List.mem_singleton] at member
      rw [member]
      exact closes_escapeBody closes
  | array elements inductionHypothesis =>
      rw [escapeTree, escapeElements_eq, marshals_array]
      intro element member
      rcases List.mem_map.mp member with ⟨inner, inside, rfl⟩
      exact inductionHypothesis inner inside (marshals_array.mp marshals inner inside)
  | object members inductionHypothesis =>
      rw [escapeTree, escapeMembers_eq, marshals_object]
      intro element member
      rcases List.mem_map.mp member with ⟨inner, inside, rfl⟩
      have facts := marshals_object.mp marshals inner inside
      exact ⟨closes_escapeBody facts.1, inductionHypothesis inner inside facts.2⟩

/-- The value of a tree as `encoding/json` decodes it. -/
def decodedMeaning (tree : JsonTree) : JsonMeaning Rat String :=
  tree.meaning Numeral.value GraphQL.unquote

theorem decodedMeaning_escapeTree (tree : JsonTree) (marshals : Marshals tree) :
    decodedMeaning (escapeTree tree) = decodedMeaning tree := by
  induction tree using JsonTree.induction with
  | null | bool | number => simp only [escapeTree]
  | string body =>
      have closes : Closes body := by
        apply marshals (.string body)
        rw [JsonTree.tokens]
        exact List.mem_cons_self
      simp only [escapeTree, decodedMeaning, JsonTree.meaning, unquote_escapeBody closes]
  | array elements inductionHypothesis =>
      simp only [escapeTree, escapeElements_eq, decodedMeaning, JsonTree.meaning,
        elementMeanings_eq, List.map_map]
      congr 1
      apply List.map_congr_left
      intro element member
      exact inductionHypothesis element member (marshals_array.mp marshals element member)
  | object members inductionHypothesis =>
      simp only [escapeTree, escapeMembers_eq, decodedMeaning, JsonTree.meaning,
        memberMeanings_eq, List.map_map]
      have same : (fun entry : Text × JsonTree =>
          (GraphQL.unquote entry.1, entry.2.meaning Numeral.value GraphQL.unquote)) ∘
            (fun member : Text × JsonTree => (escapeBody member.1, escapeTree member.2)) =
          fun member : Text × JsonTree => (GraphQL.unquote (escapeBody member.1),
            decodedMeaning (escapeTree member.2)) := rfl
      rw [same]
      congr 1
      funext key
      congr 1
      apply List.map_congr_left
      intro member inside
      have facts := marshals_object.mp marshals member inside
      rw [unquote_escapeBody facts.1, inductionHypothesis member inside facts.2]
      rfl

theorem decodedMeaning_object (members : List (Text × JsonTree)) :
    decodedMeaning (.object members) = .object fun key =>
      lastEntry key (members.map fun member =>
        (GraphQL.unquote member.1, decodedMeaning member.2)) := by
  rw [decodedMeaning, JsonTree.meaning, memberMeanings_eq]
  rfl

/-- The keys of an object as they are decoded. -/
def decodedKeys (members : List (Text × JsonTree)) : List String :=
  members.map fun member => GraphQL.unquote member.1

section SameObject

variable {members others : List (Text × JsonTree)}

/-- Objects of the same value have the same keys, in any order. -/
theorem perm_of_decodedMeaning
    (same : decodedMeaning (.object members) = decodedMeaning (.object others))
    (distinct : (decodedKeys members).Nodup) (distinct' : (decodedKeys others).Nodup) :
    (decodedKeys members).Perm (decodedKeys others) := by
  rw [List.perm_ext_iff_of_nodup distinct distinct']
  intro key
  rw [decodedMeaning_object, decodedMeaning_object, JsonMeaning.object.injEq] at same
  have listed (members : List (Text × JsonTree)) : key ∈ decodedKeys members ↔
      (lastEntry key (members.map fun member =>
        (GraphQL.unquote member.1, decodedMeaning member.2))).isSome = true := by
    rw [isSome_lastEntry_iff, List.map_map]
    rfl
  rw [listed, listed, congrFun same key]

/-- A member has its counterpart in an object of the same value. -/
theorem exists_of_decodedMeaning
    (same : decodedMeaning (.object members) = decodedMeaning (.object others))
    (distinct : (decodedKeys others).Nodup) {key : Text} {tree : JsonTree}
    (occurs : (key, tree) ∈ others) :
    ∃ entry ∈ members, GraphQL.unquote entry.1 = GraphQL.unquote key ∧
      decodedMeaning entry.2 = decodedMeaning tree := by
  rw [decodedMeaning_object, decodedMeaning_object, JsonMeaning.object.injEq] at same
  have keys : ((others.map fun member =>
      (GraphQL.unquote member.1, decodedMeaning member.2)).map Prod.fst).Nodup := by
    rw [List.map_map]
    exact distinct
  have last := (lastEntry_eq_some_iff_mem keys).mpr (List.mem_map.mpr ⟨_, occurs, rfl⟩)
  rw [← congrFun same] at last
  rcases List.mem_map.mp (mem_of_lastEntry last) with ⟨entry, inside, equal⟩
  rcases Prod.mk.inj equal with ⟨named, value⟩
  exact ⟨entry, inside, named, value⟩

end SameObject

end GitScale.Go
