import GitScale.AgentsMd.Parser
import GitScale.Foundation.Scan

/-!
# Sizes as they are written

A size is written with decimal digits and at most one unit.  `parseSize` takes a unit alone for
the size zero, and it multiplies in 64 bits without looking for an overflow.
-/

namespace GitScale.AgentsMd

open Foundation Go

/-! ## What a size denotes -/

/-- The number of bytes of a unit. -/
def unitBytes (letter : UInt8) : Option Nat :=
  if letter = byte 'k' ∨ letter = byte 'K' then some 1024
  else if letter = byte 'm' ∨ letter = byte 'M' then some (1024 ^ 2)
  else if letter = byte 'g' ∨ letter = byte 'G' then some (1024 ^ 3)
  else none

/-- One or more decimal digits. -/
structure IsDecimal (digits : Text) : Prop where
  nonempty : digits ≠ []
  decimal : ∀ value ∈ digits, within (byte '0') (byte '9') value

/-- The number of bytes that a size denotes: digits, optionally followed by a unit. -/
inductive DenotesSize : Text → Nat → Prop
  | plain {digits : Text} (decimal : IsDecimal digits) : DenotesSize digits (digitsValue digits)
  | withUnit {digits : Text} {letter : UInt8} {bytes : Nat} (decimal : IsDecimal digits)
      (unit : unitBytes letter = some bytes) :
      DenotesSize (digits ++ [letter]) (digitsValue digits * bytes)

/-- `parseSize` returns a value exactly for the sizes that an `int64` holds, and that value. -/
def ExactSize (platform : Platform) (text : Text) : Prop :=
  ∀ value : Int64, parseSize platform text = .ok value ↔
    ∃ size, DenotesSize text size ∧ size ≤ 2 ^ 63 - 1 ∧ value.toInt = size

/-- The text that an item gives as its selector. -/
def selectorText (item : Text) : Option Text :=
  (indexByte item (byte ':')).map fun colon => unquote (trimSpaceText (item.drop (colon + 1)))

/-- Every size rule with this selector has the limit that is written there. -/
def RulesAsWritten (platform : Platform) (text : Text) : Prop :=
  ∀ item predicate, selectorText item = some text →
    parsePredicateItem platform item = .ok predicate → predicate.name = .pushBinaryOverSize →
    ∃ size, DenotesSize text size ∧ predicate.selector.maxBytes.toInt = size

/-- The text is not a unit without digits, and it does not denote more than an `int64` holds. -/
structure PlainSize (text : Text) : Prop where
  notUnit : ∀ letter, unitBytes letter ≠ none → text ≠ [letter]
  notLarge : ∀ size, DenotesSize text size → size ≤ 2 ^ 63 - 1

/-! ## The digits -/

variable (platform : Platform)

theorem digitsValue_append_singleton (digits : Text) (value : UInt8) :
    digitsValue (digits ++ [value]) = digitsValue digits * 10 + (value - byte '0').toNat := by
  unfold digitsValue
  rw [List.reverse_append, List.reverse_singleton, List.singleton_append, List.map_cons,
    Nat.ofDigits_cons]
  omega

/-- The loop wraps the value of all digits, those before it included. -/
theorem parseDigits_of_decimal (before : Text) {digits : Text}
    (decimal : ∀ value ∈ digits, within (byte '0') (byte '9') value) :
    parseDigits platform digits (Int64.ofNat (digitsValue before)) =
      .ok (Int64.ofNat (digitsValue (before ++ digits))) := by
  induction digits generalizing before with
  | nil => rw [parseDigits, List.append_nil]
  | cons value digits inductionHypothesis =>
      have here := decimal value List.mem_cons_self
      have later := inductionHypothesis (before ++ [value]) fun other member =>
        decimal other (List.mem_cons_of_mem _ member)
      have shifted : Int64.ofNat (digitsValue before) * 10 +
          Int64.ofNat (value - byte '0').toNat =
            Int64.ofNat (digitsValue (before ++ [value])) := by
        rw [digitsValue_append_singleton, Int64.ofNat_add, Int64.ofNat_mul]
        rfl
      rw [parseDigits, if_pos here, shifted, later, List.append_assoc]
      rfl

/-- Anything else among the digits is an error. -/
theorem decimal_of_parseDigits {digits : Text} {start value : Int64}
    (parses : parseDigits platform digits start = .ok value) :
    ∀ digit ∈ digits, within (byte '0') (byte '9') digit := by
  induction digits generalizing start with
  | nil =>
      intro digit member
      cases member
  | cons first digits inductionHypothesis =>
      rw [parseDigits] at parses
      split at parses
      · next here =>
          intro digit member
          rcases List.mem_cons.mp member with rfl | later
          · exact here
          · exact inductionHypothesis parses digit later
      · cases parses

theorem parseDigits_eq_ok_iff {digits : Text} {value : Int64} :
    parseDigits platform digits 0 = .ok value ↔
      (∀ digit ∈ digits, within (byte '0') (byte '9') digit) ∧
        value = Int64.ofNat (digitsValue digits) := by
  constructor
  · intro parses
    have decimal := decimal_of_parseDigits platform parses
    have result := parseDigits_of_decimal platform [] decimal
    have start : Int64.ofNat (digitsValue []) = 0 := rfl
    rw [start, parses] at result
    exact ⟨decimal, Except.ok.inj result⟩
  · rintro ⟨decimal, rfl⟩
    exact parseDigits_of_decimal platform [] decimal

/-! ## The unit -/

theorem sizeUnit_eq (letter : UInt8) : sizeUnit letter = (unitBytes letter).map Int64.ofNat := by
  unfold sizeUnit unitBytes
  split
  · rfl
  · split
    · rfl
    · split
      · rfl
      · rfl

/-- A unit is not a digit. -/
theorem unitBytes_eq_none_of_decimal {value : UInt8}
    (decimal : within (byte '0') (byte '9') value) : unitBytes value = none := by
  have differs : ∀ letter ∈ [byte 'k', byte 'K', byte 'm', byte 'M', byte 'g', byte 'G'],
      value ≠ letter := by
    have letters : [byte 'k', byte 'K', byte 'm', byte 'M', byte 'g', byte 'G'].all
        (fun letter => !within (byte '0') (byte '9') letter) = true := by
      decide
    rintro letter member rfl
    have outside := List.all_eq_true.mp letters value member
    rw [decimal] at outside
    cases outside
  simp only [List.mem_cons, forall_eq_or_imp] at differs
  simp [unitBytes, differs]

/-- Without a unit at the end the whole text has to be digits. -/
theorem parseSize_plain {front : Text} {last : UInt8} (noUnit : unitBytes last = none) :
    parseSize platform (front ++ [last]) = parseDigits platform (front ++ [last]) 0 := by
  rw [parseSize, List.getLast?_concat]
  simp only [sizeUnit_eq, noUnit, Option.map_none]

theorem parseSize_withUnit {front : Text} {last : UInt8} {bytes : Nat}
    (unit : unitBytes last = some bytes) :
    parseSize platform (front ++ [last]) =
      (· * Int64.ofNat bytes) <$> parseDigits platform front 0 := by
  rw [parseSize, List.getLast?_concat]
  simp only [sizeUnit_eq, unit, Option.map_some, List.dropLast_concat]
  rfl

/-! ## The whole size -/

theorem denotesSize_concat_iff {front : Text} {last : UInt8} {size : Nat} :
    DenotesSize (front ++ [last]) size ↔
      (IsDecimal (front ++ [last]) ∧ size = digitsValue (front ++ [last])) ∨
        ∃ bytes, unitBytes last = some bytes ∧ IsDecimal front ∧
          size = digitsValue front * bytes := by
  constructor
  · intro denotes
    generalize spelled : front ++ [last] = text at denotes
    cases denotes with
    | plain decimal =>
        left
        exact ⟨decimal, rfl⟩
    | withUnit decimal unit =>
        right
        obtain ⟨rfl, same⟩ := List.append_inj' spelled rfl
        cases same
        exact ⟨_, unit, decimal, rfl⟩
  · rintro (⟨decimal, rfl⟩ | ⟨bytes, unit, decimal, rfl⟩)
    · exact .plain decimal
    · exact .withUnit decimal unit

/-- The digits of a size do not end with a unit. -/
theorem IsDecimal.unitBytes_last {front : Text} {last : UInt8}
    (decimal : IsDecimal (front ++ [last])) : unitBytes last = none :=
  unitBytes_eq_none_of_decimal (decimal.decimal last (by simp))

theorem DenotesSize.unique {text : Text} {first second : Nat} (denotes : DenotesSize text first)
    (denotes' : DenotesSize text second) : first = second := by
  rcases text.eq_nil_or_concat' with rfl | ⟨front, last, rfl⟩
  · generalize spelled : ([] : Text) = text at denotes
    cases denotes with
    | plain decimal => exact absurd spelled.symm decimal.nonempty
    | withUnit => simp at spelled
  · rw [denotesSize_concat_iff] at denotes denotes'
    rcases denotes with ⟨decimal, rfl⟩ | ⟨bytes, unit, decimal, rfl⟩
    · rcases denotes' with ⟨-, rfl⟩ | ⟨bytes, unit, -, -⟩
      · rfl
      · rw [decimal.unitBytes_last] at unit
        cases unit
    · rcases denotes' with ⟨whole, -⟩ | ⟨bytes', unit', -, rfl⟩
      · rw [whole.unitBytes_last] at unit
        cases unit
      · rw [unit] at unit'
        cases unit'
        rfl

/-- A unit alone denotes nothing. -/
theorem not_denotesSize_unit {letter : UInt8} {size : Nat} (unit : unitBytes letter ≠ none) :
    ¬ DenotesSize [letter] size := by
  rw [← List.nil_append [letter], denotesSize_concat_iff]
  rintro (⟨decimal, -⟩ | ⟨bytes, -, decimal, -⟩)
  · exact unit decimal.unitBytes_last
  · exact decimal.nonempty rfl

/-- `parseSize` wraps what the text denotes, and takes a unit alone for zero. -/
theorem parseSize_eq_ok_iff {text : Text} {value : Int64} :
    parseSize platform text = .ok value ↔
      (∃ size, DenotesSize text size ∧ value = Int64.ofNat size) ∨
        (∃ letter, unitBytes letter ≠ none ∧ text = [letter]) ∧ value = 0 := by
  rcases text.eq_nil_or_concat' with rfl | ⟨front, last, rfl⟩
  · constructor
    · intro parses
      cases parses
    · rintro (⟨size, denotes, -⟩ | ⟨⟨letter, -, spelled⟩, -⟩)
      · generalize spelled : ([] : Text) = text at denotes
        cases denotes with
        | plain decimal => exact absurd spelled.symm decimal.nonempty
        | withUnit => simp at spelled
      · cases spelled
  · cases unit : unitBytes last with
    | none =>
        rw [parseSize_plain platform unit, parseDigits_eq_ok_iff]
        constructor
        · rintro ⟨decimal, rfl⟩
          exact .inl ⟨_, .plain ⟨by simp, decimal⟩, rfl⟩
        · rintro (⟨size, denotes, rfl⟩ | ⟨⟨letter, present, spelled⟩, -⟩)
          · rcases denotesSize_concat_iff.mp denotes with ⟨decimal, rfl⟩ | ⟨bytes, unit', -⟩
            · exact ⟨decimal.decimal, rfl⟩
            · rw [unit] at unit'
              cases unit'
          · obtain ⟨-, same⟩ := List.append_inj' (spelled.trans (List.nil_append _).symm) rfl
            cases same
            exact absurd unit present
    | some bytes =>
        rw [parseSize_withUnit platform unit, map_eq_ok_iff]
        constructor
        · rintro ⟨digits, parses, rfl⟩
          obtain ⟨decimal, rfl⟩ := (parseDigits_eq_ok_iff platform).mp parses
          by_cases empty : front = []
          · subst empty
            exact .inr ⟨⟨last, by simp [unit], rfl⟩, by simp [digitsValue]⟩
          · refine .inl ⟨_, .withUnit ⟨empty, decimal⟩ unit, ?_⟩
            rw [Int64.ofNat_mul]
        · rintro (⟨size, denotes, rfl⟩ | ⟨⟨letter, present, spelled⟩, rfl⟩)
          · rcases denotesSize_concat_iff.mp denotes with
              ⟨decimal, -⟩ | ⟨bytes', unit', decimal, rfl⟩
            · rw [decimal.unitBytes_last] at unit
              cases unit
            · rw [unit] at unit'
              cases unit'
              refine ⟨_, (parseDigits_eq_ok_iff platform).mpr ⟨decimal.decimal, rfl⟩, ?_⟩
              rw [Int64.ofNat_mul]
          · obtain ⟨rfl, -⟩ := List.append_inj' (spelled.trans (List.nil_append _).symm) rfl
            refine ⟨0, rfl, ?_⟩
            simp

theorem toInt_ofNat_of_le {size : Nat} (fits : size ≤ 2 ^ 63 - 1) :
    (Int64.ofNat size).toInt = size := by
  rw [Int64.toInt_ofNat_of_lt]
  omega

theorem exactSize_of_plainSize {text : Text} (plain : PlainSize text) :
    ExactSize platform text := by
  intro value
  rw [parseSize_eq_ok_iff]
  constructor
  · rintro (⟨size, denotes, rfl⟩ | ⟨⟨letter, unit, spelled⟩, -⟩)
    · have fits := plain.notLarge size denotes
      exact ⟨size, denotes, fits, toInt_ofNat_of_le fits⟩
    · exact absurd spelled (plain.notUnit letter unit)
  · rintro ⟨size, denotes, fits, same⟩
    refine .inl ⟨size, denotes, Int64.toInt_inj.mp ?_⟩
    rw [same, toInt_ofNat_of_le fits]

theorem plainSize_of_exactSize {text : Text} (exact : ExactSize platform text) :
    PlainSize text := by
  constructor
  · rintro letter unit rfl
    have parses := (parseSize_eq_ok_iff platform).mpr (.inr ⟨⟨letter, unit, rfl⟩, rfl⟩)
    obtain ⟨size, denotes, -⟩ := (exact 0).mp parses
    exact not_denotesSize_unit unit denotes
  · intro size denotes
    have parses := (parseSize_eq_ok_iff platform).mpr (.inl ⟨size, denotes, rfl⟩)
    obtain ⟨written, denotes', fits, -⟩ := (exact _).mp parses
    rw [denotes.unique denotes']
    exact fits

/-- The limit of a size rule is what `parseSize` makes of its selector. -/
theorem parseSize_of_parsePredicateItem {item text : Text} {predicate : NeverPredicate}
    (selector : selectorText item = some text)
    (parses : parsePredicateItem platform item = .ok predicate)
    (sizeRule : predicate.name = .pushBinaryOverSize) :
    parseSize platform text = .ok predicate.selector.maxBytes := by
  obtain ⟨colon, found, rfl⟩ := Option.map_eq_some_iff.mp selector
  rw [parsePredicateItem, found] at parses
  simp only at parses
  split at parses
  · cases parses
  · split at parses
    · cases parses
      cases sizeRule
    · split at parses
      · cases parses
      · next size parsed =>
          cases parses
          exact parsed
    · next otherRule =>
        cases parses
        exact absurd sizeRule otherRule

/-- A size is parsed exactly, and rules have the limits that are written, for the texts that are
no unit alone and denote no more than an `int64` holds. -/
theorem parseSize_exact_iff (text : Text) :
    ExactSize platform text ∧ RulesAsWritten platform text ↔ PlainSize text := by
  constructor
  · intro exact
    exact plainSize_of_exactSize platform exact.1
  · intro plain
    have exact := exactSize_of_plainSize platform plain
    refine ⟨exact, ?_⟩
    intro item predicate selector parses sizeRule
    have parsed := parseSize_of_parsePredicateItem platform selector parses sizeRule
    obtain ⟨size, denotes, -, same⟩ := (exact _).mp parsed
    exact ⟨size, denotes, same⟩

/-- A unit alone is read as zero, and 16 exbibytes as well, so that a rule with this limit is about
every binary. -/
theorem parseSize_misreads :
    ¬ (ExactSize plainPlatform (utf8 "K") ∧ RulesAsWritten plainPlatform (utf8 "K")) ∧
      ¬ (ExactSize plainPlatform (utf8 "17179869184G") ∧
        RulesAsWritten plainPlatform (utf8 "17179869184G")) ∧
      parsePredicateItem plainPlatform (utf8 "push_binary_over_size: 17179869184G") =
        .ok ⟨.pushBinaryOverSize, [], [], 0⟩ := by
  refine ⟨?_, ?_, by decide⟩
  · intro exact
    exact (plainSize_of_exactSize plainPlatform exact.1).notUnit (byte 'K') (by decide) (by decide)
  · intro exact
    have spelled : utf8 "17179869184G" = utf8 "17179869184" ++ [byte 'G'] := by decide
    have digits : IsDecimal (utf8 "17179869184") :=
      ⟨by decide, List.all_eq_true.mp (by decide)⟩
    have denotes : DenotesSize (utf8 "17179869184G")
        (digitsValue (utf8 "17179869184") * 1024 ^ 3) := by
      rw [spelled]
      exact .withUnit digits rfl
    have fits := (plainSize_of_exactSize plainPlatform exact.1).notLarge _ denotes
    exact absurd fits (by decide)

end GitScale.AgentsMd
