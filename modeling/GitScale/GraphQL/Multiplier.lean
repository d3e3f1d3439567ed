import GitScale.GraphQL.DocumentValues
import GitScale.GraphQL.Visits

/-!
# The factor of a paginated field

The multiplier of `walkField` for arguments that are integer literals of any size or variables
bound to integers, next to the one that the weights ask for: the first listed argument with a
positive value decides.
-/

namespace GitScale.GraphQL.Cost

open Foundation Go

/-! ## Integers as arguments -/

/-- The integer that an argument stands for: a variable that is bound to an `int`, or decimal
digits of any length with an optional minus. -/
def integerValue (vars : List (String × Variable)) (raw : String) : Option Int :=
  match raw.toList with
  | '$' :: first :: rest =>
      match vars.lookup (String.ofList (first :: rest)) with
      | some (.int value) => some value.toInt
      | _ => none
  | '-' :: digits => (parseUint digits).map fun (value : Nat) => -(value : Int)
  | digits => (parseUint digits).map fun (value : Nat) => (value : Int)

/-- The arguments of a field of a parsed document, all of which stand for integers. -/
structure IntegerArgs where
  args : List (String × ArgValue)
  vars : List (String × Variable)
  parsed : ∃ source document next field, parseQuery source = .ok document next ∧
    field ∈ document.fields ∧ field.args = args
  integers : ∀ entry ∈ args, ∃ value, integerValue vars entry.2.raw = some value

namespace IntegerArgs

variable (request : IntegerArgs)

/-- The value of an argument. -/
def value (name : String) : Option Int :=
  (request.args.lookup name).bind fun value => integerValue request.vars value.raw

/-- The value of an argument, if it is positive. -/
def positive (name : String) : Option Int := (request.value name).filter fun value => 0 < value

end IntegerArgs

/-- What the weights ask for: the first listed argument with a positive value, at most
`MaxFirst`, or else `DefaultFirst`. -/
def specifiedFactor (limits : Limits) (weight : Weight) (request : IntegerArgs) : Int :=
  match weight.multipliers.findSome? request.positive with
  | some value => min value limits.maxFirst.toInt
  | none => limits.defaultFirst.toInt

/-- The factor of `walkField`. -/
def appliedFactor (limits : Limits) (weight : Weight) (request : IntegerArgs) : Int :=
  (limits.multiplier weight request.args request.vars).toInt

/-- No listed argument is positive, or the first one of the list is and fits into an `int`, or
`DefaultFirst` happens to be what is asked for. -/
def FirstDecides (limits : Limits) (weight : Weight) (request : IntegerArgs) : Prop :=
  ∀ chosen, weight.multipliers.findSome? request.positive = some chosen →
    (∃ name value, weight.multipliers.head? = some name ∧ request.positive name = some value ∧
      value < int64Bound) ∨
    limits.defaultFirst.toInt = min chosen limits.maxFirst.toInt

/-! ## What `intArg` returns -/

theorem isDigit_of_parseUint {digits : List Char} {number : Nat}
    (parsed : parseUint digits = some number) :
    ∃ first rest, digits = first :: rest ∧ first.isDigit = true := by
  unfold parseUint at parsed
  split at parsed
  case isTrue decimal =>
      cases digits with
      | nil => exact absurd rfl decimal.1
      | cons first rest =>
          exact ⟨first, rest, rfl, List.all_eq_true.mp decimal.2 first List.mem_cons_self⟩
  case isFalse => cases parsed

theorem parseInt_of_parseUint {digits : List Char} {number : Nat}
    (parsed : parseUint digits = some number) : parseInt digits = inInt64 number := by
  obtain ⟨first, rest, rfl, digit⟩ := isDigit_of_parseUint parsed
  rw [parseInt_of_isDigit digit, parsed, Option.bind_some]

/-- A literal is read as the integer it stands for, if that fits. -/
theorem parseInt_of_integerValue {vars : List (String × Variable)} {raw : String} {value : Int}
    (reads : integerValue vars raw = some value) (literal : raw.toList.head? ≠ some '$') :
    parseInt raw.toList = inInt64 value := by
  unfold integerValue at reads
  split at reads
  · next shape => simp [shape] at literal
  · next digits shape =>
      obtain ⟨number, parsed, rfl⟩ := Option.map_eq_some_iff.mp reads
      rw [shape, parseInt, parsed, Option.bind_some]
  · obtain ⟨number, parsed, rfl⟩ := Option.map_eq_some_iff.mp reads
    exact parseInt_of_parseUint parsed

/-- A variable that stands for an integer is bound to it. -/
theorem lookup_of_integerValue {vars : List (String × Variable)} {raw : String} {value : Int}
    (reads : integerValue vars raw = some value) (isVariable : raw.toList.head? = some '$') :
    ∃ first rest bound, raw.toList = '$' :: first :: rest ∧
      vars.lookup (String.ofList (first :: rest)) = some (.int bound) ∧ bound.toInt = value := by
  unfold integerValue at reads
  split at reads
  · next first rest shape =>
      split at reads
      · next bound assigned => exact ⟨first, rest, bound, shape, assigned, Option.some.inj reads⟩
      · cases reads
  · next digits shape => simp [shape] at isVariable
  · obtain ⟨number, parsed, -⟩ := Option.map_eq_some_iff.mp reads
    obtain ⟨first, rest, shape, digit⟩ := isDigit_of_parseUint parsed
    rw [shape, List.head?_cons, Option.some.injEq] at isVariable
    rw [isVariable] at digit
    cases digit

theorem intArg_eq {args : List (String × ArgValue)} {vars : List (String × Variable)}
    {name : String} {argument : ArgValue} {value : Int}
    (found : args.lookup name = some argument)
    (number : argument.intValue = none ∨ argument.intValue = parseInt argument.raw.toList)
    (reads : integerValue vars argument.raw = some value) :
    intArg args name vars = ((inInt64 value).map Int64.ofInt).getD 0 := by
  by_cases isVariable : argument.raw.toList.head? = some '$'
  · obtain ⟨first, rest, bound, shape, assigned, rfl⟩ :=
      lookup_of_integerValue reads isVariable
    have absent : argument.intValue = none := by
      rcases number with none | parsed
      · exact none
      · rw [parsed, shape]
        simp [parseInt, parseUint]
    have fits : inInt64 bound.toInt = some bound.toInt := if_pos ⟨Int64.le_toInt _, Int64.toInt_lt _⟩
    simp only [intArg, found, absent, shape, assigned, fits, Option.map_some, Option.getD_some,
      coerceInt, Int64.ofInt_toInt]
  · have parsed := parseInt_of_integerValue reads isVariable
    have digits : ∀ first rest, argument.raw.toList ≠ '$' :: first :: rest := by
      intro first rest shape
      simp [shape] at isVariable
    rcases number with none | same
    · simp only [intArg, found, none]
      rw [parsed]
    · rw [parsed] at same
      simp only [intArg, found, same]
      cases fits : inInt64 value with
      | some small => rfl
      | none =>
          dsimp only
          rw [parsed, fits]

namespace IntegerArgs

variable (request : IntegerArgs)

/-- `intArg` returns the value of an argument if it fits, and 0 otherwise. -/
theorem intArg_toInt (name : String) :
    (intArg request.args name request.vars).toInt =
      ((request.value name).bind inInt64).getD 0 := by
  cases found : request.args.lookup name with
  | none => simp [intArg, IntegerArgs.value, found]
  | some argument =>
      have entry := mem_of_lookup found
      obtain ⟨value, reads⟩ := request.integers _ entry
      obtain ⟨source, document, next, field, accepted, member, same⟩ := request.parsed
      have number : argument.intValue = none ∨
          argument.intValue = parseInt argument.raw.toList := by
        rw [← same] at entry
        exact (parsed_of_mem_fields accepted field member _ entry).number
      rw [intArg_eq found number reads, IntegerArgs.value, found, Option.bind_some, reads,
        Option.bind_some]
      unfold inInt64
      split
      case isTrue fits =>
          exact Int64.toInt_ofInt_of_le fits.1 fits.2
      case isFalse => rfl

/-- An argument is positive for `intArg` if it is and fits. -/
theorem intArg_pos_iff {name : String} {number : Int} :
    (0 < intArg request.args name request.vars ∧
      (intArg request.args name request.vars).toInt = number) ↔
      request.positive name = some number ∧ number < int64Bound := by
  have zero : (0 : Int64).toInt = 0 := rfl
  rw [Int64.lt_iff_toInt_lt, intArg_toInt, positive, zero]
  cases request.value name with
  | none => simp
  | some value =>
      rw [Option.bind_some, Option.filter_some, inInt64]
      by_cases fits : -(int64Bound : Int) ≤ value ∧ value < int64Bound
      · rw [if_pos fits, Option.getD_some]
        by_cases above : 0 < value
        · simp only [above, decide_true, if_true, Option.some.injEq, true_and]
          constructor
          · rintro rfl
            exact ⟨rfl, fits.2⟩
          · exact And.left
        · simp [above]
      · rw [if_neg fits, Option.getD_none]
        by_cases above : 0 < value
        · simp only [above, decide_true, if_true, Option.some.injEq]
          constructor
          · rintro ⟨impossible, -⟩
            exact absurd impossible (Int.lt_irrefl 0)
          · rintro ⟨rfl, below⟩
            exact absurd ⟨by omega, below⟩ fits
        · simp [above]

end IntegerArgs

/-- With a first listed argument the factor is known from it. -/
theorem appliedFactor_cons {limits : Limits} {weight : Weight} {first : String}
    {rest : List String} (listed : weight.multipliers = first :: rest) (request : IntegerArgs) :
    appliedFactor limits weight request =
      if intArg request.args first request.vars ≤ 0 then limits.defaultFirst.toInt
      else min (intArg request.args first request.vars).toInt limits.maxFirst.toInt := by
  unfold appliedFactor Limits.multiplier
  rw [listed]
  dsimp only
  split
  · rfl
  · next positive =>
      have above : 0 < intArg request.args first request.vars := Int64.not_le.mp positive
      rw [List.findSome?_cons]
      simp only [gt_iff_lt, above, if_true, Option.getD_some]
      split
      · next larger =>
          exact (min_eq_right (Int.le_of_lt (Int64.lt_iff_toInt_lt.mp larger))).symm
      · next smaller =>
          exact (min_eq_left (Int64.le_iff_toInt_le.mp (Int64.not_lt.mp smaller))).symm

/-- The factor is the one that is asked for exactly when the first listed argument decides. -/
theorem appliedFactor_eq_iff {limits : Limits} {weight : Weight} (listed : weight.multipliers ≠ [])
    (request : IntegerArgs) :
    appliedFactor limits weight request = specifiedFactor limits weight request ↔
      FirstDecides limits weight request := by
  obtain ⟨first, rest, shape⟩ := List.exists_cons_of_ne_nil listed
  rw [appliedFactor_cons shape, specifiedFactor, FirstDecides, shape]
  split
  · next absent =>
      -- `DefaultFirst` is applied, whatever the other arguments are.
      have undecided : ¬ ∃ name value, (first :: rest).head? = some name ∧
          request.positive name = some value ∧ value < int64Bound := by
        rintro ⟨name, value, head, positive, below⟩
        cases head
        exact absurd absent (Int64.not_le.mpr (request.intArg_pos_iff.mpr ⟨positive, below⟩).1)
      cases chosen : (first :: rest).findSome? request.positive with
      | none => simp
      | some value =>
          simp only [undecided, false_or, Option.some.injEq, forall_eq']
  · next positive =>
      obtain ⟨isPositive, below⟩ :=
        request.intArg_pos_iff.mp ⟨Int64.not_le.mp positive, rfl⟩
      have chosen : (first :: rest).findSome? request.positive =
          some (intArg request.args first request.vars).toInt := by
        rw [List.findSome?_cons, isPositive]
      rw [chosen]
      refine iff_of_true rfl fun value _ => .inl ⟨first, _, rfl, isPositive, below⟩

/-! ## Larger arguments -/

/-- The same arguments, but for one that is positive and gets larger. -/
structure Enlarges (smaller larger : IntegerArgs) (name : String) : Prop where
  others : ∀ other, other ≠ name → larger.value other = smaller.value other
  enlarged : ∃ before after, smaller.value name = some before ∧ larger.value name = some after ∧
    0 < before ∧ before ≤ after

theorem Enlarges.positive {smaller larger : IntegerArgs} {name : String}
    (enlarges : Enlarges smaller larger name) (other : String) :
    (smaller.positive other = none ∧ larger.positive other = none) ∨
      ∃ before after, smaller.positive other = some before ∧ larger.positive other = some after ∧
        before ≤ after := by
  unfold IntegerArgs.positive
  by_cases same : other = name
  · obtain ⟨before, after, low, high, above, grows⟩ := enlarges.enlarged
    refine .inr ⟨before, after, ?_, ?_, grows⟩
    · simp [same, low, above]
    · simp [same, high, Int.lt_of_lt_of_le above grows]
  · rw [enlarges.others other same]
    cases kept : (smaller.value other).filter fun value => 0 < value with
    | none => exact .inl ⟨rfl, rfl⟩
    | some value => exact .inr ⟨value, value, rfl, rfl, Int.le_refl value⟩

/-- The factor that is asked for does not get smaller. -/
theorem specifiedFactor_le {limits : Limits} {weight : Weight} {smaller larger : IntegerArgs}
    {name : String} (enlarges : Enlarges smaller larger name) :
    specifiedFactor limits weight smaller ≤ specifiedFactor limits weight larger := by
  unfold specifiedFactor
  induction weight.multipliers with
  | nil => exact Int.le_refl _
  | cons first rest inductionHypothesis =>
      rw [List.findSome?_cons, List.findSome?_cons]
      rcases enlarges.positive first with ⟨low, high⟩ | ⟨before, after, low, high, grows⟩
      · rw [low, high]
        exact inductionHypothesis
      · rw [low, high]
        exact min_le_min_right _ grows

/-- The factor is the one that is asked for exactly when the first listed argument decides; and
where it does for both, a larger argument does not lower the charge. -/
theorem appliedFactor_spec (limits : Limits) {weight : Weight}
    (listed : weight.multipliers ≠ []) :
    (∀ request : IntegerArgs,
      appliedFactor limits weight request = specifiedFactor limits weight request ↔
        FirstDecides limits weight request) ∧
    ∀ (smaller larger : IntegerArgs) (name : String), Enlarges smaller larger name →
      FirstDecides limits weight smaller → FirstDecides limits weight larger →
      appliedFactor limits weight smaller ≤ appliedFactor limits weight larger ∧
        (0 ≤ weight.weight.toInt →
          weight.weight.toInt * appliedFactor limits weight smaller ≤
            weight.weight.toInt * appliedFactor limits weight larger) := by
  refine ⟨appliedFactor_eq_iff listed, ?_⟩
  intro smaller larger name enlarges decides decides'
  have grows : appliedFactor limits weight smaller ≤ appliedFactor limits weight larger := by
    rw [(appliedFactor_eq_iff listed smaller).mpr decides,
      (appliedFactor_eq_iff listed larger).mpr decides']
    exact specifiedFactor_le enlarges
  exact ⟨grows, fun nonnegative => Int.mul_le_mul_of_nonneg_left grows nonnegative⟩

/-! ## Pages of a connection -/

/-- The weight of a connection. -/
def connectionWeight : Weight := ⟨2, ["first"]⟩

def pageQuery (first : String) : Text := utf8 ("\x7b issues(first: " ++ first ++ ") \x7d")

def pageField (first : ArgValue) : Field := .mk "issues" "" [("first", first)] [] []

def pageDocument (first : ArgValue) : Document :=
  ⟨[⟨.query, "", [.field (pageField first)]⟩], []⟩

/-- The arguments of a page. -/
def pageArgs (first : ArgValue) (next : Nat)
    (accepted : parseQuery (pageQuery first.raw) = .ok (pageDocument first) next)
    (integer : (integerValue [] first.raw).isSome) : IntegerArgs where
  args := [("first", first)]
  vars := []
  parsed := ⟨_, _, next, pageField first, accepted, List.mem_singleton_self _, rfl⟩
  integers := by
    intro entry member
    rw [List.mem_singleton.mp member]
    exact Option.isSome_iff_exists.mp integer

def fiftyPage : IntegerArgs := pageArgs ⟨some 50, "50"⟩ 21 (by decide +kernel) (by decide)

def hundredPage : IntegerArgs := pageArgs ⟨some 100, "100"⟩ 22 (by decide +kernel) (by decide)

theorem appliedFactor_spec_pages :
    connectionWeight.multipliers ≠ [] ∧
      FirstDecides defaultLimits connectionWeight fiftyPage ∧
      FirstDecides defaultLimits connectionWeight hundredPage ∧
      Enlarges fiftyPage hundredPage "first" ∧
      appliedFactor defaultLimits connectionWeight fiftyPage =
        specifiedFactor defaultLimits connectionWeight fiftyPage ∧
      appliedFactor defaultLimits connectionWeight fiftyPage ≤
        appliedFactor defaultLimits connectionWeight hundredPage := by
  have listed : connectionWeight.multipliers ≠ [] := by decide
  have fifty : FirstDecides defaultLimits connectionWeight fiftyPage := fun _ _ =>
    .inl ⟨"first", 50, rfl, by decide, by decide⟩
  have hundred : FirstDecides defaultLimits connectionWeight hundredPage := fun _ _ =>
    .inl ⟨"first", 100, rfl, by decide, by decide⟩
  have enlarges : Enlarges fiftyPage hundredPage "first" := by
    refine ⟨?_, 50, 100, by decide, by decide, by decide, by decide⟩
    intro other different
    simp [IntegerArgs.value, fiftyPage, hundredPage, pageArgs, List.lookup_cons,
      beq_false_of_ne different]
  have both := appliedFactor_spec defaultLimits listed
  exact ⟨listed, fifty, hundred, enlarges, (both.1 fiftyPage).mpr fifty,
    (both.2 fiftyPage hundredPage "first" enlarges fifty hundred).1⟩

/-- A page of 2^63 items, which is too large for an `int`. -/
def hugePage : IntegerArgs :=
  pageArgs ⟨none, "9223372036854775808"⟩ 38 (by decide +kernel) (by decide)

/-- The largest page is charged as the default one, and less than a page of fifty items. -/
theorem huge_page_charged_as_default :
    connectionWeight.multipliers ≠ [] ∧ 0 < defaultLimits.defaultFirst ∧
      0 < defaultLimits.maxFirst ∧ hugePage.value "first" = some 9223372036854775808 ∧
      specifiedFactor defaultLimits connectionWeight hugePage = 100 ∧
      appliedFactor defaultLimits connectionWeight hugePage = 20 ∧
      appliedFactor defaultLimits connectionWeight fiftyPage = 50 := by
  decide +kernel

end GitScale.GraphQL.Cost
