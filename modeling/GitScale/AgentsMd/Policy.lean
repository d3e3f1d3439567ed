import GitScale.Go.Text
import Mathlib.Data.Nat.Digits.Lemmas

/-!
# AGENTS.md policies

A policy is a list of Never predicates.  Merging and deduplication compare predicates by a
string key, so what matters is that the key is injective on the predicates that the parser
can produce: those that fill only the selector field of their name.
-/

namespace GitScale.AgentsMd

open Go

/-- `PredicateName`. -/
inductive PredicateName where
  | forcePushToBranch
  | deleteBranch
  | pushToBranch
  | modifyPath
  | pushBinaryOverSize
  | unknown (text : Text)
  deriving DecidableEq, Repr

def PredicateName.text : PredicateName → Text
  | .forcePushToBranch => utf8 "force_push_to_branch"
  | .deleteBranch => utf8 "delete_branch"
  | .pushToBranch => utf8 "push_to_branch"
  | .modifyPath => utf8 "modify_path"
  | .pushBinaryOverSize => utf8 "push_binary_over_size"
  | .unknown text => text

/-- `AllPredicates`. -/
def allPredicates : List PredicateName :=
  [.forcePushToBranch, .deleteBranch, .pushToBranch, .modifyPath, .pushBinaryOverSize]

/-- `PredicateName(text)`. -/
def PredicateName.ofText (text : Text) : PredicateName :=
  (allPredicates.find? fun name => name.text = text).getD (.unknown text)

/-- `PredicateSelector`. -/
structure PredicateSelector where
  branchGlob : Text
  pathGlob : Text
  maxBytes : Int64
  deriving DecidableEq

/-- `NeverPredicate`. -/
structure NeverPredicate where
  name : PredicateName
  selector : PredicateSelector
  deriving DecidableEq

/-- `Policy`. -/
structure Policy where
  schemaVersion : Text
  empty : Bool
  never : List NeverPredicate
  deriving DecidableEq

/-- `SchemaVersionV1`. -/
def schemaVersionV1 : Text := utf8 "gitscale/v1"

/-- `&Policy\x7bEmpty: true\x7d`. -/
def emptyPolicy : Policy := ⟨[], true, []⟩

/-! ## Keys -/

/-- `byte('0' + digit)`. -/
def digitByte (digit : Nat) : UInt8 := byte '0' + digit.toUInt8

/-- `itoa64`.  The negation of the smallest value is itself; the loop over the digits does
not run on it. -/
def itoa64 (n : Int64) : Text :=
  if n = 0 then [byte '0']
  else
    let magnitude := if n < 0 then -n else n
    let digits := ((Nat.digits 10 magnitude.toInt.toNat).map digitByte).reverse
    if n < 0 then byte '-' :: digits else digits

/-- `NeverPredicate.key`. -/
def NeverPredicate.key (predicate : NeverPredicate) : Text :=
  predicate.name.text ++ byte '|' :: (predicate.selector.branchGlob ++
    byte '|' :: (predicate.selector.pathGlob ++ byte '|' :: itoa64 predicate.selector.maxBytes))

/-- The predicates of the parser: a known name, and only its own selector field filled. -/
def NeverPredicate.Shaped (predicate : NeverPredicate) : Prop :=
  match predicate.name with
  | .forcePushToBranch | .deleteBranch | .pushToBranch =>
      predicate.selector.pathGlob = [] ∧ predicate.selector.maxBytes = 0
  | .modifyPath => predicate.selector.branchGlob = [] ∧ predicate.selector.maxBytes = 0
  | .pushBinaryOverSize =>
      predicate.selector.branchGlob = [] ∧ predicate.selector.pathGlob = []
  | .unknown _ => False

/-- What the parser promises about a policy. -/
structure Policy.WellFormed (policy : Policy) : Prop where
  shaped : ∀ predicate ∈ policy.never, predicate.Shaped
  distinct : (policy.never.map NeverPredicate.key).Nodup
  empty : policy.empty = true ↔ policy.never = []

theorem emptyPolicy_wellFormed : emptyPolicy.WellFormed where
  shaped := by simp [emptyPolicy]
  distinct := by simp [emptyPolicy]
  empty := by simp [emptyPolicy]

/-! ## Reading a size back -/

/-- The number that a run of digits denotes. -/
def digitsValue (text : Text) : Nat :=
  Nat.ofDigits 10 (text.reverse.map fun value => (value - byte '0').toNat)

/-- The inverse of `itoa64`; a sign without digits is the smallest value. -/
def readSize : Text → Int
  | [] => 0
  | first :: rest =>
      if first = byte '-' then
        if rest = [] then Int64.minValue.toInt else -(digitsValue rest)
      else digitsValue (first :: rest)

theorem digitByte_spec : ∀ digit < 10,
    (digitByte digit - byte '0').toNat = digit ∧ digitByte digit ≠ byte '-' := by
  decide

theorem digitsValue_digits (value : Nat) :
    digitsValue ((Nat.digits 10 value).map digitByte).reverse = value := by
  have back : ((Nat.digits 10 value).map digitByte).map
      (fun value => (value - byte '0').toNat) = Nat.digits 10 value := by
    rw [List.map_map]
    calc
      _ = (Nat.digits 10 value).map id := by
        apply List.map_congr_left
        intro digit membership
        exact (digitByte_spec digit (Nat.digits_lt_base (by decide) membership)).1
      _ = Nat.digits 10 value := List.map_id _
  rw [digitsValue, List.reverse_reverse, back, Nat.ofDigits_digits]

/-- A text of digits has no sign. -/
theorem readSize_digits (value : Nat) :
    readSize ((Nat.digits 10 value).map digitByte).reverse = value := by
  cases shape : ((Nat.digits 10 value).map digitByte).reverse with
  | nil =>
      have zero : value = 0 := by
        simpa [Nat.digits_eq_nil_iff_eq_zero] using shape
      rw [zero]
      rfl
  | cons first rest =>
      have listed : first ∈ (Nat.digits 10 value).map digitByte := by
        rw [← List.mem_reverse, shape]
        exact List.mem_cons_self
      obtain ⟨digit, membership, rfl⟩ := List.mem_map.mp listed
      have unsigned := (digitByte_spec digit (Nat.digits_lt_base (by decide) membership)).2
      rw [readSize, if_neg unsigned, ← shape, digitsValue_digits]

theorem toInt_neg_of_ne_minValue {n : Int64} (regular : n ≠ Int64.minValue) :
    (-n).toInt = -n.toInt := by
  have above : n.toInt ≠ -2 ^ 63 := by
    intro equal
    exact regular (Int64.toInt_inj.mp (equal.trans Int64.toInt_minValue.symm))
  have low := n.le_toInt
  have high := n.toInt_lt
  rw [Int64.toInt_neg, Int.bmod_eq_of_le]
  · omega
  · omega

theorem readSize_itoa64 (n : Int64) : readSize (itoa64 n) = n.toInt := by
  unfold itoa64
  split
  · next zero =>
      rw [zero]
      rfl
  · next nonzero =>
      have signed : n.toInt ≠ 0 := fun equal =>
        nonzero (Int64.toInt_inj.mp (equal.trans Int64.toInt_zero.symm))
      simp only [Int64.lt_iff_toInt_lt, Int64.toInt_zero]
      split
      · next negative =>
          by_cases smallest : n = Int64.minValue
          · rw [smallest]
            decide
          · rw [readSize, if_pos rfl, toInt_neg_of_ne_minValue smallest, digitsValue_digits,
              if_neg, Int.toNat_of_nonneg (by omega), neg_neg]
            simpa [Nat.digits_eq_nil_iff_eq_zero] using negative
      · next nonneg =>
          rw [readSize_digits, Int.toNat_of_nonneg (by omega)]

theorem itoa64_injective {left right : Int64} (equal : itoa64 left = itoa64 right) :
    left = right := by
  rw [← Int64.toInt_inj, ← readSize_itoa64, ← readSize_itoa64, equal]

/-! ## Keys of parsed predicates -/

/-- What stands before the first separator determines what stands after it. -/
theorem append_cons_inj {separator : UInt8} {first first' second second' : Text}
    (absent : separator ∉ first) (absent' : separator ∉ first')
    (equal : first ++ separator :: second = first' ++ separator :: second') :
    first = first' ∧ second = second' := by
  induction first generalizing first' with
  | nil =>
      cases first' with
      | nil => exact ⟨rfl, (List.cons.inj equal).2⟩
      | cons head tail =>
          rw [(List.cons.inj equal).1] at absent'
          exact absurd List.mem_cons_self absent'
  | cons head tail inductionHypothesis =>
      cases first' with
      | nil =>
          rw [← (List.cons.inj equal).1] at absent
          exact absurd List.mem_cons_self absent
      | cons head' tail' =>
          obtain ⟨rfl, tails⟩ := List.cons.inj equal
          obtain ⟨rfl, rest⟩ := inductionHypothesis
            (fun membership => absent (List.mem_cons_of_mem _ membership))
            (fun membership => absent' (List.mem_cons_of_mem _ membership)) tails
          exact ⟨rfl, rest⟩

theorem text_spec : ∀ name ∈ allPredicates,
    byte '|' ∉ name.text ∧ PredicateName.ofText name.text = name := by
  decide

theorem NeverPredicate.Shaped.known {predicate : NeverPredicate} (shaped : predicate.Shaped) :
    predicate.name ∈ allPredicates := by
  unfold NeverPredicate.Shaped at shaped
  cases name : predicate.name with
  | unknown text => simp [name] at shaped
  | _ => simp [allPredicates]

/-- The key is injective on what the parser produces, whatever bytes the globs contain. -/
theorem key_injective {left right : NeverPredicate} (shapedLeft : left.Shaped)
    (shapedRight : right.Shaped) (equal : left.key = right.key) : left = right := by
  obtain ⟨freeLeft, namedLeft⟩ := text_spec _ shapedLeft.known
  obtain ⟨freeRight, namedRight⟩ := text_spec _ shapedRight.known
  obtain ⟨texts, rest⟩ := append_cons_inj freeLeft freeRight equal
  have names : left.name = right.name := by rw [← namedLeft, ← namedRight, texts]
  obtain ⟨name, branchGlob, pathGlob, maxBytes⟩ := left
  obtain ⟨name', branchGlob', pathGlob', maxBytes'⟩ := right
  subst names
  -- The name says which field is filled; the others are the same on both sides.
  cases name with
  | unknown text => exact shapedLeft.elim
  | forcePushToBranch | deleteBranch | pushToBranch =>
      obtain ⟨rfl, rfl⟩ := shapedLeft
      obtain ⟨rfl, rfl⟩ := shapedRight
      have globs : branchGlob = branchGlob' := List.append_cancel_right rest
      rw [globs]
  | modifyPath =>
      obtain ⟨rfl, rfl⟩ := shapedLeft
      obtain ⟨rfl, rfl⟩ := shapedRight
      obtain ⟨-, rest⟩ := List.cons.inj rest
      have globs : pathGlob = pathGlob' := List.append_cancel_right rest
      rw [globs]
  | pushBinaryOverSize =>
      obtain ⟨rfl, rfl⟩ := shapedLeft
      obtain ⟨rfl, rfl⟩ := shapedRight
      obtain ⟨-, rest⟩ := List.cons.inj rest
      obtain ⟨-, rest⟩ := List.cons.inj rest
      have sizes : maxBytes = maxBytes' := itoa64_injective rest
      rw [sizes]

end GitScale.AgentsMd
