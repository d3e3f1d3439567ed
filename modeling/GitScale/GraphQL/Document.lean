import Mathlib.Data.List.Basic

/-!
# Parsed GraphQL documents

The syntax trees that `cost.ParseQuery` produces.  A Go map is a list of pairs of which
`List.lookup` finds the first.
-/

namespace GitScale.GraphQL

inductive OperationKind where
  | query
  | mutation
  deriving DecidableEq, Repr

/-- `cost.ArgValue`. -/
structure ArgValue where
  intValue : Option Int
  raw : String
  deriving DecidableEq, Repr

mutual

/-- `cost.Field`. -/
inductive Field where
  | mk (name : String) (aliasName : String) (args : List (String × ArgValue))
      (directives : List String) (sels : List Selection)

/-- `cost.Selection`; the fragment reference of a spread is its name. -/
inductive Selection where
  | field (field : Field)
  | fragmentSpread (name : String)
  | inlineFragment (onType : String) (sels : List Selection)

end

/-! Equality of syntax trees can be decided, so parsed documents can be compared. -/

mutual

def Field.decideEq : (left right : Field) → Decidable (left = right)
  | .mk name aliasName args directives sels, .mk name' aliasName' args' directives' sels' =>
      match decEq (name, aliasName, args, directives) (name', aliasName', args', directives'),
        Selection.decideEqs sels sels' with
      | isTrue plain, isTrue nested => isTrue (by cases plain; cases nested; rfl)
      | isFalse differ, _ => isFalse (by rintro ⟨⟩; exact differ rfl)
      | _, isFalse differ => isFalse (by rintro ⟨⟩; exact differ rfl)

def Selection.decideEq : (left right : Selection) → Decidable (left = right)
  | .field left, .field right =>
      match Field.decideEq left right with
      | isTrue equal => isTrue (by cases equal; rfl)
      | isFalse differ => isFalse (by rintro ⟨⟩; exact differ rfl)
  | .fragmentSpread left, .fragmentSpread right =>
      decidable_of_iff (left = right) (by simp)
  | .inlineFragment onType sels, .inlineFragment onType' sels' =>
      match decEq onType onType', Selection.decideEqs sels sels' with
      | isTrue plain, isTrue nested => isTrue (by cases plain; cases nested; rfl)
      | isFalse differ, _ => isFalse (by rintro ⟨⟩; exact differ rfl)
      | _, isFalse differ => isFalse (by rintro ⟨⟩; exact differ rfl)
  | .field _, .fragmentSpread _ => isFalse (by simp)
  | .field _, .inlineFragment _ _ => isFalse (by simp)
  | .fragmentSpread _, .field _ => isFalse (by simp)
  | .fragmentSpread _, .inlineFragment _ _ => isFalse (by simp)
  | .inlineFragment _ _, .field _ => isFalse (by simp)
  | .inlineFragment _ _, .fragmentSpread _ => isFalse (by simp)

def Selection.decideEqs : (left right : List Selection) → Decidable (left = right)
  | [], [] => isTrue rfl
  | [], _ :: _ => isFalse (by simp)
  | _ :: _, [] => isFalse (by simp)
  | left :: lefts, right :: rights =>
      match Selection.decideEq left right, Selection.decideEqs lefts rights with
      | isTrue plain, isTrue nested => isTrue (by cases plain; cases nested; rfl)
      | isFalse differ, _ => isFalse (by rintro ⟨⟩; exact differ rfl)
      | _, isFalse differ => isFalse (by rintro ⟨⟩; exact differ rfl)

end

instance instDecidableEqSelection : DecidableEq Selection := Selection.decideEq

namespace Field

def name : Field → String
  | .mk name _ _ _ _ => name

def aliasName : Field → String
  | .mk _ aliasName _ _ _ => aliasName

def args : Field → List (String × ArgValue)
  | .mk _ _ args _ _ => args

def directives : Field → List String
  | .mk _ _ _ directives _ => directives

def sels : Field → List Selection
  | .mk _ _ _ _ sels => sels

end Field

/-- `cost.Fragment`. -/
structure Fragment where
  name : String
  onType : String
  sels : List Selection
  deriving DecidableEq

/-- `cost.Operation`. -/
structure Operation where
  kind : OperationKind
  name : String
  sels : List Selection
  deriving DecidableEq

/-- `cost.Document`. -/
structure Document where
  operations : List Operation
  fragments : List (String × Fragment)
  deriving DecidableEq

/-- `keyOf`. -/
def keyOf (field : Field) : String :=
  if field.aliasName ≠ "" then field.aliasName else field.name

/-- The fields among a list of selections. -/
def fieldsOf (sels : List Selection) : List Field :=
  sels.filterMap fun
    | .field field => some field
    | _ => none

/-- `expandFragment`: the immediate fields of a fragment; nested fragments are not
expanded and an unknown spread has none. -/
def expandFragment (document : Document) : Selection → List Field
  | .field _ => []
  | .fragmentSpread name =>
      match document.fragments.lookup name with
      | some fragment => fieldsOf fragment.sels
      | none => []
  | .inlineFragment _ sels => fieldsOf sels

/-- The fields that `Execute` dispatches for one selection of the operation. -/
def rootFieldsOf (document : Document) : Selection → List Field
  | .field field => [field]
  | selection => expandFragment document selection

/-- The fields that `Execute` dispatches, in order. -/
def rootFields (document : Document) (operation : Operation) : List Field :=
  operation.sels.flatMap (rootFieldsOf document)

end GitScale.GraphQL
