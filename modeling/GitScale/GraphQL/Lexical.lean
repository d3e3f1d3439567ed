import GitScale.GraphQL.ObjectLiteral

/-!
# The lexical elements of a query

A query as a sequence of tokens, blanks and comments, and what it means for two queries to say
the same.  The elements are those of GraphQL and a few more: a number may have any of the bytes
that numbers are made of, and every other byte is an element by itself.
-/

namespace GitScale.GraphQL

open Foundation Go

/-! ## Elements -/

/-- What ends a comment. -/
inductive LineEnd where
  | newline
  | carriageReturn
  | both
  | endOfText
  deriving DecidableEq

def LineEnd.text : LineEnd → Text
  | .newline => [10]
  | .carriageReturn => [13]
  | .both => [13, 10]
  | .endOfText => []

def isLineEnd (value : UInt8) : Bool := value = 10 || value = 13

/-- The bytes of numbers. -/
def isNumeric (value : UInt8) : Bool :=
  isDigit value || value = byte '.' || value = byte 'e' || value = byte 'E' || isSign value

/-- A number or a part of one: bytes of numbers, and no point after a point. -/
structure IsNumber (text : Text) : Prop where
  nonempty : text ≠ []
  numeric : text.all isNumeric = true
  points : text.IsChain fun first second => ¬ (first = byte '.' ∧ second = byte '.')

/-- The bytes that are elements by themselves, the punctuators among them. -/
def isSingle (value : UInt8) : Bool :=
  !isBlank value && !isNameByte value && value ≠ byte '#' && value ≠ quote &&
    value ≠ byte '.' && !isSign value

/-- Where a block string is closed: at the first three quotes without a backslash before them. -/
def blockEnd : Text → Option Nat
  | [] => none
  | value :: rest =>
      if hasPrefix (value :: rest) quotes then some 0
      else if value = backslash ∧ hasPrefix rest quotes then
        match rest with
        | _ :: _ :: _ :: rest => (· + 4) <$> blockEnd rest
        | _ => none
      else (· + 1) <$> blockEnd rest

inductive Element where
  | blank (value : Blank)
  | comment (text : Text) (oneLine : text.all (!isLineEnd ·) = true) (ending : LineEnd)
  | name (value : Name)
  | number (text : Text) (isNumber : IsNumber text)
  | dots
  | string (body : Text) (isBody : StringBody body)
  | block (body : Text) (closed : blockEnd (body ++ quotes) = some body.length)
  | single (value : UInt8) (alone : isSingle value = true)

def Element.text : Element → Text
  | .blank value => [value.byte]
  | .comment text _ ending => byte '#' :: (text ++ ending.text)
  | .name value => value.text
  | .number text _ => text
  | .dots => GraphQL.dots
  | .string body _ => quote :: (body ++ [quote])
  | .block body _ => quotes ++ (body ++ quotes)
  | .single value _ => [value]

def elementsText (elements : List Element) : Text := elements.flatMap Element.text

/-- The first byte of an element. -/
def Element.first (element : Element) : UInt8 := element.text.headD 0

/-- Whether an element ends where the next one starts: a comment does not end without the line,
a name or a number does not go on, and two quotes are not the start of a block string. -/
def Element.apart (element next : Element) : Bool :=
  match element with
  | .comment _ _ .endOfText => false
  | .name _ => !isNameByte next.first
  | .number _ _ => !isNameByte next.first && next.first ≠ byte '.'
  | .string [] _ => next.first ≠ quote
  | _ => true

/-- The elements are those that the text is made of. -/
def Apart (elements : List Element) : Prop :=
  elements.IsChain fun element next => element.apart next = true

/-- Blanks and comments. -/
def Element.isIgnored : Element → Bool
  | .blank _ => true
  | .comment _ _ _ => true
  | _ => false

/-- The tokens among the elements. -/
def tokensOf (elements : List Element) : List Element :=
  elements.filter fun element => !element.isIgnored

/-! ## Parts that are skipped -/

/-- How much of a directive has been read: nothing, its sign, or its name too. -/
inductive DirectiveMark where
  | nothing
  | sign
  | named
  deriving DecidableEq

def DirectiveMark.afterName : DirectiveMark → DirectiveMark
  | .sign => .named
  | _ => .nothing

/-- Where a place in a query is: at some depth of selection sets, in the arguments of a field
there, or in a part that is skipped up to its closing bracket (variable definitions, the
arguments of a directive, a list or an object). -/
inductive Place where
  | level (depth : Nat) (mark : DirectiveMark)
  | arguments (depth : Nat)
  | skipped (opening closing : UInt8) (count : Nat) (outer : Place)
  deriving DecidableEq

/-- The place after a byte at some depth. -/
def levelNext (depth : Nat) (mark : DirectiveMark) (value : UInt8) : Place :=
  if value = byte '@' then .level depth .sign
  else if value = byte '(' then
    if depth = 0 ∨ mark ≠ .nothing then
      .skipped (byte '(') (byte ')') 1 (.level depth .nothing)
    else .arguments depth
  else if value = byte '\x7b' then .level (depth + 1) .nothing
  else if value = byte '\x7d' then .level (depth - 1) .nothing
  else .level depth .nothing

/-- The place after a byte in the arguments of a field. -/
def argumentsNext (depth : Nat) (value : UInt8) : Place :=
  if value = byte ')' then .level depth .nothing
  else if value = byte '[' then .skipped (byte '[') (byte ']') 1 (.arguments depth)
  else if value = byte '\x7b' then .skipped (byte '\x7b') (byte '\x7d') 1 (.arguments depth)
  else .arguments depth

/-- The place after a byte in a part that is skipped. -/
def skippedNext (opening closing : UInt8) (count : Nat) (outer : Place) (value : UInt8) : Place :=
  if value = opening then .skipped opening closing (count + 1) outer
  else if value = closing then
    if count = 1 then outer else .skipped opening closing (count - 1) outer
  else .skipped opening closing count outer

/-- The place after an element. -/
def Place.next : Place → Element → Place
  | .level depth mark, .blank _ => .level depth mark
  | .level depth mark, .comment _ _ _ => .level depth mark
  | .level depth mark, .name _ => .level depth mark.afterName
  | .level depth mark, .number text _ =>
      .level depth (if text.all isNameByte then mark.afterName else .nothing)
  | .level depth mark, .single value _ => levelNext depth mark value
  | .level depth _, _ => .level depth .nothing
  | .arguments depth, .single value _ => argumentsNext depth value
  | .arguments depth, _ => .arguments depth
  | .skipped opening closing count outer, .single value _ =>
      skippedNext opening closing count outer value
  | .skipped opening closing count outer, _ => .skipped opening closing count outer

/-- Whether a place is in a part that is skipped. -/
def Place.isSkipped : Place → Bool
  | .skipped _ _ _ _ => true
  | _ => false

/-- The place after some elements. -/
def Place.after (place : Place) (elements : List Element) : Place := elements.foldl Place.next place

/-- Whether the text of a comment has no quotes and, where a part is skipped, none of its
brackets. -/
def Place.tolerates (place : Place) (text : Text) : Bool :=
  match place with
  | .skipped opening closing _ _ =>
      text.all fun value => value ≠ opening && value ≠ closing && value ≠ quote
  | _ => true

/-- An element that the parser reads as GraphQL does: a comment does not end with a carriage
return alone and is tolerated, and the first three quotes close a block string. -/
def Place.Agrees (place : Place) : Element → Prop
  | .comment text _ ending => ending ≠ .carriageReturn ∧ place.tolerates text = true
  | .block body _ => indexText quotes (body ++ quotes) = some body.length
  | _ => True

/-- All the elements are read as GraphQL does. -/
def Place.AgreesAll : Place → List Element → Prop
  | _, [] => True
  | place, element :: rest => place.Agrees element ∧ (place.next element).AgreesAll rest

/-! ## Queries that say the same -/

/-- The same value: lists and objects may differ in blanks and comments. -/
def ArgValue.Same (value value' : ArgValue) : Prop :=
  value = value' ∨
    (value.intValue = none ∧ value'.intValue = none ∧ ∃ elements elements',
      value.raw = ofBytes (elementsText elements) ∧
        value'.raw = ofBytes (elementsText elements') ∧ Apart elements ∧ Apart elements' ∧
        tokensOf elements = tokensOf elements')

/-- The same arguments. -/
def SameArgs (args args' : List (String × ArgValue)) : Prop :=
  List.Forall₂ (fun arg arg' => arg.1 = arg'.1 ∧ arg.2.Same arg'.2) args args'

mutual

inductive SameField : Field → Field → Prop where
  | mk {name aliasName : String} {args args' : List (String × ArgValue)}
      {directives : List String} {sels sels' : List Selection} (sameArgs : SameArgs args args')
      (sameSels : SameSelections sels sels') :
      SameField (.mk name aliasName args directives sels) (.mk name aliasName args' directives sels')

inductive SameSelection : Selection → Selection → Prop where
  | field {field field' : Field} (same : SameField field field') :
      SameSelection (.field field) (.field field')
  | fragmentSpread (name : String) : SameSelection (.fragmentSpread name) (.fragmentSpread name)
  | inlineFragment {sels sels' : List Selection} (onType : String)
      (same : SameSelections sels sels') :
      SameSelection (.inlineFragment onType sels) (.inlineFragment onType sels')

inductive SameSelections : List Selection → List Selection → Prop where
  | nil : SameSelections [] []
  | cons {selection selection' : Selection} {rest rest' : List Selection}
      (same : SameSelection selection selection') (others : SameSelections rest rest') :
      SameSelections (selection :: rest) (selection' :: rest')

end

def SameOperation (operation operation' : Operation) : Prop :=
  operation.kind = operation'.kind ∧ operation.name = operation'.name ∧
    SameSelections operation.sels operation'.sels

def SameFragment (fragment fragment' : Fragment) : Prop :=
  fragment.name = fragment'.name ∧ fragment.onType = fragment'.onType ∧
    SameSelections fragment.sels fragment'.sels

/-- The same document, but for blanks and comments in lists and objects. -/
structure SameDocument (document document' : Document) : Prop where
  operations : List.Forall₂ SameOperation document.operations document'.operations
  fragments : List.Forall₂ (fun entry entry' => entry.1 = entry'.1 ∧ SameFragment entry.2 entry'.2)
    document.fragments document'.fragments

end GitScale.GraphQL
