import GitScale.GraphQL.Json
import GitScale.GraphQL.Printer
import Mathlib.Data.List.Chain

/-!
# Object literals

The literals of GraphQL without variables, as they are written, with the value each one stands
for, and `graphqlObjectToJSON`, which the executor decodes them through.
-/

namespace GitScale.GraphQL

open Foundation Go

/-! ## Lexemes -/

/-- A byte that separates tokens. -/
inductive Blank where
  | space
  | tab
  | newline
  | carriageReturn
  | comma
  deriving DecidableEq

def Blank.byte : Blank → UInt8
  | .space => Go.byte ' '
  | .tab => 9
  | .newline => 10
  | .carriageReturn => 13
  | .comma => Go.byte ','

/-- What stands between two tokens. -/
abbrev Gap := List Blank

/-- A name. -/
structure Name where
  text : Text
  isName : isNameText text = true

theorem Name.bytes (name : Name) : name.text.all isNameByte = true := by
  obtain ⟨text, isName⟩ := name
  cases text with
  | nil => rfl
  | cons first others =>
      have table : ∀ value, isNameStart value = true → isNameByte value = true :=
        forall_byte (by decide)
      obtain ⟨starts, bytes⟩ := Bool.and_eq_true_iff.mp isName
      rw [List.all_cons, table first starts, bytes]
      rfl

/-- The names that are values other than enum values. -/
def isReserved (text : Text) : Bool :=
  text = utf8 "true" || text = utf8 "false" || text = utf8 "null"

/-- The bytes that stand for themselves in a string: a tab and everything from a space on, but
quotes and backslashes. -/
def isPlainByte (value : UInt8) : Bool :=
  (value = 9 || 0x20 ≤ value) && value ≠ quote && value ≠ backslash

/-- A character of a string: a byte of it, an escape or a code unit in hexadecimal. -/
inductive StringPiece where
  | plain (value : UInt8) (isPlain : isPlainByte value = true)
  | escape (value : UInt8) (standard : isEscape value = true)
  | unicode (first second third fourth : UInt8)
      (hex : [first, second, third, fourth].all isHex = true)

def StringPiece.text : StringPiece → Text
  | .plain value _ => [value]
  | .escape value _ => [backslash, value]
  | .unicode first second third fourth _ =>
      [backslash, byte 'u', first, second, third, fourth]

/-- The text between the quotes of a string. -/
def bodyText (pieces : List StringPiece) : Text := pieces.flatMap StringPiece.text

inductive Lexeme where
  | blank (value : Blank)
  | mark (value : Mark)
  | word (name : Name)
  | number (numeral : Numeral) (valid : numeral.valid = true)
  | string (pieces : List StringPiece)

def Lexeme.text : Lexeme → Text
  | .blank value => [value.byte]
  | .mark value => [value.byte]
  | .word name => name.text
  | .number numeral _ => numeral.text
  | .string pieces => quote :: (bodyText pieces ++ [quote])

def lexemesText (lexemes : List Lexeme) : Text := lexemes.flatMap Lexeme.text

/-- Whether two lexemes may stand side by side.  A name or a number does not go on in the second
one, and three quotes are not two strings. -/
def Lexeme.apart : Lexeme → Lexeme → Bool
  | .word _, .word _ => false
  | .word _, .number numeral _ => numeral.negative
  | .number _ _, .word _ => false
  | .number _ _, .number numeral _ => numeral.negative
  | .string pieces, .string _ => !pieces.isEmpty
  | _, _ => true

/-! ## Literals -/

mutual

/-- A literal with the gaps inside it. -/
inductive Literal where
  | null
  | boolean (value : Bool)
  | enum (name : Name) (isFree : isReserved name.text = false)
  | number (numeral : Numeral) (valid : numeral.valid = true)
  | string (pieces : List StringPiece)
  | list (opening : Gap) (items : Items)
  | object (opening : Gap) (fields : Fields)

/-- The elements of a list, each with the gap after it. -/
inductive Items where
  | nil
  | cons (value : Literal) (after : Gap) (rest : Items)

/-- The fields of an object, each with the gaps around its colon and the one after it. -/
inductive Fields where
  | nil
  | cons (key : Name) (beforeColon afterColon : Gap) (value : Literal) (after : Gap)
      (rest : Fields)

end

def Gap.lexemes (gap : Gap) : List Lexeme := gap.map Lexeme.blank

theorem isNameText_true : isNameText (utf8 "true") = true := by decide
theorem isNameText_false : isNameText (utf8 "false") = true := by decide
theorem isNameText_null : isNameText (utf8 "null") = true := by decide

/-- The word of a boolean. -/
def booleanName : Bool → Name
  | true => ⟨utf8 "true", isNameText_true⟩
  | false => ⟨utf8 "false", isNameText_false⟩

mutual

def Literal.lexemes : Literal → List Lexeme
  | .null => [.word ⟨utf8 "null", isNameText_null⟩]
  | .boolean value => [.word (booleanName value)]
  | .enum name _ => [.word name]
  | .number numeral valid => [.number numeral valid]
  | .string pieces => [.string pieces]
  | .list opening items =>
      .mark .openBracket :: (Gap.lexemes opening ++ (items.lexemes ++ [.mark .closeBracket]))
  | .object opening fields =>
      .mark .openBrace :: (Gap.lexemes opening ++ (fields.lexemes ++ [.mark .closeBrace]))

def Items.lexemes : Items → List Lexeme
  | .nil => []
  | .cons value after rest => value.lexemes ++ (Gap.lexemes after ++ rest.lexemes)

def Fields.lexemes : Fields → List Lexeme
  | .nil => []
  | .cons key beforeColon afterColon value after rest =>
      .word key :: (Gap.lexemes beforeColon ++ .mark .colon :: (Gap.lexemes afterColon ++
        (value.lexemes ++ (Gap.lexemes after ++ rest.lexemes))))

end

mutual

/-- The value of a literal; an enum value is its name. -/
def Literal.value : Literal → Value
  | .null => .null
  | .boolean value => .bool value
  | .enum name _ => .string (ofBytes name.text)
  | .number numeral _ => .number numeral.value
  | .string pieces => .string (unquote (bodyText pieces))
  | .list _ items => .list items.values
  | .object _ fields => .object fields.values

def Items.values : Items → List Value
  | .nil => []
  | .cons value _ rest => value.value :: rest.values

def Fields.values : Fields → List (String × Value)
  | .nil => []
  | .cons key _ _ value _ rest => (ofBytes key.text, value.value) :: rest.values

end

/-- An object literal whose tokens can be told apart. -/
structure InputObject where
  opening : Gap
  fields : Fields
  apart : (Literal.object opening fields).lexemes.IsChain fun first second =>
    first.apart second = true

def InputObject.literal (object : InputObject) : Literal := .object object.opening object.fields

/-- An object literal as it is written. -/
def InputObject.text (object : InputObject) : Text := lexemesText object.literal.lexemes

/-! ## The conversion -/

/-- Why there is no JSON text: an error, or a slice out of range. -/
inductive ConversionFailure where
  | error (message : String)
  | panic
  deriving DecidableEq

def isLetter (value : UInt8) : Bool :=
  within (byte 'a') (byte 'z') value || within (byte 'A') (byte 'Z') value || value = byte '_'

/-- The number of bytes of a string after its opening quote.  A string without a closing quote
ends with the text, and a backslash at the end goes beyond it. -/
def stringTaken : Text → Option Nat
  | [] => some 0
  | value :: rest =>
      if value = backslash then
        match rest with
        | [] => none
        | _ :: rest => (· + 2) <$> stringTaken rest
      else if value = quote then some 1
      else (· + 1) <$> stringTaken rest

def isNumberByte (value : UInt8) : Bool := value = byte '-' || value = byte '.' || isDigit value

def isIdentByte (value : UInt8) : Bool := isLetter value || isDigit value || value = byte '_'

/-- Whether the next byte after spaces and tabs is a colon. -/
def isKeyBefore (rest : Text) : Bool :=
  (rest.dropWhile fun value => value = byte ' ' || value = 9).head? = some (byte ':')

def quoted (text : Text) : Text := quote :: (text ++ [quote])

/-- A name in the JSON text. -/
def convertIdent (ident : Text) (isKey : Bool) : Text :=
  if isKey then quoted ident
  else if isReserved ident then ident
  else quoted ident

/-- One iteration of `graphqlObjectToJSON`. -/
def convertNext : ScanStep UInt8 ConversionFailure UInt8 := fun value rest =>
  if value = byte ' ' ∨ value = 10 ∨ value = 9 ∨ value = 13 then .ok ([byte ' '], 0)
  else if value = byte ',' then .ok ([byte ','], 0)
  else if value = byte '\x7b' ∨ value = byte '\x7d' ∨ value = byte '[' ∨ value = byte ']' ∨
      value = byte ':' then .ok ([value], 0)
  else if value = quote then
    match stringTaken rest with
    | none => .error .panic
    | some taken => .ok (value :: rest.take taken, taken)
  else if isNumberByte value then
    .ok (value :: rest.takeWhile isNumberByte, (rest.takeWhile isNumberByte).length)
  else if isLetter value then
    .ok (convertIdent (value :: rest.takeWhile isIdentByte)
      (isKeyBefore (rest.dropWhile isIdentByte)), (rest.takeWhile isIdentByte).length)
  else .error (.error ("unexpected character " ++ quoteByte value ++ " in object literal"))

/-- `graphqlObjectToJSON`. -/
def graphqlObjectToJSON (text : Text) : Except ConversionFailure Text := scan convertNext text

/-! ## What the conversion keeps -/

/-- The conversion gives JSON with the value of the literal. -/
def InputObject.KeepsMeaning (object : InputObject) : Prop :=
  ∃ out, graphqlObjectToJSON object.text = .ok out ∧ decodeJson out = some object.literal.value

/-- The number of commas in a gap. -/
def Gap.commas (gap : Gap) : Nat := gap.count .comma

/-- Whether a gap has only spaces and tabs. -/
def Gap.inLine (gap : Gap) : Bool := gap.all fun blank => blank = .space || blank = .tab

/-- The commas that JSON has after an element: one before another element. -/
def commasBefore : Bool → Nat
  | true => 0
  | false => 1

def Items.isEmpty : Items → Bool
  | .nil => true
  | .cons _ _ _ => false

def Fields.isEmpty : Fields → Bool
  | .nil => true
  | .cons _ _ _ _ _ _ => false

def StringPiece.isTab : StringPiece → Bool
  | .plain value _ => value = 9
  | _ => false

mutual

/-- A literal that is written as JSON would be, but for the quotes of its names: one comma
between two elements and no other comma, no exponents, no tabs in strings, and on the line of
its colon a key that JSON has as a keyword. -/
def Literal.JsonLike : Literal → Prop
  | .null => True
  | .boolean _ => True
  | .enum _ _ => True
  | .number numeral _ => numeral.exponent = none
  | .string pieces => ∀ piece ∈ pieces, piece.isTab = false
  | .list opening items => Gap.commas opening = 0 ∧ items.JsonLike
  | .object opening fields => Gap.commas opening = 0 ∧ fields.JsonLike

def Items.JsonLike : Items → Prop
  | .nil => True
  | .cons value after rest =>
      value.JsonLike ∧ Gap.commas after = commasBefore rest.isEmpty ∧ rest.JsonLike

def Fields.JsonLike : Fields → Prop
  | .nil => True
  | .cons key beforeColon afterColon value after rest =>
      (isReserved key.text = true → Gap.inLine beforeColon = true) ∧
        Gap.commas beforeColon = 0 ∧ Gap.commas afterColon = 0 ∧ value.JsonLike ∧
        Gap.commas after = commasBefore rest.isEmpty ∧ rest.JsonLike

end

end GitScale.GraphQL
