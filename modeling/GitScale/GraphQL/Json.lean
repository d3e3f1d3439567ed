import GitScale.Foundation.Scan
import GitScale.GraphQL.Executor
import GitScale.GraphQL.Parser

/-!
# JSON texts

The tokens of a JSON text and the value that it decodes to.  A number is decoded exactly and an
object to its members as they are written.
-/

namespace GitScale.GraphQL

open Foundation Go

/-! ## Numbers -/

/-- The exponent of a number: its letter, its sign if there is one, and its digits. -/
structure Exponent where
  letter : UInt8
  sign : Option UInt8
  digits : Text
  deriving DecidableEq

/-- A number of JSON, which is also how GraphQL writes one.  The fraction is empty if there is no
point. -/
structure Numeral where
  negative : Bool
  integer : Text
  fraction : Text
  exponent : Option Exponent
  deriving DecidableEq

/-- Digits without a leading zero. -/
def isInteger : Text → Bool
  | [] => false
  | [digit] => isDigit digit
  | first :: rest => isDigit first && first ≠ byte '0' && rest.all isDigit

def isExponentLetter (value : UInt8) : Bool := value = byte 'e' || value = byte 'E'

def isSign (value : UInt8) : Bool := value = byte '+' || value = byte '-'

def Exponent.valid (exponent : Exponent) : Bool :=
  isExponentLetter exponent.letter && exponent.sign.all isSign && !exponent.digits.isEmpty &&
    exponent.digits.all isDigit

def Numeral.valid (numeral : Numeral) : Bool :=
  isInteger numeral.integer && numeral.fraction.all isDigit &&
    numeral.exponent.all Exponent.valid

def Exponent.text (exponent : Exponent) : Text :=
  exponent.letter :: (exponent.sign.toList ++ exponent.digits)

/-- The fraction with its point. -/
def fractionText (fraction : Text) : Text :=
  if fraction.isEmpty then [] else byte '.' :: fraction

/-- A number without its exponent. -/
def Numeral.mantissa (numeral : Numeral) : Text :=
  (if numeral.negative then [byte '-'] else []) ++ (numeral.integer ++
    fractionText numeral.fraction)

def Numeral.text (numeral : Numeral) : Text :=
  numeral.mantissa ++ (numeral.exponent.elim [] Exponent.text)

/-- The number that digits stand for. -/
def digitsValue (digits : Text) : Nat :=
  digits.foldl (fun total digit => 10 * total + (digit.toNat - 48)) 0

def Exponent.value (exponent : Exponent) : Int :=
  if exponent.sign = some (byte '-') then -(digitsValue exponent.digits : Int)
  else digitsValue exponent.digits

def Numeral.value (numeral : Numeral) : Rat :=
  let size : Rat := digitsValue numeral.integer +
    (digitsValue numeral.fraction : Rat) / (10 : Rat) ^ numeral.fraction.length
  let scale : Rat := (10 : Rat) ^ (numeral.exponent.elim 0 Exponent.value)
  (if numeral.negative then -size else size) * scale

/-- The fraction at the start of a text.  A point needs a digit after it. -/
def readFraction : Text → Option Text
  | [] => some []
  | first :: rest =>
      if first = byte '.' then
        if (rest.takeWhile isDigit).isEmpty then none else some (rest.takeWhile isDigit)
      else some []

/-- The exponent at the start of a text. -/
def readExponent : Text → Option (Option Exponent)
  | [] => some none
  | first :: rest =>
      if isExponentLetter first then
        let sign := rest.head?.filter isSign
        let digits := (rest.drop sign.toList.length).takeWhile isDigit
        if digits.isEmpty then none else some (some ⟨first, sign, digits⟩)
      else some none

/-- The number at the start of a text, after its sign. -/
def readUnsigned (negative : Bool) (text : Text) : Option Numeral := do
  let integer := text.takeWhile isDigit
  let afterInteger := text.drop integer.length
  let fraction ← readFraction afterInteger
  let exponent ← readExponent (afterInteger.drop (fractionText fraction).length)
  if isInteger integer then some ⟨negative, integer, fraction, exponent⟩ else none

/-- The number at the start of a text. -/
def readNumeral (text : Text) : Option Numeral :=
  if text.head? = some (byte '-') then readUnsigned true text.tail else readUnsigned false text

/-! ## Strings -/

/-- The bytes that may follow a backslash, other than `u`. -/
def isEscape (value : UInt8) : Bool :=
  value = quote || value = backslash || value = byte '/' || value = byte 'b' ||
    value = byte 'f' || value = byte 'n' || value = byte 'r' || value = byte 't'

def isHex (value : UInt8) : Bool :=
  isDigit value || within (byte 'a') (byte 'f') value || within (byte 'A') (byte 'F') value

/-- The text of a string up to its closing quote.  Control characters have to be escaped. -/
def readBody : Text → Option Text
  | [] => none
  | value :: rest =>
      if value = quote then some []
      else if value = backslash then
        match rest with
        | [] => none
        | escape :: rest =>
            if isEscape escape then (fun body => value :: escape :: body) <$> readBody rest
            else if escape = byte 'u' then
              match rest with
              | first :: second :: third :: fourth :: rest =>
                  if [first, second, third, fourth].all isHex then
                    (fun body => value :: escape :: first :: second :: third :: fourth :: body) <$>
                      readBody rest
                  else none
              | _ => none
            else none
      else if value < 0x20 then none
      else (value :: ·) <$> readBody rest

/-- The rune that an escape stands for. -/
def escapeRune (value : UInt8) : Nat :=
  if value = byte 'b' then 8
  else if value = byte 'f' then 12
  else if value = byte 'n' then 10
  else if value = byte 'r' then 13
  else if value = byte 't' then 9
  else value.toNat

def hexValue (value : UInt8) : Nat :=
  if isDigit value then value.toNat - 48
  else if within (byte 'a') (byte 'f') value then value.toNat - 87
  else value.toNat - 55

/-- The code unit of `\uXXXX` at the start of a text. -/
def codeUnit : Text → Option Nat
  | first :: letter :: a :: b :: c :: d :: _ =>
      if first = backslash ∧ letter = byte 'u' then
        some (((hexValue a * 16 + hexValue b) * 16 + hexValue c) * 16 + hexValue d)
      else none
  | _ => none

/-- `utf16.DecodeRune`, if the code units are a surrogate pair. -/
def surrogatePair (high low : Nat) : Option Nat :=
  if 0xD800 ≤ high ∧ high < 0xDC00 ∧ 0xDC00 ≤ low ∧ low < 0xE000 then
    some ((high - 0xD800) * 1024 + (low - 0xDC00) + 0x10000)
  else none

/-- A code unit by itself.  Half of a pair stands for no rune. -/
def singleUnit (code : Nat) : Nat := if 0xD800 ≤ code ∧ code < 0xE000 then runeError else code

/-- The runes of a string, from its text between the quotes. -/
def runes : Nat → Text → List Nat
  | _, [] => []
  | 0, _ => []
  | fuel + 1, value :: rest =>
      if value = backslash then
        match codeUnit (value :: rest) with
        | some code =>
            match (codeUnit (rest.drop 5)).bind (surrogatePair code) with
            | some rune => rune :: runes fuel (rest.drop 11)
            | none => singleUnit code :: runes fuel (rest.drop 5)
        | none => escapeRune (rest.headD 0) :: runes fuel (rest.drop 1)
      else (decodeRune (value :: rest)).1 ::
        runes fuel (rest.drop ((decodeRune (value :: rest)).2 - 1))

/-- The string with the given text between its quotes. -/
def unquote (body : Text) : String :=
  String.ofList ((runes body.length body).map Char.ofNat)

/-! ## Tokens -/

/-- The punctuators that GraphQL literals and JSON have in common. -/
inductive Mark where
  | openBrace
  | closeBrace
  | openBracket
  | closeBracket
  | colon
  deriving DecidableEq

def Mark.byte : Mark → UInt8
  | .openBrace => Go.byte '\x7b'
  | .closeBrace => Go.byte '\x7d'
  | .openBracket => Go.byte '['
  | .closeBracket => Go.byte ']'
  | .colon => Go.byte ':'

/-- A token of a JSON text; a string by its text between the quotes. -/
inductive JsonToken where
  | mark (mark : Mark)
  | comma
  | null
  | boolean (value : Bool)
  | number (numeral : Numeral)
  | string (body : Text)
  deriving DecidableEq

/-- The punctuator that a byte is. -/
def punctuatorToken (value : UInt8) : Option JsonToken :=
  if value = byte '\x7b' then some (.mark .openBrace)
  else if value = byte '\x7d' then some (.mark .closeBrace)
  else if value = byte '[' then some (.mark .openBracket)
  else if value = byte ']' then some (.mark .closeBracket)
  else if value = byte ':' then some (.mark .colon)
  else if value = byte ',' then some .comma
  else none

/-- The token at a position. -/
def nextToken : ScanStep UInt8 Unit JsonToken := fun value rest =>
  if value = byte ' ' ∨ value = 9 ∨ value = 10 ∨ value = 13 then .ok ([], 0)
  else
    match punctuatorToken value with
    | some token => .ok ([token], 0)
    | none =>
        if value = quote then
          match readBody rest with
          | some body => .ok ([.string body], body.length + 1)
          | none => .error ()
        else if value = byte '-' ∨ isDigit value then
          match readNumeral (value :: rest) with
          | some numeral => .ok ([.number numeral], numeral.text.length - 1)
          | none => .error ()
        else if hasPrefix (value :: rest) (utf8 "true") then .ok ([.boolean true], 3)
        else if hasPrefix (value :: rest) (utf8 "false") then .ok ([.boolean false], 4)
        else if hasPrefix (value :: rest) (utf8 "null") then .ok ([.null], 3)
        else .error ()

/-- The tokens of a text. -/
def lexJson (text : Text) : Except Unit (List JsonToken) := scan nextToken text

/-! ## Values -/

mutual

/-- The value at the start of the tokens, and the tokens after it. -/
def readValue : Nat → List JsonToken → Option (Value × List JsonToken)
  | 0, _ => none
  | _ + 1, .null :: rest => some (.null, rest)
  | _ + 1, .boolean value :: rest => some (.bool value, rest)
  | _ + 1, .number numeral :: rest => some (.number numeral.value, rest)
  | _ + 1, .string body :: rest => some (.string (unquote body), rest)
  | _ + 1, .mark .openBracket :: .mark .closeBracket :: rest => some (.list [], rest)
  | fuel + 1, .mark .openBracket :: rest => do
      let (values, rest) ← readElements fuel rest
      return (.list values, rest)
  | _ + 1, .mark .openBrace :: .mark .closeBrace :: rest => some (.object [], rest)
  | fuel + 1, .mark .openBrace :: rest => do
      let (members, rest) ← readMembers fuel rest
      return (.object members, rest)
  | _ + 1, _ => none

/-- The elements of a list, of which there is at least one, up to its closing bracket. -/
def readElements : Nat → List JsonToken → Option (List Value × List JsonToken)
  | 0, _ => none
  | fuel + 1, tokens => do
      let (value, rest) ← readValue fuel tokens
      match rest with
      | .mark .closeBracket :: rest => some ([value], rest)
      | .comma :: rest => do
          let (values, rest) ← readElements fuel rest
          return (value :: values, rest)
      | _ => none

/-- The members of an object, of which there is at least one, up to its closing brace. -/
def readMembers : Nat → List JsonToken → Option (List (String × Value) × List JsonToken)
  | 0, _ => none
  | fuel + 1, .string body :: .mark .colon :: tokens => do
      let (value, rest) ← readValue fuel tokens
      match rest with
      | .mark .closeBrace :: rest => some ([(unquote body, value)], rest)
      | .comma :: rest => do
          let (members, rest) ← readMembers fuel rest
          return ((unquote body, value) :: members, rest)
      | _ => none
  | _ + 1, _ => none

end

/-- The value of a JSON text.  Two calls are enough for each token. -/
def decodeJson (text : Text) : Option Value :=
  match lexJson text with
  | .error _ => none
  | .ok tokens =>
      match readValue (2 * tokens.length + 1) tokens with
      | some (value, []) => some value
      | _ => none

end GitScale.GraphQL
