import GitScale.Foundation.Reader
import GitScale.Go.Strconv
import GitScale.Go.Text
import GitScale.GraphQL.Document

/-!
# Parsing GraphQL documents

`cost.ParseQuery`, a recursive-descent parser over the bytes of the source.  The names and raw
values of a document have one character for each byte.  Every loop gets fuel for one iteration
for each byte; a selection set gets twice as much, since a field in it takes two calls before
the position is beyond its name.
-/

namespace GitScale.GraphQL

open Foundation Go

/-- The methods of `parser`, with the text of their errors. -/
abbrev Parser (Value : Type) := Reader UInt8 String Value

/-! ## Tokens -/

/-- `parser.errf`. -/
def errf {Value : Type} (message : String) : Parser Value :=
  Reader.fail fun position =>
    "cost: parse error: " ++ message ++ " at offset " ++ toString position

/-- `parser.peek`, which is 0 at the end. -/
def peek : Parser UInt8 := do
  let here ← Reader.current
  return here.getD 0

def isBlank (value : UInt8) : Bool :=
  value = byte ' ' || value = 9 || value = 10 || value = 13 || value = byte ','

/-- The length of the blanks and comments at the start of a text; within a comment it is read
up to the end of the line. -/
def blankLength (comment : Bool) : Text → Nat
  | [] => 0
  | value :: rest =>
      if comment then
        if value = 10 then blankLength false rest + 1 else blankLength true rest + 1
      else if isBlank value then blankLength false rest + 1
      else if value = byte '#' then blankLength true rest + 1
      else 0

/-- `parser.skipWS`. -/
def skipWS : Parser Unit := Reader.advanceBy (blankLength false)

def isDigit (value : UInt8) : Bool := within (byte '0') (byte '9') value

def isNameByte (value : UInt8) : Bool :=
  within (byte 'a') (byte 'z') value || within (byte 'A') (byte 'Z') value ||
    isDigit value || value = byte '_'

/-- `parser.readIdent`. -/
def readIdent : Parser String := do
  skipWS
  let start ← Reader.position
  Reader.advanceWhile isNameByte
  let name ← Reader.slice start
  return ofBytes name

/-- `parser.expect`. -/
def expect (value : UInt8) : Parser Unit := do
  skipWS
  let here ← Reader.current
  if here = some value then Reader.advance 1 else errf ("expected " ++ quoteByte value)

def quote : UInt8 := 34

def backslash : UInt8 := 92

/-- The loop of `readString` after the opening quote. -/
def readStringLoop : Nat → Parser Unit
  | 0 => Reader.stuck
  | fuel + 1 => do
      let here ← Reader.current
      match here with
      | none => errf "unterminated string"
      | some value =>
          if value = backslash then
            Reader.advance 2
            readStringLoop fuel
          else if value = quote then Reader.advance 1
          else
            Reader.advance 1
            readStringLoop fuel

/-- `parser.readString`, the quotes included. -/
def readString : Parser Text := do
  let rest ← Reader.remaining
  let start ← Reader.position
  if hasPrefix rest [quote, quote, quote] then
    match indexText [quote, quote, quote] (rest.drop 3) with
    | none => errf "unterminated block string"
    | some index =>
        Reader.advance (3 + index + 3)
        Reader.slice start
  else
    Reader.advance 1
    let length ← Reader.sourceLength
    readStringLoop (length + 1)
    Reader.slice start

/-- The loop of `skipBalanced`. -/
def skipBalancedLoop (opening closing : UInt8) : Nat → Int → Parser Unit
  | 0, _ => Reader.stuck
  | fuel + 1, depth => do
      let here ← Reader.current
      match here with
      | none => errf ("unbalanced " ++ quoteByte opening ++ "…" ++ quoteByte closing)
      | some value =>
          if value = opening then
            Reader.advance 1
            skipBalancedLoop opening closing fuel (depth + 1)
          else if value = closing then
            if depth - 1 = 0 then Reader.advance 1
            else
              Reader.advance 1
              skipBalancedLoop opening closing fuel (depth - 1)
          else if value = quote then
            let _ ← readString
            skipBalancedLoop opening closing fuel depth
          else
            Reader.advance 1
            skipBalancedLoop opening closing fuel depth

/-- `parser.skipBalanced`. -/
def skipBalanced (opening closing : UInt8) : Parser Unit := do
  let here ← peek
  if here = opening then
    let length ← Reader.sourceLength
    skipBalancedLoop opening closing (length + 1) 0
  else errf ("expected " ++ quoteByte opening)

/-- Variable definitions or the arguments of a directive, if there are any. -/
def skipParenthesised : Parser Unit := do
  let here ← peek
  if here = byte '(' then skipBalanced (byte '(') (byte ')') else return ()

/-! ## Values and arguments -/

/-- `parser.readNumber`. -/
def readNumber : Parser ArgValue := do
  let start ← Reader.position
  let first ← Reader.item
  Reader.advance (if first = byte '-' then 1 else 0)
  Reader.advanceWhile isDigit
  let here ← Reader.current
  if here = some (byte '.') then
    Reader.advance 1
    Reader.advanceWhile isDigit
    let raw ← Reader.slice start
    return ⟨none, ofBytes raw⟩
  else
    let raw ← Reader.slice start
    return ⟨parseInt (ofBytes raw).toList, ofBytes raw⟩

/-- A list or object literal. -/
def readBalanced (opening closing : UInt8) : Parser ArgValue := do
  let start ← Reader.position
  skipBalanced opening closing
  let raw ← Reader.slice start
  return ⟨none, ofBytes raw⟩

/-- `parser.parseValue`. -/
def parseValue : Parser ArgValue := do
  skipWS
  let here ← Reader.current
  match here with
  | none => errf "expected value"
  | some value =>
      if value = byte '$' then
        Reader.advance 1
        let name ← readIdent
        return ⟨none, "$" ++ name⟩
      else if value = quote then
        let raw ← readString
        return ⟨none, ofBytes raw⟩
      else if value = byte '[' then readBalanced (byte '[') (byte ']')
      else if value = byte '\x7b' then readBalanced (byte '\x7b') (byte '\x7d')
      else if value = byte '-' ∨ isDigit value then readNumber
      else
        let ident ← readIdent
        if ident = "" then errf ("unexpected character " ++ quoteByte value ++ " in value")
        else return ⟨none, ident⟩

/-- `m[key] = value`. -/
def setEntry {Value : Type} (entries : List (String × Value)) (key : String) (value : Value) :
    List (String × Value) :=
  (entries.filter fun entry => entry.1 ≠ key) ++ [(key, value)]

/-- The loop of `parseArgs`. -/
def parseArgsLoop :
    Nat → List (String × ArgValue) → Parser (List (String × ArgValue))
  | 0, _ => Reader.stuck
  | fuel + 1, into => do
      skipWS
      let here ← Reader.current
      match here with
      | none => errf "unclosed args"
      | some value =>
          if value = byte ')' then
            Reader.advance 1
            return into
          else
            let name ← readIdent
            if name = "" then errf "expected arg name"
            else
              skipWS
              expect (byte ':')
              skipWS
              let value ← parseValue
              parseArgsLoop fuel (setEntry into name value)

/-- `parser.parseArgs`. -/
def parseArgs : Parser (List (String × ArgValue)) := do
  expect (byte '(')
  let length ← Reader.sourceLength
  parseArgsLoop (length + 1) []

/-- The arguments of a field, if there are any. -/
def parseOptionalArgs : Parser (List (String × ArgValue)) := do
  let here ← peek
  if here = byte '(' then parseArgs else return []

/-- The directives of an operation, an inline fragment or a field: their names. -/
def parseDirectives : Nat → List String → Parser (List String)
  | 0, _ => Reader.stuck
  | fuel + 1, names => do
      let here ← peek
      if here = byte '@' then
        Reader.advance 1
        let name ← readIdent
        skipWS
        skipParenthesised
        skipWS
        parseDirectives fuel (names ++ [name])
      else return names

/-! ## Selections -/

/-- The alias and the name of a field. -/
def parseFieldName : Parser (String × String) := do
  let name ← readIdent
  if name = "" then errf "expected field name"
  else
    skipWS
    let here ← peek
    if here = byte ':' then
      Reader.advance 1
      skipWS
      let aliased ← readIdent
      if aliased = "" then errf "expected field name after alias"
      else
        skipWS
        return (name, aliased)
    else return ("", name)

/-- The fuel for a selection set. -/
def selectionFuel (length : Nat) : Nat := 2 * length + 3

/-- A spread or an inline fragment starts here. -/
def atSpread : Parser Bool := do
  let rest ← Reader.remaining
  return hasPrefix rest [byte '.', byte '.', byte '.']

mutual

/-- `parser.parseSelectionSet`. -/
def parseSelectionSet : Nat → Parser (List Selection)
  | 0 => Reader.stuck
  | fuel + 1 => do
      expect (byte '\x7b')
      parseSelections fuel []

/-- The loop of `parseSelectionSet`. -/
def parseSelections : Nat → List Selection → Parser (List Selection)
  | 0, _ => Reader.stuck
  | fuel + 1, out => do
      skipWS
      let here ← Reader.current
      match here with
      | none => errf "unclosed selection set"
      | some value =>
          if value = byte '\x7d' then
            Reader.advance 1
            return out
          else
            let spread ← atSpread
            if spread then
              Reader.advance 3
              skipWS
              let ident ← readIdent
              if ident = "on" then
                let typeName ← readIdent
                skipWS
                let length ← Reader.sourceLength
                let _ ← parseDirectives (length + 1) []
                let sels ← parseSelectionSet fuel
                parseSelections fuel (out ++ [.inlineFragment typeName sels])
              else parseSelections fuel (out ++ [.fragmentSpread ident])
            else
              let field ← parseField fuel
              parseSelections fuel (out ++ [.field field])

/-- `parser.parseField`. -/
def parseField : Nat → Parser Field
  | 0 => Reader.stuck
  | fuel + 1 => do
      let names ← parseFieldName
      let args ← parseOptionalArgs
      skipWS
      let length ← Reader.sourceLength
      let directives ← parseDirectives (length + 1) []
      let here ← peek
      let sels ← (if here = byte '\x7b' then parseSelectionSet fuel else pure [])
      return .mk names.2 names.1 args directives sels

end

/-! ## Definitions -/

/-- `parser.parseOperation`. -/
def parseOperation (kind : OperationKind) : Parser Operation := do
  let name ← readIdent
  skipWS
  skipParenthesised
  skipWS
  let length ← Reader.sourceLength
  let _ ← parseDirectives (length + 1) []
  let sels ← parseSelectionSet (selectionFuel length)
  return ⟨kind, name, sels⟩

/-- `parser.parseFragment`. -/
def parseFragment : Parser Fragment := do
  let name ← readIdent
  if name = "" then errf "fragment requires a name"
  else
    let on ← readIdent
    if on ≠ "on" then errf "expected 'on' after fragment name"
    else
      let onType ← readIdent
      if onType = "" then errf "fragment requires a type condition"
      else
        let length ← Reader.sourceLength
        let sels ← parseSelectionSet (selectionFuel length)
        return ⟨name, onType, sels⟩

/-- The loop of `ParseQuery` over the definitions. -/
def parseDefinitions : Nat → Document → Parser Document
  | 0, _ => Reader.stuck
  | fuel + 1, document => do
      let here ← Reader.current
      match here with
      | none =>
          if document.operations.isEmpty then
            Reader.fail fun _ => "cost: parse error: document has no operations"
          else return document
      | some _ =>
          let keyword ← readIdent
          if keyword = "query" ∨ keyword = "mutation" then
            let operation ←
              parseOperation (if keyword = "mutation" then .mutation else .query)
            skipWS
            parseDefinitions fuel
              { document with operations := document.operations ++ [operation] }
          else if keyword = "subscription" then errf "subscriptions are not supported"
          else if keyword = "fragment" then
            let fragment ← parseFragment
            skipWS
            parseDefinitions fuel
              { document with
                fragments := setEntry document.fragments fragment.name fragment }
          else if keyword = "" then errf "expected operation or fragment"
          else errf ("unexpected top-level token \"" ++ keyword ++ "\"")

/-- `ParseQuery` from the start of the source. -/
def parseDocument : Parser Document := do
  skipWS
  let here ← peek
  let length ← Reader.sourceLength
  if here = byte '\x7b' then
    let sels ← parseSelectionSet (selectionFuel length)
    skipWS
    let after ← Reader.current
    match after with
    | none => return ⟨[⟨.query, "", sels⟩], []⟩
    | some _ => errf "trailing input after shorthand operation"
  else parseDefinitions (length + 1) ⟨[], []⟩

/-- `ParseQuery`. -/
def parseQuery (source : Text) : Outcome String Document := parseDocument source 0

end GitScale.GraphQL
