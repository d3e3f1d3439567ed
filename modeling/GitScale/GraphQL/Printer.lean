import GitScale.GraphQL.Parser

/-!
# Printing GraphQL documents

The canonical rendering of a document: its tokens with single spaces between them, the operations
before the fragments.  A raw value is printed as it is.  `Printable` says which documents there
is a rendering for.
-/

namespace GitScale.GraphQL

open Foundation Go

/-- The bytes of a name or a raw value. -/
def toBytes (text : String) : Text := text.toList.map fun character => character.toNat.toUInt8

/-- `toBytes` undoes `ofBytes`. -/
theorem toBytes_ofBytes (text : Text) : toBytes (ofBytes text) = text := by
  unfold toBytes ofBytes
  rw [String.toList_ofList, List.map_map]
  conv_rhs => rw [← List.map_id text]
  apply List.map_congr_left
  intro value _
  have small : value.toNat < 256 := value.toNat_lt
  have valid : value.toNat.isValidChar := Or.inl (by omega)
  have code : (Char.ofNat value.toNat).toNat = value.toNat := by
    rw [Char.ofNat, dif_pos valid]
    rfl
  rw [Function.comp_apply, code]
  exact UInt8.ofNat_toNat

/-! ## Tokens -/

def space : UInt8 := byte ' '

/-- A punctuator of one byte. -/
def punctuator (character : Char) : Text := [byte character]

def dots : Text := [byte '.', byte '.', byte '.']

/-- The arguments of a field. -/
def argTokens (args : List (String × ArgValue)) : List Text :=
  args.flatMap fun arg => [toBytes arg.1, punctuator ':', toBytes arg.2.raw]

/-- The arguments of a field in parentheses, if there are any. -/
def optionalArgTokens (args : List (String × ArgValue)) : List Text :=
  if args.isEmpty then [] else punctuator '(' :: (argTokens args ++ [punctuator ')'])

def directiveTokens (directives : List String) : List Text :=
  directives.flatMap fun directive => [punctuator '@', toBytes directive]

/-- The alias and the name of a field. -/
def nameTokens (aliasName name : String) : List Text :=
  if aliasName = "" then [toBytes name]
  else [toBytes aliasName, punctuator ':', toBytes name]

mutual

def Field.tokens : Field → List Text
  | .mk name aliasName args directives sels =>
      nameTokens aliasName name ++ (optionalArgTokens args ++ (directiveTokens directives ++
        (if sels.isEmpty then []
          else punctuator '\x7b' :: (Selection.listTokens sels ++ [punctuator '\x7d']))))

def Selection.tokens : Selection → List Text
  | .field field => field.tokens
  | .fragmentSpread name => [dots, toBytes name]
  | .inlineFragment onType sels =>
      dots :: utf8 "on" :: toBytes onType :: punctuator '\x7b' ::
        (Selection.listTokens sels ++ [punctuator '\x7d'])

def Selection.listTokens : List Selection → List Text
  | [] => []
  | selection :: rest => selection.tokens ++ Selection.listTokens rest

end

/-- The keyword of an operation. -/
def OperationKind.keyword : OperationKind → Text
  | .query => utf8 "query"
  | .mutation => utf8 "mutation"

/-- A selection set in braces. -/
def setTokens (sels : List Selection) : List Text :=
  punctuator '\x7b' :: (Selection.listTokens sels ++ [punctuator '\x7d'])

def Operation.tokens (operation : Operation) : List Text :=
  operation.kind.keyword :: ((if operation.name = "" then [] else [toBytes operation.name]) ++
    setTokens operation.sels)

def Fragment.tokens (fragment : Fragment) : List Text :=
  utf8 "fragment" :: toBytes fragment.name :: utf8 "on" :: toBytes fragment.onType ::
    setTokens fragment.sels

def Document.tokens (document : Document) : List Text :=
  document.operations.flatMap Operation.tokens ++
    document.fragments.flatMap fun entry => entry.2.tokens

/-- The canonical rendering. -/
def Document.render (document : Document) : Text := joinByte document.tokens space

/-! ## Printable documents -/

def isNameStart (value : UInt8) : Bool :=
  within (byte 'a') (byte 'z') value || within (byte 'A') (byte 'Z') value || value = byte '_'

/-- A letter or underscore followed by letters, digits and underscores. -/
def isNameText : Text → Bool
  | [] => false
  | first :: rest => isNameStart first && rest.all isNameByte

def IsName (name : String) : Prop := ∃ text, isNameText text = true ∧ ofBytes text = name

/-- What stands between the quotes of a string: no quote and no backslash, except that a
backslash takes the next byte with it. -/
inductive StringBody : Text → Prop where
  | nil : StringBody []
  | plain {value : UInt8} {rest : Text} (notQuote : value ≠ quote)
      (notBackslash : value ≠ backslash) (others : StringBody rest) : StringBody (value :: rest)
  | escape {value : UInt8} {rest : Text} (others : StringBody rest) :
      StringBody (backslash :: value :: rest)

/-- Three quotes. -/
def quotes : Text := [quote, quote, quote]

/-- A terminated string.  A block string is terminated by the next three quotes. -/
inductive StringToken : Text → Prop where
  | plain {body : Text} (isBody : StringBody body) : StringToken (quote :: (body ++ [quote]))
  | block {body : Text} (first : indexText quotes (body ++ quotes) = some body.length) :
      StringToken (quotes ++ (body ++ quotes))

def isBracket (value : UInt8) : Bool :=
  value = byte '[' || value = byte ']' || value = byte '\x7b' || value = byte '\x7d'

/-- What stands between the brackets of a literal: strings, balanced brackets and other bytes.
Two quotes that are a string are not followed by a third. -/
inductive Balanced : Text → Prop where
  | nil : Balanced []
  | other {value : UInt8} {rest : Text} (notQuote : value ≠ quote)
      (notBracket : isBracket value = false) (others : Balanced rest) : Balanced (value :: rest)
  | string {token rest : Text} (isString : StringToken token)
      (apart : token = [quote, quote] → rest.head? ≠ some quote) (others : Balanced rest) :
      Balanced (token ++ rest)
  | list {inner rest : Text} (within : Balanced inner) (others : Balanced rest) :
      Balanced (byte '[' :: (inner ++ byte ']' :: rest))
  | object {inner rest : Text} (within : Balanced inner) (others : Balanced rest) :
      Balanced (byte '\x7b' :: (inner ++ byte '\x7d' :: rest))

/-- The values of arguments. -/
inductive PrintableValue : ArgValue → Prop where
  | reference {name : Text} (isName : isNameText name = true) :
      PrintableValue ⟨none, ofBytes (byte '$' :: name)⟩
  | integer {sign digits : Text} {value : Int} (isSign : sign = [] ∨ sign = [byte '-'])
      (nonempty : digits ≠ []) (areDigits : digits.all isDigit = true)
      (fits : parseInt (ofBytes (sign ++ digits)).toList = some value) :
      PrintableValue ⟨some value, ofBytes (sign ++ digits)⟩
  | name {name : Text} (isName : isNameText name = true) : PrintableValue ⟨none, ofBytes name⟩
  | string {token : Text} (isString : StringToken token) : PrintableValue ⟨none, ofBytes token⟩
  | list {inner : Text} (within : Balanced inner) :
      PrintableValue ⟨none, ofBytes (byte '[' :: (inner ++ [byte ']']))⟩
  | object {inner : Text} (within : Balanced inner) :
      PrintableValue ⟨none, ofBytes (byte '\x7b' :: (inner ++ [byte '\x7d']))⟩

/-- The arguments of a field are a map. -/
structure PrintableArgs (args : List (String × ArgValue)) : Prop where
  names : ∀ arg ∈ args, IsName arg.1
  values : ∀ arg ∈ args, PrintableValue arg.2
  distinct : (args.map Prod.fst).Nodup

mutual

def Field.Printable : Field → Prop
  | .mk name aliasName args directives sels =>
      IsName name ∧ (aliasName = "" ∨ IsName aliasName) ∧ PrintableArgs args ∧
        (∀ directive ∈ directives, IsName directive) ∧ Selection.AllPrintable sels

def Selection.Printable : Selection → Prop
  | .field field => field.Printable
  | .fragmentSpread name => IsName name ∧ name ≠ "on"
  | .inlineFragment onType sels => IsName onType ∧ Selection.AllPrintable sels

def Selection.AllPrintable : List Selection → Prop
  | [] => True
  | selection :: rest => selection.Printable ∧ Selection.AllPrintable rest

end

structure Operation.Printable (operation : Operation) : Prop where
  name : operation.name = "" ∨ IsName operation.name
  sels : Selection.AllPrintable operation.sels

structure Fragment.Printable (fragment : Fragment) : Prop where
  name : IsName fragment.name
  notOn : fragment.name ≠ "on"
  onType : IsName fragment.onType
  sels : Selection.AllPrintable fragment.sels

/-- The documents with a rendering: there is an operation, the names are names, and the fragments
are a map. -/
structure Document.Printable (document : Document) : Prop where
  nonempty : document.operations ≠ []
  operations : ∀ operation ∈ document.operations, operation.Printable
  fragments : ∀ entry ∈ document.fragments, entry.2.Printable
  keys : ∀ entry ∈ document.fragments, entry.1 = entry.2.name
  distinct : (document.fragments.map Prod.fst).Nodup

end GitScale.GraphQL
