import GitScale.Foundation.Scan
import GitScale.Go.Utf8

/-!
# Shell patterns

`path.Match` on the bytes of a pattern and of a name.  A pattern is cut at its stars into
chunks, and a chunk is a sequence of terms.  The loops of the source read the pattern and the
name together; a comparison that fails never stops the reading of the pattern, so here a chunk
is read first and compared then.
-/

namespace GitScale.Go

open Foundation

/-! ## Terms -/

/-- What matches one byte, or the rune at the front of a name. -/
inductive Term where
  | any
  | literal (value : UInt8)
  | charClass (negated : Bool) (ranges : List (Nat × Nat))
  deriving DecidableEq, Repr

def inRanges (ranges : List (Nat × Nat)) (rune : Nat) : Bool :=
  ranges.any fun range => range.1 ≤ rune && rune ≤ range.2

/-- The comparison of a term with the front of a name: what follows the part that it takes.
A class may take a slash. -/
def Term.take : Term → Text → Option Text
  | _, [] => none
  | .any, first :: rest =>
      if first = byte '/' then none
      else some ((first :: rest).drop (decodeRune (first :: rest)).2)
  | .literal value, first :: rest => if value = first then some rest else none
  | .charClass negated ranges, first :: rest =>
      if inRanges ranges (decodeRune (first :: rest)).1 ≠ negated then
        some ((first :: rest).drop (decodeRune (first :: rest)).2)
      else none

/-- `getEsc`: a possibly escaped rune of a class, with what follows it, which is not empty. -/
def getEsc : Text → Option (Nat × Text)
  | [] => none
  | first :: rest =>
      if first = byte '-' ∨ first = byte ']' then none
      else
        let chunk := if first = byte '\\' then rest else first :: rest
        let decoded := decodeRune chunk
        if chunk = [] ∨ decoded = (runeError, 1) ∨ chunk.drop decoded.2 = [] then none
        else some (decoded.1, chunk.drop decoded.2)

/-- A range, with what follows it. -/
def readRange (chunk : Text) : Option ((Nat × Nat) × Text) :=
  (getEsc chunk).bind fun low =>
    if low.2.head? = some (byte '-') then
      (getEsc low.2.tail).map fun high => ((low.1, high.1), high.2)
    else some ((low.1, low.1), low.2)

/-- The ranges of a class up to its closing bracket, which ends it after the first range.
Each range has at least one byte, so the length of the text is fuel enough. -/
def readRanges : Nat → Bool → Text → Option (List (Nat × Nat) × Text)
  | 0, _, _ => none
  | fuel + 1, started, chunk =>
      if started && chunk.head? = some (byte ']') then some ([], chunk.tail)
      else
        (readRange chunk).bind fun range =>
          (readRanges fuel true range.2).map fun others => (range.1 :: others.1, others.2)

/-- The class after its opening bracket, and the number of bytes it takes. -/
def readClass (negated : Bool) (text : Text) : Option (Term × Nat) :=
  (readRanges text.length false text).map fun read =>
    (.charClass negated read.1, text.length - read.2.length)

/-- One term of a chunk; an error is `ErrBadPattern`. -/
def nextTerm : ScanStep UInt8 Unit Term := fun first rest =>
  if first = byte '[' then
    match (if rest.head? = some (byte '^') then
        (readClass true rest.tail).map fun read => (read.1, read.2 + 1)
      else readClass false rest) with
    | some (term, taken) => .ok ([term], taken)
    | none => .error ()
  else if first = byte '?' then .ok ([.any], 0)
  else if first = byte '\\' then
    match rest with
    | [] => .error ()
    | escaped :: _ => .ok ([.literal escaped], 1)
  else .ok ([.literal first], 0)

def readTerms (chunk : Text) : Except Unit (List Term) := scan nextTerm chunk

/-! ## Chunks -/

/-- Part of a pattern without an unescaped star outside of a class, and whether a star is
before it. -/
structure Chunk where
  star : Bool
  body : Text
  deriving DecidableEq, Repr

/-- The second loop of `scanChunk`: the text before the next star. -/
def scanBody : Bool → Text → Text
  | _, [] => []
  | inrange, value :: rest =>
      if value = byte '\\' then
        match rest with
        | [] => [value]
        | escaped :: rest => value :: escaped :: scanBody inrange rest
      else if value = byte '[' then value :: scanBody true rest
      else if value = byte ']' then value :: scanBody false rest
      else if value = byte '*' ∧ inrange = false then []
      else value :: scanBody inrange rest

/-- `scanChunk`. -/
def scanChunk : ScanStep UInt8 Empty Chunk := fun first rest =>
  let text := (first :: rest).dropWhile (· = byte '*')
  let body := scanBody false text
  .ok ([⟨first = byte '*', body⟩], rest.length - (text.length - body.length))

def chunks (pattern : Text) : List Chunk :=
  match scan scanChunk pattern with
  | .ok chunks => chunks
  | .error impossible => impossible.elim

/-! ## Matching -/

/-- `matchChunk` for a chunk that was read: what follows a match at the front of the name. -/
def matchChunk : List Term → Text → Option Text
  | [], name => some name
  | term :: terms, name => (term.take name).bind (matchChunk terms)

/-- The first place where the chunk matches, which after a star may be behind bytes other
than a slash; the last chunk must take the whole name. -/
def firstFit (star last : Bool) (terms : List Term) (name : Text) : Option Text :=
  match (matchChunk terms name).filter fun rest => rest.isEmpty || !last with
  | some rest => some rest
  | none =>
      match name with
      | [] => none
      | first :: name =>
          if star && first ≠ byte '/' then firstFit star last terms name else none

/-- The loop of `path.Match`. -/
def matchChunks : List Chunk → Text → Option Bool
  | [], name => some name.isEmpty
  | chunk :: others, name =>
      if chunk.star && chunk.body.isEmpty then some (!name.contains (byte '/'))
      else
        match readTerms chunk.body with
        | .error _ => none
        | .ok terms =>
            match firstFit chunk.star others.isEmpty terms name with
            | some rest => matchChunks others rest
            | none =>
                -- The rest of the pattern is only checked for its form.
                if others.all fun chunk => (readTerms chunk.body).toBool then some false
                else none

/-- `path.Match`; `none` is `ErrBadPattern`. -/
def pathMatchText (pattern name : Text) : Option Bool := matchChunks (chunks pattern) name

/-- `path.Match` for strings of characters. -/
def pathMatch (pattern name : String) : Option Bool := pathMatchText (utf8 pattern) (utf8 name)

end GitScale.Go
