import GitScale.AgentsMd.Policy

/-!
# Parsing AGENTS.md

A document is a YAML front matter between two `---` lines and a Markdown body.  The body is
scanned line by line for bullet items under a `Never` heading.  The parser never fails: what
it cannot use becomes a diagnostic, and a document without the expected schema is the empty
policy.
-/

namespace GitScale.AgentsMd

open Go

/-- The functions from elsewhere: the `%q` verb for strings and for runes, the `schema` key
of `yaml.Unmarshal`, and `path.Match`, for which `none` is a malformed pattern. -/
structure Platform where
  quote : Text → Text
  quoteRune : Nat → Text
  unmarshalSchema : Text → Except Text Text
  pathMatch : Text → Text → Option Bool

inductive Severity where
  | error
  | warning
  deriving DecidableEq, Repr

/-- The codes of `Diagnostic`. -/
inductive Code where
  | unknownSection
  | malformedPredicate
  | unsupportedSchemaVersion
  | duplicatePredicate
  | emptyNeverBlock
  | unknownPredicate
  | malformedFrontMatter
  deriving DecidableEq, Repr

/-- `Diagnostic`. -/
structure Diagnostic where
  code : Code
  severity : Severity
  line : Nat
  message : Text
  deriving DecidableEq

/-! ## Front matter -/

/-- `splitLines`. -/
def splitLines (data : Text) : List Text :=
  if data = [] then [] else splitByte data (byte '\n')

/-- A `---` line. -/
def isDelimiter (line : Text) : Bool := trimSpaceText line = utf8 "---"

/-- `splitFrontMatter`: the front matter, the body and the number of the last line of the
front matter. -/
def splitFrontMatter (data : Text) : Except Diagnostic (Text × Text × Nat) :=
  match splitLines data with
  | [] =>
      .error ⟨.malformedFrontMatter, .error, 1,
        utf8 "AGENTS.md must begin with a `---` front-matter delimiter"⟩
  | first :: rest =>
      if ¬ isDelimiter first then
        .error ⟨.malformedFrontMatter, .error, 1,
          utf8 "AGENTS.md must begin with a `---` front-matter delimiter"⟩
      else
        match rest.findIdx? isDelimiter with
        | some i =>
            .ok (joinByte (rest.take i) (byte '\n'), joinByte (rest.drop (i + 1)) (byte '\n'),
              i + 2)
        | none =>
            .error ⟨.malformedFrontMatter, .error, 1,
              utf8 "front-matter block opened with `---` but never closed"⟩

/-! ## Predicates -/

/-- The two quote characters, in ASCII. -/
def doubleQuote : UInt8 := 34

def singleQuote : UInt8 := 39

/-- `unquote`. -/
def unquote (text : Text) : Text :=
  match text with
  | first :: second :: rest =>
      let last := (second :: rest).getLast (List.cons_ne_nil second rest)
      if (first = doubleQuote ∧ last = doubleQuote) ∨
          (first = singleQuote ∧ last = singleQuote) then
        (second :: rest).dropLast
      else text
  | _ => text

/-- The loop of `parseSize` over the digits, which wraps in 64 bits. -/
def parseDigits (platform : Platform) : Text → Int64 → Except Text Int64
  | [], n => .ok n
  | c :: rest, n =>
      if within (byte '0') (byte '9') c then
        parseDigits platform rest (n * 10 + Int64.ofNat (c - byte '0').toNat)
      else .error (utf8 "non-digit " ++ platform.quoteRune (decodeRune (c :: rest)).1)

/-- The multiplier of a size suffix. -/
def sizeUnit (last : UInt8) : Option Int64 :=
  if last = byte 'k' ∨ last = byte 'K' then some 1024
  else if last = byte 'm' ∨ last = byte 'M' then some (1024 * 1024)
  else if last = byte 'g' ∨ last = byte 'G' then some (1024 * 1024 * 1024)
  else none

/-- `parseSize`. -/
def parseSize (platform : Platform) (text : Text) : Except Text Int64 :=
  match text.getLast? with
  | none => .error (utf8 "empty size")
  | some last =>
      match sizeUnit last with
      | some unit => (parseDigits platform text.dropLast 0).map (· * unit)
      | none => parseDigits platform text 0

/-- `parsePredicateItem`. -/
def parsePredicateItem (platform : Platform) (item : Text) : Except Text NeverPredicate :=
  match indexByte item (byte ':') with
  | none =>
      .error (utf8 "malformed predicate " ++ platform.quote item ++
        utf8 ": expected `name: selector`")
  | some colon =>
      let name := trimSpaceText (item.take colon)
      let selector := trimSpaceText (item.drop (colon + 1))
      if name = [] ∨ selector = [] then
        .error (utf8 "malformed predicate " ++ platform.quote item ++
          utf8 ": name or selector empty")
      else
        match PredicateName.ofText name with
        | .modifyPath => .ok ⟨.modifyPath, [], unquote selector, 0⟩
        | .pushBinaryOverSize =>
            match parseSize platform (unquote selector) with
            | .error message =>
                .error (utf8 "malformed size " ++ platform.quote selector ++ utf8 ": " ++
                  message)
            | .ok n => .ok ⟨.pushBinaryOverSize, [], [], n⟩
        | name => .ok ⟨name, unquote selector, [], 0⟩

/-! ## The Never block -/

/-- `isKnownHeading`. -/
def isKnownHeading (heading : Text) : Bool :=
  toLowerAscii heading ∈ [utf8 "never", utf8 "always", utf8 "prefer"]

/-- The variables of the loop in `parseNeverBlock`. -/
structure Scan where
  preds : List NeverPredicate
  diags : List Diagnostic
  seen : List Text
  inNever : Bool
  neverStart : Nat
  neverCount : Nat

def Scan.start : Scan := ⟨[], [], [], false, 0, 0⟩

/-- The warning about a `Never` heading without bullets, when the scan leaves one. -/
def Scan.leaveBlock (scan : Scan) : List Diagnostic :=
  if scan.inNever ∧ scan.neverCount = 0 then
    scan.diags ++ [⟨.emptyNeverBlock, .warning, scan.neverStart,
      utf8 "`## Never` block contained no predicates"⟩]
  else scan.diags

/-- A heading line. -/
def Scan.heading (platform : Platform) (scan : Scan) (trimmed : Text) (fileLine : Nat) :
    Scan :=
  let diags := scan.leaveBlock
  let heading := trimSpaceText (trimLeft [byte '#'] trimmed)
  if toLowerAscii heading = utf8 "never" then
    { scan with diags := diags, inNever := true, neverStart := fileLine, neverCount := 0 }
  else if isKnownHeading heading then { scan with diags := diags, inNever := false }
  else
    { scan with
      inNever := false
      diags := diags ++ [⟨.unknownSection, .warning, fileLine,
        utf8 "unknown section heading " ++ platform.quote heading ++ utf8 " (advisory)"⟩] }

/-- A bullet line of a Never block. -/
def Scan.bullet (platform : Platform) (scan : Scan) (trimmed : Text) (fileLine : Nat) : Scan :=
  let scan := { scan with neverCount := scan.neverCount + 1 }
  match parsePredicateItem platform (trimSpaceText (trimPrefix trimmed (utf8 "- "))) with
  | .error message =>
      { scan with diags := scan.diags ++ [⟨.malformedPredicate, .error, fileLine, message⟩] }
  | .ok pred =>
      if pred.name ∉ allPredicates then
        { scan with
          diags := scan.diags ++ [⟨.unknownPredicate, .error, fileLine,
            utf8 "unknown predicate " ++ platform.quote pred.name.text ++
              utf8 " (skipped, not enforced)"⟩] }
      else if pred.key ∈ scan.seen then
        { scan with
          diags := scan.diags ++ [⟨.duplicatePredicate, .warning, fileLine,
            utf8 "duplicate predicate " ++ platform.quote pred.name.text ++
              utf8 " ignored"⟩] }
      else
        { scan with seen := pred.key :: scan.seen, preds := scan.preds ++ [pred] }

/-- One iteration of the loop in `parseNeverBlock`. -/
def Scan.line (platform : Platform) (lineOffset : Nat) (scan : Scan) (entry : Text × Nat) :
    Scan :=
  let trimmed := trimSpaceText (trimRight [byte '\r', byte '\t', byte ' '] entry.1)
  let fileLine := lineOffset + entry.2 + 1
  if hasPrefix trimmed (utf8 "#") then scan.heading platform trimmed fileLine
  else if ¬ scan.inNever then scan
  else if ¬ hasPrefix trimmed (utf8 "- ") then scan
  else scan.bullet platform trimmed fileLine

/-- The loop of `parseNeverBlock`. -/
def scanBody (platform : Platform) (body : Text) (lineOffset : Nat) : Scan :=
  (splitLines body).zipIdx.foldl (Scan.line platform lineOffset) Scan.start

/-- `parseNeverBlock`. -/
def parseNeverBlock (platform : Platform) (body : Text) (lineOffset : Nat) :
    List NeverPredicate × List Diagnostic :=
  let scan := scanBody platform body lineOffset
  (scan.preds, scan.leaveBlock)

/-- `Parse`; its error is always nil. -/
def parse (platform : Platform) (data : Text) : Policy × List Diagnostic :=
  if trimSpaceText data = [] then (emptyPolicy, [])
  else
    match splitFrontMatter data with
    | .error diagnostic => (emptyPolicy, [diagnostic])
    | .ok (front, body, frontEndLine) =>
        match (if trimSpaceText front = [] then .ok []
            else platform.unmarshalSchema front) with
        | .error message =>
            (emptyPolicy, [⟨.malformedFrontMatter, .error, 1,
              utf8 "front-matter YAML: " ++ message⟩])
        | .ok schema =>
            if schema = [] then
              (emptyPolicy, [⟨.malformedFrontMatter, .error, 1,
                utf8 "front-matter missing required `schema:` field"⟩])
            else if schema ≠ schemaVersionV1 then
              (emptyPolicy, [⟨.unsupportedSchemaVersion, .error, 1,
                utf8 "unsupported schema version " ++ platform.quote schema ++
                  utf8 " (expected " ++ platform.quote schemaVersionV1 ++ utf8 ")"⟩])
            else
              let block := parseNeverBlock platform body frontEndLine
              (⟨schema, block.1.isEmpty, block.1⟩, block.2)

/-! ## What the parser produces -/

/-- An item with a known name fills only the selector field of that name. -/
theorem parsePredicateItem_shaped {platform : Platform} {item : Text}
    {predicate : NeverPredicate} (parsed : parsePredicateItem platform item = .ok predicate)
    (known : predicate.name ∈ allPredicates) : predicate.Shaped := by
  unfold parsePredicateItem at parsed
  split at parsed
  · cases parsed
  · simp only at parsed
    split at parsed
    · cases parsed
    · split at parsed
      · cases parsed
        exact ⟨rfl, rfl⟩
      · split at parsed
        · cases parsed
        · cases parsed
          exact ⟨rfl, rfl⟩
      · cases parsed
        cases named : PredicateName.ofText _ with
        | unknown text => simp [named, allPredicates] at known
        | forcePushToBranch | deleteBranch | pushToBranch =>
            simp [NeverPredicate.Shaped]
        | modifyPath | pushBinaryOverSize => simp_all

/-- The invariant of the loop in `parseNeverBlock`. -/
structure Scan.Sound (scan : Scan) : Prop where
  shaped : ∀ predicate ∈ scan.preds, predicate.Shaped
  distinct : (scan.preds.map NeverPredicate.key).Nodup
  seen : ∀ predicate ∈ scan.preds, predicate.key ∈ scan.seen

theorem Scan.Sound.congr {scan next : Scan} (sound : scan.Sound)
    (preds : next.preds = scan.preds) (seen : next.seen = scan.seen) : next.Sound where
  shaped := preds ▸ sound.shaped
  distinct := preds ▸ sound.distinct
  seen := by
    rw [preds, seen]
    exact sound.seen

theorem Scan.Sound.heading {platform : Platform} {scan : Scan} (sound : scan.Sound)
    (trimmed : Text) (fileLine : Nat) : (scan.heading platform trimmed fileLine).Sound := by
  unfold Scan.heading
  simp only
  split
  · exact sound.congr rfl rfl
  · split
    · exact sound.congr rfl rfl
    · exact sound.congr rfl rfl

theorem Scan.Sound.bullet {platform : Platform} {scan : Scan} (sound : scan.Sound)
    (trimmed : Text) (fileLine : Nat) : (scan.bullet platform trimmed fileLine).Sound := by
  unfold Scan.bullet
  simp only
  split
  · exact sound.congr rfl rfl
  · next predicate parsed =>
      split
      · exact sound.congr rfl rfl
      · next known =>
          split
          · exact sound.congr rfl rfl
          · next fresh =>
              have shaped := parsePredicateItem_shaped parsed (not_not.mp known)
              constructor
              · intro other membership
                rcases List.mem_append.mp membership with old | new
                · exact sound.shaped other old
                · rcases List.mem_singleton.mp new with rfl
                  exact shaped
              · rw [List.map_append, List.map_singleton, List.nodup_append]
                refine ⟨sound.distinct, List.nodup_singleton _, ?_⟩
                rintro first listed second membership rfl
                rcases List.mem_singleton.mp membership with rfl
                rcases List.mem_map.mp listed with ⟨other, present, same⟩
                exact fresh (same ▸ sound.seen other present)
              · intro other membership
                rcases List.mem_append.mp membership with old | new
                · exact List.mem_cons_of_mem _ (sound.seen other old)
                · rcases List.mem_singleton.mp new with rfl
                  exact List.mem_cons_self

theorem Scan.Sound.line {platform : Platform} {lineOffset : Nat} {scan : Scan}
    (sound : scan.Sound) (entry : Text × Nat) :
    (scan.line platform lineOffset entry).Sound := by
  unfold Scan.line
  simp only
  split
  · exact sound.heading _ _
  · split
    · exact sound
    · split
      · exact sound
      · exact sound.bullet _ _

theorem scanBody_sound (platform : Platform) (body : Text) (lineOffset : Nat) :
    (scanBody platform body lineOffset).Sound := by
  have initially : Scan.start.Sound := by
    constructor <;> simp [Scan.start]
  unfold scanBody
  generalize (splitLines body).zipIdx = lines
  generalize Scan.start = scan at initially
  induction lines generalizing scan with
  | nil => exact initially
  | cons entry rest inductionHypothesis => exact inductionHypothesis _ (initially.line entry)

/-- Every document parses to a policy of distinct predicates, each with one selector
field. -/
theorem parse_wellFormed (platform : Platform) (data : Text) :
    (parse platform data).1.WellFormed := by
  unfold parse
  split
  · exact emptyPolicy_wellFormed
  · split
    · exact emptyPolicy_wellFormed
    · next front body frontEndLine _ =>
        split
        · exact emptyPolicy_wellFormed
        · split
          · exact emptyPolicy_wellFormed
          · split
            · exact emptyPolicy_wellFormed
            · have sound := scanBody_sound platform body frontEndLine
              exact ⟨sound.shaped, sound.distinct, by simp [parseNeverBlock]⟩

/-! ## Documents to run with -/

/-- The functions from elsewhere, for documents without quotes whose front matter is the
schema line, and for patterns without special characters. -/
def plainPlatform : Platform where
  quote := fun text => doubleQuote :: text ++ [doubleQuote]
  quoteRune := fun rune => [singleQuote, rune.toUInt8, singleQuote]
  unmarshalSchema := fun front =>
    .ok (if front = utf8 "schema: gitscale/v1" then schemaVersionV1 else [])
  pathMatch := fun pattern name => some (pattern = name)

/-- A document whose Never block lists the given items. -/
def neverDocument (items : List String) : Text :=
  utf8 "---\nschema: gitscale/v1\n---\n## Never\n" ++
    items.flatMap fun item => utf8 "- " ++ utf8 item ++ [byte '\n']

end GitScale.AgentsMd
