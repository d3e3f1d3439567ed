import GitScale.AgentsMd.Parser
import Mathlib.Data.List.Basic

/-!
# The bullets of Never blocks

What the loop of `parseNeverBlock` does with the lines it reads inside a Never block.  Each
bullet there becomes a predicate or a diagnostic with the number of its line in the file,
and each block without a bullet becomes one diagnostic at its heading.
-/

namespace GitScale.AgentsMd

open Go

/-! ## Lines -/

/-- A line as the loop sees it. -/
def trimmedLine (line : Text) : Text :=
  trimSpaceText (trimRight [byte '\r', byte '\t', byte ' '] line)

/-- The line starts with `#`, which the loop takes as a heading. -/
def isMark (line : Text) : Bool := hasPrefix (trimmedLine line) (utf8 "#")

/-- The line starts with a dash and a space. -/
def isBullet (line : Text) : Bool := hasPrefix (trimmedLine line) (utf8 "- ")

/-- What follows the `#` characters is `Never`. -/
def readsNever (line : Text) : Bool :=
  toLowerAscii (trimSpaceText (trimLeft [byte '#'] (trimmedLine line))) = utf8 "never"

theorem not_isMark_of_isBullet {line : Text} (bullet : isBullet line = true) :
    isMark line = false := by
  unfold isBullet at bullet
  unfold isMark
  cases shape : trimmedLine line with
  | nil => rfl
  | cons first rest =>
      have dash : first = byte '-' := by
        rw [shape] at bullet
        simp only [hasPrefix, List.isPrefixOf_iff_prefix] at bullet
        obtain ⟨tail, joined⟩ := bullet
        exact (List.cons.inj joined).1.symm
      rw [dash]
      rfl

/-! ## One line -/

section Line

variable (platform : Platform) (lineOffset : Nat) (scan : Scan) (line : Text) (index : Nat)

/-- The loop considers a bullet of a Never block. -/
def Scan.considers (scan : Scan) (line : Text) : Bool := scan.inNever && isBullet line

theorem line_eq :
    scan.line platform lineOffset (line, index) =
      if isMark line then scan.heading platform (trimmedLine line) (lineOffset + index + 1)
      else if scan.considers line then
        scan.bullet platform (trimmedLine line) (lineOffset + index + 1)
      else scan := by
  have unfolded : scan.line platform lineOffset (line, index) =
      if isMark line then scan.heading platform (trimmedLine line) (lineOffset + index + 1)
      else if ¬ scan.inNever then scan
      else if ¬ isBullet line then scan
      else scan.bullet platform (trimmedLine line) (lineOffset + index + 1) := rfl
  rw [unfolded, Scan.considers]
  cases scan.inNever with
  | false => simp
  | true =>
      cases isBullet line with
      | false => simp
      | true => simp

variable {line} in
theorem line_of_mark (mark : isMark line = true) :
    scan.line platform lineOffset (line, index) =
      scan.heading platform (trimmedLine line) (lineOffset + index + 1) := by
  rw [line_eq, if_pos mark]

variable {scan line} in
theorem not_isMark_of_considers (considers : scan.considers line = true) :
    isMark line = false := by
  rw [Scan.considers, Bool.and_eq_true] at considers
  exact not_isMark_of_isBullet considers.2

variable {scan line} in
theorem line_of_considers (considers : scan.considers line = true) :
    scan.line platform lineOffset (line, index) =
      scan.bullet platform (trimmedLine line) (lineOffset + index + 1) := by
  rw [line_eq, not_isMark_of_considers considers, if_neg Bool.false_ne_true, if_pos considers]

variable {scan line} in
theorem line_of_other (plain : isMark line = false) (ignored : scan.considers line = false) :
    scan.line platform lineOffset (line, index) = scan := by
  rw [line_eq, plain, ignored, if_neg Bool.false_ne_true, if_neg Bool.false_ne_true]

theorem heading_preds (trimmed : Text) (fileLine : Nat) :
    (scan.heading platform trimmed fileLine).preds = scan.preds := by
  unfold Scan.heading
  simp only
  split
  · rfl
  · split
    · rfl
    · rfl

/-- A heading first closes the block before it and then opens a Never block or reports a
section that it does not know. -/
theorem heading_cases (fileLine : Nat) :
    (readsNever line = true ∧
      scan.heading platform (trimmedLine line) fileLine =
        { scan with
          diags := scan.leaveBlock, inNever := true, neverStart := fileLine, neverCount := 0 }) ∨
    (readsNever line = false ∧ ∃ unknown : List Diagnostic,
      (∀ diagnostic ∈ unknown, diagnostic.code = .unknownSection) ∧
      scan.heading platform (trimmedLine line) fileLine =
        { scan with diags := scan.leaveBlock ++ unknown, inNever := false }) := by
  unfold Scan.heading
  simp only
  split
  · next never => exact .inl ⟨decide_eq_true never, rfl⟩
  · next other =>
      refine .inr ⟨decide_eq_false other, ?_⟩
      split
      · exact ⟨[], by simp, by simp⟩
      · exact ⟨[_], by simp, rfl⟩

/-- The codes of the diagnostics about a bullet. -/
def bulletCodes : List Code := [.malformedPredicate, .unknownPredicate, .duplicatePredicate]

/-- The text of a bullet after its dash. -/
def bulletItem (line : Text) : Text := trimSpaceText (trimPrefix (trimmedLine line) (utf8 "- "))

/-- A bullet adds a known predicate or a diagnostic at its line. -/
theorem bullet_cases (fileLine : Nat) :
    (∃ pred, parsePredicateItem platform (bulletItem line) = .ok pred ∧
      pred.name ∈ allPredicates ∧
      scan.bullet platform (trimmedLine line) fileLine =
        { scan with
          preds := scan.preds ++ [pred], seen := pred.key :: scan.seen,
          neverCount := scan.neverCount + 1 }) ∨
    (∃ diagnostic : Diagnostic, diagnostic.line = fileLine ∧ diagnostic.code ∈ bulletCodes ∧
      scan.bullet platform (trimmedLine line) fileLine =
        { scan with
          diags := scan.diags ++ [diagnostic], neverCount := scan.neverCount + 1 }) := by
  unfold Scan.bullet
  simp only
  split
  · exact .inr ⟨_, rfl, by simp [bulletCodes], rfl⟩
  · next pred parsed =>
      split
      · exact .inr ⟨_, rfl, by simp [bulletCodes], rfl⟩
      · next known =>
          split
          · exact .inr ⟨_, rfl, by simp [bulletCodes], rfl⟩
          · exact .inl ⟨pred, parsed, not_not.mp known, rfl⟩

end Line

/-! ## What the bullets become -/

/-- The loop over the lines of a body. -/
def scanLines (platform : Platform) (lineOffset : Nat) (lines : List Text) : Scan :=
  lines.zipIdx.foldl (Scan.line platform lineOffset) Scan.start

/-- The bullets that the loop considers, with the numbers of their lines in the file. -/
def considered (platform : Platform) (lineOffset : Nat) (lines : List Text) :
    List (Text × Nat) :=
  (lines.zipIdx.filter fun entry =>
      (scanLines platform lineOffset (lines.take entry.2)).considers entry.1).map
    fun entry => (entry.1, lineOffset + entry.2 + 1)

/-- What one bullet contributes. -/
inductive Contribution where
  | predicate (pred : NeverPredicate)
  | report (diagnostic : Diagnostic)

def Contribution.predicate? : Contribution → Option NeverPredicate
  | .predicate pred => some pred
  | .report _ => none

def Contribution.report? : Contribution → Option Diagnostic
  | .predicate _ => none
  | .report diagnostic => some diagnostic

/-- A bullet contributes the known predicate that it spells, or a diagnostic at its line. -/
inductive Contributes (platform : Platform) : Text × Nat → Contribution → Prop where
  | predicate {bullet : Text × Nat} {pred : NeverPredicate}
      (parsed : parsePredicateItem platform (bulletItem bullet.1) = .ok pred)
      (known : pred.name ∈ allPredicates) : Contributes platform bullet (.predicate pred)
  | report {bullet : Text × Nat} {diagnostic : Diagnostic}
      (line : diagnostic.line = bullet.2) (code : diagnostic.code ∈ bulletCodes) :
      Contributes platform bullet (.report diagnostic)

/-- The diagnostics about bullets. -/
def bulletReports (diags : List Diagnostic) : List Diagnostic :=
  diags.filter fun diagnostic => diagnostic.code ∈ bulletCodes

/-- The contributions of the bullets, in their order, are the predicates and the diagnostics
about bullets. -/
def Accounts (platform : Platform) (bullets : List (Text × Nat)) (preds : List NeverPredicate)
    (diags : List Diagnostic) : Prop :=
  ∃ contributions, List.Forall₂ (Contributes platform) bullets contributions ∧
    preds = contributions.filterMap Contribution.predicate? ∧
    bulletReports diags = contributions.filterMap Contribution.report?

section Bullets

variable (platform : Platform) (lineOffset : Nat)

theorem scanLines_append_singleton (lines : List Text) (line : Text) :
    scanLines platform lineOffset (lines ++ [line]) =
      (scanLines platform lineOffset lines).line platform lineOffset (line, lines.length) := by
  simp [scanLines, List.zipIdx_append]

theorem considered_append_singleton (lines : List Text) (line : Text) :
    considered platform lineOffset (lines ++ [line]) =
      considered platform lineOffset lines ++
        if (scanLines platform lineOffset lines).considers line then
          [(line, lineOffset + lines.length + 1)]
        else [] := by
  have earlier : ∀ entry ∈ lines.zipIdx,
      (scanLines platform lineOffset ((lines ++ [line]).take entry.2)).considers entry.1 =
        (scanLines platform lineOffset (lines.take entry.2)).considers entry.1 := by
    intro entry member
    have bounded := List.snd_lt_of_mem_zipIdx member
    rw [List.take_append_of_le_length (by omega)]
  rw [considered, List.zipIdx_append, List.filter_append, List.map_append,
    List.filter_congr earlier]
  congr 1
  cases considers : (scanLines platform lineOffset lines).considers line with
  | false => simp [considers]
  | true => simp [considers]

theorem forall₂_append_singleton {α β : Type} {relation : α → β → Prop} {left : List α}
    {right : List β} {last : α} {image : β} (related : List.Forall₂ relation left right)
    (new : relation last image) : List.Forall₂ relation (left ++ [last]) (right ++ [image]) := by
  induction related with
  | nil => exact .cons new .nil
  | cons first _ inductionHypothesis => exact .cons first inductionHypothesis

theorem bulletReports_append (front back : List Diagnostic) :
    bulletReports (front ++ back) = bulletReports front ++ bulletReports back :=
  List.filter_append front back

theorem bulletReports_leaveBlock (scan : Scan) :
    bulletReports scan.leaveBlock = bulletReports scan.diags := by
  unfold Scan.leaveBlock
  split
  · simp [bulletReports, bulletCodes]
  · rfl

theorem bulletReports_heading (scan : Scan) (line : Text) (fileLine : Nat) :
    bulletReports (scan.heading platform (trimmedLine line) fileLine).diags =
      bulletReports scan.diags := by
  rcases heading_cases platform scan line fileLine with
    ⟨-, opened⟩ | ⟨-, unknown, codes, closed⟩
  · rw [opened]
    exact bulletReports_leaveBlock scan
  · have silent : bulletReports unknown = [] := by
      apply List.filter_eq_nil_iff.mpr
      intro diagnostic member
      simp [codes diagnostic member, bulletCodes]
    rw [closed, bulletReports_append, silent, List.append_nil, bulletReports_leaveBlock]

/-- The loop accounts for every bullet that it considers. -/
theorem scanLines_accounts (lines : List Text) :
    Accounts platform (considered platform lineOffset lines)
      (scanLines platform lineOffset lines).preds
      (scanLines platform lineOffset lines).diags := by
  induction lines using List.reverseRecOn with
  | nil => exact ⟨[], .nil, rfl, rfl⟩
  | append_singleton lines line inductionHypothesis =>
      obtain ⟨contributions, related, predicates, reports⟩ := inductionHypothesis
      rw [considered_append_singleton, scanLines_append_singleton]
      generalize scanLines platform lineOffset lines = scan at predicates reports ⊢
      cases listed : scan.considers line with
      | true =>
          rw [if_pos rfl, line_of_considers platform lineOffset lines.length listed]
          rcases bullet_cases platform scan line (lineOffset + lines.length + 1) with
            ⟨pred, parsed, known, kept⟩ | ⟨diagnostic, at_line, code, reported⟩
          · have contributed : Contributes platform (line, lineOffset + lines.length + 1)
                (.predicate pred) := .predicate parsed known
            rw [kept]
            refine ⟨contributions ++ [.predicate pred],
              forall₂_append_singleton related contributed, ?_, ?_⟩
            · simp [predicates, Contribution.predicate?]
            · simp [reports, Contribution.report?]
          · have contributed : Contributes platform (line, lineOffset + lines.length + 1)
                (.report diagnostic) := .report at_line code
            rw [reported]
            refine ⟨contributions ++ [.report diagnostic],
              forall₂_append_singleton related contributed, ?_, ?_⟩
            · simp [predicates, Contribution.predicate?]
            · rw [bulletReports_append, reports]
              simp [bulletReports, code, Contribution.report?]
      | false =>
          rw [if_neg Bool.false_ne_true, List.append_nil]
          refine ⟨contributions, related, ?_⟩
          cases mark : isMark line with
          | true =>
              rw [line_of_mark platform lineOffset scan lines.length mark, heading_preds,
                bulletReports_heading]
              exact ⟨predicates, reports⟩
          | false =>
              rw [line_of_other platform lineOffset lines.length mark listed]
              exact ⟨predicates, reports⟩

end Bullets

/-! ## Blocks without bullets -/

/-- The diagnostic at the heading of a block without bullets. -/
def emptyBlockReport (heading : Nat) : Diagnostic :=
  ⟨.emptyNeverBlock, .warning, heading, utf8 "`## Never` block contained no predicates"⟩

/-- No bullet comes before the next heading. -/
def withoutBullet (lines : List Text) : Bool :=
  (lines.takeWhile fun line => !isMark line).all fun line => !isBullet line

/-- The numbers of the Never headings without a bullet, where the first line has the given
number. -/
def emptyBlocks : List Text → Nat → List Nat
  | [], _ => []
  | line :: rest, number =>
      (if isMark line && readsNever line && withoutBullet rest then [number] else []) ++
        emptyBlocks rest (number + 1)

/-- The diagnostics about blocks without bullets. -/
def emptyReports (diags : List Diagnostic) : List Diagnostic :=
  diags.filter fun diagnostic => diagnostic.code = .emptyNeverBlock

section Blocks

variable (platform : Platform) (lineOffset : Nat)

/-- The block of the scan is the one that has no bullet yet. -/
def Scan.pending (scan : Scan) : Bool := scan.inNever && scan.neverCount = 0

theorem emptyReports_append (front back : List Diagnostic) :
    emptyReports (front ++ back) = emptyReports front ++ emptyReports back :=
  List.filter_append front back

theorem emptyReports_leaveBlock (scan : Scan) :
    emptyReports scan.leaveBlock = emptyReports scan.diags ++
      if scan.pending then [emptyBlockReport scan.neverStart] else [] := by
  unfold Scan.leaveBlock Scan.pending
  split
  · next empty => simp [empty, emptyReports, emptyBlockReport]
  · next filled =>
      have settled : ¬ (scan.inNever && decide (scan.neverCount = 0)) = true := by
        simpa using filled
      simp [settled]

theorem emptyReports_bullet (scan : Scan) (line : Text) (fileLine : Nat) :
    (scan.bullet platform (trimmedLine line) fileLine).pending = false ∧
    emptyReports (scan.bullet platform (trimmedLine line) fileLine).diags =
      emptyReports scan.diags := by
  rcases bullet_cases platform scan line fileLine with
    ⟨pred, -, -, kept⟩ | ⟨diagnostic, -, code, reported⟩
  · simp [kept, Scan.pending]
  · have other : ¬ diagnostic.code = .emptyNeverBlock := by
      intro same
      simp [same, bulletCodes] at code
    simp [reported, Scan.pending, emptyReports, other]

/-- What the rest of the loop reports: the block it is in, if no bullet of that block is
left, and then the blocks in the rest. -/
theorem emptyReports_foldl (lines : List Text) (index : Nat) (scan : Scan) :
    emptyReports ((lines.zipIdx index).foldl (Scan.line platform lineOffset) scan).leaveBlock =
      emptyReports scan.diags ++
        (if scan.pending && withoutBullet lines then [emptyBlockReport scan.neverStart]
          else []) ++
        (emptyBlocks lines (lineOffset + index + 1)).map emptyBlockReport := by
  induction lines generalizing index scan with
  | nil => simpa [withoutBullet, emptyBlocks] using emptyReports_leaveBlock scan
  | cons line rest inductionHypothesis =>
      have next : lineOffset + (index + 1) + 1 = lineOffset + index + 1 + 1 := by omega
      rw [List.zipIdx_cons, List.foldl_cons, inductionHypothesis, emptyBlocks, next]
      cases mark : isMark line with
      | true =>
          have ends : withoutBullet (line :: rest) = true := by simp [withoutBullet, mark]
          rw [line_of_mark platform lineOffset scan index mark, ends, Bool.and_true,
            ← emptyReports_leaveBlock]
          rcases heading_cases platform scan line (lineOffset + index + 1) with
            ⟨never, opened⟩ | ⟨other, unknown, codes, closed⟩
          · rw [opened, never]
            cases bare : withoutBullet rest with
            | true => simp [Scan.pending]
            | false => simp
          · have silent : emptyReports unknown = [] := by
              apply List.filter_eq_nil_iff.mpr
              intro diagnostic member
              simp [codes diagnostic member]
            rw [closed, other, emptyReports_append, silent]
            simp [Scan.pending]
      | false =>
          have extends_block : withoutBullet (line :: rest) =
              (!isBullet line && withoutBullet rest) := by
            simp [withoutBullet, mark]
          cases listed : scan.considers line with
          | true =>
              -- The block has a bullet now and never becomes pending again.
              have bullet : isBullet line = true := by
                rw [Scan.considers, Bool.and_eq_true] at listed
                exact listed.2
              obtain ⟨settled, quiet⟩ :=
                emptyReports_bullet platform scan line (lineOffset + index + 1)
              rw [line_of_considers platform lineOffset index listed, settled, quiet,
                extends_block, bullet]
              simp
          | false =>
              rw [line_of_other platform lineOffset index mark listed, extends_block]
              cases bullet : isBullet line with
              | false => simp
              | true =>
                  have outside : scan.inNever = false := by
                    simpa [Scan.considers, bullet] using listed
                  simp [Scan.pending, outside]

end Blocks

/-! ## The lines of the file -/

/-- Front matter of the given number of lines, with the schema `gitscale/v1`. -/
structure FrontMatterV1 (platform : Platform) (data : Text) (lineCount : Nat) : Prop where
  nonblank : trimSpaceText data ≠ []
  schema : ∃ front body, splitFrontMatter data = .ok (front, body, lineCount) ∧
    trimSpaceText front ≠ [] ∧ platform.unmarshalSchema front = .ok schemaVersionV1

/-- The lines of the file after the front matter. -/
def bodyLines (data : Text) (lineCount : Nat) : List Text := (splitLines data).drop lineCount

theorem not_mem_of_mem_splitLines (data : Text) {line : Text} (member : line ∈ splitLines data) :
    byte '\n' ∉ line := by
  unfold splitLines at member
  split at member
  · simp at member
  · exact not_mem_of_mem_splitByte member

/-- Joined lines split into the same lines, but for a single empty one. -/
theorem splitLines_joinByte {lines : List Text}
    (separated : ∀ line ∈ lines, byte '\n' ∉ line) :
    splitLines (joinByte lines (byte '\n')) = lines ∨
      lines = [[]] ∧ splitLines (joinByte lines (byte '\n')) = [] := by
  by_cases empty : lines = []
  · exact .inl (by rw [empty]; rfl)
  · have split : splitByte (joinByte lines (byte '\n')) (byte '\n') = lines :=
      List.splitOn_intercalate (byte '\n') separated empty
    by_cases blank : joinByte lines (byte '\n') = []
    · refine .inr ⟨?_, by rw [blank]; rfl⟩
      rw [blank] at split
      exact split.symm
    · refine .inl ?_
      rw [splitLines, if_neg blank, split]

/-- The loop sees the lines of the file after the front matter. -/
theorem scanBody_eq_scanLines {platform : Platform} {data front body : Text} {lineCount : Nat}
    (cut : splitFrontMatter data = .ok (front, body, lineCount)) :
    scanBody platform body lineCount =
      scanLines platform lineCount (bodyLines data lineCount) := by
  unfold splitFrontMatter at cut
  split at cut
  · cases cut
  · next first rest lines =>
      split at cut
      · cases cut
      · split at cut
        · next i _ =>
            cases cut
            have tail : bodyLines data (i + 2) = rest.drop (i + 1) := by
              rw [bodyLines, lines]
              rfl
            have separated : ∀ line ∈ rest.drop (i + 1), byte '\n' ∉ line := by
              intro line member
              apply not_mem_of_mem_splitLines data
              rw [lines]
              exact List.mem_cons_of_mem first (List.mem_of_mem_drop member)
            rw [tail]
            rcases splitLines_joinByte separated with same | ⟨single, none⟩
            · rw [scanBody, same, scanLines]
            · rw [scanBody, none, single]
              rfl
        · cases cut

theorem parse_of_frontMatterV1 {platform : Platform} {data : Text} {lineCount : Nat}
    (valid : FrontMatterV1 platform data lineCount) :
    (parse platform data).1.never =
        (scanLines platform lineCount (bodyLines data lineCount)).preds ∧
      (parse platform data).2 =
        (scanLines platform lineCount (bodyLines data lineCount)).leaveBlock := by
  obtain ⟨front, body, cut, nonblank, unmarshaled⟩ := valid.schema
  have versioned : schemaVersionV1 ≠ [] := by decide
  simp only [parse, valid.nonblank, cut, nonblank, unmarshaled, versioned, if_false,
    ne_eq, not_true_eq_false, parseNeverBlock, scanBody_eq_scanLines cut, and_self]

section Considered

variable {platform : Platform} {lineOffset : Nat} {lines : List Text}

/-- A considered bullet has the number of its line. -/
theorem getElem?_of_mem_considered {bullet : Text × Nat}
    (member : bullet ∈ considered platform lineOffset lines) :
    ∃ index, bullet.2 = lineOffset + index + 1 ∧ lines[index]? = some bullet.1 := by
  obtain ⟨⟨line, index⟩, listed, rfl⟩ := List.mem_map.mp member
  exact ⟨index, rfl, List.mem_zipIdx_iff_getElem?.mp (List.mem_of_mem_filter listed)⟩

theorem considered_increasing (platform : Platform) (lineOffset : Nat) (lines : List Text) :
    (considered platform lineOffset lines).Pairwise fun earlier later =>
      earlier.2 < later.2 := by
  induction lines using List.reverseRecOn with
  | nil => exact List.Pairwise.nil
  | append_singleton lines line inductionHypothesis =>
      rw [considered_append_singleton, List.pairwise_append]
      refine ⟨inductionHypothesis, ?_, ?_⟩
      · split
        · exact List.pairwise_singleton _ _
        · exact List.Pairwise.nil
      · intro earlier listed later new
        obtain ⟨index, number, present⟩ := getElem?_of_mem_considered listed
        have bounded : index < lines.length := (List.getElem?_eq_some_iff.mp present).1
        split at new
        · rw [List.mem_singleton.mp new, number]
          omega
        · simp at new

end Considered

/-- The document's bullets, by their line in the file, account for its predicates and for
the diagnostics about bullets, and its empty Never blocks for those about blocks. -/
structure FullyAccounted (platform : Platform) (data : Text) (lineCount : Nat) : Prop where
  accounted : Accounts platform (considered platform lineCount (bodyLines data lineCount))
    (parse platform data).1.never (parse platform data).2
  numbered : ∀ bullet ∈ considered platform lineCount (bodyLines data lineCount),
    lineCount < bullet.2 ∧ (splitLines data)[bullet.2 - 1]? = some bullet.1
  increasing : (considered platform lineCount (bodyLines data lineCount)).Pairwise
    fun earlier later => earlier.2 < later.2
  distinct : (parse platform data).1.never.Nodup
  known : ∀ pred ∈ (parse platform data).1.never, pred.name ∈ allPredicates
  empty : emptyReports (parse platform data).2 =
    (emptyBlocks (bodyLines data lineCount) (lineCount + 1)).map emptyBlockReport

/-- Every bullet and every empty block of a document is accounted for. -/
theorem fullyAccounted_of_frontMatterV1 (platform : Platform) (data : Text) (lineCount : Nat)
    (valid : FrontMatterV1 platform data lineCount) :
    FullyAccounted platform data lineCount := by
  obtain ⟨never, diags⟩ := parse_of_frontMatterV1 valid
  have wellFormed := parse_wellFormed platform data
  constructor
  · obtain ⟨contributions, related, predicates, reports⟩ :=
      scanLines_accounts platform lineCount (bodyLines data lineCount)
    refine ⟨contributions, related, never.trans predicates, ?_⟩
    rw [diags, bulletReports_leaveBlock, reports]
  · intro bullet member
    obtain ⟨index, number, present⟩ := getElem?_of_mem_considered member
    refine ⟨by omega, ?_⟩
    rw [bodyLines, List.getElem?_drop] at present
    rw [number, ← present]
    rfl
  · exact considered_increasing platform lineCount (bodyLines data lineCount)
  · exact List.Nodup.of_map NeverPredicate.key wellFormed.distinct
  · intro pred member
    exact (wellFormed.shaped pred member).known
  · rw [diags, scanLines, emptyReports_foldl]
    rfl

/-- A document with a bullet of each kind and an empty block. -/
def mixedDocument : Text :=
  utf8 "---\nschema: gitscale/v1\n---\n## Never\n- delete_branch: main\n- delete_branch: main\n- rename: main\n- main\n# Never\n"

theorem mixedDocument_frontMatterV1 : FrontMatterV1 plainPlatform mixedDocument 3 where
  nonblank := by decide
  schema := ⟨utf8 "schema: gitscale/v1", _, rfl, by decide, rfl⟩

theorem fullyAccounted_mixedDocument :
    FrontMatterV1 plainPlatform mixedDocument 3 ∧ FullyAccounted plainPlatform mixedDocument 3 :=
  ⟨mixedDocument_frontMatterV1,
    fullyAccounted_of_frontMatterV1 plainPlatform mixedDocument 3 mixedDocument_frontMatterV1⟩

end GitScale.AgentsMd
