import GitScale.AgentsMd.NeverBlocks

/-!
# The extent of a Never section

A Never section reaches to the next heading of the same or a higher level.  The loop of
`parseNeverBlock` keeps one flag, which every line that starts with `#` sets anew, so a
sub-heading ends a section and a line that is no heading can end or open one.
-/

namespace GitScale.AgentsMd

open Go

/-! ## Sections -/

/-- The level of a heading, which is the number of its `#` characters.  A space follows
them; at the end of the line it is not in the trimmed text. -/
def headingLevel (line : Text) : Option Nat :=
  let hashes := (trimmedLine line).takeWhile (· = byte '#')
  let indented := dropSpaces decodeRune line.length line
  if isMark line ∧ hasPrefix (indented.drop hashes.length) (utf8 " ") then some hashes.length
  else none

/-- The lines end within the section of a Never heading of the given level. -/
def OpenSection (lines : List Text) (level : Nat) : Prop :=
  ∃ front heading between, lines = front ++ heading :: between ∧
    headingLevel heading = some level ∧ readsNever heading = true ∧
    ∀ line ∈ between, ∀ other, headingLevel line = some other → level < other

/-- The loop considers exactly the bullets within Never sections. -/
def FollowsSections (platform : Platform) (body : Text) (lineOffset : Nat) : Prop :=
  ∀ before line after, splitLines body = before ++ line :: after →
    ((scanLines platform lineOffset before).considers line = true ↔
      isBullet line = true ∧ ∃ level, OpenSection before level)

/-- What can be said of a line that starts with `#` and has a bullet below it, before the
next such line.  A heading that does not read Never is not below a Never section, and a line
that is no heading reads Never exactly if it is within one. -/
def Ordered (front : List Text) (mark : Text) : Prop :=
  (∀ level, headingLevel mark = some level → readsNever mark = false →
    ∀ outer, OpenSection front outer → level ≤ outer) ∧
  (headingLevel mark = none → (readsNever mark = true ↔ ∃ outer, OpenSection front outer))

/-- Each line that starts with `#` and has bullets is in its place. -/
def WellOrdered (lines : List Text) : Prop :=
  ∀ front mark between bullet after, lines = front ++ mark :: (between ++ bullet :: after) →
    isMark mark = true → (∀ line ∈ between, isMark line = false) → isBullet bullet = true →
    Ordered front mark

section Sections

variable {lines front between : List Text} {line mark : Text} {level : Nat}

theorem isMark_of_headingLevel (heading : headingLevel line = some level) :
    isMark line = true := by
  unfold headingLevel at heading
  simp only at heading
  split at heading
  · next marked => exact marked.1
  · cases heading

theorem headingLevel_of_not_isMark (plain : isMark line = false) : headingLevel line = none := by
  cases heading : headingLevel line with
  | none => rfl
  | some level => rw [isMark_of_headingLevel heading] at plain; cases plain

theorem not_openSection_nil : ¬ OpenSection [] level := by
  intro ⟨front, heading, between, split, _⟩
  simp at split

/-- One more line: it opens a section itself, or it leaves one open. -/
theorem openSection_append_singleton :
    OpenSection (lines ++ [line]) level ↔
      (headingLevel line = some level ∧ readsNever line = true) ∨
      (OpenSection lines level ∧ ∀ other, headingLevel line = some other → level < other) := by
  constructor
  · intro ⟨front, heading, between, split, leveled, never, deeper⟩
    cases between using List.reverseRecOn with
    | nil =>
        obtain ⟨-, same⟩ := List.append_inj' split rfl
        rw [List.singleton_inj.mp same]
        exact .inl ⟨leveled, never⟩
    | append_singleton between last =>
        rw [← List.cons_append, ← List.append_assoc] at split
        obtain ⟨earlier, same⟩ := List.append_inj' split rfl
        have lastLine : last = line := (List.singleton_inj.mp same).symm
        refine .inr ⟨⟨front, heading, between, earlier, leveled, never, ?_⟩, ?_⟩
        · intro inner member
          exact deeper inner (List.mem_append_left [last] member)
        · exact lastLine ▸ deeper last (List.mem_append_right between List.mem_cons_self)
  · intro opened
    rcases opened with ⟨leveled, never⟩ |
      ⟨⟨front, heading, between, rfl, leveled, never, deeper⟩, kept⟩
    · exact ⟨lines, line, [], rfl, leveled, never, by simp⟩
    · refine ⟨front, heading, between ++ [line], by simp, leveled, never, ?_⟩
      intro inner member
      rcases List.mem_append.mp member with old | new
      · exact deeper inner old
      · rw [List.mem_singleton.mp new]
        exact kept

/-- Lines that do not start with `#` change no section. -/
theorem openSection_append_plain (plain : ∀ line ∈ between, isMark line = false) :
    OpenSection (lines ++ between) level ↔ OpenSection lines level := by
  induction between using List.reverseRecOn with
  | nil => rw [List.append_nil]
  | append_singleton between last inductionHypothesis =>
      have lastPlain := plain last (List.mem_append_right between List.mem_cons_self)
      have earlierPlain : ∀ line ∈ between, isMark line = false := fun line member =>
        plain line (List.mem_append_left [last] member)
      rw [← List.append_assoc, openSection_append_singleton, inductionHypothesis earlierPlain,
        headingLevel_of_not_isMark lastPlain]
      simp

end Sections

/-! ## The flag of the loop -/

section Flag

variable (platform : Platform) (lineOffset : Nat)

theorem inNever_append_singleton (lines : List Text) (line : Text) :
    (scanLines platform lineOffset (lines ++ [line])).inNever =
      if isMark line then readsNever line else (scanLines platform lineOffset lines).inNever := by
  rw [scanLines_append_singleton]
  generalize scanLines platform lineOffset lines = scan
  cases mark : isMark line with
  | true =>
      rw [line_of_mark platform lineOffset scan lines.length mark, if_pos rfl]
      rcases heading_cases platform scan line (lineOffset + lines.length + 1) with
        ⟨never, opened⟩ | ⟨other, unknown, -, closed⟩
      · rw [opened, never]
      · rw [closed, other]
  | false =>
      rw [if_neg Bool.false_ne_true]
      cases listed : scan.considers line with
      | true =>
          rw [line_of_considers platform lineOffset lines.length listed]
          rcases bullet_cases platform scan line (lineOffset + lines.length + 1) with
            ⟨pred, -, -, kept⟩ | ⟨diagnostic, -, -, reported⟩
          · rw [kept]
          · rw [reported]
      | false => rw [line_of_other platform lineOffset lines.length mark listed]

theorem inNever_append_plain (lines : List Text) {between : List Text}
    (plain : ∀ line ∈ between, isMark line = false) :
    (scanLines platform lineOffset (lines ++ between)).inNever =
      (scanLines platform lineOffset lines).inNever := by
  induction between using List.reverseRecOn with
  | nil => rw [List.append_nil]
  | append_singleton between last inductionHypothesis =>
      have lastPlain := plain last (List.mem_append_right between List.mem_cons_self)
      have earlierPlain : ∀ line ∈ between, isMark line = false := fun line member =>
        plain line (List.mem_append_left [last] member)
      rw [← List.append_assoc, inNever_append_singleton, lastPlain,
        if_neg Bool.false_ne_true, inductionHypothesis earlierPlain]

/-- The flag is what the last line that starts with `#` says. -/
theorem inNever_append_mark (front : List Text) {mark : Text} {between : List Text}
    (marked : isMark mark = true) (plain : ∀ line ∈ between, isMark line = false) :
    (scanLines platform lineOffset (front ++ mark :: between)).inNever = readsNever mark := by
  rw [← List.singleton_append, ← List.append_assoc,
    inNever_append_plain platform lineOffset (front ++ [mark]) plain,
    inNever_append_singleton, if_pos marked]

end Flag

/-- Some line is the last one that starts with `#`, unless there is none. -/
theorem exists_last_mark (lines : List Text) :
    (∀ line ∈ lines, isMark line = false) ∨
      ∃ front mark between, lines = front ++ mark :: between ∧ isMark mark = true ∧
        ∀ line ∈ between, isMark line = false := by
  induction lines using List.reverseRecOn with
  | nil => exact .inl (by simp)
  | append_singleton lines last inductionHypothesis =>
      cases marked : isMark last with
      | true => exact .inr ⟨lines, last, [], rfl, marked, by simp⟩
      | false =>
          rcases inductionHypothesis with plain | ⟨front, mark, between, rfl, found, plain⟩
          · refine .inl fun line member => ?_
            rcases List.mem_append.mp member with old | new
            · exact plain line old
            · rw [List.mem_singleton.mp new, marked]
          · refine .inr ⟨front, mark, between ++ [last], by simp, found, fun line member => ?_⟩
            rcases List.mem_append.mp member with old | new
            · exact plain line old
            · rw [List.mem_singleton.mp new, marked]

/-! ## When the flag follows the sections -/

/-- Right below a line that starts with `#`, its text tells whether a section is open exactly
if the line is in its place. -/
theorem readsNever_iff_openSection_iff (front : List Text) (mark : Text) :
    (readsNever mark = true ↔ ∃ level, OpenSection (front ++ [mark]) level) ↔
      Ordered front mark := by
  simp only [openSection_append_singleton, Ordered]
  cases leveled : headingLevel mark with
  | none => simp
  | some level =>
      cases never : readsNever mark with
      | true => simp
      | false => simp

theorem openSection_append_mark {front between : List Text} {mark : Text} {level : Nat}
    (plain : ∀ line ∈ between, isMark line = false) :
    OpenSection (front ++ mark :: between) level ↔ OpenSection (front ++ [mark]) level := by
  rw [← List.singleton_append, ← List.append_assoc]
  exact openSection_append_plain plain

/-- The loop follows the sections exactly if the lines that start with `#` and have bullets
are in their places. -/
theorem followsSections_iff (platform : Platform) (body : Text) (lineOffset : Nat) :
    FollowsSections platform body lineOffset ↔ WellOrdered (splitLines body) := by
  constructor
  · intro follows front mark between bullet after split marked plain listed
    have agrees := follows (front ++ mark :: between) bullet after (by rw [split]; simp)
    simp only [Scan.considers, listed, Bool.and_true, true_and, openSection_append_mark plain,
      inNever_append_mark platform lineOffset front marked plain] at agrees
    exact (readsNever_iff_openSection_iff front mark).mp agrees
  · intro ordered before line after split
    cases listed : isBullet line with
    | false => simp [Scan.considers, listed]
    | true =>
        simp only [Scan.considers, listed, Bool.and_true, true_and]
        rcases exists_last_mark before with plain | ⟨front, mark, between, rfl, marked, plain⟩
        · -- Without a heading there is no section, and the flag is as it was at the start.
          have unset := inNever_append_plain platform lineOffset [] plain
          have closed : ∀ level, ¬ OpenSection before level := by
            intro level opened
            rw [← List.nil_append before, openSection_append_plain plain] at opened
            exact not_openSection_nil opened
          rw [List.nil_append] at unset
          rw [unset]
          simp [closed, scanLines, Scan.start]
        · rw [inNever_append_mark platform lineOffset front marked plain]
          simp only [openSection_append_mark plain]
          apply (readsNever_iff_openSection_iff front mark).mpr
          exact ordered front mark between line after (by rw [split]; simp) marked plain listed

/-- A Never section with a sub-heading. -/
def subheadingBody : Text := utf8 "## Never\n### Branches\n- delete_branch: main"

/-- The loop does not consider the bullet under the sub-heading. -/
theorem subheading_ends_section :
    ¬ ∀ (platform : Platform) (body : Text) (lineOffset : Nat),
      FollowsSections platform body lineOffset := by
  intro follows
  have agrees := follows plainPlatform subheadingBody 3
    [utf8 "## Never", utf8 "### Branches"] (utf8 "- delete_branch: main") [] (by decide)
  have opened : OpenSection [utf8 "## Never", utf8 "### Branches"] 2 := by
    refine ⟨[], utf8 "## Never", [utf8 "### Branches"], rfl, by decide, by decide, ?_⟩
    intro line member other leveled
    rw [List.mem_singleton.mp member] at leveled
    have level : headingLevel (utf8 "### Branches") = some 3 := by decide
    rw [level] at leveled
    cases leveled
    decide
  have considers := agrees.mpr ⟨by decide, 2, opened⟩
  have ignored : (scanLines plainPlatform 3
      [utf8 "## Never", utf8 "### Branches"]).considers (utf8 "- delete_branch: main") =
        false := by decide
  rw [ignored] at considers
  cases considers

end GitScale.AgentsMd
