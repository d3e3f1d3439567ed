import GitScale.AgentsMd.Evaluate
import GitScale.Go.PathNames

/-!
# Directory globs

`pathMatches` takes what comes before a trailing `/**` as the name of a directory, so the
wildcards in it stand for themselves.  Such a glob covers what lies under the directories
that match only if there are no wildcards.
-/

namespace GitScale.AgentsMd

open Go

/-- The glob for all that is under the directories that match a pattern. -/
def directoryGlob (pattern : Text) : Text := pattern ++ utf8 "/**"

/-- The path or one of the directories that it is in matches the pattern. -/
def LiesUnder (pattern path : Text) : Prop :=
  pathMatchText pattern path = some true ∨
    ∃ directory rest, path = directory ++ byte '/' :: rest ∧
      pathMatchText pattern directory = some true

/-- The directory glob of a pattern matches exactly what lies under it, in particular each
path that matches the pattern and what is below it. -/
def CoversSubtree (platform : Platform) (pattern : Text) : Prop :=
  ∀ path below, path ≠ [] → below ≠ [] → below.head? ≠ some (byte '/') →
    (pathMatches platform (directoryGlob pattern) path = true ↔ LiesUnder pattern path) ∧
    (pathMatchText pattern path = some true →
      pathMatches platform (directoryGlob pattern) path = true ∧
        pathMatches platform (directoryGlob pattern) (path ++ byte '/' :: below) = true)

section DirectoryGlobs

variable {platform : Platform} {pattern : Text}

/-- The stem of a directory glob is taken as it is. -/
theorem pathMatches_directoryGlob (path : Text) :
    pathMatches platform (directoryGlob pattern) path = true ↔
      path = pattern ∨ ∃ rest, path = pattern ++ byte '/' :: rest := by
  have ending : hasSuffix (directoryGlob pattern) (utf8 "/**") = true := by
    simp [hasSuffix, directoryGlob]
  have stem : trimSuffix (directoryGlob pattern) (utf8 "/**") = pattern := by
    rw [trimSuffix, if_pos ending]
    simp [directoryGlob]
  rw [pathMatches, if_pos ending]
  simp only [stem, Bool.or_eq_true, decide_eq_true_eq, hasPrefix, List.isPrefixOf_iff_prefix]
  apply or_congr_right
  constructor
  · intro ⟨rest, joined⟩
    exact ⟨rest, by rw [← joined]; simp⟩
  · intro ⟨rest, joined⟩
    exact ⟨rest, by rw [joined]; simp⟩

theorem liesUnder_of_plain (plain : Plain pattern) (path : Text) :
    LiesUnder pattern path ↔ path = pattern ∨ ∃ rest, path = pattern ++ byte '/' :: rest := by
  simp only [LiesUnder, pathMatchText_of_plain plain]
  apply or_congr_right
  constructor
  · intro ⟨directory, rest, joined, same⟩
    exact ⟨rest, same ▸ joined⟩
  · intro ⟨rest, joined⟩
    exact ⟨pattern, rest, joined, rfl⟩

theorem coversSubtree_of_plain (platform : Platform) (plain : Plain pattern) :
    CoversSubtree platform pattern := by
  intro path below _ _ _
  rw [pathMatches_directoryGlob, pathMatches_directoryGlob, liesUnder_of_plain plain,
    pathMatchText_of_plain plain]
  refine ⟨Iff.rfl, ?_⟩
  rintro rfl
  exact ⟨.inl rfl, .inr ⟨below, rfl⟩⟩

/-- A pattern that nothing matches still names one path. -/
theorem not_coversSubtree_of_unmatchable (platform : Platform)
    (unmatchable : ¬ MatchableText pattern) (nonempty : pattern ≠ []) :
    ¬ CoversSubtree platform pattern := by
  intro covers
  have itself := (covers pattern [byte 'a'] nonempty (by simp) (by decide)).1.mp
    ((pathMatches_directoryGlob pattern).mpr (.inl rfl))
  rcases itself with matched | ⟨directory, rest, -, matched⟩
  · exact unmatchable (matchableText_of_pathMatchText matched)
  · exact unmatchable (matchableText_of_pathMatchText matched)

/-- A pattern with a wildcard matches a path that it does not name. -/
theorem not_coversSubtree_of_matchable (platform : Platform)
    (matchable : MatchableText pattern) (nonempty : pattern ≠ []) (wild : ¬ Plain pattern) :
    ¬ CoversSubtree platform pattern := by
  intro covers
  obtain ⟨name, present, stands, matched⟩ := matchable.exists_name
  have found := (covers name [byte 'a'] (present nonempty) (by simp) (by decide)).1.mpr
    (.inl matched)
  rcases (pathMatches_directoryGlob name).mp found with same | ⟨rest, joined⟩
  · exact wild (stands.plain same)
  · have lengths := congrArg List.length joined
    have short := stands.short
    rw [List.length_append, List.length_cons] at lengths
    omega

/-- A directory glob covers its subtree exactly if its stem has no wildcard. -/
theorem coversSubtree_iff (platform : Platform) (pattern : Text) :
    CoversSubtree platform pattern ↔ Plain pattern := by
  constructor
  · intro covers
    by_contra wild
    have nonempty : pattern ≠ [] := by
      rintro rfl
      exact wild (by simp [Plain])
    by_cases matchable : MatchableText pattern
    · exact not_coversSubtree_of_matchable platform matchable nonempty wild covers
    · exact not_coversSubtree_of_unmatchable platform matchable nonempty covers
  · exact coversSubtree_of_plain platform

/-- The glob for the subtrees of all services does not match a service. -/
theorem starred_directory_not_covered :
    ¬ ∀ (platform : Platform) (pattern : Text), validPattern pattern = true →
      CoversSubtree platform pattern := by
  intro covers
  have service := covers plainPlatform (utf8 "services/*") (by decide) (utf8 "services/api")
    (utf8 "main.go") (by decide) (by decide) (by decide)
  have matched : pathMatchText (utf8 "services/*") (utf8 "services/api") = some true := by decide
  have unmatched : pathMatches plainPlatform (directoryGlob (utf8 "services/*"))
      (utf8 "services/api") = false := by decide
  rw [unmatched] at service
  exact absurd (service.2 matched).1 Bool.false_ne_true

end DirectoryGlobs

end GitScale.AgentsMd
