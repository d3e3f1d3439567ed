import GitScale.AgentsMd.PathGlobs
import GitScale.AgentsMd.SizeRules

/-!
# Rules that nothing violates

The parser does not look into a glob, and the evaluation takes a malformed one as one that
does not match.  So a document can have rules that no push violates: a glob that matches no
name, an empty glob, or the largest size as a limit.
-/

namespace GitScale.AgentsMd

open Go

/-! ## Violations in some repository -/

/-- A repository with its history.  There is nothing at the zero object id and nothing
without a name. -/
structure History (Blob : Type) extends Snapshots Blob where
  ancestor : Text → Text → Prop
  ancestor_refl : ∀ oid, ancestor oid oid
  ancestor_trans : ∀ first second third, ancestor first second → ancestor second third →
    ancestor first third
  nothing : ∀ path, blob zeroOID path = none
  named : ∀ oid, blob oid [] = none
  measured : ∀ content, 0 ≤ sizeOf content

/-- A resolver gives the answers of a repository about an update. -/
structure FileResolver.Describes {Blob : Type} (files : FileResolver) (history : History Blob)
    (upd : RefUpdate) : Prop where
  reads : ∃ paths, files.Reads history.toSnapshots upd paths
  fastForward : ∃ answer, files.isFastForward upd.oldOID upd.newOID = .ok answer ∧
    (answer = true ↔ history.ancestor upd.oldOID upd.newOID)

/-- Some update of some repository violates the predicate of the policy. -/
def Violable (platform : Platform) (policy : Policy) (pred : NeverPredicate) : Prop :=
  ∃ (Blob : Type) (history : History Blob) (files : FileResolver) (upd : RefUpdate)
    (violations : List Violation), files.Describes history upd ∧
    evaluate platform (some policy) [upd] (some files) = .ok violations ∧
    ∃ violation ∈ violations, violation.predicate = pred

/-- The selector can be met: a branch glob is not empty and can be matched, so is a path glob
unless it ends in `/**`, and a limit is not the largest number. -/
def NeverPredicate.Attainable (pred : NeverPredicate) : Prop :=
  match pred.name with
  | .forcePushToBranch | .deleteBranch | .pushToBranch =>
      pred.selector.branchGlob ≠ [] ∧ MatchableText pred.selector.branchGlob
  | .modifyPath =>
      hasSuffix pred.selector.pathGlob (utf8 "/**") = true ∨
        (pred.selector.pathGlob ≠ [] ∧ MatchableText pred.selector.pathGlob)
  | .pushBinaryOverSize => pred.selector.maxBytes ≠ Int64.maxValue
  | .unknown _ => False

/-! ## What a violation needs -/

section Needs

variable {platform : Platform} {files : FileResolver} {upd : RefUpdate} {reason : Text}

/-- A branch rule that matches has a glob that is not empty and matches a branch. -/
theorem matchable_of_branchMatches (matching : platform.pathMatch = pathMatchText)
    {glob refName : Text} (matched : branchMatches platform glob refName = true) :
    glob ≠ [] ∧ MatchableText glob := by
  unfold branchMatches globMatch at matched
  split at matched
  · split at matched
    · cases matched
    · next nonempty =>
        rw [decide_eq_true_eq, matching] at matched
        exact ⟨nonempty, matchableText_of_pathMatchText matched⟩
  · cases matched

theorem matchable_of_pathMatches (matching : platform.pathMatch = pathMatchText)
    {glob path : Text} (named : path ≠ []) (matched : pathMatches platform glob path = true) :
    hasSuffix glob (utf8 "/**") = true ∨ (glob ≠ [] ∧ MatchableText glob) := by
  unfold pathMatches at matched
  split at matched
  · next ending => exact .inl ending
  · refine .inr ?_
    split at matched
    · next everything =>
        rw [everything]
        have letter : pathMatchText (utf8 "**") [byte 'a'] = some true := by decide
        exact ⟨by decide, matchableText_of_pathMatchText letter⟩
    · rw [decide_eq_true_eq, matching] at matched
      refine ⟨?_, matchableText_of_pathMatchText matched⟩
      rintro rfl
      exact named ((pathMatchText_of_plain (by simp [Plain])).mp matched)

theorem ne_maxValue_of_over {Blob : Type} {repository : Snapshots Blob} {oid path : Text}
    {limit : Int64} (exceeds : repository.Over oid limit path) : limit ≠ Int64.maxValue := by
  obtain ⟨blob, -, larger⟩ := exceeds
  rintro rfl
  rw [Int64.lt_iff_toInt_lt, Int64.toInt_maxValue] at larger
  have bounded := (repository.sizeOf blob).toInt_lt
  omega

/-- A predicate that matches an update of a repository is attainable. -/
theorem attainable_of_matchPredicate {Blob : Type} {history : History Blob}
    (matching : platform.pathMatch = pathMatchText) (describes : files.Describes history upd)
    {pred : NeverPredicate}
    (matched : matchPredicate platform (some files) pred upd = .ok (some reason)) :
    pred.Attainable := by
  obtain ⟨paths, reads⟩ := describes.reads
  unfold matchPredicate at matched
  unfold NeverPredicate.Attainable
  cases name : pred.name with
  | forcePushToBranch | deleteBranch | pushToBranch =>
      simp only [name] at matched ⊢
      split at matched
      · cases matched
      · next applies => exact matchable_of_branchMatches matching (not_not.mp applies)
  | modifyPath =>
      simp only [name, reads.changed, Except.ok.injEq, Option.map_eq_some_iff] at matched ⊢
      obtain ⟨path, found, -⟩ := matched
      have changed := (reads.differs path).mp (List.mem_of_find?_eq_some found)
      have named : path ≠ [] := by
        rintro rfl
        rw [history.named, history.named] at changed
        exact changed rfl
      exact matchable_of_pathMatches matching named (List.find?_some found)
  | pushBinaryOverSize =>
      simp only [name, reads.changed] at matched ⊢
      obtain ⟨path, -, exceeds⟩ := (firstOverSize_found reads matched).mp (by simp)
      exact ne_maxValue_of_over exceeds
  | unknown text => simp [name] at matched

end Needs

theorem attainable_of_violable {platform : Platform} {policy : Policy} {pred : NeverPredicate}
    (matching : platform.pathMatch = pathMatchText)
    (violable : Violable platform policy pred) : pred.Attainable := by
  obtain ⟨Blob, history, files, upd, violations, describes, evaluated, violation, reported,
    same⟩ := violable
  obtain ⟨pair, member, predicate, reason, matched⟩ :=
    exists_of_mem_evaluatePairs evaluated reported
  obtain ⟨-, listed⟩ := mem_pairsOf.mp member
  rw [List.mem_singleton.mp listed, predicate, same] at matched
  exact attainable_of_matchPredicate matching describes matched

/-! ## A repository with one file -/

/-- Two unrelated commits. -/
def earlierOID : Text := List.replicate 40 (byte '1')

def laterOID : Text := List.replicate 40 (byte '2')

section OneFile

variable (path : Text) (size : Int64)

/-- The later commit has one file, and no commit descends from another. -/
def oneFileHistory (named : path ≠ []) (measured : 0 ≤ size) : History Unit where
  blob := fun oid other => if oid = laterOID ∧ other = path then some () else none
  sizeOf := fun _ => size
  ancestor := fun first second => first = second
  ancestor_refl := fun _ => rfl
  ancestor_trans := fun _ _ _ first second => first.trans second
  nothing := fun other => by
    have zero : zeroOID ≠ laterOID := by decide
    simp [zero]
  named := fun oid => by simp [named.symm]
  measured := fun _ => measured

/-- The answers about that repository. -/
def oneFileResolver : FileResolver where
  changed := fun oldOID newOID =>
    .ok (if decide (oldOID = laterOID) = decide (newOID = laterOID) then [] else [path])
  size := fun oid other =>
    if oid = laterOID ∧ other = path then .ok size else .error ⟨utf8 "no such blob", []⟩
  isFastForward := fun oldOID newOID => .ok (decide (oldOID = newOID))

variable {path size}

theorem oneFileResolver_describes (named : path ≠ []) (measured : 0 ≤ size)
    (upd : RefUpdate) :
    (oneFileResolver path size).Describes (oneFileHistory path size named measured) upd := by
  constructor
  · refine ⟨_, rfl, ?_, ?_, ?_⟩
    · intro other
      by_cases before : upd.oldOID = laterOID
      · by_cases after : upd.newOID = laterOID
        · simp [oneFileHistory, before, after]
        · simp [oneFileHistory, before, after]
      · by_cases after : upd.newOID = laterOID
        · simp [oneFileHistory, before, after]
        · simp [oneFileHistory, before, after]
    · intro other blob present
      have stored : upd.newOID = laterOID ∧ other = path := by
        by_contra absent
        simp [oneFileHistory, absent] at present
      exact if_pos stored
    · intro other missing
      have absent : ¬ (upd.newOID = laterOID ∧ other = path) := by
        intro stored
        simp [oneFileHistory, stored] at missing
      exact ⟨_, if_neg absent⟩
  · exact ⟨_, rfl, decide_eq_true_iff⟩

/-- The push of the later commit over the earlier one. -/
def replacingPush (refName : Text) : RefUpdate := ⟨refName, earlierOID, laterOID⟩

/-- The deletion of a branch at the earlier commit. -/
def deletingUpdate (refName : Text) : RefUpdate := ⟨refName, earlierOID, zeroOID⟩

theorem changed_replacingPush (refName : Text) :
    (oneFileResolver path size).changed (replacingPush refName).oldOID
      (replacingPush refName).newOID = .ok [path] := by
  have different : earlierOID ≠ laterOID := by decide
  simp [oneFileResolver, replacingPush, different]

theorem answers_replacingPush (refName : Text) :
    (oneFileResolver path size).Answers (replacingPush refName) where
  changed := by
    refine ⟨[path], changed_replacingPush refName, ?_⟩
    intro other member
    exact ⟨size, if_pos ⟨rfl, List.mem_singleton.mp member⟩⟩
  isFastForward := ⟨_, rfl⟩

theorem answers_deletingUpdate (refName : Text) :
    (oneFileResolver path size).Answers (deletingUpdate refName) where
  changed := by
    have before : earlierOID ≠ laterOID := by decide
    have after : zeroOID ≠ laterOID := by decide
    exact ⟨[], by simp [oneFileResolver, deletingUpdate, before, after], by simp⟩
  isFastForward := ⟨_, rfl⟩

/-- A match is reported, since the rest of the policy is evaluated without a failure. -/
theorem violable_of_matchPredicate {platform : Platform} {policy : Policy}
    {pred : NeverPredicate} {upd : RefUpdate} {reason : Text} (named : path ≠ [])
    (measured : 0 ≤ size) (answers : (oneFileResolver path size).Answers upd)
    (enforces : pred ∈ enforced (some policy))
    (matched : matchPredicate platform (some (oneFileResolver path size)) pred upd =
      .ok (some reason)) : Violable platform policy pred := by
  refine ⟨Unit, _, _, upd, _, oneFileResolver_describes named measured upd,
    evaluatePairs_of_total ?_, ⟨pred, upd.refName, reason⟩, ?_, rfl⟩
  · intro pair member
    obtain ⟨-, listed⟩ := mem_pairsOf.mp member
    rw [List.mem_singleton.mp listed]
    exact answers.matchPredicate pair.1
  · apply List.mem_filterMap.mpr
    refine ⟨(pred, upd), mem_pairsOf.mpr ⟨enforces, List.mem_singleton_self upd⟩, ?_⟩
    rw [violationOf, matched]

end OneFile

/-! ## Attainable rules are violated -/

section Attainable

variable {platform : Platform} {policy : Policy} {pred : NeverPredicate}

theorem branchMatches_heads (matching : platform.pathMatch = pathMatchText) {glob name : Text}
    (nonempty : glob ≠ []) (matched : pathMatchText glob name = some true) :
    branchMatches platform glob (headsPrefix ++ name) = true := by
  have isHead : hasPrefix (headsPrefix ++ name) headsPrefix = true := by
    simp [hasPrefix]
  rw [branchMatches, if_pos isHead, List.drop_left, globMatch, if_neg nonempty, matching]
  exact decide_eq_true matched

/-- Some path that is not empty matches an attainable path glob. -/
theorem exists_pathMatches (matching : platform.pathMatch = pathMatchText) {glob : Text}
    (attainable : hasSuffix glob (utf8 "/**") = true ∨ (glob ≠ [] ∧ MatchableText glob)) :
    ∃ path, path ≠ [] ∧ pathMatches platform glob path = true := by
  by_cases ending : hasSuffix glob (utf8 "/**") = true
  · obtain ⟨stem, rfl⟩ := List.isSuffixOf_iff_suffix.mp ending
    exact ⟨stem ++ byte '/' :: [byte 'a'], by simp,
      (pathMatches_directoryGlob _).mpr (.inr ⟨[byte 'a'], rfl⟩)⟩
  · obtain ⟨nonempty, matchable⟩ := attainable.resolve_left ending
    obtain ⟨name, present, -, matched⟩ := matchable.exists_name
    refine ⟨name, present nonempty, ?_⟩
    rw [pathMatches, if_neg ending, matching]
    split
    · rfl
    · exact decide_eq_true matched

theorem exists_reason_forcePush {path refName : Text} {size : Int64}
    (name : pred.name = .forcePushToBranch)
    (applies : branchMatches platform pred.selector.branchGlob refName = true) :
    ∃ reason, matchPredicate platform (some (oneFileResolver path size)) pred
      (replacingPush refName) = .ok (some reason) := by
  have present : ¬ (earlierOID = zeroOID ∨ laterOID = zeroOID) := by decide
  have unrelated : decide (earlierOID = laterOID) = false := by decide
  simp [matchPredicate, name, replacingPush, applies, present, oneFileResolver, unrelated]

theorem exists_reason_deleteBranch {path refName : Text} {size : Int64}
    (name : pred.name = .deleteBranch)
    (applies : branchMatches platform pred.selector.branchGlob refName = true) :
    ∃ reason, matchPredicate platform (some (oneFileResolver path size)) pred
      (deletingUpdate refName) = .ok (some reason) := by
  simp [matchPredicate, name, deletingUpdate, applies]

theorem exists_reason_pushToBranch {path refName : Text} {size : Int64}
    (name : pred.name = .pushToBranch)
    (applies : branchMatches platform pred.selector.branchGlob refName = true) :
    ∃ reason, matchPredicate platform (some (oneFileResolver path size)) pred
      (replacingPush refName) = .ok (some reason) := by
  simp [matchPredicate, name, replacingPush, applies]

theorem exists_reason_modifyPath {path refName : Text} {size : Int64}
    (name : pred.name = .modifyPath)
    (applies : pathMatches platform pred.selector.pathGlob path = true) :
    ∃ reason, matchPredicate platform (some (oneFileResolver path size)) pred
      (replacingPush refName) = .ok (some reason) := by
  simp [matchPredicate, name, changed_replacingPush, applies]

theorem exists_reason_pushBinaryOverSize {path refName : Text} {size : Int64}
    (name : pred.name = .pushBinaryOverSize) (exceeds : pred.selector.maxBytes < size) :
    ∃ reason, matchPredicate platform (some (oneFileResolver path size)) pred
      (replacingPush refName) = .ok (some reason) := by
  have known : (oneFileResolver path size).size (replacingPush refName).newOID path =
      .ok size := if_pos ⟨rfl, rfl⟩
  simp [matchPredicate, name, changed_replacingPush, firstOverSize, known, exceeds]

theorem lt_maxValue {limit : Int64} (below : limit ≠ Int64.maxValue) :
    limit < Int64.maxValue := by
  have bounded := limit.toInt_lt
  have different : limit.toInt ≠ Int64.maxValue.toInt :=
    fun same => below (Int64.toInt_inj.mp same)
  rw [Int64.toInt_maxValue] at different
  rw [Int64.lt_iff_toInt_lt, Int64.toInt_maxValue]
  omega

/-- An attainable predicate that a policy enforces can be violated. -/
theorem violable_of_attainable (matching : platform.pathMatch = pathMatchText)
    (enforces : pred ∈ enforced (some policy)) (attainable : pred.Attainable) :
    Violable platform policy pred := by
  have named : utf8 "a" ≠ [] := by decide
  have measured : (0 : Int64) ≤ 0 := by decide
  unfold NeverPredicate.Attainable at attainable
  cases name : pred.name with
  | forcePushToBranch =>
      rw [name] at attainable
      obtain ⟨branch, -, -, matched⟩ := attainable.2.exists_name
      obtain ⟨reason, found⟩ := exists_reason_forcePush name
        (branchMatches_heads matching attainable.1 matched)
      exact violable_of_matchPredicate named measured (answers_replacingPush _) enforces found
  | deleteBranch =>
      rw [name] at attainable
      obtain ⟨branch, -, -, matched⟩ := attainable.2.exists_name
      obtain ⟨reason, found⟩ := exists_reason_deleteBranch name
        (branchMatches_heads matching attainable.1 matched)
      exact violable_of_matchPredicate named measured (answers_deletingUpdate _) enforces found
  | pushToBranch =>
      rw [name] at attainable
      obtain ⟨branch, -, -, matched⟩ := attainable.2.exists_name
      obtain ⟨reason, found⟩ := exists_reason_pushToBranch name
        (branchMatches_heads matching attainable.1 matched)
      exact violable_of_matchPredicate named measured (answers_replacingPush _) enforces found
  | modifyPath =>
      rw [name] at attainable
      obtain ⟨path, present, matched⟩ := exists_pathMatches matching attainable
      obtain ⟨reason, found⟩ := exists_reason_modifyPath name matched
      exact violable_of_matchPredicate present measured
        (answers_replacingPush (utf8 "refs/heads/main")) enforces found
  | pushBinaryOverSize =>
      rw [name] at attainable
      obtain ⟨reason, found⟩ := exists_reason_pushBinaryOverSize name (lt_maxValue attainable)
      exact violable_of_matchPredicate named (by decide)
        (answers_replacingPush (utf8 "refs/heads/main")) enforces found
  | unknown text =>
      rw [name] at attainable
      exact attainable.elim

/-- A predicate of a parsed document can be violated exactly if its selector is
attainable. -/
theorem violable_iff_attainable (platform : Platform)
    (matching : platform.pathMatch = pathMatchText) (data : Text) (pred : NeverPredicate)
    (kept : pred ∈ (parse platform data).1.never) :
    Violable platform (parse platform data).1 pred ↔ pred.Attainable := by
  have enforces : pred ∈ enforced (some (parse platform data).1) := by
    rw [enforced_of_wellFormed (parse_wellFormed platform data)]
    exact kept
  exact ⟨attainable_of_violable matching, violable_of_attainable matching enforces⟩

end Attainable

/-! ## A rule about an open bracket -/

/-- The functions from elsewhere, with `path.Match` for all patterns. -/
def globPlatform : Platform := { plainPlatform with pathMatch := pathMatchText }

/-- A rule whose glob is an open bracket. -/
def bracketRule : NeverPredicate := ⟨.deleteBranch, utf8 "[", [], 0⟩

/-- The rule is kept, and nothing is reported about it. -/
theorem parse_bracketRule :
    parse globPlatform (neverDocument ["delete_branch: ["]) =
      (⟨schemaVersionV1, false, [bracketRule]⟩, []) := by
  decide

theorem violable_iff_attainable_bracketRule :
    Violable globPlatform (parse globPlatform (neverDocument ["delete_branch: ["])).1
      bracketRule ↔ bracketRule.Attainable :=
  violable_iff_attainable globPlatform rfl (neverDocument ["delete_branch: ["]) bracketRule
    (by rw [parse_bracketRule]; exact List.mem_cons_self)

theorem not_attainable_bracketRule : ¬ bracketRule.Attainable := by
  intro attainable
  obtain ⟨terms, read, -⟩ := attainable.2 ⟨false, [byte '[']⟩ (by decide)
  cases read

/-- The malformed glob is accepted, and no deletion violates the rule. -/
theorem bracketRule_not_violable :
    ¬ ∀ (platform : Platform), platform.pathMatch = pathMatchText →
      ∀ (data : Text) (pred : NeverPredicate), pred ∈ (parse platform data).1.never →
        Violable platform (parse platform data).1 pred := by
  intro always
  have violable := always globPlatform rfl (neverDocument ["delete_branch: ["]) bracketRule
    (by rw [parse_bracketRule]; exact List.mem_cons_self)
  exact not_attainable_bracketRule (attainable_of_violable rfl violable)

end GitScale.AgentsMd
