import GitScale.AgentsMd.Evaluate
import GitScale.Foundation.Dedup

/-!
# Merging the policies of org and repository

The merged policy is the union, with the predicates of the org first.  On parsed policies
the dedup key identifies a predicate, so the violations of the merged policy are those of
the org followed by those of the predicates that only the repository has.
-/

namespace GitScale.AgentsMd

open Go Foundation

/-- `Merge`. -/
def merge (org repo : Option Policy) : Policy :=
  let fromOrg := (enforced org).foldl (addUnseen NeverPredicate.key) ([], [])
  let merged := (enforced repo).foldl (addUnseen NeverPredicate.key) fromOrg
  ⟨schemaVersionV1, merged.2.isEmpty, merged.2⟩

section Merge

variable {org repo : Policy}

theorem merge_empty (left right : Option Policy) :
    (merge left right).empty = true ↔ (merge left right).never = [] := by
  simp [merge]

theorem enforced_merge (left right : Option Policy) :
    enforced (some (merge left right)) = (merge left right).never := by
  simp only [enforced]
  split
  · next empty => exact ((merge_empty left right).mp empty).symm
  · rfl

/-- A predicate of one parsed policy has the key of some predicate of another only if it
is that predicate. -/
theorem key_mem_iff (orgWellFormed : org.WellFormed) {predicate : NeverPredicate}
    (shaped : predicate.Shaped) :
    predicate.key ∈ org.never.map NeverPredicate.key ↔ predicate ∈ org.never := by
  constructor
  · intro listed
    obtain ⟨other, present, equal⟩ := List.mem_map.mp listed
    rw [← key_injective (orgWellFormed.shaped other present) shaped equal]
    exact present
  · intro present
    exact List.mem_map_of_mem present

/-- The merged predicates: those of the org, then those that only the repository has. -/
theorem merge_never (orgWellFormed : org.WellFormed) (repoWellFormed : repo.WellFormed) :
    (merge (some org) (some repo)).never =
      org.never ++ repo.never.filter fun predicate => predicate ∉ org.never := by
  rw [merge, enforced_of_wellFormed orgWellFormed, enforced_of_wellFormed repoWellFormed]
  have seen : ∀ found, found ∈ (org.never.foldl (addUnseen NeverPredicate.key) ([], [])).1 ↔
      found ∈ org.never.map NeverPredicate.key := by
    intro found
    simp [mem_foldl_addUnseen]
  have kept : (org.never.foldl (addUnseen NeverPredicate.key) ([], [])).2 = org.never := by
    simp [foldl_addUnseen NeverPredicate.key orgWellFormed.distinct]
  generalize org.never.foldl (addUnseen NeverPredicate.key) ([], []) = fromOrg at seen kept
  obtain ⟨keys, predicates⟩ := fromOrg
  subst kept
  simp only [foldl_addUnseen NeverPredicate.key repoWellFormed.distinct]
  congr 1
  apply List.filter_congr
  intro predicate membership
  simp only [seen, key_mem_iff orgWellFormed (repoWellFormed.shaped predicate membership)]

theorem mem_merge_iff (orgWellFormed : org.WellFormed) (repoWellFormed : repo.WellFormed)
    {predicate : NeverPredicate} :
    predicate ∈ (merge (some org) (some repo)).never ↔
      predicate ∈ org.never ∨ predicate ∈ repo.never := by
  rw [merge_never orgWellFormed repoWellFormed, List.mem_append, List.mem_filter]
  simp only [decide_eq_true_eq]
  tauto

theorem nodup_of_wellFormed {policy : Policy} (wellFormed : policy.WellFormed) :
    policy.never.Nodup :=
  wellFormed.distinct.of_map

theorem merge_nodup (orgWellFormed : org.WellFormed) (repoWellFormed : repo.WellFormed) :
    (merge (some org) (some repo)).never.Nodup := by
  rw [merge_never orgWellFormed repoWellFormed, List.nodup_append]
  refine ⟨nodup_of_wellFormed orgWellFormed, (nodup_of_wellFormed repoWellFormed).filter _, ?_⟩
  rintro predicate listed other membership rfl
  simpa [listed] using (List.mem_filter.mp membership).2

end Merge

section Violations

variable {platform : Platform} {files : Option FileResolver}

theorem violationOf_predicate {pair : NeverPredicate × RefUpdate} {violation : Violation}
    (found : violationOf platform files pair = some violation) :
    violation.predicate = pair.1 := by
  unfold violationOf at found
  split at found
  · cases found
    rfl
  · cases found

/-- The violations of one predicate carry it. -/
theorem filter_violations_of_predicate (predicate : NeverPredicate)
    (updates : List RefUpdate) (wanted : NeverPredicate → Bool) :
    (((updates.map fun upd => (predicate, upd)).filterMap (violationOf platform files)).filter
        fun violation => wanted violation.predicate) =
      if wanted predicate then
        (updates.map fun upd => (predicate, upd)).filterMap (violationOf platform files)
      else [] := by
  have carried : ∀ violation ∈ (updates.map fun upd => (predicate, upd)).filterMap
      (violationOf platform files), violation.predicate = predicate := by
    intro violation membership
    obtain ⟨pair, listed, found⟩ := List.mem_filterMap.mp membership
    obtain ⟨upd, -, rfl⟩ := List.mem_map.mp listed
    exact violationOf_predicate found
  split
  · next accepted =>
      apply List.filter_eq_self.mpr
      intro violation membership
      rw [carried violation membership]
      exact accepted
  · next rejected =>
      apply List.filter_eq_nil_iff.mpr
      intro violation membership
      rw [carried violation membership]
      exact rejected

/-- The violations of the predicates that satisfy `wanted`. -/
theorem violations_filter (never : List NeverPredicate) (updates : List RefUpdate)
    (wanted : NeverPredicate → Bool) :
    (pairsOf (never.filter wanted) updates).filterMap (violationOf platform files) =
      ((pairsOf never updates).filterMap (violationOf platform files)).filter
        fun violation => wanted violation.predicate := by
  induction never with
  | nil => rfl
  | cons predicate rest inductionHypothesis =>
      have split : pairsOf (predicate :: rest) updates =
          (updates.map fun upd => (predicate, upd)) ++ pairsOf rest updates := rfl
      rw [split, List.filterMap_append, List.filter_append, filter_violations_of_predicate,
        ← inductionHypothesis, List.filter_cons]
      split
      · rw [← List.filterMap_append]
        rfl
      · rfl

end Violations

/-- Merged documents enforce exactly the union. -/
theorem merge_enforces_union (platform : Platform) (orgDoc repoDoc : Text)
    (updates : List RefUpdate) (files : FileResolver) (neverFails : files.NeverFails) :
    let org := (parse platform orgDoc).1
    let repo := (parse platform repoDoc).1
    let merged := merge (some org) (some repo)
    merged.never.Nodup ∧
      merged.never = org.never ++ repo.never.filter (fun predicate => predicate ∉ org.never) ∧
      (∀ predicate, predicate ∈ merged.never ↔
        predicate ∈ org.never ∨ predicate ∈ repo.never) ∧
      (∃ orgViolations repoViolations,
        evaluate platform (some org) updates (some files) = .ok orgViolations ∧
          evaluate platform (some repo) updates (some files) = .ok repoViolations ∧
          evaluate platform (some merged) updates (some files) =
            .ok (orgViolations ++ repoViolations.filter fun violation =>
              violation.predicate ∉ org.never)) ∧
      (evaluate platform (some merged) updates (some files) = .ok [] ↔
        evaluate platform (some org) updates (some files) = .ok [] ∧
          evaluate platform (some repo) updates (some files) = .ok []) := by
  have orgWellFormed := parse_wellFormed platform orgDoc
  have repoWellFormed := parse_wellFormed platform repoDoc
  have total : ∀ pairs : List (NeverPredicate × RefUpdate), ∀ pair ∈ pairs, ∃ found,
      matchPredicate platform (some files) pair.1 pair.2 = .ok found :=
    fun _ pair _ => (neverFails.answers pair.2).matchPredicate pair.1
  refine ⟨merge_nodup orgWellFormed repoWellFormed, merge_never orgWellFormed repoWellFormed,
    fun _ => mem_merge_iff orgWellFormed repoWellFormed, ⟨_, _, evaluatePairs_of_total (total _),
      evaluatePairs_of_total (total _), ?_⟩, ?_⟩
  · rw [evaluate, evaluatePairs_of_total (total _), enforced_merge,
      merge_never orgWellFormed repoWellFormed, pairsOf_append, List.filterMap_append,
      violations_filter, enforced_of_wellFormed orgWellFormed,
      enforced_of_wellFormed repoWellFormed]
  · simp only [evaluate_eq_nil_iff, enforced_merge, enforced_of_wellFormed orgWellFormed,
      enforced_of_wellFormed repoWellFormed, mem_merge_iff orgWellFormed repoWellFormed]
    constructor
    · intro quiet
      exact ⟨fun pred listed => quiet pred (Or.inl listed),
        fun pred listed => quiet pred (Or.inr listed)⟩
    · rintro ⟨orgQuiet, repoQuiet⟩ pred (listed | listed)
      · exact orgQuiet pred listed
      · exact repoQuiet pred listed

/-- A resolver for a push that changes one file. -/
def oneFile (path : Text) : FileResolver where
  changed := fun _ _ => .ok [path]
  size := fun _ _ => .ok 12
  isFastForward := fun _ _ => .ok true

theorem oneFile_neverFails (path : Text) : (oneFile path).NeverFails where
  changed := fun _ _ => ⟨_, rfl⟩
  size := fun _ _ => ⟨_, rfl⟩
  isFastForward := fun _ _ => ⟨_, rfl⟩

/-- Both documents forbid changes under `infra`; the repository also caps file sizes. -/
theorem merge_enforces_union_infra :
    let org := (parse plainPlatform (neverDocument ["modify_path: infra/**"])).1
    let repo := (parse plainPlatform
      (neverDocument ["push_binary_over_size: 1K", "modify_path: infra/**"])).1
    let merged := merge (some org) (some repo)
    let updates : List RefUpdate := [⟨utf8 "refs/heads/main", utf8 "a1", utf8 "b2"⟩]
    let files := some (oneFile (utf8 "infra/main.tf"))
    merged.never.length = 2 ∧ merged.never.Nodup ∧
      (evaluate plainPlatform (some merged) updates files = .ok [] ↔
        evaluate plainPlatform (some org) updates files = .ok [] ∧
          evaluate plainPlatform (some repo) updates files = .ok []) := by
  have union := merge_enforces_union plainPlatform (neverDocument ["modify_path: infra/**"])
    (neverDocument ["push_binary_over_size: 1K", "modify_path: infra/**"])
    [⟨utf8 "refs/heads/main", utf8 "a1", utf8 "b2"⟩] (oneFile (utf8 "infra/main.tf"))
    (oneFile_neverFails _)
  exact ⟨by decide, union.1, union.2.2.2.2⟩

end GitScale.AgentsMd
