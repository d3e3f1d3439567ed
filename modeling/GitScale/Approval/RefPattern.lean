import GitScale.Approval.Dsl
import GitScale.Go.PathNames

/-!
# Patterns of force-push rules

`matchByPattern` takes a malformed pattern as one that does not match and leaves it to the
validation to report it.  `Validate` reads no constraint of a rule, so it accepts patterns
that no ref matches, and their rules never fire.
-/

namespace GitScale.Approval

/-! ## What the validation reads -/

/-- The policy with other constraints in its rules. -/
def Policy.reconstrain (policy : Policy) (change : Rule → List (String × String)) : Policy :=
  { policy with rules := policy.rules.map fun rule => { rule with constraints := change rule } }

/-- `Validate` gives the same answer for all constraints. -/
theorem validate_reconstrain (quote : String → String) (policy : Policy)
    (change : Rule → List (String × String)) :
    validate quote (some (policy.reconstrain change)) = validate quote (some policy) := by
  have sameRules :
      (policy.reconstrain change).rules.zipIdx.findSome? (fun entry =>
        validateRule quote (policy.reconstrain change) entry.2 entry.1) =
      policy.rules.zipIdx.findSome? fun entry => validateRule quote policy entry.2 entry.1 := by
    simp only [Policy.reconstrain, List.zipIdx_map, List.findSome?_map]
    rfl
  simp only [validate, sameRules]
  simp only [Policy.reconstrain, List.map_eq_nil_iff]

/-! ## When a rule can fire -/

/-- A plan of one force push. -/
def forcePushOf (ref : String) : List Action := [⟨"force_push", [("ref", ref)]⟩]

/-- Some ref makes the rule fire. -/
def CanFire (rule : Rule) (proposer : ProposerKind) : Prop :=
  ∃ ref, matchRule Go.pathMatch rule (forcePushOf ref) proposer = true

/-- The pattern is empty, or it ends in `/*` and matches by its stem, or each of its parts
is well formed and admits some character. -/
def Attainable (pattern : String) : Prop :=
  pattern = "" ∨ "/*".toList <:+ pattern.toList ∨ Go.Matchable pattern

theorem matchRule_forcePushOf {rule : Rule} (forcePush : rule.kind = .forcePush)
    (ref : String) (proposer : ProposerKind) :
    matchRule Go.pathMatch rule (forcePushOf ref) proposer = true ↔
      fieldOf rule.constraints "ref_pattern" = "" ∨
      Go.pathMatch (fieldOf rule.constraints "ref_pattern") ref = some true ∨
      "/*".toList <:+ (fieldOf rule.constraints "ref_pattern").toList ∧
        (fieldOf rule.constraints "ref_pattern").toList.dropLast <+: ref.toList := by
  have value : fieldOf [("ref", ref)] "ref" = ref := by simp [fieldOf]
  simp only [matchRule, forcePush, matchByPattern, forcePushOf, value, List.any_cons,
    List.any_nil, Bool.or_false, decide_true, Bool.true_and, Bool.or_eq_true, Bool.and_eq_true,
    decide_eq_true_eq, List.isSuffixOf_iff_suffix, List.isPrefixOf_iff_prefix, or_assoc]

theorem canFire_iff {rule : Rule} (forcePush : rule.kind = .forcePush)
    (proposer : ProposerKind) :
    CanFire rule proposer ↔ Attainable (fieldOf rule.constraints "ref_pattern") := by
  simp only [CanFire, matchRule_forcePushOf forcePush, Attainable]
  constructor
  · intro ⟨ref, fires⟩
    rcases fires with empty | matched | ⟨ending, _⟩
    · exact .inl empty
    · exact .inr (.inr ((Go.exists_pathMatch_iff _).mp ⟨ref, matched⟩))
    · exact .inr (.inl ending)
  · intro attainable
    rcases attainable with empty | ending | matchable
    · exact ⟨"", .inl empty⟩
    · -- The stem itself is such a ref.
      refine ⟨String.ofList
        (fieldOf rule.constraints "ref_pattern").toList.dropLast, .inr (.inr ⟨ending, ?_⟩)⟩
      rw [String.toList_ofList]
    · obtain ⟨ref, matched⟩ := (Go.exists_pathMatch_iff _).mpr matchable
      exact ⟨ref, .inr (.inl matched)⟩

/-- If the policy is accepted, each of its force-push rules fires on some ref. -/
def NoInertRule (quote : String → String) (policy : Policy) (proposer : ProposerKind) : Prop :=
  validate quote (some policy) = none →
    ∀ rule ∈ policy.rules, rule.kind = .forcePush → CanFire rule proposer

/-- An accepted policy has no inert force-push rule exactly if all their patterns are
attainable. -/
theorem noInertRule_iff (quote : String → String) (policy : Policy)
    (proposer : ProposerKind) :
    NoInertRule quote policy proposer ↔
      (validate quote (some policy) = none →
        ∀ rule ∈ policy.rules, rule.kind = .forcePush →
          Attainable (fieldOf rule.constraints "ref_pattern")) := by
  apply forall_congr'
  intro _
  apply forall₂_congr
  intro rule _
  apply forall_congr'
  intro forcePush
  exact canFire_iff forcePush proposer

/-! ## A pattern that no ref matches -/

theorem not_attainable_bracket : ¬ Attainable "[" := by
  intro attainable
  rcases attainable with empty | ending | matchable
  · exact absurd empty (by decide)
  · exact absurd ending (by decide)
  · obtain ⟨terms, read, _⟩ := matchable ⟨false, [Go.byte '[']⟩ (by decide)
    cases read

/-- An accepted policy with a force-push rule stays accepted when its patterns become an
open bracket, and then it has an inert rule. -/
theorem not_noInertRule_reconstrain {quote : String → String} {policy : Policy} {rule : Rule}
    (accepted : validate quote (some policy) = none) (member : rule ∈ policy.rules)
    (forcePush : rule.kind = .forcePush) (proposer : ProposerKind) :
    ¬ NoInertRule quote (policy.reconstrain fun _ => [("ref_pattern", "[")]) proposer := by
  intro noInert
  let changed : Rule := { rule with constraints := [("ref_pattern", "[")] }
  have present : changed ∈ (policy.reconstrain fun _ => [("ref_pattern", "[")]).rules :=
    List.mem_map_of_mem member
  have stillAccepted : validate quote
      (some (policy.reconstrain fun _ => [("ref_pattern", "[")])) = none :=
    (validate_reconstrain quote policy _).trans accepted
  have kind : changed.kind = .forcePush := forcePush
  exact not_attainable_bracket
    ((canFire_iff kind proposer).mp (noInert stillAccepted changed present kind))

/-- One rule for force pushes to the refs that match an open bracket. -/
def bracketPolicy : Policy where
  id := 1
  orgID := 2
  repoID := none
  name := "release branches"
  version := 1
  rules := [{
    kind := .forcePush
    constraints := [("ref_pattern", "[")]
    threshold := none
    ladder := [⟨"leads", 3600, .autoDeny⟩]
    expirySeconds := 14400 }]
  approverGroups := [("leads", ⟨"leads", [3], 1⟩)]
  keys_nodup := by decide

theorem forcePush_rule_inert :
    validate id (some bracketPolicy) = none ∧
      ∃ rule ∈ bracketPolicy.rules, rule.kind = .forcePush ∧
        ∀ ref, matchRule Go.pathMatch rule (forcePushOf ref) .agent = false := by
  refine ⟨by decide, _, List.mem_singleton_self _, rfl, fun ref => ?_⟩
  rw [Bool.eq_false_iff]
  intro fires
  exact not_attainable_bracket ((canFire_iff rfl .agent).mp ⟨ref, fires⟩)

end GitScale.Approval
