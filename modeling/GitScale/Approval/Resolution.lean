import GitScale.Approval.Calls
import Mathlib.Data.List.Basic

/-!
# Which policy applies

The contract of `PolicyLoader` is that a policy of the repository comes before one of the
org.  `MemService` keeps one policy for each org, the one that was registered last.
-/

namespace GitScale.Approval

open Foundation

/-! ## The contract -/

/-- The last policy of the list that satisfies `wanted`. -/
def mostRecent (wanted : Policy → Bool) (registered : List Policy) : Option Policy :=
  registered.reverse.find? wanted

/-- What `PolicyLoader` promises: the most recent policy of the repository, else the most
recent one of the org that names no repository. -/
def applicable (registered : List Policy) (orgID : UUID) (repoID : Option UUID) :
    Option Policy :=
  (mostRecent (fun policy => policy.orgID = orgID ∧ policy.repoID = repoID)
    registered).or
    (mostRecent (fun policy => policy.orgID = orgID ∧ policy.repoID = none) registered)

/-- `SubmitPlan` evaluates the plan under the given policy, or finds none. -/
def SubmitUses (platform : Platform) (service : MemService) (plan : Plan) :
    Option Policy → Prop
  | none => plan.proposerKind.isValid → ∀ readings,
      (submitPlan platform readings (some plan) service).1 = .error .policyNotFound
  | some policy => ∀ readings,
      (submitPlan platform readings (some plan) service).1 ≠ .error .policyNotFound ∧
        ∀ decision, (submitPlan platform readings (some plan) service).1 = .ok decision →
          ∃ entry, (submitPlan platform readings (some plan) service).2.plans
              (storedID readings plan) = some entry ∧
            entry.policy = policy ∧ decision = evaluate platform policy entry.plan

/-- `LoadPolicy` and `SubmitPlan` use the policy that the contract names. -/
def Resolves (platform : Platform) (service : MemService) (registered : List Policy)
    (plan : Plan) : Prop :=
  loadPolicy plan.orgID plan.repoID service =
      applicable registered plan.orgID plan.repoID ∧
    SubmitUses platform service plan (applicable registered plan.orgID plan.repoID)

/-! ## What the service holds -/

/-- The policies that the calls of the past registered. -/
def registrations (history : List Event) : List Policy :=
  history.filterMap fun event =>
    match event.call, event.reply with
    | .registerPolicy (some policy), .registered (.ok _) => some policy
    | _, _ => none

/-- The service holds the latest policy of every org. -/
def HoldsLatest (system : System) : Prop :=
  ∀ orgID, system.service.policies orgID =
    mostRecent (fun policy => policy.orgID = orgID) (registrations system.history)

theorem registrations_concat (history : List Event) (event : Event) :
    registrations (history ++ [event]) = registrations history ++ registrations [event] := by
  simp [registrations]

theorem mostRecent_concat (wanted : Policy → Bool) (registered : List Policy)
    (policy : Policy) :
    mostRecent wanted (registered ++ [policy]) =
      if wanted policy then some policy else mostRecent wanted registered := by
  simp only [mostRecent, List.reverse_append, List.reverse_singleton, List.singleton_append,
    List.find?_cons]
  cases wanted policy <;> rfl

theorem registrations_of_other {event : Event}
    (other : ∀ policy, event.call ≠ .registerPolicy policy) : registrations [event] = [] := by
  rcases event with ⟨before, call, readings, reply⟩
  cases call with
  | registerPolicy policy => exact absurd rfl (other policy)
  | submitPlan plan => rfl
  | recordDecision input => rfl
  | escalate input => rfl

theorem holdsLatest_initial : HoldsLatest initialSystem := fun _ => rfl

theorem HoldsLatest.step {platform : Platform} {system next : System}
    {label : Call × Readings} (holds : HoldsLatest system)
    (taken : step platform system label = some next) : HoldsLatest next := by
  rcases label with ⟨call, readings⟩
  cases taken
  intro orgID
  rw [registrations_concat]
  by_cases other : ∀ policy, call ≠ .registerPolicy policy
  · rw [registrations_of_other other, List.append_nil, serve_policies call readings other]
    exact holds orgID
  · rcases not_forall.mp other with ⟨policy, equal⟩
    rw [not_not] at equal
    subst equal
    simp only [serve, registerPolicy]
    split
    · rename_i error invalid
      simpa [registrations] using holds orgID
    · simpa [registrations] using holds orgID
    · rename_i policy valid
      have grown : registrations [⟨system.service, .registerPolicy (some policy), readings,
          .registered (.ok ())⟩] = [policy] := rfl
      rw [grown, mostRecent_concat]
      by_cases same : orgID = policy.orgID
      · simp [same]
      · have different : policy.orgID ≠ orgID := fun equal => same equal.symm
        simp [same, different, holds orgID]

/-! ## The latest policy against the applicable one -/

/-- The latest policy of the org is one of the plan's repository, or it names no repository
and the plan's repository has none. -/
def Unshadowed (registered : List Policy) (plan : Plan) : Prop :=
  ∀ latest, mostRecent (fun policy => policy.orgID = plan.orgID) registered = some latest →
    latest.repoID = plan.repoID ∨
      latest.repoID = none ∧ ∀ policy ∈ registered, policy.orgID = plan.orgID →
        policy.repoID ≠ plan.repoID

theorem mostRecent_eq_some {wanted : Policy → Bool} {registered : List Policy}
    {policy : Policy} (found : mostRecent wanted registered = some policy) :
    wanted policy = true :=
  List.find?_some found

theorem mostRecent_eq_none_iff {wanted : Policy → Bool} {registered : List Policy} :
    mostRecent wanted registered = none ↔ ∀ policy ∈ registered, wanted policy = false := by
  simp [mostRecent]

/-- The most recent policy stays the most recent one under a narrower demand that it
meets. -/
theorem mostRecent_of_narrower {wide narrow : Policy → Bool} {registered : List Policy}
    {policy : Policy} (narrower : ∀ other, narrow other = true → wide other = true)
    (found : mostRecent wide registered = some policy) (meets : narrow policy = true) :
    mostRecent narrow registered = some policy := by
  rcases List.find?_eq_some_iff_append.mp found with ⟨_, front, back, split, unwanted⟩
  refine List.find?_eq_some_iff_append.mpr ⟨meets, front, back, split, ?_⟩
  intro other member
  have refused := unwanted other member
  cases asked : narrow other with
  | false => rfl
  | true => simp [narrower other asked] at refused

theorem applicable_eq_latest_iff {registered : List Policy} {plan : Plan} :
    mostRecent (fun policy => policy.orgID = plan.orgID) registered =
        applicable registered plan.orgID plan.repoID ↔
      Unshadowed registered plan := by
  unfold applicable
  constructor
  · intro equal latest found
    rw [found] at equal
    rcases Option.or_eq_some_iff.mp equal.symm with exactly | ⟨absent, orgWide⟩
    · left
      have meets := mostRecent_eq_some exactly
      exact (of_decide_eq_true meets).2
    · right
      have meets := mostRecent_eq_some orgWide
      refine ⟨(of_decide_eq_true meets).2, ?_⟩
      intro policy member sameOrg sameRepo
      have refused := mostRecent_eq_none_iff.mp absent policy member
      simp [sameOrg, sameRepo] at refused
  · intro unshadowed
    cases found : mostRecent (fun policy => policy.orgID = plan.orgID) registered with
    | none =>
        have foreign := mostRecent_eq_none_iff.mp found
        symm
        rw [Option.or_eq_none_iff, mostRecent_eq_none_iff, mostRecent_eq_none_iff]
        constructor
        all_goals
          intro policy member
          have refused := foreign policy member
          simp only [decide_eq_false_iff_not] at refused
          simp [refused]
    | some latest =>
        have sameOrg : latest.orgID = plan.orgID := of_decide_eq_true (mostRecent_eq_some found)
        rcases unshadowed latest found with sameRepo | ⟨orgWide, absent⟩
        · rw [mostRecent_of_narrower _ found (by simp [sameOrg, sameRepo])]
          · rfl
          · intro other meets
            exact decide_eq_true (of_decide_eq_true meets).1
        · have none_found : mostRecent (fun policy =>
              policy.orgID = plan.orgID ∧ policy.repoID = plan.repoID) registered = none := by
            rw [mostRecent_eq_none_iff]
            intro policy member
            simp only [decide_eq_false_iff_not]
            intro both
            exact absent policy member both.1 both.2
          rw [none_found, mostRecent_of_narrower _ found (by simp [sameOrg, orgWide])]
          · rfl
          · intro other meets
            exact decide_eq_true (of_decide_eq_true meets).1

/-! ## Submission under the policy that is held -/

theorem submitUses_held (platform : Platform) (service : MemService) (plan : Plan) :
    SubmitUses platform service plan (service.policies plan.orgID) := by
  cases found : service.policies plan.orgID with
  | none =>
      intro valid readings
      simp [submitPlan, valid, found]
  | some policy =>
      intro readings
      generalize returned : submitPlan platform readings (some plan) service = outcome
      rcases outcome with ⟨result, next⟩
      constructor
      · intro refused
        simp only at refused
        subst refused
        cases submitPlan_submits returned with
        | refused plan error unmet notFound =>
            exact nomatch found.symm.trans (notFound rfl plan rfl)
      · intro decision accepted
        simp only at accepted
        subst accepted
        cases submitPlan_submits returned with
        | stored plan policy' canonical next admitted appended =>
            cases found.symm.trans admitted.found
            refine ⟨entryOf platform readings policy canonical plan, ?_, rfl, rfl⟩
            rw [appendAuditLocked_plans appended]
            exact Function.update_self ..

/-- After any run, `LoadPolicy` and `SubmitPlan` use the policy that the contract names if
and only if the latest policy of the plan's org does not shadow it. -/
theorem resolves_iff_unshadowed (platform : Platform) (schedule : List (Call × Readings))
    (final : System) (reached : run (step platform) initialSystem schedule = some final)
    (plan : Plan) :
    Resolves platform final.service (registrations final.history) plan ↔
      Unshadowed (registrations final.history) plan := by
  have holds : HoldsLatest final :=
    invariant_of_run (fun _ _ _ holds taken => holds.step taken) schedule initialSystem final
      holdsLatest_initial reached
  have held := holds plan.orgID
  rw [← applicable_eq_latest_iff, ← held]
  constructor
  · intro resolves
    exact resolves.1
  · intro equal
    exact ⟨equal, equal ▸ submitUses_held platform final.service plan⟩

/-- The policy of the org, then one of repository 9. -/
def orgThenRepository : List (Call × Readings) :=
  [(.registerPolicy (some twoOfThree), ⟨1, 1, 0⟩),
    (.registerPolicy (some { twoOfThree with id := 3, repoID := some 9 }), ⟨2, 2, 0⟩)]

def afterOrgThenRepository : System :=
  (run (step plainPlatform) initialSystem orgThenRepository).getD initialSystem

/-- A plan of an agent in the given repository. -/
def planIn (repoID : Option UUID) : Plan := ⟨5, 2, repoID, 0, 6, .agent, [], [], 0⟩

/-- The plan in repository 9 gets the policy of the repository. -/
theorem resolves_iff_unshadowed_repository9 :
    Resolves plainPlatform afterOrgThenRepository.service
      (registrations afterOrgThenRepository.history) (planIn (some 9)) := by
  apply (resolves_iff_unshadowed plainPlatform orgThenRepository afterOrgThenRepository rfl
    (planIn (some 9))).mpr
  intro latest found
  left
  have expected : mostRecent (fun policy => policy.orgID = (planIn (some 9)).orgID)
      (registrations afterOrgThenRepository.history) =
        some { twoOfThree with id := 3, repoID := some 9 } := by
    decide
  cases expected.symm.trans found
  rfl

/-- A plan in repository 8, which has no policy of its own, gets the policy of repository
9 instead of the one of the org. -/
theorem policyShadowed_repository8 :
    ¬ Resolves plainPlatform afterOrgThenRepository.service
      (registrations afterOrgThenRepository.history) (planIn (some 8)) := by
  intro resolves
  have loaded := resolves.1
  revert loaded
  decide

end GitScale.Approval
