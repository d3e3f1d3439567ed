import GitScale.IssueNoise.Router

/-!
# Failing open

When the scorer fails, `Route` goes on with a neutral score.  It is compared with the floors like
any other score, and a floor of zero is reached by it.
-/

namespace GitScale.IssueNoise

open Go

/-- The floors that the table `issue_noise_config` permits. -/
structure Thresholds.Permitted (thresholds : Thresholds) : Prop where
  spam : Float64.zero.le thresholds.spamFloor ∧ thresholds.spamFloor.le Float64.one
  lowQuality : Float64.zero.le thresholds.lowQualityFloor ∧
    thresholds.lowQualityFloor.le Float64.one
  duplicate : Float64.zero.le thresholds.duplicateFloor ∧
    thresholds.duplicateFloor.le Float64.one

/-- No floor is zero. -/
structure Thresholds.Positive (thresholds : Thresholds) : Prop where
  spam : ¬ thresholds.spamFloor.le Float64.zero
  lowQuality : ¬ thresholds.lowQualityFloor.le Float64.zero
  duplicate : ¬ thresholds.duplicateFloor.le Float64.zero

/-- The issue is admitted to the standard queue, the decision and the outbox say so, and no hold
is started. -/
structure FailsOpen (enforce : Bool) (draft : IssueDraft) (surroundings : Surroundings)
    (store : Store) : Prop where
  result : (route enforce draft surroundings store).result =
    .ok ⟨.normal, .opened, none, enforce⟩
  issues : (route enforce draft surroundings store).store.issues =
    Function.update store.issues draft.id (some .opened)
  decisions : ∃ decision : Decision, decision.issueID = draft.id ∧ decision.verdict = .normal ∧
    (route enforce draft surroundings store).store.decisions = store.decisions ++ [decision]
  outbox : ∃ payload : RoutingDecidedPayload, payload.issueID = draft.id ∧
    payload.verdict = "normal" ∧
    (route enforce draft surroundings store).store.outbox =
      store.outbox ++ [⟨draft.id, .routingDecided payload⟩]
  started : (route enforce draft surroundings store).started = []

/-- The neutral score gets the normal verdict exactly if no floor is zero. -/
theorem decide_neutral_eq_normal_iff (thresholds : Thresholds) :
    Score.neutral.decide thresholds = .normal ↔ thresholds.Positive := by
  unfold Score.decide
  constructor
  · intro normal
    split at normal
    · cases normal
    · next spam =>
        split at normal
        · cases normal
        · next duplicate =>
            split at normal
            · cases normal
            · next lowQuality => exact ⟨spam, lowQuality, duplicate⟩
  · intro positive
    have spam : ¬ thresholds.spamFloor.le Score.neutral.spam := positive.spam
    have duplicate : ¬ thresholds.duplicateFloor.le Score.neutral.duplicate := positive.duplicate
    have lowQuality : ¬ thresholds.lowQualityFloor.le Score.neutral.lowQuality :=
      positive.lowQuality
    rw [if_neg spam, if_neg duplicate, if_neg lowQuality]

section Route

variable {enforce : Bool} {draft : IssueDraft} {surroundings : Surroundings} {store : Store}
  {thresholds : Thresholds}

/-- A call whose scorer failed and whose transaction is committed. -/
theorem route_of_scorer_failed (loaded : surroundings.thresholds = .ok thresholds)
    (failed : surroundings.score.2 ≠ none) (committed : surroundings.txErr = none) :
    let verdict := Score.neutral.decide thresholds
    let writes := routeWrites enforce draft surroundings Score.neutral verdict
    route enforce draft surroundings store =
      { result := .ok ⟨verdict, stateForVerdict verdict enforce, none, enforce⟩
        store :=
          { issues := Function.update store.issues draft.id (some (stateForVerdict verdict enforce))
            decisions := store.decisions ++ [writes.decision]
            outbox := store.outbox ++ [writes.row] }
        started :=
          if stateForVerdict verdict enforce = .held then
            [⟨draft.id, draft.repoID, thresholds.holdTTL⟩]
          else []
        scorerErrors := 1 } := by
  obtain ⟨message, reported⟩ := Option.ne_none_iff_exists'.mp failed
  have score : scoreOf surroundings.score = .neutral := by
    unfold scoreOf
    split
    · next quiet => simp [quiet] at reported
    · rfl
  simp only [route, loaded, score, reported, committed, Store.transact]
  rfl

/-- A failing scorer admits the issue exactly if no floor of the thresholds is zero. -/
theorem failsOpen_iff_positive (loaded : surroundings.thresholds = .ok thresholds)
    (failed : surroundings.score.2 ≠ none) (committed : surroundings.txErr = none) :
    FailsOpen enforce draft surroundings store ↔ thresholds.Positive := by
  have routed : route enforce draft surroundings store = _ :=
    route_of_scorer_failed loaded failed committed
  rw [← decide_neutral_eq_normal_iff]
  constructor
  · intro opens
    have result := opens.result
    rw [routed] at result
    exact congrArg RouteResult.verdict (Except.ok.inj result)
  · intro normal
    have state : stateForVerdict .normal enforce = .opened := by cases enforce <;> rfl
    simp only [normal, state] at routed
    constructor
    · rw [routed]
    · rw [routed]
    · exact ⟨_, rfl, rfl, by rw [routed]⟩
    · exact ⟨_, rfl, rfl, by rw [routed]; rfl⟩
    · rw [routed]
      rfl

end Route

/-- A call whose scorer fails with a partial score. -/
def failingScorer (thresholds : Thresholds) : Surroundings where
  thresholds := .ok thresholds
  score := (⟨.one, .one, .zero, none, [], ruleScorerVersion⟩, some "rules: timeout")
  txErr := none
  decisionID := 7
  clock := 0

def sampleDraft : IssueDraft := ⟨1, 2, 3, "title", "body", 0⟩

theorem failsOpen_iff_positive_default :
    defaultThresholds.Permitted ∧
      FailsOpen true sampleDraft (failingScorer defaultThresholds) Store.empty := by
  constructor
  · exact ⟨by decide, by decide, by decide⟩
  · exact (failsOpen_iff_positive rfl (by decide) rfl).mpr ⟨by decide, by decide, by decide⟩

/-- A spam floor of zero, which the table permits. -/
def zeroSpamFloor : Thresholds := { defaultThresholds with spamFloor := .zero }

/-- With it a failing scorer closes every issue as spam. -/
theorem failing_scorer_closes_issue :
    zeroSpamFloor.Permitted ∧
      ¬ FailsOpen true sampleDraft (failingScorer zeroSpamFloor) Store.empty ∧
      (route true sampleDraft (failingScorer zeroSpamFloor) Store.empty).store.issues 1 =
        some .autoClosedSpam := by
  have state : (route true sampleDraft (failingScorer zeroSpamFloor) Store.empty).store.issues 1 =
      some .autoClosedSpam := by
    decide
  refine ⟨⟨by decide, by decide, by decide⟩, ?_, state⟩
  intro opens
  rw [opens.issues] at state
  exact absurd state (by decide)

end GitScale.IssueNoise
