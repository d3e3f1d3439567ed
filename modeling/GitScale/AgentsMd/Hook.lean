import GitScale.AgentsMd.Merge
import Mathlib.Data.List.Perm.Basic

/-!
# The pre-receive hook

The hook looks for an AGENTS.md at the new tips of a push, then at the old tips, then at
`HEAD`, and judges the whole push by the first one it finds.  Whether the order of the
updates matters therefore depends on the documents at the tips.
-/

namespace GitScale.AgentsMd

open Go

/-- `BlobReader`. -/
structure BlobReader where
  readBlob : Text → Text → Text → Except Failure Text
  listChangedPaths : Text → Text → Text → Except Failure (List Text)
  blobSize : Text → Text → Text → Except Failure Int64
  isFastForward : Text → Text → Text → Except Failure Bool

/-- `Handler`; `policies` is the `ResolveOrgPolicyBytes` of its `PolicyStore`. -/
structure Handler where
  blobs : BlobReader
  policies : Text → Except Failure Text

/-- `AgentsMdPath`. -/
def agentsMdPath : Text := utf8 "AGENTS.md"

/-- `resolverAdapter`. -/
def BlobReader.resolver (blobs : BlobReader) (repoID : Text) : FileResolver where
  changed := blobs.listChangedPaths repoID
  size := blobs.blobSize repoID
  isFastForward := blobs.isFastForward repoID

namespace Handler

variable (handler : Handler) (repoID : Text)

/-- The `tryOID` of `readRepoPolicy`. -/
def tryOID (oid : Text) : Except Failure (Option Text) :=
  if oid = [] ∨ oid = zeroOID then .ok none
  else
    match handler.blobs.readBlob repoID oid agentsMdPath with
    | .ok data => .ok (some data)
    | .error failure => if failure.is .hookBlobNotFound then .ok none else .error failure

/-- The loops of `readRepoPolicy`: the first document at one of the object ids. -/
def tryOIDs : List Text → Except Failure (Option Text)
  | [] => .ok none
  | oid :: rest =>
      match handler.tryOID repoID oid with
      | .error failure => .error failure
      | .ok (some data) => .ok (some data)
      | .ok none => tryOIDs rest

/-- The last resort of `readRepoPolicy`.  A missing document is an empty one. -/
def readHead : Except Failure Text :=
  match handler.blobs.readBlob repoID (utf8 "HEAD") agentsMdPath with
  | .ok data => .ok data
  | .error failure => if failure.is .hookBlobNotFound then .ok [] else .error failure

/-- `readRepoPolicy`. -/
def readRepoPolicy (updates : List RefUpdate) : Except Failure Text :=
  match handler.tryOIDs repoID (updates.map (·.newOID)) with
  | .error failure => .error failure
  | .ok (some data) => .ok data
  | .ok none =>
      match handler.tryOIDs repoID (updates.map (·.oldOID)) with
      | .error failure => .error failure
      | .ok (some data) => .ok data
      | .ok none => handler.readHead repoID

/-- `formatViolations`. -/
def formatViolations (violations : List Violation) : Failure where
  message := (utf8 "; ").intercalate (violations.map fun violation =>
    utf8 "AGENTS.md Never violation: " ++ violation.predicate.name.text ++ utf8 " on ref " ++
      violation.refName ++ utf8 " (" ++ violation.reason ++ utf8 ")")
  chain := []

/-- The policy of the org merged with that of the repository. -/
def mergedPolicy (platform : Platform) (orgBytes repoBytes : Text) : Policy :=
  merge (some (parse platform orgBytes).1) (some (parse platform repoBytes).1)

/-- `PreReceive`; the result `none` is a nil error, which accepts the push. -/
def preReceive (platform : Platform) (updates : List RefUpdate) : Option Failure :=
  match handler.readRepoPolicy repoID updates with
  | .error failure => some (failure.wrap (utf8 "agentsmd: read repo policy: "))
  | .ok repoBytes =>
      match handler.policies repoID with
      | .error failure => some (failure.wrap (utf8 "agentsmd: resolve org policy: "))
      | .ok orgBytes =>
          let merged := mergedPolicy platform orgBytes repoBytes
          if merged.empty then none
          else
            match evaluate platform (some merged) updates
                (some (handler.blobs.resolver repoID)) with
            | .error failure => some (failure.wrap (utf8 "agentsmd: evaluate: "))
            | .ok violations =>
                if violations = [] then none else some (formatViolations violations)

end Handler

/-! ## What the verdict depends on -/

section Verdict

variable {platform : Platform} {handler : Handler} {repoID : Text}

/-- The push satisfies every rule of the org and of a document of the repository. -/
def Passes (platform : Platform) (handler : Handler) (repoID orgBytes : Text)
    (updates : List RefUpdate) (document : Text) : Prop :=
  evaluate platform (some (Handler.mergedPolicy platform orgBytes document)) updates
    (some (handler.blobs.resolver repoID)) = .ok []

/-- A push is accepted when the document that was found lets it pass. -/
theorem preReceive_eq_none_iff {updates : List RefUpdate} {repoBytes orgBytes : Text}
    (read : handler.readRepoPolicy repoID updates = .ok repoBytes)
    (resolved : handler.policies repoID = .ok orgBytes) :
    handler.preReceive repoID platform updates = none ↔
      Passes platform handler repoID orgBytes updates repoBytes := by
  simp only [Handler.preReceive, read, resolved, Passes]
  split
  · next empty =>
      have none_enforced :
          enforced (some (Handler.mergedPolicy platform orgBytes repoBytes)) = [] := by
        simp [enforced, empty]
      simp [evaluate, none_enforced, pairsOf, evaluatePairs]
  · cases evaluate platform (some (Handler.mergedPolicy platform orgBytes repoBytes)) updates
        (some (handler.blobs.resolver repoID)) with
    | error failure => simp
    | ok violations => simp

/-- Passing does not depend on the order of the updates. -/
theorem passes_perm {orgBytes document : Text} {updates shuffled : List RefUpdate}
    (perm : shuffled.Perm updates) :
    Passes platform handler repoID orgBytes shuffled document ↔
      Passes platform handler repoID orgBytes updates document := by
  unfold Passes
  rw [evaluate_eq_nil_iff, evaluate_eq_nil_iff]
  simp only [perm.mem_iff]

end Verdict

/-! ## Which document is found -/

/-- The only failure of `ReadBlob` is that there is no such blob. -/
def BlobReader.NoInfraError (blobs : BlobReader) (repoID : Text) : Prop :=
  ∀ ref failure, blobs.readBlob repoID ref agentsMdPath = .error failure →
    failure.is .hookBlobNotFound = true

/-- The document at an object id. -/
def Handler.documentAt (handler : Handler) (repoID oid : Text) : Option Text :=
  if oid = [] ∨ oid = zeroOID then none
  else (handler.blobs.readBlob repoID oid agentsMdPath).toOption

/-- The documents that a push can be judged by: those at its new tips, or else those at its
old tips, or else the one at `HEAD`. -/
def Handler.candidates (handler : Handler) (repoID : Text) (updates : List RefUpdate) :
    List Text :=
  let atNew := updates.filterMap fun update => handler.documentAt repoID update.newOID
  let atOld := updates.filterMap fun update => handler.documentAt repoID update.oldOID
  if atNew ≠ [] then atNew
  else if atOld ≠ [] then atOld
  else [((handler.blobs.readBlob repoID (utf8 "HEAD") agentsMdPath).toOption).getD []]

section Candidates

variable {platform : Platform} {handler : Handler} {repoID : Text}

theorem tryOID_eq (noInfra : handler.blobs.NoInfraError repoID) (oid : Text) :
    handler.tryOID repoID oid = .ok (handler.documentAt repoID oid) := by
  unfold Handler.tryOID Handler.documentAt
  split
  · rfl
  · cases read : handler.blobs.readBlob repoID oid agentsMdPath with
    | ok data => rfl
    | error failure => simp [noInfra oid failure read, Except.toOption]

theorem tryOIDs_eq (noInfra : handler.blobs.NoInfraError repoID) (oids : List Text) :
    handler.tryOIDs repoID oids = .ok (oids.filterMap (handler.documentAt repoID)).head? := by
  induction oids with
  | nil => rfl
  | cons oid rest inductionHypothesis =>
      rw [Handler.tryOIDs, tryOID_eq noInfra, List.filterMap_cons]
      cases handler.documentAt repoID oid with
      | some data => rfl
      | none => exact inductionHypothesis

/-- The hook reads the first of the candidates. -/
theorem readRepoPolicy_eq (noInfra : handler.blobs.NoInfraError repoID)
    (updates : List RefUpdate) :
    ∃ document ∈ (handler.candidates repoID updates).head?,
      handler.readRepoPolicy repoID updates = .ok document := by
  simp only [Handler.readRepoPolicy, tryOIDs_eq noInfra, List.filterMap_map, Handler.candidates,
    Function.comp_def]
  cases updates.filterMap fun update => handler.documentAt repoID update.newOID with
  | cons document rest => simp
  | nil =>
      cases updates.filterMap fun update => handler.documentAt repoID update.oldOID with
      | cons document rest => simp
      | nil =>
          simp only [Handler.readHead]
          cases read : handler.blobs.readBlob repoID (utf8 "HEAD") agentsMdPath with
          | ok data => simp [Except.toOption]
          | error failure => simp [Except.toOption, noInfra _ failure read]

/-- A reordering has the same candidates. -/
theorem mem_candidates_of_perm {updates shuffled : List RefUpdate}
    (perm : shuffled.Perm updates) {document : Text}
    (listed : document ∈ handler.candidates repoID shuffled) :
    document ∈ handler.candidates repoID updates := by
  have atNew := perm.filterMap fun update => handler.documentAt repoID update.newOID
  have atOld := perm.filterMap fun update => handler.documentAt repoID update.oldOID
  have newEmpty := atNew.length_eq
  have oldEmpty := atOld.length_eq
  simp only [Handler.candidates, ne_eq, ← List.length_eq_zero_iff, newEmpty, oldEmpty] at listed ⊢
  split at listed
  · next present =>
      rw [if_pos present]
      exact atNew.mem_iff.mp listed
  · next absent =>
      rw [if_neg absent]
      split at listed
      · next present =>
          rw [if_pos present]
          exact atOld.mem_iff.mp listed
      · next none_old =>
          rw [if_neg none_old]
          exact listed

/-- Every candidate comes first in some reordering of the push. -/
theorem exists_perm_head {updates : List RefUpdate} {document : Text}
    (listed : document ∈ handler.candidates repoID updates) :
    ∃ shuffled, shuffled.Perm updates ∧
      (handler.candidates repoID shuffled).head? = some document := by
  by_cases present : (updates.filterMap fun update =>
      handler.documentAt repoID update.newOID) = []
  · by_cases presentOld : (updates.filterMap fun update =>
        handler.documentAt repoID update.oldOID) = []
    · -- Only the document at `HEAD` is left, in any order.
      refine ⟨updates, List.Perm.refl _, ?_⟩
      simp only [Handler.candidates, present, presentOld, ne_eq, not_true_eq_false, if_false,
        List.mem_singleton] at listed ⊢
      rw [listed]
      rfl
    · simp only [Handler.candidates, present, presentOld, ne_eq, not_true_eq_false,
        not_false_eq_true, if_false, if_true] at listed
      obtain ⟨update, member, found⟩ := List.mem_filterMap.mp listed
      have perm := (List.perm_cons_erase member).symm
      refine ⟨_, perm, ?_⟩
      have none_new : ((update :: updates.erase update).filterMap fun update =>
          handler.documentAt repoID update.newOID) = [] :=
        List.perm_nil.mp (present ▸ perm.filterMap _)
      simp [Handler.candidates, none_new, found]
  · simp only [Handler.candidates, present, ne_eq, not_false_eq_true, if_true] at listed
    obtain ⟨update, member, found⟩ := List.mem_filterMap.mp listed
    refine ⟨_, (List.perm_cons_erase member).symm, ?_⟩
    simp [Handler.candidates, found]

/-- The order of the updates does not matter exactly when the document that is found first
lets the push pass only if every other candidate does. -/
theorem preReceive_perm_iff (platform : Platform) (handler : Handler) (repoID : Text)
    (noInfra : handler.blobs.NoInfraError repoID) (orgBytes : Text)
    (resolved : handler.policies repoID = .ok orgBytes) (updates : List RefUpdate) :
    (handler.preReceive repoID platform updates = none ↔
        ∀ shuffled, shuffled.Perm updates →
          handler.preReceive repoID platform shuffled = none) ↔
      ∀ first ∈ (handler.candidates repoID updates).head?,
        Passes platform handler repoID orgBytes updates first →
        ∀ document ∈ handler.candidates repoID updates,
          Passes platform handler repoID orgBytes updates document := by
  obtain ⟨first, isFirst, read⟩ := readRepoPolicy_eq noInfra updates
  rw [preReceive_eq_none_iff read resolved]
  constructor
  · intro symmetric other otherFirst passes document listed
    cases otherFirst.symm.trans isFirst
    obtain ⟨shuffled, perm, head⟩ := exists_perm_head listed
    obtain ⟨chosen, isChosen, readShuffled⟩ := readRepoPolicy_eq noInfra shuffled
    cases head.symm.trans isChosen
    have accepted := symmetric.mp passes shuffled perm
    rw [preReceive_eq_none_iff readShuffled resolved] at accepted
    exact (passes_perm perm).mp accepted
  · intro strict
    constructor
    · intro passes shuffled perm
      obtain ⟨chosen, isChosen, readShuffled⟩ := readRepoPolicy_eq noInfra shuffled
      rw [preReceive_eq_none_iff readShuffled resolved]
      have listed := mem_candidates_of_perm perm (List.mem_of_mem_head? isChosen)
      exact (passes_perm perm).mpr (strict first isFirst passes chosen listed)
    · intro every
      have accepted := every updates (List.Perm.refl _)
      exact (preReceive_eq_none_iff read resolved).mp accepted

end Candidates

/-- A reader that knows the documents at some tips. -/
def tipReader (documents : List (Text × Text)) : BlobReader where
  readBlob := fun _ ref _ =>
    match documents.lookup ref with
    | some data => .ok data
    | none => .error ⟨utf8 "agentsmd/hook: blob not found", [.hookBlobNotFound]⟩
  listChangedPaths := fun _ _ _ => .ok []
  blobSize := fun _ _ _ => .ok 0
  isFastForward := fun _ _ _ => .ok true

theorem tipReader_noInfraError (documents : List (Text × Text)) (repoID : Text) :
    (tipReader documents).NoInfraError repoID := by
  intro ref failure failed
  simp only [tipReader] at failed
  split at failed
  · cases failed
  · cases failed
    rfl

/-- Two branches with different documents: only the one on `dev` forbids pushes to
`main`. -/
def twoTips : Handler where
  blobs := tipReader [(utf8 "b1", neverDocument ["delete_branch: main"]),
    (utf8 "c1", neverDocument ["push_to_branch: main"])]
  policies := fun _ => .ok []

def mainUpdate : RefUpdate := ⟨utf8 "refs/heads/main", utf8 "a1", utf8 "b1"⟩

def devUpdate : RefUpdate := ⟨utf8 "refs/heads/dev", utf8 "a1", utf8 "c1"⟩

/-- Two branches with different documents, each of which lets a push to both pass. -/
def agreeingTips : Handler where
  blobs := tipReader [(utf8 "b1", neverDocument ["delete_branch: main"]),
    (utf8 "c1", neverDocument ["delete_branch: dev"])]
  policies := fun _ => .ok []

theorem preReceive_perm_iff_agreeingTips :
    agreeingTips.preReceive (utf8 "repo") plainPlatform [mainUpdate, devUpdate] = none ∧
      ∀ shuffled, shuffled.Perm [mainUpdate, devUpdate] →
        agreeingTips.preReceive (utf8 "repo") plainPlatform shuffled = none := by
  have accepted : agreeingTips.preReceive (utf8 "repo") plainPlatform [mainUpdate, devUpdate] =
      none := by decide
  have both : agreeingTips.candidates (utf8 "repo") [mainUpdate, devUpdate] =
      [neverDocument ["delete_branch: main"], neverDocument ["delete_branch: dev"]] := by decide
  have passing : ∀ document ∈ agreeingTips.candidates (utf8 "repo") [mainUpdate, devUpdate],
      Passes plainPlatform agreeingTips (utf8 "repo") [] [mainUpdate, devUpdate] document := by
    rw [both]
    intro document listed
    rcases List.mem_pair.mp listed with rfl | rfl
    · rfl
    · rfl
  have symmetric := (preReceive_perm_iff plainPlatform agreeingTips (utf8 "repo")
    (tipReader_noInfraError _ _) [] rfl [mainUpdate, devUpdate]).mpr fun _ _ _ => passing
  exact ⟨accepted, symmetric.mp accepted⟩

/-- With `main` first the push is accepted, with `dev` first it is rejected. -/
theorem preReceive_order_matters :
    ¬ ∀ (platform : Platform) (handler : Handler) (repoID orgBytes : Text),
      handler.blobs.NoInfraError repoID → handler.policies repoID = .ok orgBytes →
      ∀ updates : List RefUpdate,
        (handler.preReceive repoID platform updates = none ↔
          ∀ shuffled, shuffled.Perm updates →
            handler.preReceive repoID platform shuffled = none) := by
  intro symmetric
  have accepted : twoTips.preReceive (utf8 "repo") plainPlatform [mainUpdate, devUpdate] =
      none := by decide
  have rejected : twoTips.preReceive (utf8 "repo") plainPlatform [devUpdate, mainUpdate] ≠
      none := by decide
  have every := (symmetric plainPlatform twoTips (utf8 "repo") []
    (tipReader_noInfraError _ _) rfl [mainUpdate, devUpdate]).mp accepted
  exact rejected (every [devUpdate, mainUpdate] (List.Perm.swap _ _ _))

end GitScale.AgentsMd
