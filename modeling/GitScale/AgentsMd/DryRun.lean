import GitScale.AgentsMd.Hook
import GitScale.Go.UUID

/-!
# Policies seen through the MCP tools

`agents_md_get` shows an agent the policy of a repository, and `agents_md_evaluate` judges a push
that the agent describes.  Neither goes through the hook: each finds the documents on its own, and
the second one answers the questions of the predicates from the description.  The results below
relate both to the verdict of the hook on the push itself.
-/

namespace GitScale.AgentsMd

open Go

/-! ## The policy of the organisation -/

/-- An error of a `RepoMetadata`: one with `policystore.ErrNotFound` in its chain, or another. -/
inductive LookupFailure where
  | notFound
  | infra (failure : Failure)

/-- `RepoMetadata`. -/
structure RepoMetadata where
  lookupRepoSlug : Text → Except LookupFailure (Text × Text)
  lookupRepoIDBySlug : Text → Text → Except LookupFailure Text

/-- `AgentsPolicyRepoSlug`. -/
def agentsPolicyRepoSlug : Text := utf8 ".gitscale-agents"

/-- `ServicePolicyStore.ResolveOrgPolicyBytes`; nil bytes are an empty document. -/
def resolveOrgPolicyBytes (metadata : RepoMetadata) (blobs : BlobReader) (repoID : Text) :
    Except Failure Text :=
  match metadata.lookupRepoSlug repoID with
  | .error .notFound => .ok []
  | .error (.infra failure) =>
      .error (failure.wrap (utf8 "policystore: lookup repo " ++ repoID ++ utf8 ": "))
  | .ok (orgSlug, _) =>
      match metadata.lookupRepoIDBySlug orgSlug agentsPolicyRepoSlug with
      | .error .notFound => .ok []
      | .error (.infra failure) =>
          .error (failure.wrap (utf8 "policystore: lookup " ++ orgSlug ++ utf8 "/" ++
            agentsPolicyRepoSlug ++ utf8 ": "))
      | .ok policyRepoID =>
          match blobs.readBlob policyRepoID (utf8 "HEAD") agentsMdPath with
          | .ok data => .ok data
          | .error failure =>
              if failure.is .hookBlobNotFound then .ok []
              else .error (failure.wrap (utf8 "policystore: read org AGENTS.md: "))

/-- The hook over the production `PolicyStore`. -/
def policyHandler (metadata : RepoMetadata) (blobs : BlobReader) : Handler :=
  ⟨blobs, resolveOrgPolicyBytes metadata blobs⟩

/-! ## The tool `agents_md_get` -/

/-- What a tool may return instead of a result. -/
inductive ToolFailure where
  | notImplemented
  | invalidSlug (detail : Text)
  | repositoryNotFound
  | other (failure : Failure)

/-- The `Deps` that the tools use; a missing one is nil.  Of the repository that `GetRepository`
returns only its presence is read. -/
structure ToolDeps where
  repositories : Option (UUID → Except ToolFailure Bool)
  blobReader : Option BlobReader
  orgPolicy : Option RepoMetadata

/-- `AgentsMDPredicate`. -/
structure AgentsMDPredicate where
  name : Text
  branchGlob : Text
  pathGlob : Text
  maxBytes : Int64
  deriving DecidableEq

/-- The entry of `agents_md_get` for a predicate. -/
def AgentsMDPredicate.of (predicate : NeverPredicate) : AgentsMDPredicate :=
  ⟨predicate.name.text, predicate.selector.branchGlob, predicate.selector.pathGlob,
    predicate.selector.maxBytes⟩

/-- `AgentsMDGetResult`. -/
structure AgentsMDGetResult where
  schemaVersion : Text
  empty : Bool
  never : List AgentsMDPredicate
  deriving DecidableEq

/-- The result of `agents_md_get` for a policy. -/
def AgentsMDGetResult.of (policy : Policy) : AgentsMDGetResult :=
  ⟨policy.schemaVersion, policy.empty, policy.never.map AgentsMDPredicate.of⟩

section Tools

variable (parseUUID : Text → Option UUID) (platform : Platform)

/-- `agentsMDGetHandler`, for the `uuid.Parse` of the platform. -/
def agentsMDGet (deps : ToolDeps) (repoID : Text) : Except ToolFailure AgentsMDGetResult :=
  match deps.repositories, deps.blobReader with
  | some getRepository, some blobs =>
      match parseUUID repoID with
      | none => .error (.invalidSlug (utf8 "repo_id is not a UUID"))
      | some id =>
          match getRepository id with
          | .error failure => .error failure
          | .ok false => .error .repositoryNotFound
          | .ok true =>
              let canonical := utf8 (formatUUID id)
              let resolved : Except Failure Text :=
                match deps.orgPolicy with
                | none => .ok []
                | some metadata => resolveOrgPolicyBytes metadata blobs canonical
              match resolved with
              | .error failure => .error (.other failure)
              | .ok orgBytes =>
                  match blobs.readBlob canonical (utf8 "HEAD") agentsMdPath with
                  | .ok repoBytes => .ok (.of (Handler.mergedPolicy platform orgBytes repoBytes))
                  | .error failure =>
                      if failure.is .hookBlobNotFound then
                        .ok (.of (Handler.mergedPolicy platform orgBytes []))
                      else .error (.other failure)
  | _, _ => .error .notImplemented

/-! ## The tool `agents_md_evaluate` -/

/-- `inMemoryFileResolver`. -/
def inMemoryFileResolver (changed : List Text) (sizes : Text → Option Int64)
    (fastFwd : Text → Option Bool) (fastFwdOK : Bool) : FileResolver where
  changed := fun _ _ => .ok changed
  size := fun _ path => .ok ((sizes path).getD 0)
  isFastForward := fun oldOID newOID =>
    .ok ((fastFwd (oldOID ++ utf8 ":" ++ newOID)).getD fastFwdOK)

/-- `agentsMDEvaluateParams`. -/
structure AgentsMDEvaluateParams where
  repoID : Text
  updates : List RefUpdate
  changedPaths : List Text
  fileSizes : Text → Option Int64
  agentsMDContent : Text
  isFastForward : Text → Option Bool

def AgentsMDEvaluateParams.resolver (params : AgentsMDEvaluateParams) : FileResolver :=
  inMemoryFileResolver params.changedPaths params.fileSizes params.isFastForward true

/-- The document that `agents_md_evaluate` judges by.  What goes wrong with reading it makes it
empty. -/
def AgentsMDEvaluateParams.content (params : AgentsMDEvaluateParams)
    (blobReader : Option BlobReader) : Text :=
  if params.agentsMDContent ≠ [] then params.agentsMDContent
  else
    match blobReader with
    | none => []
    | some blobs =>
        if params.repoID = [] then []
        else
          match blobs.readBlob params.repoID (utf8 "HEAD") agentsMdPath with
          | .ok data => data
          | .error _ => []

/-- `AgentsMDViolation`. -/
structure AgentsMDViolation where
  predicate : Text
  refName : Text
  reason : Text
  deriving DecidableEq

def AgentsMDViolation.of (violation : Violation) : AgentsMDViolation :=
  ⟨violation.predicate.name.text, violation.refName, violation.reason⟩

/-- `agentsMDEvaluateHandler`, from its decoded parameters on. -/
def agentsMDEvaluate (deps : ToolDeps) (params : AgentsMDEvaluateParams) :
    Except Failure (List AgentsMDViolation) :=
  let policy := (parse platform (params.content deps.blobReader)).1
  match evaluate platform (some policy) params.updates (some params.resolver) with
  | .error failure => .error failure
  | .ok violations => .ok (violations.map AgentsMDViolation.of)

end Tools

/-! ## Resolvers that agree -/

/-- Two resolvers agree on what the predicates ask about an update: the changed paths, their sizes,
and the ancestry of two commits that both exist. -/
structure FileResolver.Agrees (left right : FileResolver) (upd : RefUpdate) : Prop where
  changed : left.changed upd.oldOID upd.newOID = right.changed upd.oldOID upd.newOID
  size : ∀ paths, right.changed upd.oldOID upd.newOID = .ok paths → ∀ path ∈ paths,
    left.size upd.newOID path = right.size upd.newOID path
  isFastForward : upd.oldOID ≠ zeroOID → upd.newOID ≠ zeroOID →
    left.isFastForward upd.oldOID upd.newOID = right.isFastForward upd.oldOID upd.newOID

section Agrees

variable {platform : Platform} {left right : FileResolver}

theorem firstOverSize_congr {oid : Text} {maxBytes : Int64} {paths : List Text}
    (size : ∀ path ∈ paths, left.size oid path = right.size oid path) :
    firstOverSize platform left oid maxBytes paths =
      firstOverSize platform right oid maxBytes paths := by
  induction paths with
  | nil => rfl
  | cons path rest inductionHypothesis =>
      rw [List.forall_mem_cons] at size
      rw [firstOverSize, firstOverSize, size.1, inductionHypothesis size.2]

theorem FileResolver.Agrees.matchPredicate {upd : RefUpdate} (agrees : left.Agrees right upd)
    (pred : NeverPredicate) :
    AgentsMd.matchPredicate platform (some left) pred upd =
      AgentsMd.matchPredicate platform (some right) pred upd := by
  unfold AgentsMd.matchPredicate
  cases pred.name with
  | deleteBranch => rfl
  | pushToBranch => rfl
  | forcePushToBranch =>
      simp only
      split
      · rfl
      · split
        · rfl
        · next present =>
            rw [not_or] at present
            rw [agrees.isFastForward present.1 present.2]
  | modifyPath => simp only [agrees.changed]
  | pushBinaryOverSize =>
      simp only [agrees.changed]
      cases asked : right.changed upd.oldOID upd.newOID with
      | error failure => rfl
      | ok paths => exact firstOverSize_congr (agrees.size paths asked)
  | unknown text => rfl

theorem evaluatePairs_congr {files others : Option FileResolver}
    {pairs : List (NeverPredicate × RefUpdate)}
    (same : ∀ pair ∈ pairs, matchPredicate platform files pair.1 pair.2 =
      matchPredicate platform others pair.1 pair.2) :
    evaluatePairs platform files pairs = evaluatePairs platform others pairs := by
  induction pairs with
  | nil => rfl
  | cons pair rest inductionHypothesis =>
      rw [List.forall_mem_cons] at same
      rw [evaluatePairs, evaluatePairs, same.1, inductionHypothesis same.2]

theorem evaluate_of_agrees {policy : Option Policy} {updates : List RefUpdate}
    (agrees : ∀ upd ∈ updates, left.Agrees right upd) :
    evaluate platform policy updates (some left) =
      evaluate platform policy updates (some right) := by
  apply evaluatePairs_congr
  rintro ⟨pred, upd⟩ member
  exact (agrees upd (mem_pairsOf.mp member).2).matchPredicate pred

end Agrees

/-! ## What an agent reads out of the tools -/

/-- The predicate behind an entry of `agents_md_get`. -/
def AgentsMDPredicate.predicate (entry : AgentsMDPredicate) : NeverPredicate :=
  ⟨PredicateName.ofText entry.name, ⟨entry.branchGlob, entry.pathGlob, entry.maxBytes⟩⟩

/-- The policy behind a result of `agents_md_get`. -/
def AgentsMDGetResult.policy (result : AgentsMDGetResult) : Policy :=
  ⟨result.schemaVersion, result.empty, result.never.map AgentsMDPredicate.predicate⟩

theorem policy_of_shaped {policy : Policy}
    (shaped : ∀ predicate ∈ policy.never, predicate.Shaped) :
    (AgentsMDGetResult.of policy).policy = policy := by
  have entries : ∀ predicate ∈ policy.never,
      (AgentsMDPredicate.predicate ∘ AgentsMDPredicate.of) predicate = id predicate := by
    intro predicate listed
    have named := (text_spec _ (shaped predicate listed).known).2
    simp only [Function.comp_apply, AgentsMDPredicate.of, AgentsMDPredicate.predicate, named, id]
  simp only [AgentsMDGetResult.of, AgentsMDGetResult.policy, List.map_map]
  rw [List.map_congr_left entries, List.map_id]

/-- The merged predicates have the shape of the parser's. -/
theorem mergedPolicy_shaped (platform : Platform) (orgBytes repoBytes : Text) :
    ∀ predicate ∈ (Handler.mergedPolicy platform orgBytes repoBytes).never,
      predicate.Shaped := by
  intro predicate listed
  have org := parse_wellFormed platform orgBytes
  have repo := parse_wellFormed platform repoBytes
  rcases (mem_merge_iff org repo).mp listed with fromOrg | fromRepo
  · exact org.shaped predicate fromOrg
  · exact repo.shaped predicate fromRepo

/-- A description of a push that is true of what a resolver says about it. -/
structure AgentsMDEvaluateParams.Truthful (params : AgentsMDEvaluateParams)
    (files : FileResolver) : Prop where
  agrees : ∀ upd ∈ params.updates, files.Agrees params.resolver upd

/-- A description of a push that leaves nothing out: it may list more paths, larger sizes and more
forced updates than a resolver reports. -/
structure AgentsMDEvaluateParams.Covers (params : AgentsMDEvaluateParams)
    (files : FileResolver) : Prop where
  changed : ∀ upd ∈ params.updates, ∃ paths, files.changed upd.oldOID upd.newOID = .ok paths ∧
    ∀ path ∈ paths, path ∈ params.changedPaths ∧ ∃ size, files.size upd.newOID path = .ok size ∧
      size ≤ (params.fileSizes path).getD 0
  isFastForward : ∀ upd ∈ params.updates, upd.oldOID ≠ zeroOID → upd.newOID ≠ zeroOID →
    ∃ answer, files.isFastForward upd.oldOID upd.newOID = .ok answer ∧
      (params.resolver.isFastForward upd.oldOID upd.newOID = .ok true → answer = true)

section Verdicts

variable {platform : Platform}

theorem AgentsMDEvaluateParams.resolver_neverFails (params : AgentsMDEvaluateParams) :
    params.resolver.NeverFails where
  changed _ _ := ⟨params.changedPaths, rfl⟩
  size _ path := ⟨(params.fileSizes path).getD 0, rfl⟩
  isFastForward _ _ := ⟨_, rfl⟩

theorem evaluate_of_neverFails {files : FileResolver} (neverFails : files.NeverFails)
    (policy : Option Policy) (updates : List RefUpdate) :
    evaluate platform policy updates (some files) =
      .ok ((pairsOf (enforced policy) updates).filterMap (violationOf platform (some files))) :=
  evaluatePairs_of_total fun pair _ => (neverFails.answers pair.2).matchPredicate pair.1

/-- The violations of a policy are those that a larger policy has of its predicates, in another
order. -/
theorem violations_perm {files : Option FileResolver} {policy larger : List NeverPredicate}
    (nodup : policy.Nodup) (largerNodup : larger.Nodup) (subset : policy ⊆ larger)
    (updates : List RefUpdate) :
    ((pairsOf policy updates).filterMap (violationOf platform files)).Perm
      (((pairsOf larger updates).filterMap (violationOf platform files)).filter
        fun violation => violation.predicate ∈ policy) := by
  rw [← violations_filter larger updates fun predicate => predicate ∈ policy]
  have rearranged : policy.Perm (larger.filter fun predicate => predicate ∈ policy) := by
    apply (List.perm_ext_iff_of_nodup nodup (largerNodup.filter _)).mpr
    intro predicate
    simp only [List.mem_filter, decide_eq_true_eq]
    exact ⟨fun listed => ⟨subset listed, listed⟩, fun both => both.2⟩
  exact (rearranged.flatMap_right _).filterMap _

theorem firstOverSize_eq_none_iff {files : FileResolver} {oid : Text} {maxBytes : Int64}
    {paths : List Text} :
    firstOverSize platform files oid maxBytes paths = .ok none ↔
      ∀ path ∈ paths, ∃ size, files.size oid path = .ok size ∧ size ≤ maxBytes := by
  induction paths with
  | nil => simp [firstOverSize]
  | cons path rest inductionHypothesis =>
      rw [firstOverSize, List.forall_mem_cons, ← inductionHypothesis]
      cases asked : files.size oid path with
      | error failure => simp
      | ok size =>
          by_cases larger : size > maxBytes
          · simp [larger, Int64.not_le.mpr larger]
          · simp [larger, Int64.not_lt.mp larger]

/-- A predicate that does not match a description does not match a push that it covers. -/
theorem AgentsMDEvaluateParams.Covers.matchPredicate {params : AgentsMDEvaluateParams}
    {files : FileResolver} (covers : params.Covers files) {upd : RefUpdate}
    (member : upd ∈ params.updates) {pred : NeverPredicate}
    (quiet : AgentsMd.matchPredicate platform (some params.resolver) pred upd = .ok none) :
    AgentsMd.matchPredicate platform (some files) pred upd = .ok none := by
  obtain ⟨paths, changed, described⟩ := covers.changed upd member
  unfold AgentsMd.matchPredicate at quiet ⊢
  cases name : pred.name with
  | deleteBranch => simpa only [name] using quiet
  | pushToBranch => simpa only [name] using quiet
  | forcePushToBranch =>
      simp only [name] at quiet ⊢
      split
      · rfl
      · next listed =>
          rw [if_neg listed] at quiet
          split
          · rfl
          · next present =>
              rw [if_neg present] at quiet
              rw [not_or] at present
              obtain ⟨answer, asked, true_of_described⟩ :=
                covers.isFastForward upd member present.1 present.2
              have forward : answer = true := by
                apply true_of_described
                cases described : params.resolver.isFastForward upd.oldOID upd.newOID with
                | error failure => simp [described] at quiet
                | ok answer =>
                    cases answer with
                    | false => simp [described] at quiet
                    | true => rfl
              simp only [asked, forward]
  | modifyPath =>
      simp only [name, changed, AgentsMDEvaluateParams.resolver, inMemoryFileResolver,
        Except.ok.injEq, Option.map_eq_none_iff, List.find?_eq_none] at quiet ⊢
      exact fun path listed => quiet path (described path listed).1
  | pushBinaryOverSize =>
      simp only [name, changed, AgentsMDEvaluateParams.resolver, inMemoryFileResolver] at quiet ⊢
      rw [firstOverSize_eq_none_iff] at quiet ⊢
      intro path listed
      obtain ⟨named, size, asked, bounded⟩ := described path listed
      obtain ⟨limit, known, within⟩ := quiet path named
      cases known
      exact ⟨size, asked, Int64.le_trans bounded within⟩
  | unknown text => rfl

end Verdicts

/-! ## The tools and the hook -/

/-- What the hook answers after an evaluation. -/
def verdictOf : Except Failure (List Violation) → Option Failure
  | .error failure => some (failure.wrap (utf8 "agentsmd: evaluate: "))
  | .ok violations =>
      if violations = [] then none else some (Handler.formatViolations violations)

section Preflight

variable {platform : Platform} {parseUUID : Text → Option UUID} {metadata : RepoMetadata}
variable {blobs : BlobReader} {getRepository : UUID → Except ToolFailure Bool}
variable {params : AgentsMDEvaluateParams}

/-- The tools and the hook are asked about one repository, which exists, and the push leaves the
document of the repository as it is at `HEAD`, which is also what the description quotes if it
quotes one. -/
structure Preflight (parseUUID : Text → Option UUID) (metadata : RepoMetadata)
    (blobs : BlobReader) (getRepository : UUID → Except ToolFailure Bool)
    (params : AgentsMDEvaluateParams) : Prop where
  known : ∃ id, params.repoID = utf8 (formatUUID id) ∧ parseUUID params.repoID = some id ∧
    getRepository id = .ok true
  unmoved : (policyHandler metadata blobs).readRepoPolicy params.repoID params.updates =
    (policyHandler metadata blobs).readHead params.repoID
  quoted : params.agentsMDContent ≠ [] →
    (policyHandler metadata blobs).readHead params.repoID = .ok params.agentsMDContent

namespace Preflight

variable (preflight : Preflight parseUUID metadata blobs getRepository params)

include preflight

theorem agentsMDGet_eq :
    agentsMDGet parseUUID platform ⟨some getRepository, some blobs, some metadata⟩
        params.repoID =
      match resolveOrgPolicyBytes metadata blobs params.repoID,
          (policyHandler metadata blobs).readHead params.repoID with
      | .error failure, _ => .error (.other failure)
      | .ok _, .error failure => .error (.other failure)
      | .ok orgBytes, .ok document =>
          .ok (.of (Handler.mergedPolicy platform orgBytes document)) := by
  obtain ⟨id, canonical, parsed, known⟩ := preflight.known
  simp only [agentsMDGet, parsed, known, ← canonical, Handler.readHead, policyHandler]
  cases resolveOrgPolicyBytes metadata blobs params.repoID with
  | error failure => rfl
  | ok orgBytes =>
      cases blobs.readBlob params.repoID (utf8 "HEAD") agentsMdPath with
      | ok document => rfl
      | error failure =>
          simp only
          split
          · rfl
          · rfl

theorem content_eq {document : Text}
    (head : (policyHandler metadata blobs).readHead params.repoID = .ok document) :
    params.content (some blobs) = document := by
  unfold AgentsMDEvaluateParams.content
  split
  · next quotes =>
      rw [preflight.quoted quotes] at head
      cases head
      rfl
  · obtain ⟨id, canonical, -, -⟩ := preflight.known
    have named : params.repoID ≠ [] := by
      intro unnamed
      rw [canonical] at unnamed
      exact formatUUID_ne_empty id (utf8_injective unnamed)
    simp only [Handler.readHead, policyHandler] at head
    cases answer : blobs.readBlob params.repoID (utf8 "HEAD") agentsMdPath with
    | ok data =>
        simp only [answer, Except.ok.injEq] at head
        simp only [named, if_false, answer]
        exact head
    | error failure =>
        simp only [answer] at head
        simp only [named, if_false, answer]
        split at head
        · exact Except.ok.inj head
        · cases head

/-- What a result of `agents_md_get` says about the documents. -/
theorem documents {result : AgentsMDGetResult}
    (shown : agentsMDGet parseUUID platform ⟨some getRepository, some blobs, some metadata⟩
      params.repoID = .ok result) :
    ∃ orgBytes, resolveOrgPolicyBytes metadata blobs params.repoID = .ok orgBytes ∧
      (policyHandler metadata blobs).readHead params.repoID =
        .ok (params.content (some blobs)) ∧
      result.policy =
        Handler.mergedPolicy platform orgBytes (params.content (some blobs)) := by
  rw [preflight.agentsMDGet_eq] at shown
  cases resolved : resolveOrgPolicyBytes metadata blobs params.repoID with
  | error failure => simp [resolved] at shown
  | ok orgBytes =>
      cases head : (policyHandler metadata blobs).readHead params.repoID with
      | error failure => simp [resolved, head] at shown
      | ok document =>
          simp only [resolved, head, Except.ok.injEq] at shown
          refine ⟨orgBytes, rfl, ?_⟩
          rw [preflight.content_eq head, ← shown]
          exact ⟨rfl, policy_of_shaped (mergedPolicy_shaped platform orgBytes document)⟩

/-- Where `agents_md_get` fails, so does the hook. -/
theorem preReceive_of_error {failure : ToolFailure}
    (failed : agentsMDGet parseUUID platform ⟨some getRepository, some blobs, some metadata⟩
      params.repoID = .error failure) :
    (policyHandler metadata blobs).preReceive params.repoID platform params.updates ≠ none := by
  rw [preflight.agentsMDGet_eq] at failed
  rw [Handler.preReceive, preflight.unmoved]
  cases head : (policyHandler metadata blobs).readHead params.repoID with
  | error failure => simp
  | ok document =>
      cases resolved : resolveOrgPolicyBytes metadata blobs params.repoID with
      | error failure => simp [policyHandler, resolved]
      | ok orgBytes => simp [head, resolved] at failed

/-- The hook decides by the policy that `agents_md_get` shows. -/
theorem preReceive_eq_none_iff {result : AgentsMDGetResult}
    (shown : agentsMDGet parseUUID platform ⟨some getRepository, some blobs, some metadata⟩
      params.repoID = .ok result) :
    (policyHandler metadata blobs).preReceive params.repoID platform params.updates = none ↔
      ∀ predicate ∈ result.policy.never, ∀ upd ∈ params.updates,
        matchPredicate platform (some (blobs.resolver params.repoID)) predicate upd =
          .ok none := by
  obtain ⟨orgBytes, resolved, head, policy⟩ := preflight.documents shown
  rw [AgentsMd.preReceive_eq_none_iff (preflight.unmoved.trans head) resolved, Passes,
    evaluate_eq_nil_iff, policy]
  unfold Handler.mergedPolicy
  rw [enforced_merge]
  rfl

/-- The hook answers what an evaluation of the policy that `agents_md_get` shows leads to. -/
theorem preReceive_eq_verdictOf {result : AgentsMDGetResult}
    (shown : agentsMDGet parseUUID platform ⟨some getRepository, some blobs, some metadata⟩
      params.repoID = .ok result) :
    (policyHandler metadata blobs).preReceive params.repoID platform params.updates =
      verdictOf (evaluate platform (some result.policy) params.updates
        (some (blobs.resolver params.repoID))) := by
  obtain ⟨orgBytes, resolved, head, policy⟩ := preflight.documents shown
  rw [Handler.preReceive, preflight.unmoved.trans head, policy]
  simp only [policyHandler, resolved]
  split
  · next empty =>
      have enforcedNone : enforced (some (Handler.mergedPolicy platform orgBytes
          (params.content (some blobs)))) = [] := by
        simp [enforced, empty]
      rw [evaluate, enforcedNone]
      rfl
  · rfl

omit preflight in
theorem agentsMDEvaluate_eq (deps : ToolDeps) :
    agentsMDEvaluate platform deps params =
      .ok (((pairsOf (parse platform (params.content deps.blobReader)).1.never
        params.updates).filterMap (violationOf platform (some params.resolver))).map
          AgentsMDViolation.of) := by
  rw [agentsMDEvaluate, evaluate_of_neverFails params.resolver_neverFails,
    enforced_of_wellFormed (parse_wellFormed platform _)]

end Preflight

/-- What the tools tell about a push.  Where `agents_md_get` fails, the hook rejects.  Otherwise
the hook answers by the violations of the policy that `agents_md_get` shows, and a truthful
`agents_md_evaluate` lists those of the rules that its document declares. -/
theorem preReceive_of_tools (platform : Platform)
    (preflight : Preflight parseUUID metadata blobs getRepository params) :
    let deps : ToolDeps := ⟨some getRepository, some blobs, some metadata⟩
    let verdict := (policyHandler metadata blobs).preReceive params.repoID platform params.updates
    (∀ failure, agentsMDGet parseUUID platform deps params.repoID = .error failure →
        verdict ≠ none) ∧
      ∀ result, agentsMDGet parseUUID platform deps params.repoID = .ok result →
        let evaluated := evaluate platform (some result.policy) params.updates
          (some (blobs.resolver params.repoID))
        verdict = verdictOf evaluated ∧
          (params.Truthful (blobs.resolver params.repoID) →
            ∃ found reported, evaluated = .ok found ∧
              agentsMDEvaluate platform deps params = .ok reported ∧
              reported.Perm ((found.filter fun violation => violation.predicate ∈
                (parse platform (params.content deps.blobReader)).1.never).map
                  AgentsMDViolation.of)) := by
  refine ⟨fun failure => preflight.preReceive_of_error, ?_⟩
  intro result shown
  refine ⟨preflight.preReceive_eq_verdictOf shown, ?_⟩
  intro truthful
  obtain ⟨orgBytes, -, -, policy⟩ := preflight.documents shown
  have org := parse_wellFormed platform orgBytes
  have repo := parse_wellFormed platform (params.content (some blobs))
  -- On this push the reader of the hook and the description give the same answers.
  have evaluated : evaluate platform (some result.policy) params.updates
      (some (blobs.resolver params.repoID)) = .ok ((pairsOf result.policy.never
        params.updates).filterMap (violationOf platform (some params.resolver))) := by
    rw [evaluate_of_agrees truthful.agrees,
      evaluate_of_neverFails params.resolver_neverFails, policy]
    unfold Handler.mergedPolicy
    rw [enforced_merge]
  refine ⟨_, _, evaluated, Preflight.agentsMDEvaluate_eq _, List.Perm.map _ ?_⟩
  rw [policy]
  apply violations_perm (nodup_of_wellFormed repo) (merge_nodup org repo)
  intro predicate listed
  exact (mem_merge_iff org repo).mpr (Or.inr listed)

/-- After a silent `agents_md_evaluate` whose description covers the push, only rules that
`agents_md_get` shows and the document of the repository does not declare can stop it. -/
theorem preReceive_of_silence (platform : Platform)
    (preflight : Preflight parseUUID metadata blobs getRepository params)
    (covers : params.Covers (blobs.resolver params.repoID)) (result : AgentsMDGetResult) :
    let deps : ToolDeps := ⟨some getRepository, some blobs, some metadata⟩
    agentsMDGet parseUUID platform deps params.repoID = .ok result →
    agentsMDEvaluate platform deps params = .ok [] →
    ((policyHandler metadata blobs).preReceive params.repoID platform params.updates = none ↔
      ∀ predicate ∈ result.policy.never,
        predicate ∉ (parse platform (params.content deps.blobReader)).1.never →
        ∀ upd ∈ params.updates,
          matchPredicate platform (some (blobs.resolver params.repoID)) predicate upd =
            .ok none) := by
  intro deps shown silent
  have repo := parse_wellFormed platform (params.content (some blobs))
  have quiet : evaluate platform (some (parse platform (params.content (some blobs))).1)
      params.updates (some params.resolver) = .ok [] := by
    rw [Preflight.agentsMDEvaluate_eq] at silent
    rw [evaluate_of_neverFails params.resolver_neverFails,
      enforced_of_wellFormed repo]
    rw [Except.ok.injEq, List.map_eq_nil_iff] at silent
    exact congrArg Except.ok silent
  rw [evaluate_eq_nil_iff, enforced_of_wellFormed repo] at quiet
  rw [preflight.preReceive_eq_none_iff shown]
  constructor
  · intro every predicate listed _
    exact every predicate listed
  · intro others predicate listed upd member
    by_cases declared : predicate ∈ (parse platform (params.content (some blobs))).1.never
    · exact covers.matchPredicate member (quiet predicate declared upd member)
    · exact others predicate listed declared upd member

end Preflight

/-! A repository that protects `infra`, in an organisation that protects the release branch. -/

def orgDocument : Text := neverDocument ["push_to_branch: release"]

def protectedDocument : Text := neverDocument ["modify_path: infra/**"]

/-- Each commit changes one file. -/
def infraReader : BlobReader where
  readBlob := fun repoID _ _ =>
    .ok (if repoID = utf8 "policy" then orgDocument else protectedDocument)
  listChangedPaths := fun _ _ newOID =>
    .ok [if newOID = utf8 "b1" then utf8 "infra/main.tf"
      else if newOID = utf8 "c1" then utf8 "main.go" else utf8 "guide.md"]
  blobSize := fun _ _ _ => .ok 12
  isFastForward := fun _ _ _ => .ok true

def infraMetadata : RepoMetadata where
  lookupRepoSlug := fun _ => .ok (utf8 "acme", utf8 "service")
  lookupRepoIDBySlug := fun _ _ => .ok (utf8 "policy")

/-- The `uuid.Parse` on the one identifier in use. -/
def parseInfraID (text : Text) : Option UUID :=
  if text = utf8 (formatUUID 7) then some 7 else none

def infraDeps : ToolDeps := ⟨some fun _ => .ok true, some infraReader, some infraMetadata⟩

def infraPush : AgentsMDEvaluateParams where
  repoID := utf8 (formatUUID 7)
  updates := [⟨utf8 "refs/heads/main", utf8 "a1", utf8 "b1"⟩]
  changedPaths := [utf8 "infra/main.tf"]
  fileSizes := fun _ => some 12
  agentsMDContent := []
  isFastForward := fun _ => none

/-- Two branches, described together. -/
def sourcePush : AgentsMDEvaluateParams where
  repoID := utf8 (formatUUID 7)
  updates := [⟨utf8 "refs/heads/main", utf8 "a1", utf8 "c1"⟩,
    ⟨utf8 "refs/heads/docs", utf8 "a1", utf8 "d1"⟩]
  changedPaths := [utf8 "main.go", utf8 "guide.md"]
  fileSizes := fun _ => some 12
  agentsMDContent := protectedDocument
  isFastForward := fun _ => none

theorem infraPush_preflight :
    Preflight parseInfraID infraMetadata infraReader (fun _ => .ok true) infraPush where
  known := ⟨7, rfl, if_pos rfl, rfl⟩
  unmoved := rfl
  quoted := fun quotes => absurd rfl quotes

theorem sourcePush_preflight :
    Preflight parseInfraID infraMetadata infraReader (fun _ => .ok true) sourcePush where
  known := ⟨7, rfl, if_pos rfl, rfl⟩
  unmoved := rfl
  quoted := fun _ => rfl

theorem infraPush_truthful :
    infraPush.Truthful (infraReader.resolver infraPush.repoID) where
  agrees := by
    intro upd member
    rw [List.mem_singleton.mp member]
    exact ⟨by decide, fun _ _ _ _ => rfl, fun _ _ => rfl⟩

theorem preReceive_of_tools_infraPush :
    ∃ result found reported,
      agentsMDGet parseInfraID plainPlatform infraDeps infraPush.repoID = .ok result ∧
        (policyHandler infraMetadata infraReader).preReceive infraPush.repoID plainPlatform
          infraPush.updates = some (Handler.formatViolations found) ∧
        agentsMDEvaluate plainPlatform infraDeps infraPush = .ok reported ∧
        reported.Perm ((found.filter fun violation => violation.predicate ∈
          (parse plainPlatform protectedDocument).1.never).map AgentsMDViolation.of) := by
  obtain ⟨verdict, described⟩ := (preReceive_of_tools plainPlatform infraPush_preflight).2
    (.of (Handler.mergedPolicy plainPlatform orgDocument protectedDocument)) rfl
  obtain ⟨found, reported, evaluated, answered, listed⟩ := described infraPush_truthful
  have rejected : (policyHandler infraMetadata infraReader).preReceive infraPush.repoID
      plainPlatform infraPush.updates ≠ none := by decide
  refine ⟨_, found, reported, rfl, ?_, answered, listed⟩
  rw [evaluated, verdictOf] at verdict
  rw [verdict] at rejected ⊢
  split at rejected
  · exact absurd rfl rejected
  · next reports => rw [if_neg reports]

theorem sourcePush_covers : sourcePush.Covers (infraReader.resolver sourcePush.repoID) where
  changed := by
    have listed : ∀ upd ∈ sourcePush.updates, ∀ path ∈
        [if upd.newOID = utf8 "b1" then utf8 "infra/main.tf"
          else if upd.newOID = utf8 "c1" then utf8 "main.go" else utf8 "guide.md"],
        path ∈ sourcePush.changedPaths := by decide
    intro upd member
    refine ⟨_, rfl, ?_⟩
    intro path changed
    exact ⟨listed upd member path changed, 12, rfl, (by decide : (12 : Int64) ≤ 12)⟩
  isFastForward := fun _ _ _ _ => ⟨true, rfl, fun _ => rfl⟩

theorem preReceive_of_silence_sourcePush :
    (policyHandler infraMetadata infraReader).preReceive sourcePush.repoID plainPlatform
      sourcePush.updates = none := by
  apply (preReceive_of_silence plainPlatform sourcePush_preflight sourcePush_covers
    (.of (Handler.mergedPolicy plainPlatform orgDocument protectedDocument)) rfl rfl).mpr
  decide

end GitScale.AgentsMd
