import GitScale.AgentsMd.GitalyReader

/-!
# Rules about paths on a new branch

For the creation of a branch the evaluator expects every path that is reachable from the new
tip.  The reader asks Gitaly for the changes of the tip commit alone, so a path that an
earlier commit of the branch brought in is not looked at.
-/

namespace GitScale.AgentsMd

open Go

/-! ## Commit graphs -/

/-- A commit: its recorded parents, and the blobs of its tree by path. -/
structure Commit where
  parents : List Text
  tree : List (Text × Text)
  deriving DecidableEq

/-- The commits of a repository by object id.  The parents of a commit are there too. -/
structure CommitGraph where
  commits : Text → Option Commit
  closed : ∀ oid commit, commits oid = some commit →
    ∀ parent ∈ commit.parents, (commits parent).isSome

/-- The tree of a commit has a blob at the path. -/
def Commit.Holds (commit : Commit) (path : Text) : Prop := (commit.tree.lookup path).isSome

/-- The path differs between the commit and one of its own parents.  Everything in a root
commit does. -/
def CommitGraph.Touched (graph : CommitGraph) (commit : Commit) (path : Text) : Prop :=
  if commit.parents = [] then commit.Holds path
  else
    ∃ parent ∈ commit.parents, ∃ other, graph.commits parent = some other ∧
      commit.tree.lookup path ≠ other.tree.lookup path

/-- What the reader relies on: asked for a commit without parent revisions,
`FindChangedPaths` compares it with its recorded parents. -/
def Gitaly.DiffsOwnParents (gitaly : Gitaly) (graph : CommitGraph) : Prop :=
  ∀ addr repo oid commit, graph.commits oid = some commit →
    ∃ stream, gitaly.findChangedPaths addr repo oid [] = .ok stream ∧
      stream.failure = none ∧
      ∀ path, path ∈ stream.messages.flatten ↔ graph.Touched commit path

/-! ## The verdict on a created branch -/

section Creation

variable {platform : Platform} {gitaly : Gitaly} {policies : Text → Except Failure Text}
  {repoID : Text} {graph : CommitGraph}

/-- A document that was read came over a connection. -/
theorem connect_of_readRepoPolicy {updates : List RefUpdate} {repoBytes : Text}
    (read : (gitalyHandler gitaly policies).readRepoPolicy repoID updates = .ok repoBytes) :
    ∃ connection, gitaly.connect repoID = .ok connection := by
  cases reached : gitaly.connect repoID with
  | ok connection => exact ⟨connection, rfl⟩
  | error failure =>
      have unread : ∀ ref, gitaly.Unread repoID ref := by
        intro ref
        exact ⟨failure, by simp only [Gitaly.readBlob, reached]⟩
      obtain ⟨failure, failed⟩ := readRepoPolicy_of_unread policies updates
        (unread (utf8 "HEAD")) fun _ _ oid _ _ => unread oid
      cases read.symm.trans failed

/-- On a created branch a path rule sees the paths that the tip commit touches. -/
theorem matchPredicate_creation_iff (platform : Platform) (diffs : gitaly.DiffsOwnParents graph)
    {connection : Text × Repository} (reached : gitaly.connect repoID = .ok connection)
    {pred : NeverPredicate} (isPath : pred.name = .modifyPath) {update : RefUpdate}
    (creates : update.oldOID = zeroOID) {commit : Commit}
    (tip : graph.commits update.newOID = some commit) :
    matchPredicate platform (some (gitaly.blobReader.resolver repoID)) pred update = .ok none ↔
      ∀ path, graph.Touched commit path →
        pathMatches platform pred.selector.pathGlob path = false := by
  obtain ⟨stream, opened, ended, touched⟩ :=
    diffs connection.1 connection.2 update.newOID commit tip
  have changed : (gitaly.blobReader.resolver repoID).changed update.oldOID update.newOID =
      .ok stream.messages.flatten := by
    simp only [BlobReader.resolver, Gitaly.blobReader, Gitaly.listChangedPaths, reached,
      Gitaly.parentRevisions, creates, or_true, if_true, opened, ended]
  simp only [matchPredicate, isPath, changed, Except.ok.injEq, Option.map_eq_none_iff,
    List.find?_eq_none, touched, Bool.not_eq_true]

/-- Some rule other than `pred` on `update` is broken, or cannot be checked. -/
def BreaksOtherwise (platform : Platform) (files : FileResolver) (policy : Policy)
    (updates : List RefUpdate) (pred : NeverPredicate) (update : RefUpdate) : Prop :=
  ∃ other ∈ policy.never, ∃ upd ∈ updates, (other, upd) ≠ (pred, update) ∧
    matchPredicate platform (some files) other upd ≠ .ok none

/-- A push is refused exactly when some pair of a rule and an update breaks it. -/
theorem preReceive_ne_none_iff {handler : Handler} {updates : List RefUpdate}
    {repoBytes orgBytes : Text} (read : handler.readRepoPolicy repoID updates = .ok repoBytes)
    (resolved : handler.policies repoID = .ok orgBytes) :
    handler.preReceive repoID platform updates ≠ none ↔
      ∃ pred ∈ (Handler.mergedPolicy platform orgBytes repoBytes).never, ∃ upd ∈ updates,
        matchPredicate platform (some (handler.blobs.resolver repoID)) pred upd ≠ .ok none := by
  rw [ne_eq, preReceive_eq_none_iff read resolved, Passes, evaluate_eq_nil_iff,
    Handler.mergedPolicy, enforced_merge]
  simp only [not_forall, exists_prop]

/-- A new branch cannot bring in a forbidden path exactly when its tree has none, or its tip
commit itself touches one, or the push is refused for another reason. -/
theorem creation_refused_iff (platform : Platform) (gitaly : Gitaly) (graph : CommitGraph)
    (diffs : gitaly.DiffsOwnParents graph) (policies : Text → Except Failure Text)
    (repoID orgBytes repoBytes : Text) (updates : List RefUpdate)
    (read : (gitalyHandler gitaly policies).readRepoPolicy repoID updates = .ok repoBytes)
    (resolved : policies repoID = .ok orgBytes) (pred : NeverPredicate)
    (listed : pred ∈ (Handler.mergedPolicy platform orgBytes repoBytes).never)
    (isPath : pred.name = .modifyPath) (update : RefUpdate) (member : update ∈ updates)
    (creates : update.oldOID = zeroOID) (commit : Commit)
    (tip : graph.commits update.newOID = some commit) :
    ((∃ path, commit.Holds path ∧ pathMatches platform pred.selector.pathGlob path = true) →
        (gitalyHandler gitaly policies).preReceive repoID platform updates ≠ none) ↔
      ((∃ path, commit.Holds path ∧ pathMatches platform pred.selector.pathGlob path = true) →
        (∃ path, graph.Touched commit path ∧
            pathMatches platform pred.selector.pathGlob path = true) ∨
          BreaksOtherwise platform (gitaly.blobReader.resolver repoID)
            (Handler.mergedPolicy platform orgBytes repoBytes) updates pred update) := by
  obtain ⟨connection, reached⟩ := connect_of_readRepoPolicy read
  have creation := matchPredicate_creation_iff platform diffs reached isPath creates tip
  apply imp_congr_right
  intro _
  rw [preReceive_ne_none_iff read resolved]
  constructor
  · rintro ⟨other, otherListed, upd, otherMember, breaks⟩
    by_cases same : (other, upd) = (pred, update)
    · obtain ⟨rfl, rfl⟩ := Prod.mk.inj same
      left
      by_contra untouched
      apply breaks
      apply creation.mpr
      intro path touched
      by_contra matched
      exact untouched ⟨path, touched, by simpa using matched⟩
    · exact Or.inr ⟨other, otherListed, upd, otherMember, same, breaks⟩
  · rintro (⟨path, touched, matched⟩ | ⟨other, otherListed, upd, otherMember, -, breaks⟩)
    · refine ⟨pred, listed, update, member, ?_⟩
      intro quiet
      rw [creation.mp quiet path touched] at matched
      cases matched
    · exact ⟨other, otherListed, upd, otherMember, breaks⟩

end Creation

/-! ## Serving a graph -/

/-- The paths that a commit touches. -/
def CommitGraph.touchedPaths (graph : CommitGraph) (commit : Commit) : List Text :=
  if commit.parents = [] then commit.tree.map Prod.fst
  else
    commit.parents.flatMap fun parent =>
      match graph.commits parent with
      | none => []
      | some other =>
          ((commit.tree ++ other.tree).map Prod.fst).filter fun path =>
            commit.tree.lookup path ≠ other.tree.lookup path

theorem lookup_isSome_iff {tree : List (Text × Text)} {path : Text} :
    (tree.lookup path).isSome ↔ path ∈ tree.map Prod.fst := by
  induction tree with
  | nil => simp
  | cons entry rest inductionHypothesis =>
      obtain ⟨key, blob⟩ := entry
      rw [List.lookup_cons, List.map_cons, List.mem_cons]
      by_cases same : path = key
      · simp [same]
      · have differs : (path == key) = false := by simpa using same
        simp only [differs, inductionHypothesis, same, false_or]

theorem mem_touchedPaths {graph : CommitGraph} {commit : Commit} {path : Text} :
    path ∈ graph.touchedPaths commit ↔ graph.Touched commit path := by
  unfold CommitGraph.touchedPaths CommitGraph.Touched
  split
  · exact lookup_isSome_iff.symm
  · rw [List.mem_flatMap]
    constructor
    · rintro ⟨parent, recorded, found⟩
      cases known : graph.commits parent with
      | none => simp [known] at found
      | some other =>
          simp only [known, List.mem_filter, decide_eq_true_eq] at found
          exact ⟨parent, recorded, other, known, found.2⟩
    · rintro ⟨parent, recorded, other, known, differs⟩
      refine ⟨parent, recorded, ?_⟩
      simp only [known, List.mem_filter, decide_eq_true_eq]
      refine ⟨?_, differs⟩
      -- A path that is in neither tree has the same look-up in both.
      by_contra absent
      rw [List.map_append, List.mem_append, ← lookup_isSome_iff, ← lookup_isSome_iff,
        not_or, Option.not_isSome_iff_eq_none, Option.not_isSome_iff_eq_none] at absent
      exact differs (absent.1.trans absent.2.symm)

/-- Gitaly with one repository. -/
def CommitGraph.served (graph : CommitGraph) : Gitaly where
  locate := fun _ => .ok ⟨utf8 "gitaly-0:8075", utf8 "default"⟩
  dial := fun _ => .ok ()
  treeEntry := fun _ _ revision path _ =>
    match (graph.commits revision).bind fun commit => commit.tree.lookup path with
    | some blob => .ok ⟨[⟨.blob, Int64.ofNat blob.length, blob⟩], none⟩
    | none => .ok ⟨[], none⟩
  findChangedPaths := fun _ _ oid _ =>
    match graph.commits oid with
    | some commit => .ok ⟨[graph.touchedPaths commit], none⟩
    | none => .error (utf8 "commit not found")
  commitIsAncestor := fun _ _ _ _ => .ok true

theorem CommitGraph.served_diffsOwnParents (graph : CommitGraph) :
    graph.served.DiffsOwnParents graph := by
  intro addr repo oid commit known
  refine ⟨⟨[graph.touchedPaths commit], none⟩, ?_, rfl, ?_⟩
  · simp only [CommitGraph.served, known]
  · intro path
    rw [List.flatten_singleton, mem_touchedPaths]

/-- The document that forbids changes under `infra`. -/
def infraDocument : Text := neverDocument ["modify_path: infra/**"]

/-- Three commits in a row: the second adds a file under `infra`, the third changes the
README. -/
def smuggled : CommitGraph where
  commits := fun oid =>
    if oid = utf8 "c1" then
      some ⟨[], [(agentsMdPath, infraDocument), (utf8 "README", utf8 "one")]⟩
    else if oid = utf8 "c2" then
      some ⟨[utf8 "c1"], [(agentsMdPath, infraDocument), (utf8 "README", utf8 "one"),
        (utf8 "infra/main.tf", utf8 "open")]⟩
    else if oid = utf8 "c3" then
      some ⟨[utf8 "c2"], [(agentsMdPath, infraDocument), (utf8 "README", utf8 "two"),
        (utf8 "infra/main.tf", utf8 "open")]⟩
    else none
  closed := by
    intro oid commit known parent recorded
    split at known
    · cases known
      cases recorded
    · split at known
      · cases known
        rcases List.mem_singleton.mp recorded with rfl
        decide
      · split at known
        · cases known
          rcases List.mem_singleton.mp recorded with rfl
          decide
        · cases known

/-- A new branch at a commit. -/
def createFeature (oid : String) : List RefUpdate :=
  [⟨utf8 "refs/heads/feature", zeroOID, utf8 oid⟩]

def infraRule : NeverPredicate := ⟨.modifyPath, [], utf8 "infra/**", 0⟩

/-- The branch whose tip is the commit that adds the file is refused. -/
theorem creation_refused_iff_c2 :
    (gitalyHandler smuggled.served fun _ => .ok []).preReceive (utf8 "repo") plainPlatform
      (createFeature "c2") ≠ none := by
  have exact_condition := creation_refused_iff plainPlatform smuggled.served smuggled
    smuggled.served_diffsOwnParents (fun _ => .ok []) (utf8 "repo") [] infraDocument
    (createFeature "c2") (by decide) rfl infraRule (by decide) rfl
    ⟨utf8 "refs/heads/feature", zeroOID, utf8 "c2"⟩ List.mem_cons_self rfl
    ⟨[utf8 "c1"], [(agentsMdPath, infraDocument), (utf8 "README", utf8 "one"),
      (utf8 "infra/main.tf", utf8 "open")]⟩ (by decide)
  apply exact_condition.mpr
  · intro _
    left
    refine ⟨utf8 "infra/main.tf", ?_, by decide⟩
    rw [← mem_touchedPaths]
    decide
  · refine ⟨utf8 "infra/main.tf", ?_, by decide⟩
    unfold Commit.Holds
    decide

/-- One more commit on top, and the branch is accepted with the file in its tree. -/
theorem creation_smuggles_c3 :
    ¬ ∀ (platform : Platform) (gitaly : Gitaly) (graph : CommitGraph),
      gitaly.DiffsOwnParents graph →
      ∀ (policies : Text → Except Failure Text) (repoID orgBytes repoBytes : Text)
        (updates : List RefUpdate),
      (gitalyHandler gitaly policies).readRepoPolicy repoID updates = .ok repoBytes →
      policies repoID = .ok orgBytes →
      ∀ pred ∈ (Handler.mergedPolicy platform orgBytes repoBytes).never,
      pred.name = .modifyPath → ∀ update ∈ updates, update.oldOID = zeroOID →
      ∀ commit, graph.commits update.newOID = some commit →
      (∃ path, commit.Holds path ∧ pathMatches platform pred.selector.pathGlob path = true) →
      (gitalyHandler gitaly policies).preReceive repoID platform updates ≠ none := by
  intro refuses
  have accepted : (gitalyHandler smuggled.served fun _ => .ok []).preReceive (utf8 "repo")
      plainPlatform (createFeature "c3") = none := by decide
  refine refuses plainPlatform smuggled.served smuggled smuggled.served_diffsOwnParents
    (fun _ => .ok []) (utf8 "repo") [] infraDocument (createFeature "c3") (by decide)
    rfl infraRule (by decide) rfl ⟨utf8 "refs/heads/feature", zeroOID, utf8 "c3"⟩
    List.mem_cons_self rfl
    ⟨[utf8 "c2"], [(agentsMdPath, infraDocument), (utf8 "README", utf8 "two"),
      (utf8 "infra/main.tf", utf8 "open")]⟩ (by decide) ?_ accepted
  refine ⟨utf8 "infra/main.tf", ?_, by decide⟩
  unfold Commit.Holds
  decide

end GitScale.AgentsMd
