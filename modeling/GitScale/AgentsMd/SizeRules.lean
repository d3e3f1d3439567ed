import GitScale.AgentsMd.GitalyReader

/-!
# Size rules and deleted paths

`push_binary_over_size` asks for the size of every changed path at the new commit.  A path
that the push deletes is among the changed ones and has no size there, so the loop fails at
it unless a path over the limit comes first.
-/

namespace GitScale.AgentsMd

open Go

/-! ## Repositories -/

/-- What a repository has at the paths of its commits. -/
structure Snapshots (Blob : Type) where
  blob : (oid path : Text) → Option Blob
  sizeOf : Blob → Int64

section Repositories

variable {Blob : Type} (repository : Snapshots Blob)

/-- The path is present at a commit and its blob has more bytes than the limit. -/
def Snapshots.Over (oid : Text) (limit : Int64) (path : Text) : Prop :=
  ∃ blob, repository.blob oid path = some blob ∧ limit < repository.sizeOf blob

/-- The answers of a resolver about an update are those of the repository: the changed paths
are all paths whose blob differs, deleted ones included, and only a path that is present has
a size. -/
structure FileResolver.Reads (files : FileResolver) (upd : RefUpdate) (paths : List Text) :
    Prop where
  changed : files.changed upd.oldOID upd.newOID = .ok paths
  differs : ∀ path, path ∈ paths ↔
    repository.blob upd.oldOID path ≠ repository.blob upd.newOID path
  present : ∀ path blob, repository.blob upd.newOID path = some blob →
    files.size upd.newOID path = .ok (repository.sizeOf blob)
  absent : ∀ path, repository.blob upd.newOID path = none →
    ∃ failure, files.size upd.newOID path = .error failure

/-- The policy of one size rule. -/
def sizePolicy (limit : Int64) : Policy :=
  ⟨schemaVersionV1, false, [⟨.pushBinaryOverSize, ⟨[], [], limit⟩⟩]⟩

/-- The evaluation succeeds, and it reports a violation exactly if some changed path that is
present at the new commit is over the limit. -/
def LooksAtWhatRemains (platform : Platform) (files : FileResolver) (upd : RefUpdate)
    (limit : Int64) : Prop :=
  ∃ violations, evaluate platform (some (sizePolicy limit)) [upd] (some files) =
      .ok violations ∧
    (violations ≠ [] ↔ ∃ path,
      repository.blob upd.oldOID path ≠ repository.blob upd.newOID path ∧
        repository.Over upd.newOID limit path)

/-- Each deleted path comes after a path over the limit. -/
def Shielded (oid : Text) (limit : Int64) (paths : List Text) : Prop :=
  ∀ before path after, paths = before ++ path :: after → repository.blob oid path = none →
    ∃ earlier ∈ before, repository.Over oid limit earlier

end Repositories

/-! ## The loop over the changed paths -/

section Loop

variable {Blob : Type} {repository : Snapshots Blob} {oid : Text} {limit : Int64}

theorem shielded_nil : Shielded repository oid limit [] := by
  intro before path after split
  simp at split

theorem shielded_cons {path : Text} {rest : List Text} :
    Shielded repository oid limit (path :: rest) ↔
      repository.blob oid path ≠ none ∧
        (repository.Over oid limit path ∨ Shielded repository oid limit rest) := by
  constructor
  · intro shielded
    have present : repository.blob oid path ≠ none := by
      intro missing
      obtain ⟨earlier, member, -⟩ := shielded [] path rest rfl missing
      simp at member
    refine ⟨present, ?_⟩
    by_cases exceeds : repository.Over oid limit path
    · exact .inl exceeds
    · apply Or.inr
      intro before deleted after split missing
      obtain ⟨earlier, member, large⟩ :=
        shielded (path :: before) deleted after (by rw [split]; rfl) missing
      cases List.mem_cons.mp member with
      | inl first => exact absurd (first ▸ large) exceeds
      | inr later => exact ⟨earlier, later, large⟩
  · intro ⟨present, covered⟩ before deleted after split missing
    cases before with
    | nil =>
        obtain ⟨same, -⟩ := List.cons.inj split
        exact absurd (same ▸ missing) present
    | cons first before =>
        obtain ⟨same, tails⟩ := List.cons.inj split
        cases covered with
        | inl exceeds => exact ⟨first, List.mem_cons_self, same ▸ exceeds⟩
        | inr shielded =>
            obtain ⟨earlier, member, large⟩ := shielded before deleted after tails missing
            exact ⟨earlier, List.mem_cons_of_mem first member, large⟩

variable {files : FileResolver} {upd : RefUpdate} {changed : List Text}

theorem over_iff_of_present {path : Text} {blob : Blob}
    (present : repository.blob oid path = some blob) :
    repository.Over oid limit path ↔ limit < repository.sizeOf blob := by
  simp [Snapshots.Over, present]

variable (limit) (platform : Platform)

theorem firstOverSize_of_absent (reads : files.Reads repository upd changed) {path : Text}
    (missing : repository.blob upd.newOID path = none) (rest : List Text) :
    ∃ failure, firstOverSize platform files upd.newOID limit (path :: rest) =
      .error failure := by
  obtain ⟨failure, unknown⟩ := reads.absent path missing
  exact ⟨failure, by rw [firstOverSize, unknown]⟩

theorem firstOverSize_of_present (reads : files.Reads repository upd changed) {path : Text}
    {blob : Blob} (present : repository.blob upd.newOID path = some blob) (rest : List Text) :
    (limit < repository.sizeOf blob ∧ ∃ reason,
      firstOverSize platform files upd.newOID limit (path :: rest) = .ok (some reason)) ∨
    (¬ limit < repository.sizeOf blob ∧
      firstOverSize platform files upd.newOID limit (path :: rest) =
        firstOverSize platform files upd.newOID limit rest) := by
  rw [firstOverSize, reads.present path blob present]
  by_cases exceeds : limit < repository.sizeOf blob
  · exact .inl ⟨exceeds, _, if_pos exceeds⟩
  · exact .inr ⟨exceeds, if_neg exceeds⟩

/-- The loop succeeds exactly on a list whose deleted paths come after a hit. -/
theorem firstOverSize_ok_iff (reads : files.Reads repository upd changed)
    (paths : List Text) :
    (∃ found, firstOverSize platform files upd.newOID limit paths = .ok found) ↔
      Shielded repository upd.newOID limit paths := by
  induction paths with
  | nil => exact ⟨fun _ => shielded_nil, fun _ => ⟨none, rfl⟩⟩
  | cons path rest inductionHypothesis =>
      rw [shielded_cons]
      cases stored : repository.blob upd.newOID path with
      | none =>
          obtain ⟨failure, failed⟩ := firstOverSize_of_absent limit platform reads stored rest
          simp [failed]
      | some blob =>
          rw [over_iff_of_present stored]
          rcases firstOverSize_of_present limit platform reads stored rest with
            ⟨exceeds, reason, hit⟩ | ⟨under, skipped⟩
          · simp [hit, exceeds]
          · rw [skipped, inductionHypothesis]
            simp [under]

variable {limit platform}

/-- A loop that succeeds has found one of the paths over the limit. -/
theorem firstOverSize_found (reads : files.Reads repository upd changed) {paths : List Text}
    {found : Option Text}
    (succeeded : firstOverSize platform files upd.newOID limit paths = .ok found) :
    found ≠ none ↔ ∃ path ∈ paths, repository.Over upd.newOID limit path := by
  induction paths with
  | nil =>
      cases succeeded
      simp
  | cons path rest inductionHypothesis =>
      rw [List.exists_mem_cons_iff]
      cases stored : repository.blob upd.newOID path with
      | none =>
          obtain ⟨failure, failed⟩ := firstOverSize_of_absent limit platform reads stored rest
          rw [failed] at succeeded
          cases succeeded
      | some blob =>
          rw [over_iff_of_present stored]
          rcases firstOverSize_of_present limit platform reads stored rest with
            ⟨exceeds, reason, hit⟩ | ⟨under, skipped⟩
          · rw [hit] at succeeded
            cases succeeded
            simp [exceeds]
          · rw [skipped] at succeeded
            rw [inductionHypothesis succeeded]
            simp [under]

theorem evaluate_sizePolicy (reads : files.Reads repository upd changed)
    (violations : List Violation) :
    evaluate platform (some (sizePolicy limit)) [upd] (some files) = .ok violations ↔
      ∃ found, firstOverSize platform files upd.newOID limit changed = .ok found ∧
        violations = found.toList.map fun reason =>
          ⟨⟨.pushBinaryOverSize, ⟨[], [], limit⟩⟩, upd.refName, reason⟩ := by
  have pairs : pairsOf (enforced (some (sizePolicy limit))) [upd] =
      [(⟨.pushBinaryOverSize, ⟨[], [], limit⟩⟩, upd)] := rfl
  have matched : matchPredicate platform (some files)
      ⟨.pushBinaryOverSize, ⟨[], [], limit⟩⟩ upd =
        firstOverSize platform files upd.newOID limit changed := by
    simp only [matchPredicate, reads.changed]
  rw [evaluate, pairs, evaluatePairs, matched]
  cases firstOverSize platform files upd.newOID limit changed with
  | error failure => simp
  | ok found =>
      cases found with
      | none => simp [evaluatePairs, eq_comm]
      | some reason => simp [evaluatePairs, Except.map, eq_comm]

/-- A size rule sees only what remains exactly if no deleted path is listed before the first
path over the limit. -/
theorem looksAtWhatRemains_iff (platform : Platform) (limit : Int64)
    (reads : files.Reads repository upd changed) :
    LooksAtWhatRemains repository platform files upd limit ↔
      Shielded repository upd.newOID limit changed := by
  rw [← firstOverSize_ok_iff limit platform reads]
  simp only [LooksAtWhatRemains, evaluate_sizePolicy reads]
  constructor
  · intro ⟨violations, ⟨found, succeeded, _⟩, _⟩
    exact ⟨found, succeeded⟩
  · intro ⟨found, succeeded⟩
    refine ⟨_, ⟨found, succeeded, rfl⟩, ?_⟩
    have reported := firstOverSize_found reads succeeded
    simp only [reads.differs] at reported
    rw [← reported]
    cases found with
    | none => simp
    | some reason => simp

end Loop

/-! ## The resolver of the hook -/

/-- Gitaly answers from the repository: the changed paths of a commit against its old tip,
and as the first message for a path its blob, or no message where nothing is. -/
structure Gitaly.Serves {Blob : Type} (gitaly : Gitaly) (repository : Snapshots Blob)
    (repoID : Text) (upd : RefUpdate) (paths : List Text) : Prop where
  connected : ∃ connection, gitaly.connect repoID = .ok connection
  changed : ∀ addr repo, ∃ pages,
    gitaly.findChangedPaths addr repo upd.newOID (parentRevisions upd.oldOID) =
      .ok ⟨pages, none⟩ ∧ pages.flatten = paths
  differs : ∀ path, path ∈ paths ↔
    repository.blob upd.oldOID path ≠ repository.blob upd.newOID path
  present : ∀ addr repo path blob, repository.blob upd.newOID path = some blob →
    ∃ data rest failure, gitaly.treeEntry addr repo upd.newOID path 1 =
      .ok ⟨⟨.blob, repository.sizeOf blob, data⟩ :: rest, failure⟩
  absent : ∀ addr repo path, repository.blob upd.newOID path = none →
    gitaly.treeEntry addr repo upd.newOID path 1 = .ok ⟨[], none⟩

/-- With the production reader the resolver of the hook reads the repository. -/
theorem Gitaly.Serves.reads {Blob : Type} {gitaly : Gitaly} {repository : Snapshots Blob}
    {repoID : Text} {upd : RefUpdate} {paths : List Text}
    (serves : gitaly.Serves repository repoID upd paths) :
    (gitaly.blobReader.resolver repoID).Reads repository upd paths := by
  obtain ⟨connection, connected⟩ := serves.connected
  constructor
  · obtain ⟨pages, answered, joined⟩ := serves.changed connection.1 connection.2
    simp only [BlobReader.resolver, Gitaly.blobReader, Gitaly.listChangedPaths, connected,
      answered, joined]
  · exact serves.differs
  · intro path blob present
    obtain ⟨data, rest, failure, answered⟩ :=
      serves.present connection.1 connection.2 path blob present
    simp [BlobReader.resolver, Gitaly.blobReader, Gitaly.blobSize, connected, answered]
  · intro path missing
    refine ⟨Gitaly.blobNotFound (path ++ utf8 " at " ++ upd.newOID), ?_⟩
    simp only [BlobReader.resolver, Gitaly.blobReader, Gitaly.blobSize, connected,
      serves.absent connection.1 connection.2 path missing]

/-! ## A push that deletes a file -/

/-- A repository whose first commit has one file and whose second commit has none. -/
def emptiedRepository : Snapshots Text where
  blob := fun oid path =>
    if oid = utf8 "a1" ∧ path = utf8 "logo.png" then some (utf8 "PNG") else none
  sizeOf := fun data => Int64.ofNat data.length

/-- The push of the second commit. -/
def deletingPush : RefUpdate := ⟨utf8 "refs/heads/main", utf8 "a1", utf8 "b2"⟩

/-- Gitaly with that repository. -/
def emptiedGitaly : Gitaly where
  locate := fun _ => .ok ⟨utf8 "gitaly-0:8075", utf8 "default"⟩
  dial := fun _ => .ok ()
  treeEntry := fun _ _ oid path _ =>
    .ok ⟨(emptiedRepository.blob oid path).toList.map fun data =>
      ⟨.blob, emptiedRepository.sizeOf data, data⟩, none⟩
  findChangedPaths := fun _ _ _ _ => .ok ⟨[[utf8 "logo.png"]], none⟩
  commitIsAncestor := fun _ _ _ _ => .ok true

theorem emptiedGitaly_serves :
    emptiedGitaly.Serves emptiedRepository (utf8 "repo") deletingPush [utf8 "logo.png"] where
  connected := ⟨_, rfl⟩
  changed := fun _ _ => ⟨_, rfl, rfl⟩
  differs := fun path => by
    have kept : ¬ utf8 "b2" = utf8 "a1" := by decide
    simp [emptiedRepository, deletingPush, kept]
  present := fun _ _ path blob stored => by
    have kept : ¬ utf8 "b2" = utf8 "a1" := by decide
    simp [emptiedRepository, deletingPush, kept] at stored
  absent := fun _ _ path missing => by simp [emptiedGitaly, missing]

theorem looksAtWhatRemains_iff_deletingPush :
    LooksAtWhatRemains emptiedRepository plainPlatform
        (emptiedGitaly.blobReader.resolver (utf8 "repo")) deletingPush 1024 ↔
      Shielded emptiedRepository (utf8 "b2") 1024 [utf8 "logo.png"] :=
  looksAtWhatRemains_iff plainPlatform 1024 emptiedGitaly_serves.reads

/-- The deletion of a small file makes the evaluation fail. -/
theorem deletion_fails_size_rule :
    ¬ ∀ (repository : Snapshots Text) (platform : Platform) (files : FileResolver)
      (upd : RefUpdate) (paths : List Text) (limit : Int64),
      files.Reads repository upd paths → upd.newOID ≠ zeroOID →
        LooksAtWhatRemains repository platform files upd limit := by
  intro always
  obtain ⟨violations, evaluated, -⟩ := always emptiedRepository plainPlatform
    (emptiedGitaly.blobReader.resolver (utf8 "repo")) deletingPush [utf8 "logo.png"] 1024
    emptiedGitaly_serves.reads (by decide)
  rw [evaluate_sizePolicy emptiedGitaly_serves.reads] at evaluated
  obtain ⟨found, succeeded, -⟩ := evaluated
  have failed : firstOverSize plainPlatform (emptiedGitaly.blobReader.resolver (utf8 "repo"))
      (utf8 "b2") 1024 [utf8 "logo.png"] =
        .error (Gitaly.blobNotFound (utf8 "logo.png at b2")) := by rfl
  rw [show deletingPush.newOID = utf8 "b2" from rfl, failed] at succeeded
  cases succeeded

end GitScale.AgentsMd
