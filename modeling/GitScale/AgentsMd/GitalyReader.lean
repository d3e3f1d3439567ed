import GitScale.AgentsMd.Hook

/-!
# The Gitaly-backed blob reader

The production `BlobReader` of the hook.  Gitaly itself, the repository locator and the
connection pool are parameters.  An error of theirs is a text: it carries neither of the two
not-found sentinels.
-/

namespace GitScale.AgentsMd

open Go

/-! ## Gitaly -/

/-- `TreeEntryResponse.ObjectType`. -/
inductive ObjectType where
  | commit
  | blob
  | tree
  | tag
  deriving DecidableEq, Repr

def ObjectType.text : ObjectType → Text
  | .commit => utf8 "COMMIT"
  | .blob => utf8 "BLOB"
  | .tree => utf8 "TREE"
  | .tag => utf8 "TAG"

/-- `TreeEntryResponse`. -/
structure TreeEntryResponse where
  type : ObjectType
  size : Int64
  data : Text
  deriving DecidableEq

/-- A server stream: its messages, and the error that ends it unless it ends with
`io.EOF`. -/
structure Stream (Message : Type) where
  messages : List Message
  failure : Option Text

/-- `locator.Address`, of which `resolve` uses two fields. -/
structure Address where
  addr : Text
  replicaSetID : Text

/-- `gitalypb.Repository`. -/
structure Repository where
  storageName : Text
  relativePath : Text

/-- What the reader gets from elsewhere: `RepoLocator.Resolve`, `GitalyPool.Conn` and the
three calls on the connection. -/
structure Gitaly where
  locate : Text → Except Text Address
  dial : Text → Except Text Unit
  treeEntry : Text → Repository → (revision path : Text) → (limit : Int64) →
    Except Text (Stream TreeEntryResponse)
  findChangedPaths : Text → Repository → (commit : Text) → (parents : List Text) →
    Except Text (Stream (List Text))
  commitIsAncestor : Text → Repository → (ancestor child : Text) → Except Text Bool

namespace Gitaly

variable (gitaly : Gitaly)

/-- An error of another package under a context. -/
def foreign (context : String) (message : Text) : Failure := ⟨utf8 context ++ message, []⟩

/-- An error that wraps `gitaly.ErrBlobNotFound`. -/
def blobNotFound (detail : Text) : Failure :=
  ⟨utf8 "gitaly: blob not found: " ++ detail, [.gitalyBlobNotFound]⟩

/-- `resolve`, and the connection that every method opens next. -/
def connect (repoID : Text) : Except Failure (Text × Repository) :=
  match gitaly.locate repoID with
  | .error message => .error (foreign "gitaly: locator: " message)
  | .ok address =>
      match gitaly.dial address.addr with
      | .error message => .error (foreign "gitaly: dial: " message)
      | .ok _ => .ok (address.addr, ⟨address.replicaSetID, repoID ++ utf8 ".git"⟩)

/-- The receive loop of `ReadBlob`: whether a message was seen, and the data so far. -/
def receive (path : Text) : Bool → Text → List TreeEntryResponse →
    Except Failure (Bool × Text)
  | seen, buf, [] => .ok (seen, buf)
  | seen, buf, resp :: rest =>
      if ¬ seen ∧ resp.type ≠ .blob then
        .error (blobNotFound (path ++ utf8 " is not a blob (type=" ++ resp.type.text ++
          utf8 ")"))
      else receive path true (buf ++ resp.data) rest

/-- `BlobReader.ReadBlob`. -/
def readBlob (repoID ref path : Text) : Except Failure Text :=
  match gitaly.connect repoID with
  | .error failure => .error failure
  | .ok (addr, repo) =>
      match gitaly.treeEntry addr repo ref path 0 with
      | .error message => .error (foreign "gitaly: tree_entry open: " message)
      | .ok stream =>
          match receive path false [] stream.messages with
          | .error failure => .error failure
          | .ok (seen, buf) =>
              match stream.failure with
              | some message => .error (foreign "gitaly: tree_entry recv: " message)
              | none =>
                  if seen then .ok buf
                  else .error (blobNotFound (path ++ utf8 " at " ++ ref))

/-- The `ParentCommitRevisions` that `ListChangedPaths` asks with. -/
def parentRevisions (oldOID : Text) : List Text :=
  if oldOID = [] ∨ oldOID = zeroOID then [] else [oldOID]

/-- `BlobReader.ListChangedPaths`. -/
def listChangedPaths (repoID oldOID newOID : Text) : Except Failure (List Text) :=
  match gitaly.connect repoID with
  | .error failure => .error failure
  | .ok (addr, repo) =>
      match gitaly.findChangedPaths addr repo newOID (parentRevisions oldOID) with
      | .error message => .error (foreign "gitaly: find_changed_paths open: " message)
      | .ok stream =>
          match stream.failure with
          | some message => .error (foreign "gitaly: find_changed_paths recv: " message)
          | none => .ok stream.messages.flatten

/-- `BlobReader.BlobSize`. -/
def blobSize (repoID oid path : Text) : Except Failure Int64 :=
  match gitaly.connect repoID with
  | .error failure => .error failure
  | .ok (addr, repo) =>
      match gitaly.treeEntry addr repo oid path 1 with
      | .error message => .error (foreign "gitaly: tree_entry open: " message)
      | .ok stream =>
          match stream.messages, stream.failure with
          | [], some message => .error (foreign "gitaly: tree_entry recv: " message)
          | [], none => .error (blobNotFound (path ++ utf8 " at " ++ oid))
          | resp :: _, _ =>
              if resp.type ≠ .blob then .error (blobNotFound (path ++ utf8 " is not a blob"))
              else .ok resp.size

/-- `BlobReader.IsFastForward`. -/
def isFastForward (repoID oldOID newOID : Text) : Except Failure Bool :=
  if oldOID = newOID then .ok true
  else
    match gitaly.connect repoID with
    | .error failure => .error failure
    | .ok (addr, repo) =>
        match gitaly.commitIsAncestor addr repo oldOID newOID with
        | .error message => .error (foreign "gitaly: commit_is_ancestor: " message)
        | .ok answer => .ok answer

/-- `gitaly.BlobReader` as the `BlobReader` of the hook. -/
def blobReader : BlobReader where
  readBlob := gitaly.readBlob
  listChangedPaths := gitaly.listChangedPaths
  blobSize := gitaly.blobSize
  isFastForward := gitaly.isFastForward

end Gitaly

/-! ## Missing documents -/

section Missing

variable {gitaly : Gitaly}

theorem receive_ne_hookBlobNotFound {path : Text} {messages : List TreeEntryResponse}
    {failure : Failure} :
    ∀ {seen : Bool} {buf : Text}, Gitaly.receive path seen buf messages = .error failure →
      failure.is .hookBlobNotFound = false := by
  induction messages with
  | nil =>
      intro seen buf failed
      cases failed
  | cons resp rest inductionHypothesis =>
      intro seen buf failed
      rw [Gitaly.receive] at failed
      split at failed
      · cases failed
        rfl
      · exact inductionHypothesis failed

/-- The reader never returns the sentinel that the hook looks for. -/
theorem readBlob_ne_hookBlobNotFound {repoID ref path : Text} {failure : Failure}
    (failed : gitaly.readBlob repoID ref path = .error failure) :
    failure.is .hookBlobNotFound = false := by
  unfold Gitaly.readBlob at failed
  split at failed
  · next unreachable =>
      cases failed
      unfold Gitaly.connect at unreachable
      split at unreachable
      · cases unreachable
        rfl
      · split at unreachable
        · cases unreachable
          rfl
        · cases unreachable
  · split at failed
    · cases failed
      rfl
    · split at failed
      · next received =>
          cases failed
          exact receive_ne_hookBlobNotFound received
      · split at failed
        · cases failed
          rfl
        · split at failed
          · cases failed
          · cases failed
            rfl

/-- The handler with the production reader. -/
def gitalyHandler (gitaly : Gitaly) (policies : Text → Except Failure Text) : Handler :=
  ⟨gitaly.blobReader, policies⟩

variable {policies : Text → Except Failure Text} {repoID : Text}

/-- `ReadBlob` does not return the document at a revision. -/
def Gitaly.Unread (gitaly : Gitaly) (repoID ref : Text) : Prop :=
  ∃ failure, gitaly.readBlob repoID ref agentsMdPath = .error failure

/-- Whatever the reason is, the hook does not recognise it and the look-up ends. -/
theorem tryOID_of_unread {oid : Text} (present : ¬ (oid = [] ∨ oid = zeroOID))
    (unread : gitaly.Unread repoID oid) :
    ∃ failure, (gitalyHandler gitaly policies).tryOID repoID oid = .error failure := by
  obtain ⟨failure, failed⟩ := unread
  have read : (gitalyHandler gitaly policies).blobs.readBlob repoID oid agentsMdPath =
      .error failure := failed
  refine ⟨failure, ?_⟩
  simp only [Handler.tryOID, present, if_false, read, readBlob_ne_hookBlobNotFound failed,
    Bool.false_eq_true]

theorem tryOIDs_of_unread {oids : List Text}
    (unread : ∀ oid ∈ oids, ¬ (oid = [] ∨ oid = zeroOID) → gitaly.Unread repoID oid) :
    (gitalyHandler gitaly policies).tryOIDs repoID oids = .ok none ∨
      ∃ failure, (gitalyHandler gitaly policies).tryOIDs repoID oids = .error failure := by
  induction oids with
  | nil => exact Or.inl rfl
  | cons oid rest inductionHypothesis =>
      rw [Handler.tryOIDs]
      by_cases absent : oid = [] ∨ oid = zeroOID
      · have skipped : (gitalyHandler gitaly policies).tryOID repoID oid = .ok none := by
          simp [Handler.tryOID, absent]
        rw [skipped]
        exact inductionHypothesis fun other listed =>
          unread other (List.mem_cons_of_mem _ listed)
      · obtain ⟨failure, failed⟩ :=
          tryOID_of_unread absent (unread oid List.mem_cons_self absent)
        rw [failed]
        exact Or.inr ⟨failure, rfl⟩

theorem readHead_of_unread (unread : gitaly.Unread repoID (utf8 "HEAD")) :
    ∃ failure, (gitalyHandler gitaly policies).readHead repoID = .error failure := by
  obtain ⟨failure, failed⟩ := unread
  have read : (gitalyHandler gitaly policies).blobs.readBlob repoID (utf8 "HEAD") agentsMdPath =
      .error failure := failed
  refine ⟨failure, ?_⟩
  simp only [Handler.readHead, read, readBlob_ne_hookBlobNotFound failed, Bool.false_eq_true,
    if_false]

/-- A push without a readable document anywhere is refused before it is evaluated. -/
theorem readRepoPolicy_of_unread (policies : Text → Except Failure Text)
    (updates : List RefUpdate)
    (head : gitaly.Unread repoID (utf8 "HEAD"))
    (tips : ∀ update ∈ updates, ∀ oid, oid = update.newOID ∨ oid = update.oldOID →
      ¬ (oid = [] ∨ oid = zeroOID) → gitaly.Unread repoID oid) :
    ∃ failure, (gitalyHandler gitaly policies).readRepoPolicy repoID updates =
      .error failure := by
  have atNew : ∀ oid ∈ updates.map (·.newOID), ¬ (oid = [] ∨ oid = zeroOID) →
      gitaly.Unread repoID oid := by
    intro oid listed
    obtain ⟨update, member, rfl⟩ := List.mem_map.mp listed
    exact tips update member _ (Or.inl rfl)
  have atOld : ∀ oid ∈ updates.map (·.oldOID), ¬ (oid = [] ∨ oid = zeroOID) →
      gitaly.Unread repoID oid := by
    intro oid listed
    obtain ⟨update, member, rfl⟩ := List.mem_map.mp listed
    exact tips update member _ (Or.inr rfl)
  unfold Handler.readRepoPolicy
  rcases tryOIDs_of_unread atNew with none_new | ⟨failure, failed⟩
  · rcases tryOIDs_of_unread atOld with none_old | ⟨failure, failed⟩
    · rw [none_new, none_old]
      exact readHead_of_unread head
    · rw [none_new, failed]
      exact ⟨failure, rfl⟩
  · rw [failed]
    exact ⟨failure, rfl⟩

/-- There is no AGENTS.md at the given revision: the stream of `TreeEntry` ends without a
message. -/
def Gitaly.NoDocument (gitaly : Gitaly) (ref : Text) : Prop :=
  ∀ addr repo, gitaly.treeEntry addr repo ref agentsMdPath 0 = .ok ⟨[], none⟩

theorem Gitaly.NoDocument.unread {ref : Text} (missing : gitaly.NoDocument ref)
    (repoID : Text) : gitaly.Unread repoID ref := by
  unfold Gitaly.Unread Gitaly.readBlob
  cases gitaly.connect repoID with
  | error failure => exact ⟨failure, rfl⟩
  | ok connection =>
      simp only [missing connection.1 connection.2]
      exact ⟨_, rfl⟩

/-- A repository without an AGENTS.md at any tip of the push and at `HEAD`. -/
structure Gitaly.WithoutDocument (gitaly : Gitaly) (updates : List RefUpdate) : Prop where
  head : gitaly.NoDocument (utf8 "HEAD")
  tips : ∀ update ∈ updates, ∀ oid, oid = update.newOID ∨ oid = update.oldOID →
    ¬ (oid = [] ∨ oid = zeroOID) → gitaly.NoDocument oid

/-- With the production reader a missing AGENTS.md blocks every push. -/
theorem preReceive_of_withoutDocument (platform : Platform) (gitaly : Gitaly)
    (policies : Text → Except Failure Text) (repoID : Text) (updates : List RefUpdate)
    (missing : gitaly.WithoutDocument updates) :
    (gitalyHandler gitaly policies).preReceive repoID platform updates ≠ none := by
  obtain ⟨failure, failed⟩ := readRepoPolicy_of_unread policies updates
    (missing.head.unread repoID) fun update member oid tip present =>
      (missing.tips update member oid tip present).unread repoID
  simp [Handler.preReceive, failed]

end Missing

/-- Gitaly with one repository, in which no tree has any entry. -/
def bareGitaly : Gitaly where
  locate := fun _ => .ok ⟨utf8 "gitaly-0:8075", utf8 "default"⟩
  dial := fun _ => .ok ()
  treeEntry := fun _ _ _ _ _ => .ok ⟨[], none⟩
  findChangedPaths := fun _ _ _ _ => .ok ⟨[], none⟩
  commitIsAncestor := fun _ _ _ _ => .ok true

theorem bareGitaly_withoutDocument (updates : List RefUpdate) :
    bareGitaly.WithoutDocument updates where
  head := fun _ _ => rfl
  tips := fun _ _ _ _ _ _ _ => rfl

/-- The first push to an empty repository. -/
def firstPush : List RefUpdate := [⟨utf8 "refs/heads/main", zeroOID, utf8 "a1"⟩]

theorem preReceive_of_withoutDocument_firstPush :
    (gitalyHandler bareGitaly fun _ => .ok []).preReceive (utf8 "repo") plainPlatform
      firstPush ≠ none :=
  preReceive_of_withoutDocument plainPlatform bareGitaly (fun _ => .ok []) (utf8 "repo")
    firstPush (bareGitaly_withoutDocument firstPush)

/-- The first push is refused for want of an AGENTS.md. -/
theorem missingDocument_blocks_firstPush :
    ¬ ∀ (platform : Platform) (gitaly : Gitaly) (policies : Text → Except Failure Text)
      (repoID : Text) (updates : List RefUpdate), gitaly.WithoutDocument updates →
      policies repoID = .ok [] →
      (gitalyHandler gitaly policies).preReceive repoID platform updates = none := by
  intro accepts
  have accepted := accepts plainPlatform bareGitaly (fun _ => .ok []) (utf8 "repo") firstPush
    (bareGitaly_withoutDocument firstPush) rfl
  have refused : (gitalyHandler bareGitaly fun _ => .ok []).preReceive (utf8 "repo")
      plainPlatform firstPush =
      some ⟨utf8 "agentsmd: read repo policy: gitaly: blob not found: AGENTS.md at a1",
        [.gitalyBlobNotFound]⟩ := by decide
  rw [refused] at accepted
  cases accepted

end GitScale.AgentsMd
