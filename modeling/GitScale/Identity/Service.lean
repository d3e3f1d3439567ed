import GitScale.Go.Strings
import GitScale.Identity.Transaction

/-!
# The identity service

The nine mutations of `postgresService`.  Each one checks its arguments, then runs
one script under `WithSerializableRetry`: the source row and its event are written in
the same transaction.
-/

namespace GitScale.Identity

open Foundation

/-- What the environment contributes to one call. -/
structure Environment where
  attempts : Nat → Attempt
  freshID : UUID
  createdAt : Time
  updatedAt : Time
  hash : String → Except String String
  secret : Except String String

/-- A `float64` argument. -/
inductive Score where
  | nan
  | negInf
  | posInf
  | finite (value : Rat)
  deriving DecidableEq

/-- `clamp01`.  Both comparisons are false on `NaN`, so it passes; the result `none`
stands for it. -/
def clamp01 : Score → Option Rat
  | .nan => none
  | .negInf => some 0
  | .posInf => some 1
  | .finite value => if value < 0 then some 0 else if 1 < value then some 1 else some value

/-- `identity.CloneToken`, the result of `MintCloneToken`. -/
structure MintedToken where
  tokenID : UUID
  token : String
  principalID : UUID
  repoID : UUID
  expiresAt : Time
  deriving DecidableEq

/-- `CloneTokenTTL`, in nanoseconds. -/
def cloneTokenTTL : Int := 15 * 60 * 1000000000

/-! ## Argument checks -/

/-- `normalizeEmail`, for the `strings.ToLower` of the platform. -/
def normalizeEmail (toLower : String → String) (email : String) : String :=
  toLower (Go.trimSpace email)

/-- `looksLikeEmail`. -/
def looksLikeEmail (email : String) : Bool :=
  let text := (Go.trimSpace email).toList
  let position := text.idxOf '@'
  if text.isEmpty then false
  else if text.any fun character => character ∈ [' ', '\t', '\n'] then false
  else if position = 0 || position = text.length || position = text.length - 1 then false
  else (text.drop (position + 1)).contains '.'

/-! ## Scripts -/

/-- `tx.WriteOutbox` for the identity domain. -/
def writeOutboxTx (attempt : Attempt) (aggregateType : String) (aggregateID : UUID)
    (eventType : String) (payload : Payload) : TxM Unit :=
  exec "WriteOutbox identity.identity_outbox" (writeOutbox
    ⟨attempt.eventID, aggregateType, aggregateID, eventType, payload, attempt.now⟩)

/-- The transaction of `CreateUser`. -/
def createUserTx (user : HumanUser) (attempt : Attempt) : TxM Unit := do
  exec "InsertHumanUser" (insertHumanUser user attempt.now)
  writeOutboxTx attempt "human_user" user.id "user.created"
    (.userCreated user.id user.email user.rateBucket user.quotaAccountID attempt.clock)

/-- The transaction of `CreateAgent`. -/
def createAgentTx (agent : AgentIdentity) (attempt : Attempt) : TxM Unit := do
  exec "InsertAgentIdentity" (insertAgentIdentity agent attempt.now)
  writeOutboxTx attempt "agent_identity" agent.id "agent.created"
    (.agentCreated agent.id agent.parentUserID agent.displayName agent.permissionScope
      agent.rateBucket agent.sessionQuota agent.tokensPerWeekCap agent.reputationScore
      agent.quotaAccountID attempt.clock)

/-- The transaction of `SetAgentReputationScore`.  A payload with `NaN` does not
marshal. -/
def setAgentReputationScoreTx (agentID : UUID) (clamped : Option Rat)
    (attempt : Attempt) : TxM Unit := do
  let existing ← require "GetAgentByID" (getAgentByID agentID) .agentNotFound
  exec "SetAgentReputationScore"
    (setAgentReputationScore agentID clamped attempt.now)
  match clamped with
  | none =>
      Script.fail (.other
        "postgres: WriteOutbox: marshal payload: json: unsupported value: NaN")
  | some score =>
      writeOutboxTx attempt "agent_identity" agentID "agent.reputation_updated"
        (.agentReputationUpdated agentID existing.reputationScore score
          (score - existing.reputationScore) attempt.clock)

/-- The transaction of `DisableUser`. -/
def disableUserTx (id : UUID) (reason : String) (attempt : Attempt) : TxM Unit := do
  let _ ← require "GetUserByID" (getUserByID id) .userNotFound
  exec "DisableUser" (disableUser id reason attempt.now)
  writeOutboxTx attempt "human_user" id "user.disabled"
    (.userDisabled id reason [id] attempt.clock)

/-- The transaction of `RevokeAgent`. -/
def revokeAgentTx (id : UUID) (reason : String) (attempt : Attempt) : TxM Unit := do
  let existing ← require "GetAgentByID" (getAgentByID id) .agentNotFound
  exec "RevokeAgent" (revokeAgent id reason attempt.now)
  writeOutboxTx attempt "agent_identity" id "agent.revoked"
    (.agentRevoked id existing.parentUserID reason [id] attempt.clock)

/-- The transaction of `UpdateAgentPermissions`. -/
def updateAgentPermissionsTx (id : UUID) (scope : List String) (attempt : Attempt) :
    TxM Unit := do
  let existing ← require "GetAgentByID" (getAgentByID id) .agentNotFound
  exec "UpdateAgentPermissions" (updateAgentPermissions id scope attempt.now)
  writeOutboxTx attempt "agent_identity" id "principal.permissions_changed"
    (.principalPermissionsChanged id existing.permissionScope scope [id] attempt.clock)

/-- The transaction of `AddOrgMember`. -/
def addOrgMemberTx (orgID userID : UUID) (role : String) (attempt : Attempt) :
    TxM Unit := do
  let _ ← require "GetUserByID" (getUserByID userID) .userNotFound
  exec "AddOrgMember" (addOrgMember orgID userID role attempt.now)
  writeOutboxTx attempt "org_membership" userID "org.member_added"
    (.orgMemberAdded orgID userID role [userID, orgID] attempt.clock)

/-- The transaction of `RemoveOrgMember`. -/
def removeOrgMemberTx (orgID userID : UUID) (attempt : Attempt) : TxM Unit := do
  exec "RemoveOrgMember" (removeOrgMember orgID userID)
  writeOutboxTx attempt "org_membership" userID "org.member_removed"
    (.orgMemberRemoved orgID userID [userID, orgID] attempt.clock)

/-- `mintCloneTokenInTx`. -/
def mintCloneTokenInTx (principalID repoID : UUID) (secret : String)
    (attempt : Attempt) : TxM MintedToken := do
  let tokenID := attempt.freshID
  let expiresAt := attempt.clock + cloneTokenTTL
  exec "InsertCloneToken" (insertCloneToken
    ⟨tokenID, secret, principalID, repoID, expiresAt, attempt.clock⟩ attempt.now)
  writeOutboxTx attempt "clone_token" tokenID "identity.clone_token_minted"
    (.cloneTokenMinted tokenID principalID repoID expiresAt attempt.clock)
  pure ⟨tokenID, secret, principalID, repoID, expiresAt⟩

/-! ## Calls -/

/-- The mutations and their arguments. -/
inductive Call where
  | createUser (email plaintextCredential : String)
  | createAgent (parentUserID : UUID) (displayName : String) (scope : List String)
  | setAgentReputationScore (agentID : UUID) (score : Score)
  | disableUser (id : UUID) (reason : String)
  | revokeAgent (id : UUID) (reason : String)
  | updateAgentPermissions (id : UUID) (scope : List String)
  | addOrgMember (orgID userID : UUID) (role : String)
  | removeOrgMember (orgID userID : UUID)
  | mintCloneToken (principalID repoID : UUID)
  deriving DecidableEq

/-- What a mutation returns beside a nil error. -/
inductive Reply where
  | done
  | user (user : HumanUser)
  | agent (agent : AgentIdentity)
  | cloneToken (token : MintedToken)
  deriving DecidableEq

/-- The user that `CreateUser` inserts. -/
def newUser (toLower : String → String) (email hashed : String)
    (environment : Environment) : HumanUser where
  id := environment.freshID
  email := normalizeEmail toLower email
  credentialHash := hashed
  rateBucket := "human_default"
  quotaAccountID := none
  createdAt := environment.createdAt
  updatedAt := environment.updatedAt

/-- The agent that `CreateAgent` inserts. -/
def newAgent (parentUserID : UUID) (displayName : String) (scope : List String)
    (environment : Environment) : AgentIdentity where
  id := environment.freshID
  displayName := displayName
  parentUserID := parentUserID
  permissionScope := scope
  rateBucket := "agent_standard"
  sessionQuota := none
  tokensPerWeekCap := none
  reputationScore := 1 / 2
  quotaAccountID := none
  createdAt := environment.createdAt
  updatedAt := environment.updatedAt

/-- Run the script of a mutation and turn its result into a reply. -/
def commitReply {α : Type} (reply : α → Reply) (script : Attempt → TxM α)
    (environment : Environment) (store : Store) : Except Failure Reply × Store :=
  let outcome := withSerializableRetry script environment.attempts store
  (outcome.1.map reply, outcome.2)

/-- What every attempt keeps, the whole call keeps. -/
theorem commitReply_keeps {α : Type} {relation : Store → Store → Prop}
    [Std.Refl relation] [IsTrans Store relation] {reply : α → Reply}
    {script : Attempt → TxM α} {environment : Environment} {store : Store}
    (keeps : ∀ attempt, (script attempt).Keeps relation) :
    relation store (commitReply reply script environment store).2 :=
  withSerializableRetry_keeps keeps environment.attempts store

/-- When no attempt can succeed on the tables as they are, they stay as they are. -/
theorem commitReply_never {α : Type} {reply : α → Reply} {script : Attempt → TxM α}
    {environment : Environment} {store : Store}
    (never : ∀ attempt value session,
      ¬ (script attempt).Yields attempt.statements ⟨store, 0⟩ value session) :
    (commitReply reply script environment store).2 = store :=
  retryFrom_never never environment.attempts retryMaxAttempts

/-- A reply comes from an attempt whose script succeeded. -/
theorem commitReply_ok {α : Type} {reply : α → Reply} {script : Attempt → TxM α}
    {environment : Environment} {store after : Store} {answer : Reply}
    (returned : commitReply reply script environment store = (.ok answer, after)) :
    ∃ number before value session,
      (script (environment.attempts number)).Yields (environment.attempts number).statements
          ⟨before, 0⟩ value session ∧
        session.store = after ∧ reply value = answer := by
  unfold commitReply at returned
  rcases ran : withSerializableRetry script environment.attempts store with ⟨result, final⟩
  rw [ran] at returned
  cases result with
  | error failure => cases returned
  | ok value =>
      cases returned
      rcases withSerializableRetry_ok ran with ⟨number, before, session, yields, same⟩
      exact ⟨number, before, value, session, yields, same, rfl⟩

/-- An attempt that meets no fault. -/
def quietAttempt (eventID : UUID) : Attempt where
  begin := none
  statements := fun _ => none
  commit := .committed
  now := 0
  clock := 0
  eventID := eventID
  freshID := 0
  backoff := none

/-- An environment that meets no fault. -/
def quietEnvironment (freshID eventID : UUID) : Environment where
  attempts := fun _ => quietAttempt eventID
  freshID := freshID
  createdAt := 0
  updatedAt := 0
  hash := fun _ => .ok "$argon2id$v=19$m=65536,t=3,p=2$c2FsdA$a2V5"
  secret := .error "identity: clone-token entropy: EOF"

/-- Without faults the first attempt commits. -/
theorem commitReply_quiet {α : Type} {reply : α → Reply} {script : Attempt → TxM α}
    {freshID eventID : UUID} {store : Store} {value : α} {session : Session Store}
    (yields : (script (quietAttempt eventID)).Yields (fun _ => none) ⟨store, 0⟩ value session) :
    commitReply reply script (quietEnvironment freshID eventID) store =
      (.ok (reply value), session.store) := by
  have committed : transact (script (quietAttempt eventID)) (quietAttempt eventID) store =
      (.ok value, session.store) :=
    transact_of_yields rfl rfl yields
  simp only [commitReply, withSerializableRetry, retryMaxAttempts, retryFrom,
    quietEnvironment, committed]
  rfl

variable (toLower : String → String)

/-- One call of the service. -/
def serve (call : Call) (environment : Environment) (store : Store) :
    Except Failure Reply × Store :=
  match call with
  | .createUser email plaintextCredential =>
      if ¬ looksLikeEmail email then (.error (.service .invalidEmail), store)
      else if plaintextCredential = "" then (.error (.service .credentialEmpty), store)
      else
        match environment.hash plaintextCredential with
        | .error message => (.error (.other message), store)
        | .ok hashed =>
            let user := newUser toLower email hashed environment
            commitReply (fun _ => .user user) (createUserTx user) environment store
  | .createAgent parentUserID displayName scope =>
      if displayName = "" then (.error (.service .emptyDisplayName), store)
      else
        let agent := newAgent parentUserID displayName scope environment
        commitReply (fun _ => .agent agent) (createAgentTx agent) environment store
  | .setAgentReputationScore agentID score =>
      commitReply (fun _ => .done) (setAgentReputationScoreTx agentID (clamp01 score))
        environment store
  | .disableUser id reason =>
      commitReply (fun _ => .done) (disableUserTx id reason) environment store
  | .revokeAgent id reason =>
      commitReply (fun _ => .done) (revokeAgentTx id reason) environment store
  | .updateAgentPermissions id scope =>
      commitReply (fun _ => .done) (updateAgentPermissionsTx id scope) environment store
  | .addOrgMember orgID userID role =>
      if role = "" then (.error (.service .emptyRole), store)
      else
        commitReply (fun _ => .done) (addOrgMemberTx orgID userID role) environment store
  | .removeOrgMember orgID userID =>
      commitReply (fun _ => .done) (removeOrgMemberTx orgID userID) environment store
  | .mintCloneToken principalID repoID =>
      match environment.secret with
      | .error message => (.error (.other message), store)
      | .ok secret =>
          commitReply .cloneToken (mintCloneTokenInTx principalID repoID secret)
            environment store

end GitScale.Identity
