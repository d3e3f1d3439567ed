import GitScale.Basic
import Mathlib.Data.Rat.Floor

/-!
# The identity schema

The tables of the identity domain and the statements that the code executes on
them.  A statement either fails with an SQL state or yields its result and the new
tables; keys, references and checks are those of the migrations.
-/

namespace GitScale.Identity

/-- `store.HumanUser`, the columns of `identity.human_users` that the code reads. -/
structure HumanUser where
  id : UUID
  email : String
  credentialHash : String
  rateBucket : String
  quotaAccountID : Option UUID
  createdAt : Time
  updatedAt : Time
  deriving DecidableEq

/-- A row of `identity.human_users`. -/
structure HumanUserRow extends HumanUser where
  disabledAt : Option Time
  disableReason : Option String
  deriving DecidableEq

/-- `store.AgentIdentity`, the columns of `identity.agent_identities` that the code
reads. -/
structure AgentIdentity where
  id : UUID
  displayName : String
  parentUserID : UUID
  permissionScope : List String
  rateBucket : String
  sessionQuota : Option Int
  tokensPerWeekCap : Option Int
  reputationScore : Rat
  quotaAccountID : Option UUID
  createdAt : Time
  updatedAt : Time
  deriving DecidableEq

/-- A row of `identity.agent_identities`. -/
structure AgentIdentityRow extends AgentIdentity where
  revokedAt : Option Time
  revokeReason : Option String
  deriving DecidableEq

/-- A row of `identity.org_memberships`. -/
structure OrgMembership where
  orgID : UUID
  userID : UUID
  role : String
  createdAt : Time
  updatedAt : Time
  deriving DecidableEq

/-- A row of `identity.clone_tokens`. -/
structure CloneToken where
  id : UUID
  token : String
  principalID : UUID
  repoID : UUID
  expiresAt : Time
  createdAt : Time
  deriving DecidableEq

/-- The payloads of the identity events. -/
inductive Payload where
  | userCreated (userID : UUID) (email rateBucket : String)
      (quotaAccountID : Option UUID) (createdAt : Time)
  | agentCreated (agentID parentUserID : UUID) (displayName : String)
      (permissionScope : List String) (rateBucket : String)
      (sessionQuota tokensPerWeekCap : Option Int) (reputationScore : Rat)
      (quotaAccountID : Option UUID) (createdAt : Time)
  | agentReputationUpdated (agentID : UUID) (oldScore newScore delta : Rat)
      (computedAt : Time)
  | userDisabled (userID : UUID) (reason : String) (affectedPrincipalIDs : List UUID)
      (disabledAt : Time)
  | agentRevoked (agentID parentUserID : UUID) (reason : String)
      (affectedPrincipalIDs : List UUID) (revokedAt : Time)
  | principalPermissionsChanged (agentID : UUID) (oldScope newScope : List String)
      (affectedPrincipalIDs : List UUID) (changedAt : Time)
  | orgMemberAdded (orgID userID : UUID) (role : String)
      (affectedPrincipalIDs : List UUID) (addedAt : Time)
  | orgMemberRemoved (orgID userID : UUID) (affectedPrincipalIDs : List UUID)
      (removedAt : Time)
  | cloneTokenMinted (tokenID principalID repoID : UUID) (expiresAt mintedAt : Time)
  deriving DecidableEq

/-- A row of `identity.identity_outbox`. -/
structure OutboxEvent where
  eventID : UUID
  aggregateType : String
  aggregateID : UUID
  eventType : String
  payload : Payload
  createdAt : Time
  deriving DecidableEq

/-- The tables of the identity schema; of `identity.organisations` only the keys
are referred to. -/
structure Store where
  humanUsers : List HumanUserRow
  organisations : List UUID
  orgMemberships : List OrgMembership
  agentIdentities : List AgentIdentityRow
  cloneTokens : List CloneToken
  outbox : List OutboxEvent
  deriving DecidableEq

/-- The SQL states that matter to the code. -/
inductive SqlState where
  | serializationFailure
  | uniqueViolation
  | foreignKeyViolation
  | checkViolation
  | other
  deriving DecidableEq, Repr

/-- A database error. -/
structure Fault where
  state : SqlState
  message : String
  deriving DecidableEq, Repr

/-- The outcome of a statement. -/
abbrev Outcome (α : Type) := Except Fault (α × Store)

/-! ## Reads -/

/-- `GetUserByID`; the query does not select `disabled_at`. -/
def getUserByID (id : UUID) (store : Store) : Option HumanUser :=
  (store.humanUsers.find? fun user => user.id = id).map (·.toHumanUser)

/-- `GetAgentByID`; the query does not select `revoked_at`. -/
def getAgentByID (id : UUID) (store : Store) : Option AgentIdentity :=
  (store.agentIdentities.find? fun agent => agent.id = id).map (·.toAgentIdentity)

/-- `store.IdentityCacheEntry`. -/
structure IdentityCacheEntry where
  principalID : UUID
  kind : String
  rateBucket : String
  quotaID : Option UUID
  deriving DecidableEq, Repr

/-- `LookupIdentityForCache`: humans first, then agents.  Neither query looks at
`disabled_at` or `revoked_at`. -/
def lookupIdentityForCache (principalID : UUID) (store : Store) :
    Option IdentityCacheEntry :=
  match getUserByID principalID store with
  | some user => some ⟨user.id, "human", user.rateBucket, user.quotaAccountID⟩
  | none =>
      match getAgentByID principalID store with
      | some agent => some ⟨agent.id, "agent", agent.rateBucket, agent.quotaAccountID⟩
      | none => none

/-! ## Writes -/

/-- `InsertHumanUser`; the other columns take their defaults. -/
def insertHumanUser (user : HumanUser) (now : Time) (store : Store) : Outcome Unit :=
  if (store.humanUsers.any fun other => other.id = user.id) ||
      store.humanUsers.any fun other => other.email = user.email then
    .error ⟨.uniqueViolation, "duplicate key value violates unique constraint"⟩
  else
    .ok ((), { store with
      humanUsers := store.humanUsers ++ [{ user with
        disabledAt := none
        disableReason := none
        createdAt := now
        updatedAt := now }] })

/-- The value that a `NUMERIC(5,4)` column stores. -/
def numeric54 (score : Rat) : Rat := ⌊score * 10000 + 1 / 2⌋ / 10000

/-- `InsertAgentIdentity`. -/
def insertAgentIdentity (agent : AgentIdentity) (now : Time) (store : Store) :
    Outcome Unit :=
  let score := numeric54 agent.reputationScore
  if store.agentIdentities.any fun other => other.id = agent.id then
    .error ⟨.uniqueViolation, "duplicate key value violates unique constraint"⟩
  else if ¬ (0 ≤ score ∧ score ≤ 1) then
    .error ⟨.checkViolation, "chk_agent_identities_reputation_score_range"⟩
  else if (getUserByID agent.parentUserID store).isNone then
    .error ⟨.foreignKeyViolation, "agent_identities_parent_user_id_fkey"⟩
  else
    .ok ((), { store with
      agentIdentities := store.agentIdentities ++ [{ agent with
        reputationScore := score
        revokedAt := none
        revokeReason := none
        createdAt := now
        updatedAt := now }] })

/-- `UPDATE identity.agent_identities SET … WHERE id = $1`; the trigger bumps
`updated_at`. -/
def updateAgents (id : UUID) (now : Time) (change : AgentIdentityRow → AgentIdentityRow)
    (store : Store) : Store :=
  { store with
    agentIdentities := store.agentIdentities.map fun agent =>
      if agent.id = id then { change agent with updatedAt := now } else agent }

/-- `SetAgentReputationScore`.  A score of `none` is `NaN`, which a numeric column
orders above every number. -/
def setAgentReputationScore (id : UUID) (score : Option Rat) (now : Time)
    (store : Store) : Outcome Unit :=
  if (getAgentByID id store).isNone then .ok ((), store)
  else
    match score.map numeric54 with
    | some score =>
        if 0 ≤ score ∧ score ≤ 1 then
          .ok ((), updateAgents id now (fun agent =>
            { agent with reputationScore := score }) store)
        else .error ⟨.checkViolation, "chk_agent_identities_reputation_score_range"⟩
    | none => .error ⟨.checkViolation, "chk_agent_identities_reputation_score_range"⟩

/-- `DisableUser`. -/
def disableUser (id : UUID) (reason : String) (now : Time) (store : Store) :
    Outcome Unit :=
  .ok ((), { store with
    humanUsers := store.humanUsers.map fun user =>
      if user.id = id then
        { user with
          disabledAt := some now
          disableReason := some reason
          updatedAt := now }
      else user })

/-- `RevokeAgent`. -/
def revokeAgent (id : UUID) (reason : String) (now : Time) (store : Store) :
    Outcome Unit :=
  .ok ((), updateAgents id now (fun agent =>
    { agent with revokedAt := some now, revokeReason := some reason }) store)

/-- `UpdateAgentPermissions`. -/
def updateAgentPermissions (id : UUID) (scope : List String) (now : Time)
    (store : Store) : Outcome Unit :=
  .ok ((), updateAgents id now (fun agent => { agent with permissionScope := scope }) store)

/-- The roles that `chk_org_memberships_role_valid` admits. -/
def roles : List String := ["owner", "maintainer", "developer", "reporter", "guest"]

/-- `AddOrgMember`, an upsert on `(org_id, user_id)`. -/
def addOrgMember (orgID userID : UUID) (role : String) (now : Time) (store : Store) :
    Outcome Unit :=
  if role ∉ roles then .error ⟨.checkViolation, "chk_org_memberships_role_valid"⟩
  else if orgID ∉ store.organisations then
    .error ⟨.foreignKeyViolation, "org_memberships_org_id_fkey"⟩
  else if (getUserByID userID store).isNone then
    .error ⟨.foreignKeyViolation, "org_memberships_user_id_fkey"⟩
  else if store.orgMemberships.any fun member =>
      member.orgID = orgID ∧ member.userID = userID then
    .ok ((), { store with
      orgMemberships := store.orgMemberships.map fun member =>
        if member.orgID = orgID ∧ member.userID = userID then
          { member with role := role, updatedAt := now }
        else member })
  else
    .ok ((), { store with
      orgMemberships := store.orgMemberships ++ [⟨orgID, userID, role, now, now⟩] })

/-- `RemoveOrgMember`. -/
def removeOrgMember (orgID userID : UUID) (store : Store) : Outcome Unit :=
  .ok ((), { store with
    orgMemberships := store.orgMemberships.filter fun member =>
      ¬ (member.orgID = orgID ∧ member.userID = userID) })

/-- `InsertCloneToken`; `created_at` takes its default. -/
def insertCloneToken (token : CloneToken) (now : Time) (store : Store) : Outcome Unit :=
  if (store.cloneTokens.any fun other => other.id = token.id) ||
      store.cloneTokens.any fun other => other.token = token.token then
    .error ⟨.uniqueViolation, "duplicate key value violates unique constraint"⟩
  else
    .ok ((), { store with
      cloneTokens := store.cloneTokens ++ [{ token with createdAt := now }] })

/-- `WriteOutbox` for the identity domain. -/
def writeOutbox (event : OutboxEvent) (store : Store) : Outcome Unit :=
  if store.outbox.any fun other => other.eventID = event.eventID then
    .error ⟨.uniqueViolation, "duplicate key value violates unique constraint"⟩
  else .ok ((), { store with outbox := store.outbox ++ [event] })

end GitScale.Identity
