import GitScale.Identity.Service

/-!
# Mutations are atomic with their events

A call of the service runs at most `retryMaxAttempts` transactions and at most one of them
commits.  What a committed transaction has done is said once, by one constructor for each
operation: its source statement and the event that goes with it.
-/

namespace GitScale.Identity

open Foundation

/-! ## Counting commits -/

section Commits

variable {α β : Type}

/-- The transaction of an attempt takes effect. -/
def transactCommits (script : TxM α) (attempt : Attempt) (store : Store) : Bool :=
  match attempt.begin with
  | some _ => false
  | none =>
      match script attempt.statements ⟨store, 0⟩ with
      | .error _ => false
      | .ok _ =>
          match attempt.commit with
          | .committed => true
          | .aborted _ => false
          | .unacknowledged _ => true

/-- How many transactions the loop of `WithSerializableRetry` commits. -/
def commitsFrom (script : Attempt → TxM α) (attempts : Nat → Attempt) : Nat → Store → Nat
  | 0, _ => 0
  | remaining + 1, store =>
      let attempt := attempts (retryMaxAttempts - (remaining + 1))
      let committed := (transactCommits (script attempt) attempt store).toNat
      match transact (script attempt) attempt store with
      | (.ok _, _) => committed
      | (.error failure, store) =>
          if isRetryable failure ∧ remaining ≠ 0 ∧ attempt.backoff = none then
            committed + commitsFrom script attempts remaining store
          else committed

/-- No commit fails after it has taken effect. -/
def CommitsKnown (attempts : Nat → Attempt) : Prop :=
  ∀ index message, (attempts index).commit ≠ .unacknowledged message

/-- A transaction runs its script to the end and commits, or it leaves no trace. -/
theorem transact_atomic {attempt : Attempt}
    (known : ∀ message, attempt.commit ≠ .unacknowledged message) (script : TxM α)
    (store : Store) :
    (∃ value session, script.Yields attempt.statements ⟨store, 0⟩ value session ∧
        transact script attempt store = (.ok value, session.store) ∧
        transactCommits script attempt store = true) ∨
      ∃ failure, transact script attempt store = (.error failure, store) ∧
        transactCommits script attempt store = false := by
  unfold transact transactCommits
  cases attempt.begin with
  | some fault => exact Or.inr ⟨_, rfl, rfl⟩
  | none =>
      cases ran : script attempt.statements ⟨store, 0⟩ with
      | error failure => exact Or.inr ⟨failure, rfl, rfl⟩
      | ok pair =>
          cases ended : attempt.commit with
          | committed => exact Or.inl ⟨pair.1, pair.2, ran, rfl, rfl⟩
          | aborted fault => exact Or.inr ⟨_, rfl, rfl⟩
          | unacknowledged message => exact absurd ended (known message)

/-- What a whole call leaves behind: the effect of one attempt on the tables it found, or
nothing. -/
theorem retryFrom_atomic {attempts : Nat → Attempt} (known : CommitsKnown attempts)
    (script : Attempt → TxM α) (remaining : Nat) (store : Store) :
    (∃ index value session,
        (script (attempts index)).Yields (attempts index).statements ⟨store, 0⟩ value
          session ∧
        retryFrom script attempts remaining store = (.ok value, session.store) ∧
        commitsFrom script attempts remaining store = 1) ∨
      ∃ failure, retryFrom script attempts remaining store = (.error failure, store) ∧
        commitsFrom script attempts remaining store = 0 := by
  induction remaining with
  | zero => exact Or.inr ⟨_, rfl, rfl⟩
  | succ remaining inductionHypothesis =>
      let index := retryMaxAttempts - (remaining + 1)
      rcases transact_atomic (known index) (script (attempts index)) store with
        ⟨value, session, yields, returned, committed⟩ | ⟨failure, returned, committed⟩
      · refine Or.inl ⟨index, value, session, yields, ?_, ?_⟩
        · simp only [retryFrom, index, returned]
        · simp [commitsFrom, index, returned, committed]
      · -- The failed attempt left the tables as they were, so the next one finds the same.
        by_cases again : isRetryable failure ∧ remaining ≠ 0 ∧
            (attempts index).backoff = none
        · have onward : retryFrom script attempts (remaining + 1) store =
              retryFrom script attempts remaining store := by
            simp only [index] at again
            simp [retryFrom, index, returned, again]
          have counted : commitsFrom script attempts (remaining + 1) store =
              commitsFrom script attempts remaining store := by
            simp only [index] at again
            simp [commitsFrom, index, returned, committed, again]
          rw [onward, counted]
          exact inductionHypothesis
        · have counted : commitsFrom script attempts (remaining + 1) store = 0 := by
            simp only [index] at again
            simp [commitsFrom, index, returned, committed, again]
          suffices stops : ∃ failure, retryFrom script attempts (remaining + 1) store =
              (.error failure, store) by
            obtain ⟨failure, stopped⟩ := stops
            exact Or.inr ⟨failure, stopped, counted⟩
          simp only [retryFrom, index, returned]
          split
          · split
            · exact ⟨_, rfl⟩
            · split
              · exact ⟨_, rfl⟩
              · simp_all [index]
          · exact ⟨_, rfl⟩

end Commits

/-! ## The mutations -/

/-- The checks that a mutation makes before its first transaction, and the script that it
hands to `WithSerializableRetry`. -/
def mutation (toLower : String → String) (call : Call) (environment : Environment) :
    Except Failure (Attempt → TxM Reply) :=
  match call with
  | .createUser email plaintextCredential =>
      if ¬ looksLikeEmail email then .error (.service .invalidEmail)
      else if plaintextCredential = "" then .error (.service .credentialEmpty)
      else
        match environment.hash plaintextCredential with
        | .error message => .error (.other message)
        | .ok hashed =>
            let user := newUser toLower email hashed environment
            .ok fun attempt => do
              createUserTx user attempt
              pure (.user user)
  | .createAgent parentUserID displayName scope =>
      if displayName = "" then .error (.service .emptyDisplayName)
      else
        let agent := newAgent parentUserID displayName scope environment
        .ok fun attempt => do
          createAgentTx agent attempt
          pure (.agent agent)
  | .setAgentReputationScore agentID score =>
      .ok fun attempt => do
        setAgentReputationScoreTx agentID (clamp01 score) attempt
        pure .done
  | .disableUser id reason =>
      .ok fun attempt => do
        disableUserTx id reason attempt
        pure .done
  | .revokeAgent id reason =>
      .ok fun attempt => do
        revokeAgentTx id reason attempt
        pure .done
  | .updateAgentPermissions id scope =>
      .ok fun attempt => do
        updateAgentPermissionsTx id scope attempt
        pure .done
  | .addOrgMember orgID userID role =>
      if role = "" then .error (.service .emptyRole)
      else
        .ok fun attempt => do
          addOrgMemberTx orgID userID role attempt
          pure .done
  | .removeOrgMember orgID userID =>
      .ok fun attempt => do
        removeOrgMemberTx orgID userID attempt
        pure .done
  | .mintCloneToken principalID repoID =>
      match environment.secret with
      | .error message => .error (.other message)
      | .ok secret =>
          .ok fun attempt => do
            let token ← mintCloneTokenInTx principalID repoID secret attempt
            pure (.cloneToken token)

theorem transact_map {α β : Type} (reply : α → β) (script : TxM α) (attempt : Attempt)
    (store : Store) :
    transact (do pure (reply (← script))) attempt store =
      ((transact script attempt store).1.map reply, (transact script attempt store).2) := by
  simp only [transact, bind, pure]
  cases attempt.begin with
  | some fault => rfl
  | none =>
      cases script attempt.statements ⟨store, 0⟩ with
      | error failure => rfl
      | ok pair =>
          cases attempt.commit with
          | committed => rfl
          | aborted fault => rfl
          | unacknowledged message => rfl

theorem retryFrom_map {α β : Type} (reply : α → β) (script : Attempt → TxM α)
    (attempts : Nat → Attempt) (remaining : Nat) (store : Store) :
    retryFrom (fun attempt => do pure (reply (← script attempt))) attempts remaining store =
      ((retryFrom script attempts remaining store).1.map reply,
        (retryFrom script attempts remaining store).2) := by
  induction remaining generalizing store with
  | zero => rfl
  | succ remaining inductionHypothesis =>
      simp only [retryFrom, transact_map]
      rcases transact (script (attempts (retryMaxAttempts - (remaining + 1))))
        (attempts (retryMaxAttempts - (remaining + 1))) store with ⟨result, next⟩
      cases result with
      | ok value => rfl
      | error failure =>
          simp only [Except.map]
          split
          · split
            · rfl
            · split
              · rfl
              · exact inductionHypothesis next
          · rfl

theorem commitReply_eq {α : Type} (reply : α → Reply) (script : Attempt → TxM α)
    (environment : Environment) (store : Store) :
    commitReply reply script environment store =
      withSerializableRetry (fun attempt => do pure (reply (← script attempt)))
        environment.attempts store :=
  (retryFrom_map reply script environment.attempts retryMaxAttempts store).symm

/-- A call is its checks and then its script under retry. -/
theorem serve_eq_mutation (toLower : String → String) (call : Call)
    (environment : Environment) (store : Store) :
    serve toLower call environment store =
      match mutation toLower call environment with
      | .error failure => (.error failure, store)
      | .ok script => withSerializableRetry script environment.attempts store := by
  cases call with
  | createUser email plaintextCredential =>
      simp only [serve, mutation]
      split
      · rfl
      · split
        · rfl
        · cases environment.hash plaintextCredential with
          | error message => rfl
          | ok hashed => exact commitReply_eq _ _ environment store
  | createAgent parentUserID displayName scope =>
      simp only [serve, mutation]
      split
      · rfl
      · exact commitReply_eq _ _ environment store
  | addOrgMember orgID userID role =>
      simp only [serve, mutation]
      split
      · rfl
      · exact commitReply_eq _ _ environment store
  | mintCloneToken principalID repoID =>
      simp only [serve, mutation]
      cases environment.secret with
      | error message => rfl
      | ok secret => exact commitReply_eq _ _ environment store
  | setAgentReputationScore agentID score => exact commitReply_eq _ _ environment store
  | disableUser id reason => exact commitReply_eq _ _ environment store
  | revokeAgent id reason => exact commitReply_eq _ _ environment store
  | updateAgentPermissions id scope => exact commitReply_eq _ _ environment store
  | removeOrgMember orgID userID => exact commitReply_eq _ _ environment store

/-- How many transactions a call commits. -/
def commitsOf (toLower : String → String) (call : Call) (environment : Environment)
    (store : Store) : Nat :=
  match mutation toLower call environment with
  | .error _ => 0
  | .ok script => commitsFrom script environment.attempts retryMaxAttempts store

/-! ## Effects -/

/-- `Mutates … call before source event`: the source statement of `call` turns the tables
`before` into `source`, and `event` is the outbox row that belongs to it. -/
inductive Mutates (toLower : String → String) (environment : Environment)
    (attempt : Attempt) : Call → Store → Store → OutboxEvent → Prop where
  | createUser {email plaintextCredential hashed : String} {before : Store}
      {user : HumanUser} (hash : environment.hash plaintextCredential = .ok hashed)
      (new : user = newUser toLower email hashed environment) :
      Mutates toLower environment attempt (.createUser email plaintextCredential) before
        { before with
          humanUsers := before.humanUsers ++ [{ user with
            disabledAt := none
            disableReason := none
            createdAt := attempt.now
            updatedAt := attempt.now }] }
        ⟨attempt.eventID, "human_user", user.id, "user.created",
          .userCreated user.id user.email user.rateBucket user.quotaAccountID attempt.clock,
          attempt.now⟩
  | createAgent {parentUserID : UUID} {displayName : String} {scope : List String}
      {before : Store} {agent : AgentIdentity}
      (new : agent = newAgent parentUserID displayName scope environment) :
      Mutates toLower environment attempt (.createAgent parentUserID displayName scope) before
        { before with
          agentIdentities := before.agentIdentities ++ [{ agent with
            reputationScore := numeric54 agent.reputationScore
            revokedAt := none
            revokeReason := none
            createdAt := attempt.now
            updatedAt := attempt.now }] }
        ⟨attempt.eventID, "agent_identity", agent.id, "agent.created",
          .agentCreated agent.id agent.parentUserID agent.displayName agent.permissionScope
            agent.rateBucket agent.sessionQuota agent.tokensPerWeekCap agent.reputationScore
            agent.quotaAccountID attempt.clock,
          attempt.now⟩
  | setAgentReputationScore {agentID : UUID} {score : Score} {clamped : Rat} {before : Store}
      {existing : AgentIdentity} (clamps : clamp01 score = some clamped)
      (found : getAgentByID agentID before = some existing) :
      Mutates toLower environment attempt (.setAgentReputationScore agentID score) before
        (updateAgents agentID attempt.now
          (fun agent => { agent with reputationScore := numeric54 clamped }) before)
        ⟨attempt.eventID, "agent_identity", agentID, "agent.reputation_updated",
          .agentReputationUpdated agentID existing.reputationScore clamped
            (clamped - existing.reputationScore) attempt.clock,
          attempt.now⟩
  | disableUser {id : UUID} {reason : String} {before : Store} {existing : HumanUser}
      (found : getUserByID id before = some existing) :
      Mutates toLower environment attempt (.disableUser id reason) before
        { before with
          humanUsers := before.humanUsers.map fun user =>
            if user.id = id then
              { user with
                disabledAt := some attempt.now
                disableReason := some reason
                updatedAt := attempt.now }
            else user }
        ⟨attempt.eventID, "human_user", id, "user.disabled",
          .userDisabled id reason [id] attempt.clock, attempt.now⟩
  | revokeAgent {id : UUID} {reason : String} {before : Store} {existing : AgentIdentity}
      (found : getAgentByID id before = some existing) :
      Mutates toLower environment attempt (.revokeAgent id reason) before
        (updateAgents id attempt.now (fun agent =>
          { agent with revokedAt := some attempt.now, revokeReason := some reason }) before)
        ⟨attempt.eventID, "agent_identity", id, "agent.revoked",
          .agentRevoked id existing.parentUserID reason [id] attempt.clock, attempt.now⟩
  | updateAgentPermissions {id : UUID} {scope : List String} {before : Store}
      {existing : AgentIdentity} (found : getAgentByID id before = some existing) :
      Mutates toLower environment attempt (.updateAgentPermissions id scope) before
        (updateAgents id attempt.now (fun agent => { agent with permissionScope := scope })
          before)
        ⟨attempt.eventID, "agent_identity", id, "principal.permissions_changed",
          .principalPermissionsChanged id existing.permissionScope scope [id] attempt.clock,
          attempt.now⟩
  | addOrgMember {orgID userID : UUID} {role : String} {before : Store}
      (absent : ∀ member ∈ before.orgMemberships,
        ¬ (member.orgID = orgID ∧ member.userID = userID)) :
      Mutates toLower environment attempt (.addOrgMember orgID userID role) before
        { before with
          orgMemberships := before.orgMemberships ++
            [⟨orgID, userID, role, attempt.now, attempt.now⟩] }
        ⟨attempt.eventID, "org_membership", userID, "org.member_added",
          .orgMemberAdded orgID userID role [userID, orgID] attempt.clock, attempt.now⟩
  | changeOrgMember {orgID userID : UUID} {role : String} {before : Store}
      (present : ∃ member ∈ before.orgMemberships,
        member.orgID = orgID ∧ member.userID = userID) :
      Mutates toLower environment attempt (.addOrgMember orgID userID role) before
        { before with
          orgMemberships := before.orgMemberships.map fun member =>
            if member.orgID = orgID ∧ member.userID = userID then
              { member with role := role, updatedAt := attempt.now }
            else member }
        ⟨attempt.eventID, "org_membership", userID, "org.member_added",
          .orgMemberAdded orgID userID role [userID, orgID] attempt.clock, attempt.now⟩
  | removeOrgMember {orgID userID : UUID} {before : Store}
      (present : ∃ member ∈ before.orgMemberships,
        member.orgID = orgID ∧ member.userID = userID) :
      Mutates toLower environment attempt (.removeOrgMember orgID userID) before
        { before with
          orgMemberships := before.orgMemberships.filter fun member =>
            ¬ (member.orgID = orgID ∧ member.userID = userID) }
        ⟨attempt.eventID, "org_membership", userID, "org.member_removed",
          .orgMemberRemoved orgID userID [userID, orgID] attempt.clock, attempt.now⟩
  | removeNonMember {orgID userID : UUID} {before : Store}
      (absent : ∀ member ∈ before.orgMemberships,
        ¬ (member.orgID = orgID ∧ member.userID = userID)) :
      Mutates toLower environment attempt (.removeOrgMember orgID userID) before before
        ⟨attempt.eventID, "org_membership", userID, "org.member_removed",
          .orgMemberRemoved orgID userID [userID, orgID] attempt.clock, attempt.now⟩
  | mintCloneToken {principalID repoID : UUID} {secret : String} {expiresAt : Time}
      {before : Store} (drawn : environment.secret = .ok secret)
      (expires : expiresAt = attempt.clock + cloneTokenTTL) :
      Mutates toLower environment attempt (.mintCloneToken principalID repoID) before
        { before with
          cloneTokens := before.cloneTokens ++
            [⟨attempt.freshID, secret, principalID, repoID, expiresAt, attempt.now⟩] }
        ⟨attempt.eventID, "clone_token", attempt.freshID, "identity.clone_token_minted",
          .cloneTokenMinted attempt.freshID principalID repoID expiresAt attempt.clock,
          attempt.now⟩

/-- A source statement is not an outbox write. -/
theorem Mutates.outbox {toLower : String → String} {environment : Environment}
    {attempt : Attempt} {call : Call} {before source : Store} {event : OutboxEvent}
    (mutates : Mutates toLower environment attempt call before source event) :
    source.outbox = before.outbox := by
  cases mutates <;> rfl

/-- The tables with one more outbox row. -/
def Store.published (store : Store) (event : OutboxEvent) : Store :=
  { store with outbox := store.outbox ++ [event] }

section Scripts

variable {attempt : Attempt} {before after : Session Store}

theorem writeOutbox_ok {event : OutboxEvent} {store next : Store}
    (written : writeOutbox event store = .ok ((), next)) : next = store.published event := by
  unfold writeOutbox at written
  split at written
  · cases written
  · cases written
    rfl

/-- A statement followed by its event. -/
theorem yields_write {operation aggregateType eventType : String} {aggregateID : UUID}
    {payload : Payload} {effect : Store → Outcome Unit} {faults : Nat → Option Fault}
    (yields : (do
      exec operation effect
      writeOutboxTx attempt aggregateType aggregateID eventType payload).Yields faults before
        () after) :
    ∃ source, effect before.store = .ok ((), source) ∧
      after.store = source.published
        ⟨attempt.eventID, aggregateType, aggregateID, eventType, payload, attempt.now⟩ := by
  rcases Script.yields_bind.mp yields with ⟨_, between, executed, wrote⟩
  exact ⟨between.store, (yields_exec.mp executed).2.1, writeOutbox_ok (yields_exec.mp wrote).2.1⟩

/-- A statement that needs a row, followed by its event. -/
theorem yields_requireWrite {α : Type} {lookup operation aggregateType eventType : String}
    {read : Store → Option α} {missing : ServiceError} {aggregateID : UUID}
    {payload : α → Payload} {effect : Store → Outcome Unit} {faults : Nat → Option Fault}
    (yields : (do
      let row ← require lookup read missing
      exec operation effect
      writeOutboxTx attempt aggregateType aggregateID eventType (payload row)).Yields faults
        before () after) :
    ∃ row source, read before.store = some row ∧ effect before.store = .ok ((), source) ∧
      after.store = source.published
        ⟨attempt.eventID, aggregateType, aggregateID, eventType, payload row,
          attempt.now⟩ := by
  rcases Script.yields_bind.mp yields with ⟨row, between, found, rest⟩
  rcases yields_require found with ⟨present, same⟩
  rcases yields_write rest with ⟨source, executed, published⟩
  rw [same] at executed
  exact ⟨row, source, present, executed, published⟩

theorem insertHumanUser_ok {user : HumanUser} {now : Time} {store next : Store}
    (executed : insertHumanUser user now store = .ok ((), next)) :
    next = { store with
      humanUsers := store.humanUsers ++ [{ user with
        disabledAt := none
        disableReason := none
        createdAt := now
        updatedAt := now }] } := by
  unfold insertHumanUser at executed
  split at executed
  · cases executed
  · cases executed
    rfl

theorem insertAgentIdentity_ok {agent : AgentIdentity} {now : Time} {store next : Store}
    (executed : insertAgentIdentity agent now store = .ok ((), next)) :
    next = { store with
      agentIdentities := store.agentIdentities ++ [{ agent with
        reputationScore := numeric54 agent.reputationScore
        revokedAt := none
        revokeReason := none
        createdAt := now
        updatedAt := now }] } := by
  unfold insertAgentIdentity at executed
  simp only at executed
  split at executed
  · cases executed
  · split at executed
    · cases executed
    · split at executed
      · cases executed
      · cases executed
        rfl

theorem insertCloneToken_ok {token : CloneToken} {now : Time} {store next : Store}
    (executed : insertCloneToken token now store = .ok ((), next)) :
    next = { store with
      cloneTokens := store.cloneTokens ++ [{ token with createdAt := now }] } := by
  unfold insertCloneToken at executed
  split at executed
  · cases executed
  · cases executed
    rfl

/-- The upsert changes the membership or inserts it. -/
theorem addOrgMember_ok {orgID userID : UUID} {role : String} {now : Time}
    {store next : Store} (executed : addOrgMember orgID userID role now store = .ok ((), next)) :
    ((∃ member ∈ store.orgMemberships, member.orgID = orgID ∧ member.userID = userID) ∧
        next = { store with
          orgMemberships := store.orgMemberships.map fun member =>
            if member.orgID = orgID ∧ member.userID = userID then
              { member with role := role, updatedAt := now }
            else member }) ∨
      ((∀ member ∈ store.orgMemberships, ¬ (member.orgID = orgID ∧ member.userID = userID)) ∧
        next = { store with
          orgMemberships := store.orgMemberships ++ [⟨orgID, userID, role, now, now⟩] }) := by
  unfold addOrgMember at executed
  split at executed
  · cases executed
  · split at executed
    · cases executed
    · split at executed
      · cases executed
      · split at executed
        · rename_i present
          cases executed
          exact Or.inl ⟨by simpa using present, rfl⟩
        · rename_i absent
          cases executed
          exact Or.inr ⟨by simpa using absent, rfl⟩

/-- The delete of a membership that does not exist deletes nothing. -/
theorem removeOrgMember_ok {orgID userID : UUID} {store next : Store}
    (executed : removeOrgMember orgID userID store = .ok ((), next)) :
    ((∃ member ∈ store.orgMemberships, member.orgID = orgID ∧ member.userID = userID) ∧
        next = { store with
          orgMemberships := store.orgMemberships.filter fun member =>
            ¬ (member.orgID = orgID ∧ member.userID = userID) }) ∨
      ((∀ member ∈ store.orgMemberships, ¬ (member.orgID = orgID ∧ member.userID = userID)) ∧
        next = store) := by
  cases executed
  by_cases present : ∃ member ∈ store.orgMemberships,
      member.orgID = orgID ∧ member.userID = userID
  · exact Or.inl ⟨present, rfl⟩
  · have absent : ∀ member ∈ store.orgMemberships,
        ¬ (member.orgID = orgID ∧ member.userID = userID) :=
      fun member listed equal => present ⟨member, listed, equal⟩
    refine Or.inr ⟨absent, ?_⟩
    have kept : (store.orgMemberships.filter fun member =>
        ¬ (member.orgID = orgID ∧ member.userID = userID)) = store.orgMemberships := by
      rw [List.filter_eq_self]
      intro member listed
      exact decide_eq_true (absent member listed)
    rw [kept]

theorem yields_mintCloneTokenInTx {principalID repoID : UUID} {secret : String}
    {faults : Nat → Option Fault} {token : MintedToken}
    (yields : (mintCloneTokenInTx principalID repoID secret attempt).Yields faults before token
      after) :
    ∃ source,
      insertCloneToken ⟨attempt.freshID, secret, principalID, repoID,
        attempt.clock + cloneTokenTTL, attempt.clock⟩ attempt.now before.store =
          .ok ((), source) ∧
      after.store = source.published
        ⟨attempt.eventID, "clone_token", attempt.freshID, "identity.clone_token_minted",
          .cloneTokenMinted attempt.freshID principalID repoID
            (attempt.clock + cloneTokenTTL) attempt.clock, attempt.now⟩ := by
  rcases Script.yields_bind.mp yields with ⟨_, between, executed, rest⟩
  rcases Script.yields_bind.mp rest with ⟨_, written, wrote, ended⟩
  rcases Script.yields_pure.mp ended with ⟨-, rfl⟩
  exact ⟨between.store, (yields_exec.mp executed).2.1, writeOutbox_ok (yields_exec.mp wrote).2.1⟩

variable {toLower : String → String} {environment : Environment}

/-- What the script of a mutation has done when it succeeds. -/
theorem mutation_effect {call : Call} {script : Attempt → TxM Reply}
    (given : mutation toLower call environment = .ok script) {faults : Nat → Option Fault}
    {reply : Reply} (yields : (script attempt).Yields faults before reply after) :
    ∃ source event, Mutates toLower environment attempt call before.store source event ∧
      after.store = source.published event := by
  cases call with
  | createUser email plaintextCredential =>
      simp only [mutation] at given
      split at given
      · cases given
      · split at given
        · cases given
        · cases hash : environment.hash plaintextCredential with
          | error message => simp [hash] at given
          | ok hashed =>
              simp only [hash, Except.ok.injEq] at given
              subst given
              obtain ⟨_, ran⟩ := yields.of_bind_pure
              rcases yields_write ran with ⟨source, executed, published⟩
              rcases insertHumanUser_ok executed with rfl
              exact ⟨_, _, .createUser hash rfl, published⟩
  | createAgent parentUserID displayName scope =>
      simp only [mutation] at given
      split at given
      · cases given
      · cases given
        obtain ⟨_, ran⟩ := yields.of_bind_pure
        rcases yields_write ran with ⟨source, executed, published⟩
        rcases insertAgentIdentity_ok executed with rfl
        exact ⟨_, _, .createAgent rfl, published⟩
  | setAgentReputationScore agentID score =>
      cases given
      obtain ⟨_, ran⟩ := yields.of_bind_pure
      unfold setAgentReputationScoreTx at ran
      cases clamps : clamp01 score with
      | none =>
          rw [clamps] at ran
          rcases Script.yields_bind.mp ran with ⟨_, _, -, rest⟩
          rcases Script.yields_bind.mp rest with ⟨_, _, -, rest⟩
          exact absurd rest Script.yields_fail
      | some clamped =>
          rw [clamps] at ran
          rcases yields_requireWrite ran with ⟨existing, source, found, executed, published⟩
          simp only [setAgentReputationScore, found, Option.isNone_some, Bool.false_eq_true,
            if_false, Option.map_some] at executed
          split at executed
          · cases executed
            exact ⟨_, _, .setAgentReputationScore clamps found, published⟩
          · cases executed
  | disableUser id reason =>
      cases given
      obtain ⟨_, ran⟩ := yields.of_bind_pure
      rcases yields_requireWrite ran with ⟨existing, source, found, executed, published⟩
      cases executed
      exact ⟨_, _, .disableUser found, published⟩
  | revokeAgent id reason =>
      cases given
      obtain ⟨_, ran⟩ := yields.of_bind_pure
      rcases yields_requireWrite ran with ⟨existing, source, found, executed, published⟩
      cases executed
      exact ⟨_, _, .revokeAgent found, published⟩
  | updateAgentPermissions id scope =>
      cases given
      obtain ⟨_, ran⟩ := yields.of_bind_pure
      rcases yields_requireWrite ran with ⟨existing, source, found, executed, published⟩
      cases executed
      exact ⟨_, _, .updateAgentPermissions found, published⟩
  | addOrgMember orgID userID role =>
      simp only [mutation] at given
      split at given
      · cases given
      · cases given
        obtain ⟨_, ran⟩ := yields.of_bind_pure
        rcases yields_requireWrite ran with ⟨existing, source, found, executed, published⟩
        rcases addOrgMember_ok executed with ⟨present, rfl⟩ | ⟨absent, rfl⟩
        · exact ⟨_, _, .changeOrgMember present, published⟩
        · exact ⟨_, _, .addOrgMember absent, published⟩
  | removeOrgMember orgID userID =>
      cases given
      obtain ⟨_, ran⟩ := yields.of_bind_pure
      rcases yields_write ran with ⟨source, executed, published⟩
      rcases removeOrgMember_ok executed with ⟨present, rfl⟩ | ⟨absent, rfl⟩
      · exact ⟨_, _, .removeOrgMember present, published⟩
      · exact ⟨_, _, .removeNonMember absent, published⟩
  | mintCloneToken principalID repoID =>
      simp only [mutation] at given
      cases drawn : environment.secret with
      | error message => simp [drawn] at given
      | ok secret =>
          simp only [drawn, Except.ok.injEq] at given
          subst given
          obtain ⟨_, ran⟩ := yields.of_bind_pure
          rcases yields_mintCloneTokenInTx ran with ⟨source, executed, published⟩
          rcases insertCloneToken_ok executed with rfl
          exact ⟨_, _, .mintCloneToken drawn rfl, published⟩

/-- Every mutation is atomic with its event: a call that returns nil has committed one
transaction, with the source statement of the operation and one outbox row, and a call that
returns an error has changed nothing. -/
theorem serve_atomic (toLower : String → String) (call : Call) (environment : Environment)
    (store : Store) (known : CommitsKnown environment.attempts) :
    (∀ reply, (serve toLower call environment store).1 = .ok reply →
        commitsOf toLower call environment store = 1 ∧
          ∃ index source event,
            Mutates toLower environment (environment.attempts index) call store source event ∧
              source.outbox = store.outbox ∧
              (serve toLower call environment store).2 =
                { source with outbox := store.outbox ++ [event] }) ∧
      ∀ failure, (serve toLower call environment store).1 = .error failure →
        commitsOf toLower call environment store = 0 ∧
          (serve toLower call environment store).2 = store := by
  rw [serve_eq_mutation]
  unfold commitsOf
  cases given : mutation toLower call environment with
  | error failure => simp
  | ok script =>
      simp only [withSerializableRetry]
      rcases retryFrom_atomic known script retryMaxAttempts store with
        ⟨index, value, session, yields, returned, committed⟩ | ⟨failure, returned, committed⟩
      · rw [returned, committed]
        refine ⟨?_, by rintro failure ⟨⟩⟩
        intro reply _
        rcases mutation_effect given yields with ⟨source, event, mutates, published⟩
        refine ⟨rfl, index, source, event, mutates, mutates.outbox, ?_⟩
        rw [published, Store.published, mutates.outbox]
      · rw [returned, committed]
        exact ⟨by rintro reply ⟨⟩, fun _ _ => ⟨rfl, rfl⟩⟩

end Scripts

/-- The first attempt loses a conflict at its commit, the second one goes through. -/
def conflictEnvironment : Environment :=
  { quietEnvironment 7 1 with
    attempts := fun index =>
      if index = 0 then
        { quietAttempt 1 with commit := .aborted ⟨.serializationFailure, "could not serialize"⟩ }
      else quietAttempt 2 }

def oneOrganisation : Store where
  humanUsers := []
  organisations := [5]
  orgMemberships := [⟨5, 6, "guest", 0, 0⟩]
  agentIdentities := []
  cloneTokens := []
  outbox := []

theorem serve_atomic_removeOrgMember :
    (serve id (.removeOrgMember 5 6) conflictEnvironment oneOrganisation).1 = .ok .done ∧
      commitsOf id (.removeOrgMember 5 6) conflictEnvironment oneOrganisation = 1 ∧
      ∃ index source event,
        Mutates id conflictEnvironment (conflictEnvironment.attempts index)
            (.removeOrgMember 5 6) oneOrganisation source event ∧
          source.outbox = oneOrganisation.outbox ∧
          (serve id (.removeOrgMember 5 6) conflictEnvironment oneOrganisation).2 =
            { source with outbox := oneOrganisation.outbox ++ [event] } := by
  have known : CommitsKnown conflictEnvironment.attempts := by
    intro index message
    simp only [conflictEnvironment]
    split <;> simp [quietAttempt]
  have done : (serve id (.removeOrgMember 5 6) conflictEnvironment oneOrganisation).1 =
      .ok .done := by decide
  exact ⟨done, (serve_atomic id _ conflictEnvironment oneOrganisation known).1 _ done⟩

end GitScale.Identity
