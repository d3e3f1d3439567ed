import GitScale.Foundation.Transition
import GitScale.Identity.Service

/-!
# Bearer resolution and revocation

`IdentityResolver.Resolve` maps a UUID-shaped bearer to a principal.  It reads the
projection that `LookupIdentityForCache` selects, which has no revocation column, so
what `DisableUser` and `RevokeAgent` write never reaches it.  The results below follow
the keys of the two principal tables along whole runs of the service.
-/

namespace GitScale.Identity

open Foundation

/-- The authenticated caller. -/
inductive Principal where
  | human (userID : UUID)
  | agent (agentID parentUserID : UUID)
  deriving DecidableEq, Repr

/-- `PrincipalKind` of an authenticated request. -/
inductive PrincipalKind where
  | human
  | agent
  deriving DecidableEq, Repr

/-- `Principal.Kind`. -/
def Principal.kind : Principal → PrincipalKind
  | .human _ => .human
  | .agent _ _ => .agent

/-- `Principal.ID`. -/
def Principal.id : Principal → UUID
  | .human userID => userID
  | .agent agentID _ => agentID

/-- What `Resolve` may return instead of a principal. -/
inductive ResolveError where
  | invalidToken
  | unknownKind (kind : String)
  deriving DecidableEq, Repr

/-- `IdentityResolver.Resolve`, for the `uuid.Parse` of the platform and a database
that answers the queries. -/
def resolve (parse : String → Except String UUID) (bearer : String) (store : Store) :
    Except ResolveError Principal :=
  match parse bearer with
  | .error _ => .error .invalidToken
  | .ok id =>
      match lookupIdentityForCache id store with
      | none => .error .invalidToken
      | some entry =>
          if entry.kind = "human" then .ok (.human entry.principalID)
          else if entry.kind = "agent" then
            match getAgentByID id store with
            | none => .error .invalidToken
            | some agent => .ok (.agent agent.id agent.parentUserID)
          else .error (.unknownKind entry.kind)

/-! ## Keys are never dropped -/

/-- No statement removes a principal or changes its key: both key columns only grow at
the end. -/
structure KeysGrow (before after : Store) : Prop where
  users : before.humanUsers.map (·.id) <+: after.humanUsers.map (·.id)
  agents : before.agentIdentities.map (·.id) <+: after.agentIdentities.map (·.id)

instance : Std.Refl KeysGrow where
  refl _ := ⟨List.prefix_rfl, List.prefix_rfl⟩

instance : IsTrans Store KeysGrow where
  trans _ _ _ first second :=
    ⟨first.users.trans second.users, first.agents.trans second.agents⟩

theorem getUserByID_isSome {id : UUID} {store : Store} :
    (getUserByID id store).isSome ↔ id ∈ store.humanUsers.map (·.id) := by
  simp [getUserByID, List.find?_isSome]

theorem getAgentByID_isSome {id : UUID} {store : Store} :
    (getAgentByID id store).isSome ↔ id ∈ store.agentIdentities.map (·.id) := by
  simp [getAgentByID, List.find?_isSome]

theorem getUserByID_id {id : UUID} {store : Store} {user : HumanUser}
    (found : getUserByID id store = some user) : user.id = id := by
  rcases Option.map_eq_some_iff.mp found with ⟨row, located, rfl⟩
  have matched := List.find?_some located
  exact of_decide_eq_true matched

theorem getAgentByID_id {id : UUID} {store : Store} {agent : AgentIdentity}
    (found : getAgentByID id store = some agent) : agent.id = id := by
  rcases Option.map_eq_some_iff.mp found with ⟨row, located, rfl⟩
  have matched := List.find?_some located
  exact of_decide_eq_true matched

/-- An update that leaves the keys alone keeps the key column. -/
theorem map_update_keys {Row : Type} (key : Row → UUID) (rows : List Row) (id : UUID)
    (change : Row → Row) (same : ∀ row, key (change row) = key row) :
    (rows.map fun row => if key row = id then change row else row).map key =
      rows.map key := by
  rw [List.map_map]
  apply List.map_congr_left
  intro row _
  simp only [Function.comp_apply]
  split
  · exact same row
  · rfl

theorem keysGrow_updateAgents (id : UUID) (now : Time)
    (change : AgentIdentityRow → AgentIdentityRow) (store : Store)
    (same : ∀ agent, (change agent).id = agent.id) :
    KeysGrow store (updateAgents id now change store) := by
  refine ⟨List.prefix_rfl, ⟨[], ?_⟩⟩
  rw [List.append_nil]
  exact (map_update_keys (fun agent : AgentIdentityRow => agent.id) store.agentIdentities
    id (fun agent => { change agent with updatedAt := now }) same).symm

section Statements

variable {store next : Store} {value : Unit} {now : Time} {id orgID userID : UUID}

theorem insertHumanUser_keysGrow {user : HumanUser}
    (inserted : insertHumanUser user now store = .ok (value, next)) :
    KeysGrow store next := by
  unfold insertHumanUser at inserted
  split at inserted
  · cases inserted
  · cases inserted
    refine ⟨?_, List.prefix_rfl⟩
    rw [List.map_append]
    exact List.prefix_append _ _

theorem insertAgentIdentity_keysGrow {agent : AgentIdentity}
    (inserted : insertAgentIdentity agent now store = .ok (value, next)) :
    KeysGrow store next := by
  simp only [insertAgentIdentity] at inserted
  split at inserted
  · cases inserted
  · split at inserted
    · cases inserted
    · split at inserted
      · cases inserted
      · cases inserted
        refine ⟨List.prefix_rfl, ?_⟩
        rw [List.map_append]
        exact List.prefix_append _ _

theorem setAgentReputationScore_keysGrow {score : Option Rat}
    (updated : setAgentReputationScore id score now store = .ok (value, next)) :
    KeysGrow store next := by
  unfold setAgentReputationScore at updated
  split at updated
  · cases updated
    exact Std.Refl.refl store
  · split at updated
    · split at updated
      · cases updated
        exact keysGrow_updateAgents _ _ _ _ fun _ => rfl
      · cases updated
    · cases updated

theorem disableUser_keysGrow {reason : String}
    (updated : disableUser id reason now store = .ok (value, next)) :
    KeysGrow store next := by
  cases updated
  refine ⟨⟨[], ?_⟩, List.prefix_rfl⟩
  rw [List.append_nil]
  exact (map_update_keys (fun user : HumanUserRow => user.id) store.humanUsers id
    (fun user => { user with
      disabledAt := some now
      disableReason := some reason
      updatedAt := now }) fun _ => rfl).symm

theorem revokeAgent_keysGrow {reason : String}
    (updated : revokeAgent id reason now store = .ok (value, next)) :
    KeysGrow store next := by
  cases updated
  exact keysGrow_updateAgents _ _ _ _ fun _ => rfl

theorem updateAgentPermissions_keysGrow {scope : List String}
    (updated : updateAgentPermissions id scope now store = .ok (value, next)) :
    KeysGrow store next := by
  cases updated
  exact keysGrow_updateAgents _ _ _ _ fun _ => rfl

theorem addOrgMember_keysGrow {role : String}
    (added : addOrgMember orgID userID role now store = .ok (value, next)) :
    KeysGrow store next := by
  unfold addOrgMember at added
  split at added
  · cases added
  · split at added
    · cases added
    · split at added
      · cases added
      · split at added
        · cases added
          exact ⟨List.prefix_rfl, List.prefix_rfl⟩
        · cases added
          exact ⟨List.prefix_rfl, List.prefix_rfl⟩

theorem removeOrgMember_keysGrow
    (removed : removeOrgMember orgID userID store = .ok (value, next)) :
    KeysGrow store next := by
  cases removed
  exact ⟨List.prefix_rfl, List.prefix_rfl⟩

theorem insertCloneToken_keysGrow {token : CloneToken}
    (inserted : insertCloneToken token now store = .ok (value, next)) :
    KeysGrow store next := by
  unfold insertCloneToken at inserted
  split at inserted
  · cases inserted
  · cases inserted
    exact ⟨List.prefix_rfl, List.prefix_rfl⟩

theorem writeOutbox_keysGrow {event : OutboxEvent}
    (written : writeOutbox event store = .ok (value, next)) :
    KeysGrow store next := by
  unfold writeOutbox at written
  split at written
  · cases written
  · cases written
    exact ⟨List.prefix_rfl, List.prefix_rfl⟩

end Statements

section Scripts

variable (attempt : Attempt)

theorem writeOutboxTx_keysGrow (aggregateType : String) (aggregateID : UUID)
    (eventType : String) (payload : Payload) :
    (writeOutboxTx attempt aggregateType aggregateID eventType payload).Keeps KeysGrow := by
  apply keeps_exec
  intro store value next written
  exact writeOutbox_keysGrow written

/-- One write followed by its event. -/
theorem keysGrow_write {operation aggregateType eventType : String} {aggregateID : UUID}
    {effect : Store → Outcome Unit} {payload : Payload}
    (kept : ∀ store value next, effect store = .ok (value, next) → KeysGrow store next) :
    Script.Keeps KeysGrow (do
      exec operation effect
      writeOutboxTx attempt aggregateType aggregateID eventType payload) := by
  apply Script.Keeps.bind
  · exact keeps_exec kept
  · intro _
    exact writeOutboxTx_keysGrow attempt _ _ _ _

theorem setAgentReputationScoreTx_keysGrow (agentID : UUID) (clamped : Option Rat) :
    (setAgentReputationScoreTx agentID clamped attempt).Keeps KeysGrow := by
  apply Script.Keeps.bind
  · exact keeps_require _ _ _
  · intro existing
    apply Script.Keeps.bind
    · exact keeps_exec fun _ _ _ updated => setAgentReputationScore_keysGrow updated
    · intro _
      cases clamped with
      | none => exact Script.keeps_fail _
      | some score => exact writeOutboxTx_keysGrow attempt _ _ _ _

/-- A write guarded by a look-up, followed by its event. -/
theorem keysGrow_guarded {α : Type} {lookup operation aggregateType eventType : String}
    {aggregateID : UUID} {read : Store → Option α} {missing : ServiceError}
    {effect : α → Store → Outcome Unit} {payload : α → Payload}
    (kept : ∀ row store value next, effect row store = .ok (value, next) →
      KeysGrow store next) :
    Script.Keeps KeysGrow (do
      let row ← require lookup read missing
      exec operation (effect row)
      writeOutboxTx attempt aggregateType aggregateID eventType (payload row)) := by
  apply Script.Keeps.bind
  · exact keeps_require _ _ _
  · intro row
    exact keysGrow_write attempt (kept row)

theorem mintCloneTokenInTx_keysGrow (principalID repoID : UUID) (secret : String) :
    (mintCloneTokenInTx principalID repoID secret attempt).Keeps KeysGrow := by
  apply Script.Keeps.bind
  · exact keeps_exec fun _ _ _ inserted => insertCloneToken_keysGrow inserted
  · intro _
    apply Script.Keeps.bind
    · exact writeOutboxTx_keysGrow attempt _ _ _ _
    · intro _
      exact Script.keeps_pure _

end Scripts

/-- No call drops a principal, whatever fails on the way. -/
theorem serve_keysGrow (toLower : String → String) (call : Call)
    (environment : Environment) (store : Store) :
    KeysGrow store (serve toLower call environment store).2 := by
  cases call with
  | createUser email plaintextCredential =>
      simp only [serve]
      split
      · exact Std.Refl.refl store
      · split
        · exact Std.Refl.refl store
        · split
          · exact Std.Refl.refl store
          · apply commitReply_keeps
            intro attempt
            exact keysGrow_write attempt fun _ _ _ => insertHumanUser_keysGrow
  | createAgent parentUserID displayName scope =>
      simp only [serve]
      split
      · exact Std.Refl.refl store
      · apply commitReply_keeps
        intro attempt
        exact keysGrow_write attempt fun _ _ _ => insertAgentIdentity_keysGrow
  | setAgentReputationScore agentID score =>
      simp only [serve]
      apply commitReply_keeps
      intro attempt
      exact setAgentReputationScoreTx_keysGrow attempt agentID (clamp01 score)
  | disableUser id reason =>
      simp only [serve]
      apply commitReply_keeps
      intro attempt
      exact keysGrow_guarded attempt fun _ _ _ _ => disableUser_keysGrow
  | revokeAgent id reason =>
      simp only [serve]
      apply commitReply_keeps
      intro attempt
      exact keysGrow_guarded attempt fun _ _ _ _ => revokeAgent_keysGrow
  | updateAgentPermissions id scope =>
      simp only [serve]
      apply commitReply_keeps
      intro attempt
      exact keysGrow_guarded attempt fun _ _ _ _ => updateAgentPermissions_keysGrow
  | addOrgMember orgID userID role =>
      simp only [serve]
      split
      · exact Std.Refl.refl store
      · apply commitReply_keeps
        intro attempt
        exact keysGrow_guarded attempt fun _ _ _ _ => addOrgMember_keysGrow
  | removeOrgMember orgID userID =>
      simp only [serve]
      apply commitReply_keeps
      intro attempt
      exact keysGrow_write attempt fun _ _ _ => removeOrgMember_keysGrow
  | mintCloneToken principalID repoID =>
      simp only [serve]
      split
      · exact Std.Refl.refl store
      · apply commitReply_keeps
        intro attempt
        exact mintCloneTokenInTx_keysGrow attempt principalID repoID _

/-! ## Revocation along runs -/

/-- The identity tables together with the principals that a call of `DisableUser` or
`RevokeAgent` has reported as revoked. -/
structure System where
  store : Store
  revoked : List UUID
  deriving DecidableEq

/-- The principal that a call revokes when it returns nil. -/
def revokedBy : Call → List UUID
  | .disableUser id _ => [id]
  | .revokeAgent id _ => [id]
  | _ => []

/-- One call of the service. -/
def step (toLower : String → String) (system : System) (label : Call × Environment) :
    Option System :=
  let outcome := serve toLower label.1 label.2 system.store
  some {
    store := outcome.2
    revoked :=
      match outcome.1 with
      | .ok _ => system.revoked ++ revokedBy label.1
      | .error _ => system.revoked }

/-- A key of one of the two principal tables. -/
def Known (id : UUID) (store : Store) : Prop :=
  id ∈ store.humanUsers.map (·.id) ∨ id ∈ store.agentIdentities.map (·.id)

theorem Known.grow {id : UUID} {before after : Store} (known : Known id before)
    (grow : KeysGrow before after) : Known id after := by
  rcases known with user | agent
  · exact Or.inl (grow.users.subset user)
  · exact Or.inr (grow.agents.subset agent)

/-- A script that looked a row up before its writes left the row's key behind. -/
theorem known_of_require {α β : Type} {operation : String} {read : Store → Option α}
    {missing : ServiceError} {rest : α → TxM β} {id : UUID}
    (key : ∀ store, (read store).isSome → Known id store)
    (grows : ∀ row, (rest row).Keeps KeysGrow) {attempt : Attempt}
    {before : Session Store} {value : β} {after : Session Store}
    (yields : (require operation read missing >>= rest).Yields attempt.statements before
      value after) :
    Known id after.store := by
  rcases Script.yields_bind.mp yields with ⟨row, between, found, wrote⟩
  rcases yields_require found with ⟨present, same⟩
  have known : Known id between.store := by
    apply key
    rw [same, present]
    rfl
  exact known.grow (grows row _ _ _ _ wrote)

/-- A principal that was reported as revoked is still a key of its table. -/
theorem serve_known {toLower : String → String} {call : Call} {environment : Environment}
    {store after : Store} {reply : Reply} {id : UUID} (revokes : id ∈ revokedBy call)
    (returned : serve toLower call environment store = (.ok reply, after)) :
    Known id after := by
  cases call with
  | disableUser target reason =>
      rcases List.mem_singleton.mp revokes with rfl
      rcases commitReply_ok returned with ⟨number, before, value, session, yields, rfl, -⟩
      apply known_of_require (fun _ present => Or.inl (getUserByID_isSome.mp present)) _ yields
      intro _
      exact keysGrow_write (environment.attempts number) fun _ _ _ => disableUser_keysGrow
  | revokeAgent target reason =>
      rcases List.mem_singleton.mp revokes with rfl
      rcases commitReply_ok returned with ⟨number, before, value, session, yields, rfl, -⟩
      apply known_of_require (fun _ present => Or.inr (getAgentByID_isSome.mp present)) _ yields
      intro _
      exact keysGrow_write (environment.attempts number) fun _ _ _ => revokeAgent_keysGrow
  | _ => cases revokes

/-- Everything reported as revoked is still a key. -/
def RevokedKnown (system : System) : Prop :=
  ∀ id ∈ system.revoked, Known id system.store

theorem revokedKnown_step {toLower : String → String} {system next : System}
    {label : Call × Environment} (holds : RevokedKnown system)
    (taken : step toLower system label = some next) : RevokedKnown next := by
  have grows := serve_keysGrow toLower label.1 label.2 system.store
  have known := @serve_known toLower label.1 label.2 system.store
  unfold step at taken
  cases taken
  intro id member
  rcases outcome : serve toLower label.1 label.2 system.store with ⟨result, after⟩
  rw [outcome] at grows known
  simp only [outcome] at member ⊢
  cases result with
  | error failure => exact (holds id member).grow grows
  | ok reply =>
      rcases List.mem_append.mp member with old | new
      · exact (holds id old).grow grows
      · exact known new rfl

/-- `Resolve` answers every known key. -/
theorem resolve_of_known {parse : String → Except String UUID} {bearer : String}
    {store : Store} {id : UUID} (names : parse bearer = .ok id) (known : Known id store) :
    ∃ principal, resolve parse bearer store = .ok principal ∧ principal.id = id := by
  simp only [resolve, names, lookupIdentityForCache]
  cases asked : getUserByID id store with
  | some user => exact ⟨.human user.id, rfl, getUserByID_id asked⟩
  | none =>
      have key : (getAgentByID id store).isSome := by
        rcases known with listed | listed
        · have present := getUserByID_isSome.mpr listed
          rw [asked] at present
          cases present
        · exact getAgentByID_isSome.mpr listed
      rcases Option.isSome_iff_exists.mp key with ⟨agent, found⟩
      refine ⟨.agent agent.id agent.parentUserID, ?_, getAgentByID_id found⟩
      simp [found]

/-- Every run: a principal for which `DisableUser` or `RevokeAgent` has returned nil is
still authenticated by every bearer that names it. -/
theorem resolve_revoked_of_run (toLower : String → String)
    (parse : String → Except String UUID) (initial : Store)
    (schedule : List (Call × Environment)) (final : System)
    (reached : run (step toLower) ⟨initial, []⟩ schedule = some final)
    (id : UUID) (revoked : id ∈ final.revoked)
    (bearer : String) (names : parse bearer = .ok id) :
    ∃ principal, resolve parse bearer final.store = .ok principal ∧ principal.id = id := by
  have initially : RevokedKnown ⟨initial, []⟩ := by
    intro id member
    cases member
  have throughout : RevokedKnown final :=
    invariant_of_run (fun _ _ _ holds taken => revokedKnown_step holds taken)
      schedule ⟨initial, []⟩ final initially reached
  exact resolve_of_known names (throughout id revoked)

/-- A user is created and then disabled. -/
def disabledUser : List (Call × Environment) :=
  [(.createUser "ada@example.com" "secret", quietEnvironment 7 1),
    (.disableUser 7 "offboarded", quietEnvironment 0 2)]

/-- `uuid.Parse` on the bearer of that user. -/
def parseSeven (bearer : String) : Except String UUID :=
  if bearer = "00000000-0000-0000-0000-000000000007" then .ok 7
  else .error "invalid UUID length: 0"

def emptyStore : Store where
  humanUsers := []
  organisations := []
  orgMemberships := []
  agentIdentities := []
  cloneTokens := []
  outbox := []

def afterDisabledUser : System :=
  (run (step fun text => text) ⟨emptyStore, []⟩ disabledUser).getD ⟨emptyStore, []⟩

theorem resolve_revoked_disabledUser :
    ∃ principal, resolve parseSeven "00000000-0000-0000-0000-000000000007"
      afterDisabledUser.store = .ok principal ∧ principal.id = 7 :=
  resolve_revoked_of_run (fun text => text) parseSeven emptyStore disabledUser
    afterDisabledUser rfl 7 (by decide) "00000000-0000-0000-0000-000000000007" rfl

/-- The disabled user is not refused. -/
theorem revokedNotRefused_disabledUser :
    ¬ ∀ (schedule : List (Call × Environment)) (final : System),
      run (step fun text => text) ⟨emptyStore, []⟩ schedule = some final →
      ∀ id ∈ final.revoked, ∀ bearer, parseSeven bearer = .ok id →
        ∃ error, resolve parseSeven bearer final.store = .error error := by
  intro refused
  obtain ⟨error, failed⟩ := refused disabledUser afterDisabledUser rfl 7
    (by decide) "00000000-0000-0000-0000-000000000007" rfl
  have answered : resolve parseSeven "00000000-0000-0000-0000-000000000007"
      afterDisabledUser.store = .ok (.human 7) := by
    decide
  rw [answered] at failed
  cases failed

end GitScale.Identity
