import GitScale.Identity.Resolver

/-!
# Permission scopes

What a call of the service can do to the stored `permission_scope` of an agent: only
`UpdateAgentPermissions` writes it, only on the agent it names, and only to the scope
it was given.
-/

namespace GitScale.Identity

open Foundation

/-- The stored `permission_scope` of an agent. -/
def scopeOf (id : UUID) (store : Store) : Option (List String) :=
  (getAgentByID id store).map (·.permissionScope)

/-- The scopes of the agents that exist before are unchanged. -/
def ScopesKept (before after : Store) : Prop :=
  ∀ id, (scopeOf id before).isSome → scopeOf id after = scopeOf id before

/-- Every scope is unchanged, or it is the one of `target` and now reads `scope`. -/
def ScopeWritten (target : UUID) (scope : List String) (before after : Store) : Prop :=
  ∀ id, scopeOf id after = scopeOf id before ∨
    id = target ∧ scopeOf id after = some scope

instance : Std.Refl ScopesKept where
  refl _ _ _ := rfl

instance : IsTrans Store ScopesKept where
  trans before between after first second := by
    intro id present
    have same := first id present
    rw [second id (by rw [same]; exact present), same]

instance (target : UUID) (scope : List String) : Std.Refl (ScopeWritten target scope) where
  refl _ _ := Or.inl rfl

instance (target : UUID) (scope : List String) :
    IsTrans Store (ScopeWritten target scope) where
  trans before between after first second := by
    intro id
    rcases second id with same | written
    · rw [same]
      exact first id
    · exact Or.inr written

/-! ## Statements -/

/-- The row that a look-up by key finds after an update is the updated row. -/
theorem find?_map_update {Row : Type} (key : Row → UUID) (rows : List Row)
    (id target : UUID) (change : Row → Row) (same : ∀ row, key (change row) = key row) :
    (rows.map fun row => if key row = target then change row else row).find?
        (fun row => key row = id) =
      (rows.find? fun row => key row = id).map fun row =>
        if key row = target then change row else row := by
  rw [List.find?_map]
  congr 2
  funext row
  simp only [Function.comp_apply]
  split
  · rw [same]
  · rfl

theorem scopeOf_updateAgentPermissions (id target : UUID) (scope : List String)
    (now : Time) (store : Store) :
    scopeOf id (updateAgents target now (fun agent =>
        { agent with permissionScope := scope }) store) =
      (scopeOf id store).map fun old => if id = target then scope else old := by
  have located := find?_map_update (fun agent : AgentIdentityRow => agent.id)
    store.agentIdentities id target
    (fun agent => { agent with permissionScope := scope, updatedAt := now }) fun _ => rfl
  simp only [scopeOf, getAgentByID, updateAgents]
  rw [located]
  cases found : store.agentIdentities.find? fun agent => agent.id = id with
  | none => rfl
  | some agent =>
      have equal : agent.id = id := by
        have matched := List.find?_some found
        exact of_decide_eq_true matched
      subst equal
      simp only [Option.map_some]
      split <;> rfl

theorem writeOutbox_scopeOf {event : OutboxEvent} {store next : Store} {value : Unit}
    (written : writeOutbox event store = .ok (value, next)) (id : UUID) :
    scopeOf id next = scopeOf id store := by
  unfold writeOutbox at written
  split at written
  · cases written
  · cases written
    rfl

/-- No row of the outbox has the event identifier. -/
def Unused (eventID : UUID) (store : Store) : Prop :=
  ∀ event ∈ store.outbox, event.eventID ≠ eventID

theorem writeOutbox_of_unused {event : OutboxEvent} {store : Store}
    (unused : Unused event.eventID store) :
    writeOutbox event store = .ok ((), { store with outbox := store.outbox ++ [event] }) := by
  unfold writeOutbox
  rw [if_neg]
  intro taken
  rcases List.any_eq_true.mp taken with ⟨other, member, equal⟩
  exact unused other member (of_decide_eq_true equal)

theorem insertAgentIdentity_scopesKept {agent : AgentIdentity} {now : Time}
    {store next : Store} {value : Unit}
    (inserted : insertAgentIdentity agent now store = .ok (value, next)) :
    ScopesKept store next := by
  simp only [insertAgentIdentity] at inserted
  split at inserted
  · cases inserted
  · split at inserted
    · cases inserted
    · split at inserted
      · cases inserted
      · cases inserted
        intro id present
        simp only [scopeOf, getAgentByID, Option.isSome_map] at present ⊢
        rw [List.find?_append, Option.or_of_isSome present]

theorem insertAgentIdentity_outbox {agent : AgentIdentity} {now : Time}
    {store next : Store} {value : Unit}
    (inserted : insertAgentIdentity agent now store = .ok (value, next)) :
    next.outbox = store.outbox := by
  simp only [insertAgentIdentity] at inserted
  split at inserted
  · cases inserted
  · split at inserted
    · cases inserted
    · split at inserted
      · cases inserted
      · cases inserted
        rfl

/-! ## Calls -/

section Calls

variable (toLower : String → String) (environment : Environment) (store : Store)

theorem writeOutboxTx_keeps {relation : Store → Store → Prop} (attempt : Attempt)
    (aggregateType : String) (aggregateID : UUID) (eventType : String) (payload : Payload)
    (unread : ∀ store next, (∀ id, scopeOf id next = scopeOf id store) →
      relation store next) :
    (writeOutboxTx attempt aggregateType aggregateID eventType payload).Keeps relation := by
  apply keeps_exec
  intro store value next written
  exact unread store next (writeOutbox_scopeOf written)

/-- `UpdateAgentPermissions` writes only the scope of the agent it names. -/
theorem serve_updateAgentPermissions_written (target : UUID) (scope : List String) :
    ScopeWritten target scope store
      (serve toLower (.updateAgentPermissions target scope) environment store).2 := by
  apply commitReply_keeps
  intro attempt
  apply Script.Keeps.bind
  · exact keeps_require _ _ _
  · intro existing
    apply Script.Keeps.bind
    · apply keeps_exec
      intro store value next updated
      cases updated
      intro id
      rw [scopeOf_updateAgentPermissions]
      cases scopeOf id store with
      | none => exact Or.inl rfl
      | some old =>
          by_cases same : id = target
          · exact Or.inr ⟨same, congrArg some (if_pos same)⟩
          · exact Or.inl (congrArg some (if_neg same))
    · intro _
      exact writeOutboxTx_keeps attempt _ _ _ _ fun _ _ same id => Or.inl (same id)

/-- `CreateAgent` writes no scope of an agent that exists. -/
theorem serve_createAgent_scopesKept (parentUserID : UUID) (displayName : String)
    (scope : List String) :
    ScopesKept store
      (serve toLower (.createAgent parentUserID displayName scope) environment store).2 := by
  simp only [serve]
  split
  · exact Std.Refl.refl store
  · apply commitReply_keeps
    intro attempt
    apply Script.Keeps.bind
    · exact keeps_exec fun _ _ _ inserted => insertAgentIdentity_scopesKept inserted
    · intro _
      exact writeOutboxTx_keeps attempt _ _ _ _ fun _ _ same id _ => same id

/-- Without faults `UpdateAgentPermissions` writes the scope it was given. -/
theorem serve_updateAgentPermissions_quiet {target eventID freshID : UUID}
    {scope old : List String} (stored : scopeOf target store = some old)
    (unused : Unused eventID store) :
    scopeOf target (serve toLower (.updateAgentPermissions target scope)
      (quietEnvironment freshID eventID) store).2 = some scope := by
  rcases Option.map_eq_some_iff.mp stored with ⟨agent, found, -⟩
  let updated := updateAgents target 0 (fun agent => { agent with permissionScope := scope }) store
  have yields : (updateAgentPermissionsTx target scope (quietAttempt eventID)).Yields
      (fun _ => none) ⟨store, 0⟩ () ⟨{ updated with
        outbox := updated.outbox ++ [⟨eventID, "agent_identity", target,
          "principal.permissions_changed", .principalPermissionsChanged target
            agent.permissionScope scope [target] 0, 0⟩] }, 3⟩ := by
    apply Script.yields_bind.mpr
    refine ⟨agent, ⟨store, 1⟩, require_yields rfl found, ?_⟩
    apply Script.yields_bind.mpr
    refine ⟨(), ⟨updated, 2⟩, yields_exec.mpr ⟨rfl, rfl, rfl⟩, ?_⟩
    exact yields_exec.mpr ⟨rfl, writeOutbox_of_unused unused, rfl⟩
  simp only [serve, commitReply_quiet yields]
  have written := scopeOf_updateAgentPermissions target target scope 0 store
  rw [stored, Option.map_some, if_pos rfl] at written
  exact written

/-- No event identifier is left, so no event can be written. -/
def Exhausted (store : Store) : Prop := ∀ eventID, ¬ Unused eventID store

theorem not_yields_writeOutboxTx {attempt : Attempt} {aggregateType : String}
    {aggregateID : UUID} {eventType : String} {payload : Payload}
    {faults : Nat → Option Fault} {before after : Session Store} {value : Unit}
    (exhausted : Exhausted before.store) :
    ¬ (writeOutboxTx attempt aggregateType aggregateID eventType payload).Yields faults
      before value after := by
  intro yields
  have written := (yields_exec.mp yields).2.1
  unfold writeOutbox at written
  split at written
  · cases written
  · rename_i free
    apply exhausted attempt.eventID
    intro event member equal
    exact free (List.any_eq_true.mpr ⟨event, member, decide_eq_true equal⟩)

theorem serve_updateAgentPermissions_exhausted (exhausted : Exhausted store)
    (target : UUID) (scope : List String) :
    (serve toLower (.updateAgentPermissions target scope) environment store).2 = store := by
  apply commitReply_never
  intro attempt value session yields
  rcases Script.yields_bind.mp yields with ⟨agent, between, found, rest⟩
  rcases Script.yields_bind.mp rest with ⟨_, middle, updated, rest⟩
  have same := (yields_exec.mp updated).2.1
  simp only [updateAgentPermissions, Except.ok.injEq, Prod.mk.injEq, true_and] at same
  refine not_yields_writeOutboxTx ?_ rest
  rw [← same, (yields_require found).2]
  exact exhausted

theorem serve_createAgent_exhausted (exhausted : Exhausted store) (parentUserID : UUID)
    (displayName : String) (scope : List String) :
    (serve toLower (.createAgent parentUserID displayName scope) environment store).2 =
      store := by
  simp only [serve]
  split
  · rfl
  · apply commitReply_never
    intro attempt value session yields
    rcases Script.yields_bind.mp yields with ⟨_, middle, inserted, rest⟩
    refine not_yields_writeOutboxTx ?_ rest
    intro eventID unused
    apply exhausted eventID
    rw [Unused, insertAgentIdentity_outbox (yields_exec.mp inserted).2.1] at unused
    exact unused

/-- An environment in which no transaction begins. -/
def downEnvironment : Environment :=
  { quietEnvironment 0 0 with
    attempts := fun _ => { quietAttempt 0 with begin := some ⟨.other, "connection refused"⟩ } }

theorem commitReply_down {α : Type} (reply : α → Reply) (script : Attempt → TxM α) :
    (commitReply reply script downEnvironment store).2 = store := by
  rfl

theorem serve_createAgent_down (parentUserID : UUID) (displayName : String)
    (scope : List String) :
    (serve toLower (.createAgent parentUserID displayName scope) downEnvironment store).2 =
      store := by
  simp only [serve]
  split
  · rfl
  · exact commitReply_down store _ _

end Calls

end GitScale.Identity
