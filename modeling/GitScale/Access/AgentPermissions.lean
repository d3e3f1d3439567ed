import GitScale.GraphQL.Executor
import GitScale.RestApi.IdentityHandlers

/-!
# Who may change the scope of an agent

Two public surfaces reach `UpdateAgentPermissions`: the REST handler `updatePerms`, which
admits only the parent of the agent, and the GraphQL mutation `updateAgentPermissions`,
which does not look at the caller.  The main result says for which requests the scope of
an agent can still only be changed by its parent.
-/

namespace GitScale.Access

open Identity (Principal AgentIdentity scopeOf Unused Exhausted)
open GraphQL

/-- A request on one of the two surfaces. -/
inductive Request where
  | updatePerms (pathID : String) (body : Option (List String))
  | graphql (executor : Executor) (document : Document) (operation : Operation)

/-- What a request meets on either surface. -/
structure Circumstances where
  rest : RestApi.Circumstance
  fields : Nat → GraphQL.Circumstance

variable (platform : Platform)

/-- The tables after an authenticated request. -/
def handle (principal : Principal) (request : Request) (circumstances : Circumstances)
    (store : Identity.Store) : Identity.Store :=
  match request with
  | .updatePerms pathID body =>
      (RestApi.updatePerms platform.parseUUID platform.toLower (some principal) pathID body
        circumstances.rest store).2
  | .graphql executor document operation =>
      (execute platform executor (some principal) circumstances.fields document operation
        store).store

/-- The agent and the scope that a root field asks `UpdateAgentPermissions` for. -/
def requested (executor : Executor) (field : Field) : Option (UUID × List String) :=
  if field.name = "updateAgentPermissions" then
    (updateAgentPermissionsInput platform executor field).toOption
  else none

/-! ## One root field -/

section Field

variable {platform} {executor : Executor} {principal : Principal} {field : Field}
  {circumstance : GraphQL.Circumstance} {store : Identity.Store}

theorem requested_eq_some {id : UUID} {scope : List String} :
    requested platform executor field = some (id, scope) ↔
      field.name = "updateAgentPermissions" ∧
        updateAgentPermissionsInput platform executor field = .ok (id, scope) := by
  unfold requested
  split
  · rename_i named
    cases updateAgentPermissionsInput platform executor field with
    | error message => simp [Except.toOption]
    | ok input => simp [Except.toOption, named]
  · rename_i other
    simp [other]

/-- Only two mutations write, both through the identity service. -/
theorem dispatchRoot_effect (platform : Platform) (executor : Executor)
    (principal : Principal) (field : Field) (circumstance : GraphQL.Circumstance)
    (store : Identity.Store) (kind : OperationKind) :
    (dispatchRoot platform executor (some principal) kind field circumstance store).2 =
        store ∨
      (∃ parentUserID displayName scope,
        (dispatchRoot platform executor (some principal) kind field circumstance store).2 =
          (Identity.serve platform.toLower (.createAgent parentUserID displayName scope)
            circumstance.identity store).2) ∨
      ∃ id scope, kind = .mutation ∧ requested platform executor field = some (id, scope) ∧
        (dispatchRoot platform executor (some principal) kind field circumstance store).2 =
          (Identity.serve platform.toLower (.updateAgentPermissions id scope)
            circumstance.identity store).2 := by
  unfold dispatchRoot
  split
  · exact Or.inl rfl
  · split
    · exact Or.inl rfl
    · cases kind with
      | query =>
          left
          simp only
          split <;> rfl
      | mutation =>
          simp only
          split
          · exact Or.inl rfl
          · unfold resolveMutationRoot
            simp only
            split
            · rcases resolveCreateAgent_store platform executor principal field circumstance
                store with same | created
              · exact Or.inl same
              · exact Or.inr (Or.inl created)
            · split
              · rename_i named
                rcases resolveUpdateAgentPermissions_store platform executor field
                  circumstance store with same | ⟨id, scope, decoded, updated⟩
                · exact Or.inl same
                · exact Or.inr (Or.inr ⟨id, scope, trivial,
                    requested_eq_some.mpr ⟨named, decoded⟩, updated⟩)
              · left
                split <;> rfl

/-- A verified request for an update reaches the service. -/
theorem dispatchRoot_requested {id : UUID} {scope : List String}
    (asks : requested platform executor field = some (id, scope))
    (verified : reVerified executor circumstance = true) :
    (dispatchRoot platform executor (some principal) .mutation field circumstance store).2 =
      (Identity.serve platform.toLower (.updateAgentPermissions id scope)
        circumstance.identity store).2 := by
  rcases requested_eq_some.mp asks with ⟨named, decoded⟩
  rw [← resolveUpdateAgentPermissions_verified platform executor verified decoded]
  simp [dispatchRoot, resolveMutationRoot, named]

end Field

/-! ## All root fields -/

section Fields

variable (executor : Executor) (principal : Principal)
  (circumstances : Nat → GraphQL.Circumstance) (kind : OperationKind)

theorem visit_store (progress : Progress) (field : Field) :
    (visit platform executor (some principal) circumstances kind progress field).store =
      (dispatchRoot platform executor (some principal) kind field
        (circumstances progress.dispatched) progress.store).2 := by
  unfold visit
  split
  all_goals
    rename_i ran
    rw [ran]

theorem visit_dispatched (progress : Progress) (field : Field) :
    (visit platform executor (some principal) circumstances kind progress field).dispatched =
      progress.dispatched + 1 := by
  unfold visit
  split <;> rfl

theorem foldl_visit_dispatched (fields : List Field) :
    ∀ progress : Progress,
      (fields.foldl (visit platform executor (some principal) circumstances kind)
        progress).dispatched = progress.dispatched + fields.length := by
  induction fields with
  | nil =>
      intro progress
      rfl
  | cons field rest inductionHypothesis =>
      intro progress
      rw [List.foldl_cons, inductionHypothesis, visit_dispatched, List.length_cons]
      omega

/-- One field leaves the scope of an agent alone or writes the one it asks for. -/
theorem visit_scopeOf {id : UUID} (progress : Progress) (field : Field)
    (present : (scopeOf id progress.store).isSome) :
    scopeOf id (visit platform executor (some principal) circumstances kind progress
        field).store = scopeOf id progress.store ∨
      ∃ scope, kind = .mutation ∧ requested platform executor field = some (id, scope) ∧
        scopeOf id (visit platform executor (some principal) circumstances kind progress
          field).store = some scope := by
  rw [visit_store]
  rcases dispatchRoot_effect platform executor principal field
      (circumstances progress.dispatched) progress.store kind with
    same | ⟨parentUserID, displayName, scope, created⟩ | ⟨target, scope, mutation, asks, updated⟩
  · rw [same]
    exact Or.inl rfl
  · rw [created]
    exact Or.inl (Identity.serve_createAgent_scopesKept _ _ _ _ _ _ id present)
  · rw [updated]
    rcases Identity.serve_updateAgentPermissions_written platform.toLower
      (circumstances progress.dispatched).identity progress.store target scope id with
      same | ⟨rfl, written⟩
    · exact Or.inl same
    · exact Or.inr ⟨scope, mutation, asks, written⟩

/-- All fields together leave the scope of an agent alone or write one that some field
asks for. -/
theorem foldl_visit_scopeOf {id : UUID} (fields : List Field) :
    ∀ progress : Progress, (scopeOf id progress.store).isSome →
      scopeOf id (fields.foldl (visit platform executor (some principal) circumstances kind)
          progress).store = scopeOf id progress.store ∨
        ∃ field ∈ fields, ∃ scope, kind = .mutation ∧
          requested platform executor field = some (id, scope) ∧
          scopeOf id (fields.foldl (visit platform executor (some principal) circumstances kind)
            progress).store = some scope := by
  induction fields with
  | nil =>
      intro progress _
      exact Or.inl rfl
  | cons field rest inductionHypothesis =>
      intro progress present
      rw [List.foldl_cons]
      have first := visit_scopeOf platform executor principal circumstances kind progress
        field present
      have still : (scopeOf id (visit platform executor (some principal) circumstances kind
          progress field).store).isSome := by
        rcases first with same | ⟨scope, -, -, written⟩
        · rw [same]
          exact present
        · rw [written]
          rfl
      rcases inductionHypothesis _ still with same | ⟨later, member, found⟩
      · rw [same]
        rcases first with same | found
        · exact Or.inl same
        · exact Or.inr ⟨field, List.mem_cons_self, found⟩
      · exact Or.inr ⟨later, List.mem_cons_of_mem field member, found⟩

/-- A field whose transactions cannot begin leaves the tables alone. -/
theorem visit_down (progress : Progress) (field : Field)
    (down : (circumstances progress.dispatched).identity = Identity.downEnvironment) :
    (visit platform executor (some principal) circumstances kind progress field).store =
      progress.store := by
  rw [visit_store]
  rcases dispatchRoot_effect platform executor principal field
      (circumstances progress.dispatched) progress.store kind with
    same | ⟨parentUserID, displayName, scope, created⟩ | ⟨target, scope, -, -, updated⟩
  · exact same
  · rw [created, down]
    exact Identity.serve_createAgent_down _ _ _ _ _
  · rw [updated, down]
    exact Identity.commitReply_down _ _ _

theorem foldl_visit_down (fields : List Field) :
    ∀ progress : Progress,
      (∀ index, progress.dispatched ≤ index → index < progress.dispatched + fields.length →
        (circumstances index).identity = Identity.downEnvironment) →
      (fields.foldl (visit platform executor (some principal) circumstances kind)
        progress).store = progress.store := by
  induction fields with
  | nil =>
      intro progress _
      rfl
  | cons field rest inductionHypothesis =>
      intro progress down
      rw [List.length_cons] at down
      rw [List.foldl_cons, inductionHypothesis]
      · exact visit_down platform executor principal circumstances kind progress field
          (down _ (Nat.le_refl _) (by omega))
      · intro index lower upper
        rw [visit_dispatched] at lower upper
        exact down index (by omega) (by omega)

/-- With no event identifier left no field writes anything. -/
theorem visit_exhausted (progress : Progress) (field : Field)
    (exhausted : Exhausted progress.store) :
    (visit platform executor (some principal) circumstances kind progress field).store =
      progress.store := by
  rw [visit_store]
  rcases dispatchRoot_effect platform executor principal field
      (circumstances progress.dispatched) progress.store kind with
    same | ⟨parentUserID, displayName, scope, created⟩ | ⟨target, scope, -, -, updated⟩
  · exact same
  · rw [created]
    exact Identity.serve_createAgent_exhausted _ _ _ exhausted _ _ _
  · rw [updated]
    exact Identity.serve_updateAgentPermissions_exhausted _ _ _ exhausted _ _

theorem foldl_visit_exhausted (fields : List Field) :
    ∀ progress : Progress, Exhausted progress.store →
      (fields.foldl (visit platform executor (some principal) circumstances kind)
        progress).store = progress.store := by
  induction fields with
  | nil =>
      intro progress _
      rfl
  | cons field rest inductionHypothesis =>
      intro progress exhausted
      have same := visit_exhausted platform executor principal circumstances kind progress
        field exhausted
      rw [List.foldl_cons, inductionHypothesis]
      · exact same
      · rw [same]
        exact exhausted

end Fields

/-! ## Both surfaces -/

/-- Only the field at `position` meets a database that works. -/
def onlyAt (position : Nat) (eventID : UUID) (index : Nat) : GraphQL.Circumstance where
  reVerify := .ok ()
  identity :=
    if index = position then Identity.quietEnvironment 0 eventID
    else Identity.downEnvironment

/-- A field that asks for a scope can be the only one that commits. -/
theorem execute_onlyAt (executor : Executor) (principal : Principal)
    {front back : List Field} {field : Field} {document : Document} {operation : Operation}
    {store : Identity.Store} {id eventID : UUID} {scope old : List String}
    (kind : operation.kind = .mutation)
    (fields : rootFields document operation = front ++ field :: back)
    (asks : requested platform executor field = some (id, scope))
    (stored : scopeOf id store = some old) (unused : Unused eventID store) :
    scopeOf id (execute platform executor (some principal) (onlyAt front.length eventID)
      document operation store).store = some scope := by
  rw [execute_eq_foldl, fields, List.foldl_append, List.foldl_cons, kind]
  have before := foldl_visit_down platform executor principal (onlyAt front.length eventID)
    .mutation front ⟨[], [], store, 0⟩ (by
      intro index _ upper
      simp only [Nat.zero_add] at upper
      exact if_neg (by omega))
  have count := foldl_visit_dispatched platform executor principal
    (onlyAt front.length eventID) .mutation front ⟨[], [], store, 0⟩
  simp only [Nat.zero_add] at before count
  rw [foldl_visit_down]
  · rw [visit_store, before, count, dispatchRoot_requested asks]
    · simp only [onlyAt, if_true]
      exact Identity.serve_updateAgentPermissions_quiet platform.toLower store stored unused
    · unfold reVerified onlyAt
      split <;> rfl
  · intro index lower _
    rw [visit_dispatched, count] at lower
    exact if_neg (by omega)

/-- The caller is the human parent of the agent. -/
def IsParent (principal : Principal) (agent : AgentIdentity) : Prop :=
  principal = .human agent.parentUserID

/-- Whatever the request meets, the scope of the agent changes only at the hands of its
parent. -/
def OnlyByParent (principal : Principal) (agent : AgentIdentity) (request : Request)
    (store : Identity.Store) : Prop :=
  ∀ circumstances : Circumstances,
    scopeOf agent.id (handle platform principal request circumstances store) ≠
      scopeOf agent.id store → IsParent principal agent

/-- The condition: a GraphQL mutation of somebody else asks for no other scope of the
agent than the stored one.  With no event identifier left nothing can be written. -/
def Harmless (principal : Principal) (agent : AgentIdentity) (request : Request)
    (store : Identity.Store) : Prop :=
  match request with
  | .updatePerms _ _ => True
  | .graphql executor document operation =>
      operation.kind = .mutation → IsParent principal agent ∨
        (∀ field ∈ rootFields document operation, ∀ scope,
          requested platform executor field = some (agent.id, scope) →
            scope = agent.permissionScope) ∨
        Exhausted store

/-- What a GraphQL request leaves as the scope of an agent. -/
theorem handle_graphql_scopeOf {principal : Principal} {agent : AgentIdentity}
    {executor : Executor} {document : Document} {operation : Operation}
    {store : Identity.Store} (circumstances : Circumstances)
    (stored : scopeOf agent.id store = some agent.permissionScope) :
    scopeOf agent.id (handle platform principal (.graphql executor document operation)
        circumstances store) = scopeOf agent.id store ∨
      ∃ field ∈ rootFields document operation, ∃ scope, operation.kind = .mutation ∧
        requested platform executor field = some (agent.id, scope) ∧
        scopeOf agent.id (handle platform principal (.graphql executor document operation)
          circumstances store) = some scope := by
  simp only [handle, execute_eq_foldl]
  exact foldl_visit_scopeOf platform executor principal circumstances.fields operation.kind
    (rootFields document operation) ⟨[], [], store, 0⟩ (by rw [stored]; rfl)

/-- The scope of an agent is safe from everybody but its parent exactly on harmless
requests. -/
theorem onlyByParent_iff_harmless (principal : Principal) (agent : AgentIdentity)
    (request : Request) (store : Identity.Store)
    (present : Identity.getAgentByID agent.id store = some agent) :
    OnlyByParent platform principal agent request store ↔
      Harmless platform principal agent request store := by
  have stored : scopeOf agent.id store = some agent.permissionScope := by
    rw [scopeOf, present]
    rfl
  cases request with
  | updatePerms pathID body =>
      refine iff_of_true ?_ trivial
      intro circumstances changed
      exact Option.some.inj (RestApi.updatePerms_parent present changed)
  | graphql executor document operation =>
      constructor
      · intro safe kind
        by_contra harmful
        simp only [not_or, not_forall] at harmful
        rcases harmful with ⟨stranger, ⟨field, member, scope, asks, differs⟩, room⟩
        obtain ⟨eventID, unused⟩ : ∃ eventID, Unused eventID store := by
          by_contra none
          exact room fun eventID unused => none ⟨eventID, unused⟩
        rcases List.append_of_mem member with ⟨front, back, fields⟩
        have written := execute_onlyAt platform executor principal kind fields asks stored
          unused
        apply stranger
        apply safe ⟨⟨none, Identity.downEnvironment⟩, onlyAt front.length eventID⟩
        simp only [handle]
        rw [written, stored]
        intro equal
        exact differs (Option.some.inj equal)
      · intro harmless circumstances changed
        rcases handle_graphql_scopeOf platform circumstances stored with
          same | ⟨field, member, scope, kind, asks, written⟩
        · exact absurd same changed
        · rcases harmless kind with parent | unchanged | exhausted
          · exact parent
          · rw [written, stored, unchanged field member scope asks] at changed
            exact absurd rfl changed
          · apply absurd _ changed
            simp only [handle]
            rw [execute_eq_foldl, foldl_visit_exhausted _ _ _ _ _ _ _ exhausted]

/-! ## An agent that raises its own scope -/

/-- An agent with the scope `read` under the human with key 7. -/
def reader : AgentIdentity where
  id := 9
  displayName := "reader"
  parentUserID := 7
  permissionScope := ["read"]
  rateBucket := "agent_standard"
  sessionQuota := none
  tokensPerWeekCap := none
  reputationScore := 1 / 2
  quotaAccountID := none
  createdAt := 0
  updatedAt := 0

/-- The tables that hold this agent and its parent. -/
def readerStore : Identity.Store :=
  { Identity.emptyStore with
    humanUsers := [{
      id := 7
      email := "ada@example.com"
      credentialHash := "$argon2id$v=19$m=65536,t=3,p=2$c2FsdA$a2V5"
      rateBucket := "human_default"
      quotaAccountID := none
      createdAt := 0
      updatedAt := 0
      disabledAt := none
      disableReason := none }]
    agentIdentities := [{ reader with
      revokedAt := none
      revokeReason := none }] }

/-- The functions from elsewhere on the values of this request. -/
def readerPlatform : Platform where
  parseUUID := fun text =>
    if text = "00000000-0000-0000-0000-000000000009" then .ok 9
    else .error "invalid UUID length: 0"
  formatUUID := fun _ => "00000000-0000-0000-0000-000000000009"
  decodeLiteral := fun _ => .error "unexpected end of JSON input"
  toLower := fun text => text
  resolveSchemaIntrospection := fun _ => .object []
  resolveTypeIntrospection := fun _ => .null
  resolveQueryRoot := fun _ _ => .error (.text "login is required")

/-- `mutation ($input: Input!) { updateAgentPermissions(input: $input) { agent { id } } }`. -/
def elevateOperation : Operation where
  kind := .mutation
  name := ""
  sels := [.field (.mk "updateAgentPermissions" "" [("input", ⟨none, "$input"⟩)] []
    [.field (.mk "agent" "" [] [] [.field (.mk "id" "" [] [] [])])])]

/-- That mutation with the scope `admin` for the reader. -/
def elevate : Request :=
  .graphql
    { svid := true
      pullRequests := none
      vars := [("input", .object [
        ("agentId", .string "00000000-0000-0000-0000-000000000009"),
        ("permissionScope", .list [.string "admin"])])] }
    { operations := [elevateOperation]
      fragments := [] }
    elevateOperation

def quietCircumstances : Circumstances where
  rest := ⟨none, Identity.quietEnvironment 0 1⟩
  fields := fun _ => ⟨.ok (), Identity.quietEnvironment 0 1⟩

/-- The parent of the reader is entitled to the same request. -/
theorem onlyByParent_iff_harmless_reader :
    OnlyByParent readerPlatform (.human 7) reader elevate readerStore :=
  (onlyByParent_iff_harmless readerPlatform (.human 7) reader elevate readerStore rfl).mpr
    fun _ => Or.inl rfl

/-- The reader itself raises its scope. -/
theorem selfElevation_reader :
    ¬ ∀ (principal : Principal) (agent : AgentIdentity) (request : Request)
        (store : Identity.Store) (circumstances : Circumstances),
      Identity.getAgentByID agent.id store = some agent →
      scopeOf agent.id (handle readerPlatform principal request circumstances store) ≠
        scopeOf agent.id store →
      IsParent principal agent := by
  intro guarded
  have parent := guarded (.agent 9 7) reader elevate readerStore quietCircumstances rfl
    (by decide)
  cases parent

end GitScale.Access
