import GitScale.GraphQL.Document
import GitScale.Identity.Resolver

/-!
# The GraphQL executor

`Executor.Execute` dispatches every root field of an operation, those inside root
fragments included, and collects one response tree.  Mutations go to the identity
service; what the service and the SVID verifier meet at each dispatched field is given
by its position.
-/

namespace GitScale.GraphQL

open Identity (Principal)

/-- A JSON value as `encoding/json` decodes it into `any`. -/
inductive Value where
  | null
  | bool (value : Bool)
  | number (value : Rat)
  | string (value : String)
  | list (values : List Value)
  | object (fields : List (String × Value))

/-- The word of `encoding/json` for the kind of a value. -/
def Value.kindName : Value → String
  | .null => "null"
  | .bool _ => "bool"
  | .number _ => "number"
  | .string _ => "string"
  | .list _ => "array"
  | .object _ => "object"

/-- `map[string]any`. -/
abbrev Object := List (String × Value)

/-- `m[key] = value`. -/
def Object.set (object : Object) (key : String) (value : Value) : Object :=
  (object.filter fun entry => entry.1 ≠ key) ++ [(key, value)]

/-- `asString`, which an absent key also passes through. -/
def asString : Option Value → String
  | some (.string value) => value
  | _ => ""

/-- The strings of a list value; other elements are skipped. -/
def stringsOf : Option Value → List String
  | some (.list values) =>
      values.filterMap fun
        | .string value => some value
        | _ => none
  | _ => []

/-- `stringSliceToAny`. -/
def stringSliceToAny (texts : List String) : Value := .list (texts.map .string)

/-- An error of a resolver. -/
inductive ResolverError where
  | text (message : String)
  | service (failure : Identity.Failure)
  deriving DecidableEq

def ResolverError.message : ResolverError → String
  | .text message => message
  | .service failure => failure.message

/-- The functions that the executor gets from elsewhere: `uuid.Parse` and its inverse,
the conversion and decoding of an object literal, `strings.ToLower`, and the resolvers
that only read. -/
structure Platform where
  parseUUID : String → Except String UUID
  formatUUID : UUID → String
  decodeLiteral : String → Except String Object
  toLower : String → String
  resolveSchemaIntrospection : Field → Value
  resolveTypeIntrospection : Field → Value
  resolveQueryRoot : Field → Identity.Store → Except ResolverError Value

/-- `CreatePullRequestArgs`. -/
structure CreatePullRequestArgs where
  repositoryID : UUID
  baseRef : String
  headRef : String
  title : String
  body : String
  actorID : UUID

/-- The part of `PullRequestModel` that is returned to the caller. -/
structure PullRequestModel where
  id : UUID
  number : Int
  title : String
  state : String

/-- `Executor`: whether an SVID verifier is configured, the pull-request service when
there is one, and the bound variables. -/
structure Executor where
  svid : Bool
  pullRequests : Option (CreatePullRequestArgs → Except String PullRequestModel)
  vars : Object

/-- What one dispatched field meets: the answer of the SVID verifier and the environment
of the service call. -/
structure Circumstance where
  reVerify : Except String Unit
  identity : Identity.Environment

variable (platform : Platform) (executor : Executor)

/-- `argInputObject`.  A variable that is not an object is marshalled and decoded again,
which only `null` survives. -/
def argInputObject (args : List (String × ArgValue)) (name : String) :
    Except String Object :=
  match args.lookup name with
  | none => .error ("missing arg \"" ++ name ++ "\"")
  | some value =>
      match value.raw.toList with
      | '$' :: first :: rest =>
          match executor.vars.lookup (String.ofList (first :: rest)) with
          | none => .error ("variable " ++ value.raw ++ " not bound")
          | some (.object fields) => .ok fields
          | some .null => .ok []
          | some other =>
              .error ("json: cannot unmarshal " ++ other.kindName ++
                " into Go value of type map[string]interface \x7b\x7d")
      | _ => platform.decodeLiteral value.raw

/-- The admin-action check at the head of a mutation. -/
def reVerified (circumstance : Circumstance) : Bool :=
  if executor.svid then
    match circumstance.reVerify with
    | .ok _ => true
    | .error _ => false
  else true

/-! ## Mutations -/

/-- The input of `updateAgentPermissions`: the agent and the scope asked for. -/
def updateAgentPermissionsInput (field : Field) : Except String (UUID × List String) :=
  match argInputObject platform executor field.args "input" with
  | .error message => .error ("invalid input: " ++ message)
  | .ok input =>
      match platform.parseUUID (asString (input.lookup "agentId")) with
      | .error message => .error ("invalid agentId: " ++ message)
      | .ok agentID => .ok (agentID, stringsOf (input.lookup "permissionScope"))

/-- `resolveUpdateAgentPermissions`; the caller is not an argument. -/
def resolveUpdateAgentPermissions (field : Field) (circumstance : Circumstance)
    (store : Identity.Store) : Except ResolverError Value × Identity.Store :=
  if ¬ reVerified executor circumstance then
    (.error (.text "graphql: SVID re-verify failed"), store)
  else
    match updateAgentPermissionsInput platform executor field with
    | .error message => (.error (.text message), store)
    | .ok (agentID, scope) =>
        match Identity.serve platform.toLower (.updateAgentPermissions agentID scope)
            circumstance.identity store with
        | (.error failure, store) => (.error (.service failure), store)
        | (.ok _, store) =>
            (.ok (.object [("agent", .object [
              ("id", .string (platform.formatUUID agentID)),
              ("permissionScope", stringSliceToAny scope)])]), store)

/-- With its input decoded and the SVID verified the resolver calls the service. -/
theorem resolveUpdateAgentPermissions_verified {field : Field} {circumstance : Circumstance}
    {store : Identity.Store} {agentID : UUID} {scope : List String}
    (verified : reVerified executor circumstance = true)
    (decoded : updateAgentPermissionsInput platform executor field = .ok (agentID, scope)) :
    (resolveUpdateAgentPermissions platform executor field circumstance store).2 =
      (Identity.serve platform.toLower (.updateAgentPermissions agentID scope)
        circumstance.identity store).2 := by
  unfold resolveUpdateAgentPermissions
  rw [if_neg (not_not.mpr verified), decoded]
  simp only
  split
  all_goals
    rename_i ran
    rw [ran]

/-- Otherwise it leaves the tables alone. -/
theorem resolveUpdateAgentPermissions_store (field : Field) (circumstance : Circumstance)
    (store : Identity.Store) :
    (resolveUpdateAgentPermissions platform executor field circumstance store).2 = store ∨
      ∃ agentID scope,
        updateAgentPermissionsInput platform executor field = .ok (agentID, scope) ∧
          (resolveUpdateAgentPermissions platform executor field circumstance store).2 =
            (Identity.serve platform.toLower (.updateAgentPermissions agentID scope)
              circumstance.identity store).2 := by
  by_cases verified : reVerified executor circumstance = true
  · cases decoded : updateAgentPermissionsInput platform executor field with
    | error message =>
        left
        unfold resolveUpdateAgentPermissions
        rw [if_neg (not_not.mpr verified), decoded]
    | ok input =>
        right
        exact ⟨input.1, input.2, rfl,
          resolveUpdateAgentPermissions_verified platform executor verified decoded⟩
  · left
    unfold resolveUpdateAgentPermissions
    rw [if_pos verified]

/-- `resolveCreateAgent`. -/
def resolveCreateAgent (principal : Principal) (field : Field)
    (circumstance : Circumstance) (store : Identity.Store) :
    Except ResolverError Value × Identity.Store :=
  if ¬ reVerified executor circumstance then
    (.error (.text "graphql: SVID re-verify failed"), store)
  else
    match argInputObject platform executor field.args "input" with
    | .error message => (.error (.text ("invalid input: " ++ message)), store)
    | .ok input =>
        match platform.parseUUID (asString (input.lookup "parentUserId")) with
        | .error message => (.error (.text ("invalid parentUserId: " ++ message)), store)
        | .ok parentID =>
            match principal with
            | .agent _ _ => (.error (.text "FORBIDDEN: agents cannot create agents"), store)
            | .human actor =>
                if parentID ≠ actor then
                  (.error (.text
                    "FORBIDDEN: parentUserId must match the authenticated principal"), store)
                else
                  match Identity.serve platform.toLower
                      (.createAgent parentID (asString (input.lookup "displayName"))
                        (stringsOf (input.lookup "permissionScope")))
                      circumstance.identity store with
                  | (.error failure, store) => (.error (.service failure), store)
                  | (.ok (.agent agent), store) =>
                      (.ok (.object [("agent", .object [
                        ("id", .string (platform.formatUUID agent.id)),
                        ("displayName", .string agent.displayName),
                        ("parentUserId", .string (platform.formatUUID agent.parentUserID)),
                        ("permissionScope", stringSliceToAny agent.permissionScope)])]),
                        store)
                  | (.ok _, store) => (.ok .null, store)

/-- The resolver leaves the tables alone or calls `CreateAgent`. -/
theorem resolveCreateAgent_store (principal : Principal) (field : Field)
    (circumstance : Circumstance) (store : Identity.Store) :
    (resolveCreateAgent platform executor principal field circumstance store).2 = store ∨
      ∃ parentUserID displayName scope,
        (resolveCreateAgent platform executor principal field circumstance store).2 =
          (Identity.serve platform.toLower (.createAgent parentUserID displayName scope)
            circumstance.identity store).2 := by
  unfold resolveCreateAgent
  split
  · exact Or.inl rfl
  · split
    · exact Or.inl rfl
    · split
      · exact Or.inl rfl
      · split
        · exact Or.inl rfl
        · split
          · exact Or.inl rfl
          · rename_i input _ _ parentID _ _ _ _
            right
            refine ⟨parentID, asString (input.lookup "displayName"),
              stringsOf (input.lookup "permissionScope"), ?_⟩
            split
            all_goals
              rename_i ran
              rw [ran]

/-- `resolveCreatePullRequest`. -/
def resolveCreatePullRequest (principal : Principal) (field : Field) :
    Except ResolverError Value :=
  match executor.pullRequests with
  | none => .error (.text "graphql: pullrequests.Service not yet wired")
  | some createPullRequest =>
      match argInputObject platform executor field.args "input" with
      | .error message => .error (.text ("invalid input: " ++ message))
      | .ok input =>
          match platform.parseUUID (asString (input.lookup "repositoryId")) with
          | .error message => .error (.text ("invalid repositoryId: " ++ message))
          | .ok repoID =>
              match createPullRequest {
                  repositoryID := repoID
                  baseRef := asString (input.lookup "baseRef")
                  headRef := asString (input.lookup "headRef")
                  title := asString (input.lookup "title")
                  body := asString (input.lookup "body")
                  actorID := principal.id } with
              | .error message => .error (.text message)
              | .ok request =>
                  .ok (.object [("pullRequest", .object [
                    ("id", .string (platform.formatUUID request.id)),
                    ("number", .number request.number),
                    ("title", .string request.title),
                    ("state", .string request.state)])])

/-- `resolveMutationRoot`; a request without a principal has the unknown kind. -/
def resolveMutationRoot (caller : Option Principal) (field : Field)
    (circumstance : Circumstance) (store : Identity.Store) :
    Except ResolverError Value × Identity.Store :=
  match caller with
  | none => (.error (.text "UNAUTHENTICATED"), store)
  | some principal =>
      if field.name = "createAgent" then
        resolveCreateAgent platform executor principal field circumstance store
      else if field.name = "updateAgentPermissions" then
        resolveUpdateAgentPermissions platform executor field circumstance store
      else if field.name = "createPullRequest" then
        (resolveCreatePullRequest platform executor principal field, store)
      else (.error (.text ("FIELD_NOT_SUPPORTED: Mutation." ++ field.name)), store)

/-! ## Dispatch -/

/-- `dispatchRoot`. -/
def dispatchRoot (caller : Option Principal) (kind : OperationKind) (field : Field)
    (circumstance : Circumstance) (store : Identity.Store) :
    Except ResolverError Value × Identity.Store :=
  if field.name = "__schema" then (.ok (platform.resolveSchemaIntrospection field), store)
  else if field.name = "__type" then (.ok (platform.resolveTypeIntrospection field), store)
  else
    match kind with
    | .query =>
        if field.name = "__typename" then (.ok (.string "Query"), store)
        else (platform.resolveQueryRoot field store, store)
    | .mutation =>
        if field.name = "__typename" then (.ok (.string "Mutation"), store)
        else resolveMutationRoot platform executor caller field circumstance store

/-- `ExecutorError`; the path of a root field is its key. -/
structure ExecutorError where
  path : String
  cause : ResolverError
  deriving DecidableEq

/-- The result under construction, the tables, and how many fields were dispatched. -/
structure Progress where
  data : Object
  errors : List ExecutorError
  store : Identity.Store
  dispatched : Nat

variable (caller : Option Principal) (circumstances : Nat → Circumstance)

/-- Dispatch one root field and record its value or its error. -/
def visit (kind : OperationKind) (progress : Progress) (field : Field) : Progress :=
  match dispatchRoot platform executor caller kind field
      (circumstances progress.dispatched) progress.store with
  | (.error error, store) =>
      { data := progress.data.set (keyOf field) .null
        errors := progress.errors ++ [⟨keyOf field, error⟩]
        store := store
        dispatched := progress.dispatched + 1 }
  | (.ok value, store) =>
      { data := progress.data.set (keyOf field) value
        errors := progress.errors
        store := store
        dispatched := progress.dispatched + 1 }

/-- The body of the loop of `Execute`. -/
def executeSelection (document : Document) (kind : OperationKind) (progress : Progress)
    (selection : Selection) : Progress :=
  match selection with
  | .field field => visit platform executor caller circumstances kind progress field
  | selection =>
      (expandFragment document selection).foldl
        (visit platform executor caller circumstances kind) progress

/-- `Executor.Execute`. -/
def execute (document : Document) (operation : Operation) (store : Identity.Store) :
    Progress :=
  operation.sels.foldl
    (executeSelection platform executor caller circumstances document operation.kind)
    ⟨[], [], store, 0⟩

/-- The nested loops visit the root fields one after another. -/
theorem execute_eq_foldl (document : Document) (operation : Operation)
    (store : Identity.Store) :
    execute platform executor caller circumstances document operation store =
      (rootFields document operation).foldl
        (visit platform executor caller circumstances operation.kind)
        ⟨[], [], store, 0⟩ := by
  unfold execute rootFields
  generalize (⟨[], [], store, 0⟩ : Progress) = progress
  induction operation.sels generalizing progress with
  | nil => rfl
  | cons selection rest inductionHypothesis =>
      rw [List.foldl_cons, List.flatMap_cons, List.foldl_append, inductionHypothesis]
      cases selection <;> rfl

end GitScale.GraphQL
