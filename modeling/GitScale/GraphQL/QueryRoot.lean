import GitScale.Go.UUID
import GitScale.GraphQL.Executor

/-!
# The query resolvers

`resolveQueryRoot` reads one object from the store and projects it onto the fields of the
selection set.  A projection looks at the fields that stand directly in the set.  A map of Go has
no order, so the projected objects list their keys in the order of the source.
-/

namespace GitScale.GraphQL

open Go
open Identity (HumanUser AgentIdentity)

/-- `store.Repository`. -/
structure Repository where
  id : UUID
  orgID : UUID
  name : String
  slug : String
  ownerID : UUID
  defaultBranch : String
  visibility : String
  replicaSetID : String
  homeRegion : String
  createdAt : Time
  updatedAt : Time
  deriving DecidableEq

/-- `repositories.repositories`.  A slug is not empty and unique within its organisation. -/
structure RepositoryTable where
  rows : List Repository
  slugs : ∀ row ∈ rows, row.slug ≠ ""
  unique : rows.Pairwise fun first second =>
    ¬ (first.orgID = second.orgID ∧ first.slug = second.slug)

/-- `ORDER BY created_at, id`. -/
def Repository.precedes (first second : Repository) : Bool :=
  first.createdAt < second.createdAt ||
    (first.createdAt = second.createdAt && first.id.toNat < second.id.toNat)

/-- The first of some rows in the order of the query. -/
def earliest : List Repository → Option Repository
  | [] => none
  | row :: rest =>
      match earliest rest with
      | none => some row
      | some other => if other.precedes row then some other else some row

/-- `GetBySlug`; the organisation is no part of the query. -/
def getBySlug (slug : String) (table : RepositoryTable) : Option Repository :=
  earliest (table.rows.filter fun row => row.slug = slug)

/-- `GetUserByEmail`. -/
def getUserByEmail (email : String) (store : Identity.Store) : Option HumanUser :=
  (store.humanUsers.find? fun user => user.email = email).map (·.toHumanUser)

/-- What the query resolvers read besides the identity tables, with the formatting of instants
and the decoding of a quoted string by `encoding/json`. -/
structure Readers where
  repositories : RepositoryTable
  formatTime : Time → String
  unmarshalString : String → Option String

/-! ## Projections -/

/-- The last field with a name that stands directly in a selection set. -/
def selected (sels : List Selection) (name : String) : Option Field :=
  (fieldsOf sels).reverse.find? fun field => field.name = name

/-- A projection: for each key the value that the field of that name is given. -/
def project (entries : List (String × (Field → Value))) (sels : List Selection) : Value :=
  .object (entries.filterMap fun entry =>
    (selected sels entry.1).map fun field => (entry.1, entry.2 field))

/-- A projection whose values do not depend on the field. -/
def plain (entries : List (String × Value)) : List (String × (Field → Value)) :=
  entries.map fun entry => (entry.1, fun _ => entry.2)

/-- A projection of plain values keeps the keys that are selected. -/
theorem project_plain (entries : List (String × Value)) (sels : List Selection) :
    project (plain entries) sels =
      .object (entries.filter fun entry => (selected sels entry.1).isSome) := by
  unfold project plain
  congr 1
  induction entries with
  | nil => rfl
  | cons entry rest inductionHypothesis =>
      rw [List.map_cons, List.filterMap_cons, List.filter_cons, inductionHypothesis]
      cases selected sels entry.1 with
      | none => rfl
      | some field => rfl

/-- `emptyConnection`. -/
def emptyConnection : Value :=
  .object [("nodes", .list []), ("totalCount", .number 0),
    ("pageInfo", .object [("endCursor", .null), ("hasNextPage", .bool false)])]

section Entries

variable (readers : Readers)

/-- `projectUser`. -/
def userEntries (user : HumanUser) : List (String × Value) :=
  [("id", .string (formatUUID user.id)),
    ("login", .string user.email),
    ("name", .string user.email),
    ("email", .string user.email),
    ("createdAt", .string (readers.formatTime user.createdAt)),
    ("__typename", .string "User")]

/-- `projectAgent`. -/
def agentEntries (agent : AgentIdentity) : List (String × Value) :=
  [("id", .string (formatUUID agent.id)),
    ("displayName", .string agent.displayName),
    ("parentUserId", .string (formatUUID agent.parentUserID)),
    ("permissionScope", stringSliceToAny agent.permissionScope),
    ("reputationScore", .number agent.reputationScore),
    ("createdAt", .string (readers.formatTime agent.createdAt)),
    ("__typename", .string "Agent")]

/-- `projectRepository`. -/
def repositoryEntries (repository : Repository) : List (String × Value) :=
  [("id", .string (formatUUID repository.id)),
    ("name", .string repository.name),
    ("nameWithOwner",
      .string (formatUUID repository.orgID ++ "/" ++ repository.slug)),
    ("visibility", .string repository.visibility),
    ("createdAt", .string (readers.formatTime repository.createdAt)),
    ("owner", .object [("id", .string (formatUUID repository.ownerID)),
      ("login", .string (formatUUID repository.ownerID))]),
    ("defaultBranch",
      if repository.defaultBranch = "" then .null
      else
        .object [("name", .string repository.defaultBranch), ("prefix", .string "refs/heads/")]),
    ("pullRequests", emptyConnection),
    ("issues", emptyConnection),
    ("__typename", .string "Repository")]

end Entries

/-- `queryFields`. -/
def queryFields : List String := ["repository", "user", "agent", "pullRequest", "organization"]

/-- `mutationFields`. -/
def mutationFields : List String :=
  ["createPullRequest", "createAgent", "updateAgentPermissions"]

/-- `allTypes`. -/
def allTypes : List String :=
  ["Query", "Mutation", "Repository", "User", "Agent", "PullRequest", "Organization", "Issue",
    "PullRequestConnection", "IssueConnection", "UserConnection", "PageInfo", "Ref", "PRState"]

/-- A list of objects that have a name only. -/
def named (names : List String) : Value :=
  .list (names.map fun name => .object [("name", .string name)])

/-- `projectTypeIntrospection`. -/
def typeEntries (typeName : String) (fields : List String) : List (String × Value) :=
  [("name", .string typeName), ("kind", .string "OBJECT"), ("fields", named fields)]

/-- The keys of `resolveSchemaIntrospection`. -/
def schemaEntries : List (String × (Field → Value)) :=
  [("queryType", fun field => project (plain (typeEntries "Query" queryFields)) field.sels),
    ("mutationType", fun field =>
      project (plain (typeEntries "Mutation" mutationFields)) field.sels),
    ("types", fun _ => named allTypes)]

/-- `resolveSchemaIntrospection`. -/
def resolveSchemaIntrospection (field : Field) : Value := project schemaEntries field.sels

/-- `resolveTypeIntrospection`. -/
def resolveTypeIntrospection (field : Field) : Value :=
  let raw := ((field.args.lookup "name").map ArgValue.raw).getD ""
  if raw = "" then .null else .object [("name", .string raw)]

/-! ## Resolvers -/

variable (platform : Platform) (readers : Readers) (executor : Executor)

/-- `argString`; the callers take an absent argument for the empty string. -/
def argString (args : List (String × ArgValue)) (name : String) : String :=
  match args.lookup name with
  | none => ""
  | some value =>
      match value.raw.toList with
      | '$' :: first :: rest => asString (executor.vars.lookup (String.ofList (first :: rest)))
      | characters =>
          if 2 ≤ characters.length ∧ characters.head? = some '"' ∧
              characters.getLast? = some '"' then
            (readers.unmarshalString value.raw).getD value.raw
          else value.raw

/-- `resolveUser` with `lookupUserByLogin`. -/
def resolveUser (login : String) (store : Identity.Store) : Except ResolverError HumanUser :=
  if login = "" then .error (.text "login is required")
  else
    let found :=
      match platform.parseUUID login with
      | .ok id => Identity.getUserByID id store
      | .error _ => getUserByEmail login store
    match found with
    | none => .error (.service (.service .userNotFound))
    | some user => .ok user

/-- `resolveAgent`. -/
def resolveAgent (idArg : String) (store : Identity.Store) :
    Except ResolverError AgentIdentity :=
  match platform.parseUUID idArg with
  | .error message => .error (.text ("invalid agent id: " ++ message))
  | .ok agentID =>
      match Identity.getAgentByID agentID store with
      | none => .error (.service (.service .agentNotFound))
      | some agent => .ok agent

/-- `resolveRepository`; the owner has to be given and is not used. -/
def resolveRepository (owner name : String) : Except ResolverError Repository :=
  if owner = "" ∨ name = "" then .error (.text "owner and name are required")
  else
    match getBySlug name readers.repositories with
    | none => .error (.text "repositories: repository not found")
    | some repository => .ok repository

/-- `resolveOrganization`. -/
def resolveOrganization (login : String) : Except ResolverError Value :=
  if login = "" then .error (.text "login is required")
  else
    .ok (.object [("id", .string login), ("login", .string login),
      ("members", emptyConnection)])

/-- `resolveQueryRoot`. -/
def resolveQueryRoot (field : Field) (store : Identity.Store) : Except ResolverError Value :=
  if field.name = "user" then
    (resolveUser platform (argString readers executor field.args "login") store).map fun user =>
      project (plain (userEntries readers user)) field.sels
  else if field.name = "agent" then
    (resolveAgent platform (argString readers executor field.args "id") store).map fun agent =>
      project (plain (agentEntries readers agent)) field.sels
  else if field.name = "repository" then
    (resolveRepository readers (argString readers executor field.args "owner")
      (argString readers executor field.args "name")).map fun repository =>
        project (plain (repositoryEntries readers repository)) field.sels
  else if field.name = "organization" then
    resolveOrganization (argString readers executor field.args "login")
  else if field.name = "pullRequest" then
    .error (.text "graphql: pullrequests.Service not yet wired")
  else .error (.text ("FIELD_NOT_SUPPORTED: Query." ++ field.name))

/-- The platform with the resolvers of this module. -/
def readingPlatform : Platform :=
  { platform with
    resolveSchemaIntrospection := resolveSchemaIntrospection
    resolveTypeIntrospection := resolveTypeIntrospection
    resolveQueryRoot := resolveQueryRoot platform readers executor }

end GitScale.GraphQL
