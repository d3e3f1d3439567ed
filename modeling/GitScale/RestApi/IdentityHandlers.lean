import GitScale.Identity.Permissions

/-!
# The REST handler for agent permissions

`updatePerms` answers `PATCH` requests on the permissions of an agent.  The body is
given as decoded: `none` is a body that is not valid JSON for it.
-/

namespace GitScale.RestApi

open Identity (Principal Failure)

/-- The client-facing error codes. -/
inductive ErrorCode where
  | unauthenticated
  | forbidden
  | notFound
  | validationFailed
  | conflict
  | rateLimited
  | internal
  deriving DecidableEq, Repr

/-- A status and, for an error, its code and message. -/
structure Response where
  status : Nat
  error : Option (ErrorCode × String)
  deriving DecidableEq, Repr

/-- `writeError`. -/
def writeError (status : Nat) (code : ErrorCode) (message : String) : Response :=
  ⟨status, some (code, message)⟩

/-- `mapErr` on the errors of the identity service. -/
def mapErr (failure : Failure) : Response :=
  match failure with
  | .service .invalidEmail => writeError 400 .validationFailed failure.message
  | .service .emptyDisplayName => writeError 400 .validationFailed failure.message
  | .service .emptyRole => writeError 400 .validationFailed failure.message
  | .service .userNotFound => writeError 404 .notFound failure.message
  | .service .agentNotFound => writeError 404 .notFound failure.message
  | .context .deadlineExceeded => writeError 504 .internal "deadline exceeded"
  | .sql .uniqueViolation _ => writeError 409 .conflict "resource already exists"
  | _ => writeError 500 .internal "internal error"

/-- What one request meets: a failure of the plain read, and the environment of the
service call. -/
structure Circumstance where
  read : Option Failure
  identity : Identity.Environment

/-- `updatePerms`. -/
def updatePerms (parseUUID : String → Except String UUID) (toLower : String → String)
    (caller : Option Principal) (pathID : String) (body : Option (List String))
    (circumstance : Circumstance) (store : Identity.Store) : Response × Identity.Store :=
  match parseUUID pathID with
  | .error _ => (writeError 400 .validationFailed "id is not a UUID", store)
  | .ok id =>
      match body with
      | none => (writeError 400 .validationFailed "invalid JSON body", store)
      | some permissionScope =>
          match caller with
          | none => (writeError 401 .unauthenticated "missing principal", store)
          | some principal =>
              match circumstance.read with
              | some failure => (mapErr failure, store)
              | none =>
                  match Identity.getAgentByID id store with
                  | none => (writeError 404 .notFound "agent not found", store)
                  | some target =>
                      if principal.kind ≠ .human ∨ principal.id ≠ target.parentUserID then
                        (writeError 403 .forbidden
                          "only the parent user may update agent permissions", store)
                      else
                        match Identity.serve toLower
                            (.updateAgentPermissions id permissionScope)
                            circumstance.identity store with
                        | (.error failure, store) => (mapErr failure, store)
                        | (.ok _, store) => (⟨204, none⟩, store)

theorem parent_of_allowed {principal : Principal} {parent : UUID}
    (allowed : ¬ (principal.kind ≠ .human ∨ principal.id ≠ parent)) :
    principal = .human parent := by
  rcases not_or.mp allowed with ⟨kind, same⟩
  cases principal with
  | human userID => rw [← not_not.mp same]; rfl
  | agent agentID parentUserID => exact absurd (fun equal => nomatch equal) kind

/-- Whoever changes a scope through `updatePerms` is the parent of the agent. -/
theorem updatePerms_parent {parseUUID : String → Except String UUID}
    {toLower : String → String} {caller : Option Principal} {pathID : String}
    {body : Option (List String)} {circumstance : Circumstance} {store : Identity.Store}
    {agent : Identity.AgentIdentity}
    (stored : Identity.getAgentByID agent.id store = some agent)
    (changed : Identity.scopeOf agent.id
        (updatePerms parseUUID toLower caller pathID body circumstance store).2 ≠
      Identity.scopeOf agent.id store) :
    caller = some (.human agent.parentUserID) := by
  unfold updatePerms at changed
  split at changed
  · exact absurd rfl changed
  · rename_i id parsed
    split at changed
    · exact absurd rfl changed
    · rename_i permissionScope
      split at changed
      · exact absurd rfl changed
      · rename_i principal
        split at changed
        · exact absurd rfl changed
        · split at changed
          · exact absurd rfl changed
          · rename_i target found
            split at changed
            · exact absurd rfl changed
            · rename_i allowed
              have same : agent.id = id := by
                have written := Identity.serve_updateAgentPermissions_written toLower
                  circumstance.identity store id permissionScope agent.id
                rcases written with kept | named
                · split at changed
                  all_goals
                    rename_i ran
                    rw [ran] at kept
                    exact absurd kept changed
                · exact named.1
              subst same
              rw [stored] at found
              cases found
              rw [parent_of_allowed allowed]

end GitScale.RestApi
