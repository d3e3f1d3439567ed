import GitScale.Foundation.Script
import GitScale.Identity.Store

/-!
# Serializable transactions with bounded retry

`Store.Transact` opens one transaction, runs a script in it and commits.
`WithSerializableRetry` repeats that on a serialization failure.  What the database
and the context do to each attempt is part of the attempt, so a single call covers
every pattern of failures, including a commit whose acknowledgement is lost.
-/

namespace GitScale.Identity

open Foundation

/-- The sentinel errors of the service. -/
inductive ServiceError where
  | retryExhausted
  | invalidEmail
  | emptyDisplayName
  | agentNotFound
  | userNotFound
  | emptyRole
  | credentialEmpty
  deriving DecidableEq, Repr

/-- The texts of the sentinel errors. -/
def ServiceError.message : ServiceError → String
  | .retryExhausted => "identity: serializable retry exhausted"
  | .invalidEmail => "identity: invalid email"
  | .emptyDisplayName => "identity: agent display name is empty"
  | .agentNotFound => "identity: agent not found"
  | .userNotFound => "identity: user not found"
  | .emptyRole => "identity: org membership role is empty"
  | .credentialEmpty => "identity: credential plaintext is empty"

/-- How a context ends. -/
inductive ContextError where
  | canceled
  | deadlineExceeded
  deriving DecidableEq, Repr

def ContextError.message : ContextError → String
  | .canceled => "context canceled"
  | .deadlineExceeded => "context deadline exceeded"

/-- An error returned by the service. -/
inductive Failure where
  | sql (state : SqlState) (message : String)
  | context (error : ContextError)
  | service (error : ServiceError)
  | other (message : String)
  deriving DecidableEq, Repr

/-- `Error()`. -/
def Failure.message : Failure → String
  | .sql _ message => message
  | .context error => error.message
  | .service error => error.message
  | .other message => message

/-- `store.IsRetryable`. -/
def isRetryable : Failure → Bool
  | .sql .serializationFailure _ => true
  | _ => false

/-- A statement sequence on the identity tables. -/
abbrev TxM (α : Type) := Script Store Fault Failure α

/-- Report a database error under the name of the operation. -/
def wrap (operation : String) (fault : Fault) : Failure :=
  .sql fault.state ("postgres: " ++ operation ++ ": " ++ fault.message)

/-- Execute one statement under the name of its operation. -/
def exec {α : Type} (operation : String) (effect : Store → Outcome α) : TxM α :=
  Script.statement (wrap operation) effect

/-- Execute one query. -/
def query {α : Type} (operation : String) (read : Store → α) : TxM α :=
  exec operation fun store => .ok (read store, store)

/-- Look a row up and fail with `missing` when there is none. -/
def require {α : Type} (operation : String) (read : Store → Option α)
    (missing : ServiceError) : TxM α := do
  match ← query operation read with
  | some row => pure row
  | none => Script.fail (.service missing)

/-- The end of a transaction whose script succeeded. -/
inductive Commit where
  | committed
  | aborted (fault : Fault)
  | unacknowledged (message : String)
  deriving DecidableEq

/-- What the environment contributes to one attempt: the faults, the transaction's
`now()`, the reading of the service clock, the identifiers drawn inside it, and
whether the context ends during the backoff that follows. -/
structure Attempt where
  begin : Option Fault
  statements : Nat → Option Fault
  commit : Commit
  now : Time
  clock : Time
  eventID : UUID
  freshID : UUID
  backoff : Option ContextError

/-- `Store.Transact`. -/
def transact {α : Type} (script : TxM α) (attempt : Attempt) (store : Store) :
    Except Failure α × Store :=
  match attempt.begin with
  | some fault => (.error (wrap "begin tx" fault), store)
  | none =>
      match script attempt.statements ⟨store, 0⟩ with
      | .error failure => (.error failure, store)
      | .ok (value, session) =>
          match attempt.commit with
          | .committed => (.ok value, session.store)
          | .aborted fault => (.error (wrap "commit" fault), store)
          | .unacknowledged message =>
              (.error (wrap "commit" ⟨.other, message⟩), session.store)

def retryMaxAttempts : Nat := 3

/-- The loop of `WithSerializableRetry`, entered with `remaining` iterations to go. -/
def retryFrom {α : Type} (script : Attempt → TxM α) (attempts : Nat → Attempt) :
    Nat → Store → Except Failure α × Store
  | 0, store => (.error (.service .retryExhausted), store)
  | remaining + 1, store =>
      let attempt := attempts (retryMaxAttempts - (remaining + 1))
      match transact (script attempt) attempt store with
      | (.ok value, store) => (.ok value, store)
      | (.error failure, store) =>
          if isRetryable failure then
            if remaining = 0 then (.error (.service .retryExhausted), store)
            else
              match attempt.backoff with
              | some error => (.error (.context error), store)
              | none => retryFrom script attempts remaining store
          else (.error failure, store)

/-- `WithSerializableRetry` around `Transact`. -/
def withSerializableRetry {α : Type} (script : Attempt → TxM α)
    (attempts : Nat → Attempt) (store : Store) : Except Failure α × Store :=
  retryFrom script attempts retryMaxAttempts store

/-! ## What an attempt and a whole call can do -/

section Rules

variable {α : Type} {relation : Store → Store → Prop}

theorem yields_exec {operation : String} {effect : Store → Outcome α}
    {faults : Nat → Option Fault} {before after : Session Store} {value : α} :
    (exec operation effect).Yields faults before value after ↔
      faults before.executed = none ∧ effect before.store = .ok (value, after.store) ∧
        after.executed = before.executed + 1 :=
  Script.yields_statement

theorem keeps_exec {operation : String} {effect : Store → Outcome α}
    (kept : ∀ store value next, effect store = .ok (value, next) → relation store next) :
    Script.Keeps relation (exec operation effect) :=
  Script.keeps_statement kept

/-- What a successful look-up found, and that it only read. -/
theorem yields_require {operation : String} {read : Store → Option α}
    {missing : ServiceError} {faults : Nat → Option Fault} {before after : Session Store}
    {row : α} (found : (require operation read missing).Yields faults before row after) :
    read before.store = some row ∧ after.store = before.store := by
  unfold require at found
  rcases Script.yields_bind.mp found with ⟨answer, between, asked, rest⟩
  have answered := (yields_exec.mp asked).2.1
  simp only [Except.ok.injEq, Prod.mk.injEq] at answered
  cases answer with
  | none => exact absurd rest Script.yields_fail
  | some row =>
      rcases Script.yields_pure.mp rest with ⟨rfl, rfl⟩
      exact ⟨answered.1, answered.2.symm⟩

/-- A look-up that meets no fault and finds its row. -/
theorem require_yields {operation : String} {read : Store → Option α}
    {missing : ServiceError} {faults : Nat → Option Fault} {before : Session Store} {row : α}
    (quiet : faults before.executed = none) (present : read before.store = some row) :
    (require operation read missing).Yields faults before row
      ⟨before.store, before.executed + 1⟩ := by
  unfold require
  apply Script.yields_bind.mpr
  refine ⟨some row, ⟨before.store, before.executed + 1⟩, ?_, Script.yields_pure.mpr ⟨rfl, rfl⟩⟩
  exact yields_exec.mpr ⟨quiet, by rw [present], rfl⟩

theorem keeps_require [Std.Refl relation] (operation : String) (read : Store → Option α)
    (missing : ServiceError) : Script.Keeps relation (require operation read missing) := by
  intro faults before row after found
  rw [(yields_require found).2]
  exact Std.Refl.refl before.store

/-- A transaction either leaves the tables alone or runs its script to the end. -/
theorem transact_cases (script : TxM α) (attempt : Attempt) (store : Store) :
    ((transact script attempt store).2 = store ∧
        ∀ value, (transact script attempt store).1 ≠ .ok value) ∨
      ∃ value session, script.Yields attempt.statements ⟨store, 0⟩ value session ∧
        (transact script attempt store).2 = session.store ∧
        ∀ result, (transact script attempt store).1 = .ok result → result = value := by
  unfold transact
  cases attempt.begin with
  | some fault => simp
  | none =>
      cases ran : script attempt.statements ⟨store, 0⟩ with
      | error failure => simp
      | ok pair =>
          rcases pair with ⟨value, session⟩
          cases attempt.commit with
          | committed => exact Or.inr ⟨value, session, ran, rfl, fun _ same => by cases same; rfl⟩
          | aborted fault => simp
          | unacknowledged message =>
              exact Or.inr ⟨value, session, ran, rfl, fun _ same => by cases same⟩

/-- A transaction that begins, runs its script to the end and commits. -/
theorem transact_of_yields {script : TxM α} {attempt : Attempt} {store : Store} {value : α}
    {session : Session Store} (begins : attempt.begin = none)
    (commits : attempt.commit = .committed)
    (yields : script.Yields attempt.statements ⟨store, 0⟩ value session) :
    transact script attempt store = (.ok value, session.store) := by
  have ran : script attempt.statements ⟨store, 0⟩ = .ok (value, session) := yields
  simp only [transact, begins, ran, commits]

theorem transact_keeps [Std.Refl relation] {script : TxM α} (keeps : script.Keeps relation)
    (attempt : Attempt) (store : Store) :
    relation store (transact script attempt store).2 := by
  rcases transact_cases script attempt store with ⟨same, -⟩ | ⟨value, session, yields, same, -⟩
  · rw [same]
    exact Std.Refl.refl store
  · rw [same]
    exact keeps _ _ _ _ yields

/-- One iteration of the loop returns what its transaction returned, gives up with an
error, or goes on from the tables that the failed transaction left. -/
theorem retryFrom_succ_cases (script : Attempt → TxM α) (attempts : Nat → Attempt)
    (remaining : Nat) (store : Store) :
    ∃ number,
      retryFrom script attempts (remaining + 1) store =
          transact (script (attempts number)) (attempts number) store ∨
        ∃ next, (transact (script (attempts number)) (attempts number) store).2 = next ∧
          ((∃ failure, retryFrom script attempts (remaining + 1) store =
              (.error failure, next)) ∨
            retryFrom script attempts (remaining + 1) store =
              retryFrom script attempts remaining next) := by
  refine ⟨retryMaxAttempts - (remaining + 1), ?_⟩
  rcases ran : transact (script (attempts (retryMaxAttempts - (remaining + 1))))
    (attempts (retryMaxAttempts - (remaining + 1))) store with ⟨result, next⟩
  cases result with
  | ok value =>
      left
      simp only [retryFrom, ran]
  | error failure =>
      by_cases retryable : isRetryable failure = true
      · right
        refine ⟨next, rfl, ?_⟩
        simp only [retryFrom, ran, retryable, if_true]
        split
        · exact Or.inl ⟨_, rfl⟩
        · split
          · exact Or.inl ⟨_, rfl⟩
          · exact Or.inr rfl
      · left
        simp only [retryFrom, ran, retryable, if_false, Bool.false_eq_true]

/-- Rule for the retry loop: what every attempt keeps, the whole call keeps. -/
theorem retryFrom_keeps [Std.Refl relation] [IsTrans Store relation]
    {script : Attempt → TxM α} (keeps : ∀ attempt, (script attempt).Keeps relation)
    (attempts : Nat → Attempt) :
    ∀ remaining store, relation store (retryFrom script attempts remaining store).2 := by
  intro remaining
  induction remaining with
  | zero =>
      intro store
      exact Std.Refl.refl store
  | succ remaining inductionHypothesis =>
      intro store
      obtain ⟨number, last | ⟨next, rfl, ⟨failure, last⟩ | last⟩⟩ :=
        retryFrom_succ_cases script attempts remaining store
      all_goals
        have first := transact_keeps (keeps (attempts number)) (attempts number) store
        rw [last]
      · exact first
      · exact first
      · exact IsTrans.trans _ _ _ first (inductionHypothesis _)

/-- When no attempt can succeed on the tables as they are, they stay as they are. -/
theorem retryFrom_never {script : Attempt → TxM α} {store : Store}
    (never : ∀ attempt value session,
      ¬ (script attempt).Yields attempt.statements ⟨store, 0⟩ value session)
    (attempts : Nat → Attempt) :
    ∀ remaining, (retryFrom script attempts remaining store).2 = store := by
  intro remaining
  induction remaining with
  | zero => rfl
  | succ remaining inductionHypothesis =>
      obtain ⟨number, last | ⟨next, rfl, ⟨failure, last⟩ | last⟩⟩ :=
        retryFrom_succ_cases script attempts remaining store
      all_goals
        rw [last]
        rcases transact_cases (script (attempts number)) (attempts number) store with
          ⟨same, -⟩ | ⟨value, session, yields, -⟩
      · exact same
      · exact absurd yields (never (attempts number) value session)
      · exact same
      · exact absurd yields (never (attempts number) value session)
      · rw [same]
        exact inductionHypothesis
      · exact absurd yields (never (attempts number) value session)

theorem withSerializableRetry_keeps [Std.Refl relation] [IsTrans Store relation]
    {script : Attempt → TxM α} (keeps : ∀ attempt, (script attempt).Keeps relation)
    (attempts : Nat → Attempt) (store : Store) :
    relation store (withSerializableRetry script attempts store).2 :=
  retryFrom_keeps keeps attempts retryMaxAttempts store

/-- A call that succeeds ends with an attempt whose script succeeded. -/
theorem retryFrom_ok {script : Attempt → TxM α} {attempts : Nat → Attempt} {value : α}
    {after : Store} :
    ∀ remaining store, retryFrom script attempts remaining store = (.ok value, after) →
      ∃ number before session,
        (script (attempts number)).Yields (attempts number).statements ⟨before, 0⟩ value session ∧
          session.store = after := by
  intro remaining
  induction remaining with
  | zero =>
      intro store succeeded
      cases succeeded
  | succ remaining inductionHypothesis =>
      intro store succeeded
      obtain ⟨number, last | ⟨next, rfl, ⟨failure, last⟩ | last⟩⟩ :=
        retryFrom_succ_cases script attempts remaining store
      · rw [last] at succeeded
        rcases transact_cases (script (attempts number)) (attempts number) store with
          ⟨-, failed⟩ | ⟨result, session, yields, same, agree⟩
        · exact absurd (congrArg Prod.fst succeeded) (failed value)
        · have equal : value = result := agree value (congrArg Prod.fst succeeded)
          rw [succeeded] at same
          exact ⟨number, store, session, equal ▸ yields, same.symm⟩
      · rw [last] at succeeded
        cases succeeded
      · rw [last] at succeeded
        exact inductionHypothesis _ succeeded

theorem withSerializableRetry_ok {script : Attempt → TxM α} {attempts : Nat → Attempt}
    {store after : Store} {value : α}
    (succeeded : withSerializableRetry script attempts store = (.ok value, after)) :
    ∃ number before session,
      (script (attempts number)).Yields (attempts number).statements ⟨before, 0⟩ value session ∧
        session.store = after :=
  retryFrom_ok retryMaxAttempts store succeeded

end Rules

end GitScale.Identity
