import Mathlib.Order.Defs.Unbundled
import Mathlib.Tactic.TypeStar

/-!
# Transaction scripts

A script executes statements one after another inside a transaction.  Any statement
may be hit by a fault of the environment instead of being executed, and the first
failure ends the script.  Faults are given by the position of the statement, so one
script covers every pattern of failures.
-/

namespace GitScale.Foundation

/-- The tables as the transaction sees them, and how many statements it executed. -/
structure Session (Store : Type) where
  store : Store
  executed : Nat

/-- A script over `Store` with result `α`. -/
def Script (Store Fault Failure α : Type) : Type :=
  (Nat → Option Fault) → Session Store → Except Failure (α × Session Store)

namespace Script

variable {Store Fault Failure α β : Type}

instance : Monad (Script Store Fault Failure) where
  pure value := fun _ session => .ok (value, session)
  bind script next := fun faults session =>
    match script faults session with
    | .error failure => .error failure
    | .ok (value, session) => next value faults session

/-- Execute one statement.  `wrap` says how its faults are reported. -/
def statement (wrap : Fault → Failure) (effect : Store → Except Fault (α × Store)) :
    Script Store Fault Failure α := fun faults session =>
  match faults session.executed with
  | some fault => .error (wrap fault)
  | none =>
      match effect session.store with
      | .error fault => .error (wrap fault)
      | .ok (value, store) => .ok (value, ⟨store, session.executed + 1⟩)

/-- Leave the script with an error of its own. -/
def fail (failure : Failure) : Script Store Fault Failure α := fun _ _ => .error failure

/-- The script succeeded from `before` with `value` and left `after`. -/
def Yields (script : Script Store Fault Failure α) (faults : Nat → Option Fault)
    (before : Session Store) (value : α) (after : Session Store) : Prop :=
  script faults before = .ok (value, after)

variable {faults : Nat → Option Fault} {before after : Session Store}

@[simp] theorem yields_pure {value result : α} :
    (pure value : Script Store Fault Failure α).Yields faults before result after ↔
      value = result ∧ before = after := by
  simp [Yields, pure]

@[simp] theorem yields_bind {script : Script Store Fault Failure α}
    {next : α → Script Store Fault Failure β} {value : β} :
    (script >>= next).Yields faults before value after ↔
      ∃ middle between, script.Yields faults before middle between ∧
        (next middle).Yields faults between value after := by
  simp only [Yields, bind]
  cases script faults before with
  | error failure => simp
  | ok pair =>
      rcases pair with ⟨middle, between⟩
      constructor
      · intro rest
        exact ⟨middle, between, rfl, rest⟩
      · rintro ⟨_, _, ⟨⟩, rest⟩
        exact rest

/-- What comes after a script without statements leaves the session as it is. -/
theorem Yields.of_bind_pure {script : Script Store Fault Failure α} {change : α → β} {result : β}
    (yields : (script >>= fun value => pure (change value)).Yields faults before result after) :
    ∃ value, script.Yields faults before value after := by
  rcases yields_bind.mp yields with ⟨value, between, ran, ended⟩
  rcases yields_pure.mp ended with ⟨-, rfl⟩
  exact ⟨value, ran⟩

@[simp] theorem yields_fail {failure : Failure} {value : α} :
    ¬ (fail failure : Script Store Fault Failure α).Yields faults before value after := by
  simp [Yields, fail]

theorem yields_statement {wrap : Fault → Failure}
    {effect : Store → Except Fault (α × Store)} {value : α} :
    (statement wrap effect).Yields faults before value after ↔
      faults before.executed = none ∧ effect before.store = .ok (value, after.store) ∧
        after.executed = before.executed + 1 := by
  simp only [Yields, statement]
  cases faults before.executed with
  | some fault => simp
  | none =>
      cases effect before.store with
      | error fault => simp
      | ok pair =>
          rcases pair with ⟨result, store⟩
          rcases after with ⟨final, executed⟩
          simp only [Except.ok.injEq, Prod.mk.injEq, Session.mk.injEq, true_and]
          constructor
          · rintro ⟨rfl, rfl, rfl⟩
            exact ⟨⟨rfl, rfl⟩, rfl⟩
          · rintro ⟨⟨rfl, rfl⟩, rfl⟩
            exact ⟨rfl, rfl, rfl⟩

/-- Whenever the script succeeds, its final tables are related to the initial ones. -/
def Keeps (relation : Store → Store → Prop) (script : Script Store Fault Failure α) :
    Prop :=
  ∀ faults before value after, script.Yields faults before value after →
    relation before.store after.store

section Rules

variable {relation : Store → Store → Prop}

theorem keeps_pure [Std.Refl relation] (value : α) :
    Keeps relation (pure value : Script Store Fault Failure α) := by
  intro faults before result after yields
  rcases yields_pure.mp yields with ⟨-, rfl⟩
  exact Std.Refl.refl before.store

theorem keeps_fail (failure : Failure) :
    Keeps relation (fail failure : Script Store Fault Failure α) := by
  intro faults before result after yields
  exact absurd yields yields_fail

theorem Keeps.bind [IsTrans Store relation] {script : Script Store Fault Failure α}
    {next : α → Script Store Fault Failure β} (first : Keeps relation script)
    (second : ∀ value, Keeps relation (next value)) :
    Keeps relation (script >>= next) := by
  intro faults before result after yields
  rcases yields_bind.mp yields with ⟨middle, between, left, right⟩
  exact IsTrans.trans _ _ _ (first faults before middle between left)
    (second middle faults between result after right)

theorem keeps_statement {wrap : Fault → Failure}
    {effect : Store → Except Fault (α × Store)}
    (kept : ∀ store value next, effect store = .ok (value, next) → relation store next) :
    Keeps relation (statement wrap effect) := by
  intro faults before result after yields
  exact kept _ _ _ (yields_statement.mp yields).2.1

end Rules

end Script

end GitScale.Foundation
