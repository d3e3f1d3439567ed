import GitScale.Basic
import Mathlib.Logic.Function.Basic

/-!
# The keys of a Redis server

A key holds a value and possibly a deadline in Unix milliseconds.  A key whose deadline has
passed is gone for every command that accesses it; when exactly a deadline has passed is a
parameter, since the documents of the server leave the last millisecond open.
-/

namespace GitScale.Redis

/-- A value with its deadline. -/
structure Stored (Value : Type) where
  value : Value
  deadline : Option Int
  deriving DecidableEq, Repr

/-- The keys and what they hold. -/
abbrev Keyspace (Value : Type) := String → Option (Stored Value)

/-- Whether a deadline has passed at an instant. -/
abbrev Expiry := Int → Int → Bool

/-- A key is kept in the millisecond of its deadline. -/
def strictly : Expiry := fun deadline now => deadline < now

variable {Value : Type}

def Stored.lapsed (expiry : Expiry) (now : Int) (stored : Stored Value) : Bool :=
  stored.deadline.any (expiry · now)

/-- The value of a key at an instant. -/
def Keyspace.read (keyspace : Keyspace Value) (expiry : Expiry) (now : Int) (key : String) :
    Option Value :=
  ((keyspace key).filter fun stored => !stored.lapsed expiry now).map Stored.value

/-- Write a key. -/
def Keyspace.write (keyspace : Keyspace Value) (key : String) (stored : Stored Value) :
    Keyspace Value :=
  Function.update keyspace key (some stored)

/-- `DEL`. -/
def Keyspace.delete (keyspace : Keyspace Value) (key : String) : Keyspace Value :=
  Function.update keyspace key none

theorem Keyspace.read_of_none {keyspace : Keyspace Value} {expiry : Expiry} {now : Int}
    {key : String} (absent : keyspace key = none) : keyspace.read expiry now key = none := by
  simp [read, absent]

theorem Keyspace.read_of_some {keyspace : Keyspace Value} {expiry : Expiry} {now : Int}
    {key : String} {stored : Stored Value} (present : keyspace key = some stored) :
    keyspace.read expiry now key =
      if stored.lapsed expiry now then none else some stored.value := by
  cases gone : stored.lapsed expiry now with
  | true => simp [read, present, gone]
  | false => simp [read, present, gone]

@[simp] theorem Keyspace.write_self (keyspace : Keyspace Value) (key : String)
    (stored : Stored Value) : keyspace.write key stored key = some stored :=
  Function.update_self _ _ _

theorem Keyspace.write_of_ne (keyspace : Keyspace Value) {key other : String}
    (stored : Stored Value) (different : other ≠ key) :
    keyspace.write key stored other = keyspace other :=
  Function.update_of_ne different _ _

end GitScale.Redis
