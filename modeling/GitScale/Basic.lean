import Mathlib.Data.BitVec

/-!
# Values shared by the planes

Identifiers and instants as the Go code passes them around.
-/

namespace GitScale

/-- `uuid.UUID`, sixteen bytes. -/
abbrev UUID := BitVec 128

instance UUID.instLawfulBEq : LawfulBEq UUID := inferInstance

/-- `uuid.Nil`. -/
def UUID.nil : UUID := 0#128

/-- An instant in nanoseconds, counted from the zero value of `time.Time`. -/
abbrev Time := Int

/-- `time.Time.IsZero`. -/
def Time.isZero (instant : Time) : Bool := decide (instant = 0)

/-- `time.Time.UnixMilli`, counted from the same origin as the instant. -/
def Time.unixMilli (instant : Time) : Int := instant / 1000000

/-- `MaximumAttempts` of `DefaultRetryPolicy`. -/
def maximumAttempts : Nat := 5

/-- The attempts of an activity after the first. -/
def maximumRetries : Nat := maximumAttempts - 1

end GitScale
