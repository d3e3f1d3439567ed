import Mathlib.Algebra.Group.Nat.Defs
import Mathlib.Data.List.Basic

/-!
# Big-endian integers

`binary.BigEndian` on unsigned integers of 32 bits.
-/

namespace GitScale.Go

/-- `binary.BigEndian.PutUint32`. -/
def putUint32 (value : Nat) : List UInt8 :=
  [UInt8.ofNat (value / 2 ^ 24), UInt8.ofNat (value / 2 ^ 16), UInt8.ofNat (value / 2 ^ 8),
    UInt8.ofNat value]

/-- `binary.BigEndian.Uint32`. -/
def uint32 (bytes : List UInt8) : Nat :=
  bytes.foldl (fun value byte => value * 256 + byte.toNat) 0

@[simp] theorem length_putUint32 (value : Nat) : (putUint32 value).length = 4 := rfl

theorem uint32_putUint32 {value : Nat} (fits : value < 2 ^ 32) :
    uint32 (putUint32 value) = value := by
  simp only [uint32, putUint32, List.foldl_cons, List.foldl_nil, UInt8.toNat_ofNat']
  omega

/-- Four bytes are what their number is written as. -/
theorem putUint32_uint32 {bytes : List UInt8} (four : bytes.length = 4) :
    putUint32 (uint32 bytes) = bytes := by
  rcases bytes with _ | ⟨first, _ | ⟨second, _ | ⟨third, _ | ⟨fourth, _ | ⟨fifth, rest⟩⟩⟩⟩⟩
  case cons.cons.cons.cons.nil =>
    have bounds := And.intro first.toNat_lt (And.intro second.toNat_lt
      (And.intro third.toNat_lt fourth.toNat_lt))
    simp only [uint32, putUint32, List.foldl_cons, List.foldl_nil, List.cons.injEq, and_true,
      ← UInt8.toNat_inj, UInt8.toNat_ofNat']
    omega
  all_goals cases four

end GitScale.Go
