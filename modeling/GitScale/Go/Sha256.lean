import GitScale.Go.Strings
import Mathlib.Data.List.Basic

/-!
# SHA-256

`sha256.Sum256`, `crypto/hmac` over it, and `hex.EncodeToString`, on lists of bytes.
-/

namespace GitScale.Go

/-- The eight words of the chaining state. -/
structure Sha256State where
  a : UInt32
  b : UInt32
  c : UInt32
  d : UInt32
  e : UInt32
  f : UInt32
  g : UInt32
  h : UInt32

namespace Sha256State

def initial : Sha256State :=
  ⟨0x6a09e667, 0xbb67ae85, 0x3c6ef372, 0xa54ff53a,
    0x510e527f, 0x9b05688c, 0x1f83d9ab, 0x5be0cd19⟩

def words (state : Sha256State) : List UInt32 :=
  [state.a, state.b, state.c, state.d, state.e, state.f, state.g, state.h]

def add (left right : Sha256State) : Sha256State :=
  ⟨left.a + right.a, left.b + right.b, left.c + right.c, left.d + right.d,
    left.e + right.e, left.f + right.f, left.g + right.g, left.h + right.h⟩

end Sha256State

/-- The constants of the sixty-four rounds. -/
def sha256Constants : List UInt32 :=
  [0x428a2f98, 0x71374491, 0xb5c0fbcf, 0xe9b5dba5, 0x3956c25b, 0x59f111f1, 0x923f82a4,
    0xab1c5ed5, 0xd807aa98, 0x12835b01, 0x243185be, 0x550c7dc3, 0x72be5d74, 0x80deb1fe,
    0x9bdc06a7, 0xc19bf174, 0xe49b69c1, 0xefbe4786, 0x0fc19dc6, 0x240ca1cc, 0x2de92c6f,
    0x4a7484aa, 0x5cb0a9dc, 0x76f988da, 0x983e5152, 0xa831c66d, 0xb00327c8, 0xbf597fc7,
    0xc6e00bf3, 0xd5a79147, 0x06ca6351, 0x14292967, 0x27b70a85, 0x2e1b2138, 0x4d2c6dfc,
    0x53380d13, 0x650a7354, 0x766a0abb, 0x81c2c92e, 0x92722c85, 0xa2bfe8a1, 0xa81a664b,
    0xc24b8b70, 0xc76c51a3, 0xd192e819, 0xd6990624, 0xf40e3585, 0x106aa070, 0x19a4c116,
    0x1e376c08, 0x2748774c, 0x34b0bcb5, 0x391c0cb3, 0x4ed8aa4a, 0x5b9cca4f, 0x682e6ff3,
    0x748f82ee, 0x78a5636f, 0x84c87814, 0x8cc70208, 0x90befffa, 0xa4506ceb, 0xbef9a3f7,
    0xc67178f2]

def rotateRight (word count : UInt32) : UInt32 := (word >>> count) ||| (word <<< (32 - count))

/-- One round with its constant and its word of the message schedule. -/
def sha256Round (state : Sha256State) (constant word : UInt32) : Sha256State :=
  let choice := (state.e &&& state.f) ^^^ (~~~ state.e &&& state.g)
  let majority := (state.a &&& state.b) ^^^ (state.a &&& state.c) ^^^ (state.b &&& state.c)
  let mixE := rotateRight state.e 6 ^^^ rotateRight state.e 11 ^^^ rotateRight state.e 25
  let mixA := rotateRight state.a 2 ^^^ rotateRight state.a 13 ^^^ rotateRight state.a 22
  let first := state.h + mixE + choice + constant + word
  ⟨first + (mixA + majority), state.a, state.b, state.c, state.d + first, state.e, state.f,
    state.g⟩

/-- The word that follows sixteen words of the message schedule. -/
def nextWord (window : List UInt32) : UInt32 :=
  let early := window.getD 1 0
  let late := window.getD 14 0
  let mixEarly := rotateRight early 7 ^^^ rotateRight early 18 ^^^ (early >>> 3)
  let mixLate := rotateRight late 17 ^^^ rotateRight late 19 ^^^ (late >>> 10)
  window.getD 0 0 + mixEarly + window.getD 9 0 + mixLate

/-- The rounds; the window holds the next sixteen words of the message schedule. -/
def sha256Rounds : List UInt32 → Sha256State → List UInt32 → Sha256State
  | [], state, _ => state
  | constant :: rest, state, window =>
      sha256Rounds rest (sha256Round state constant (window.getD 0 0))
        (window.tail ++ [nextWord window])

/-- The big-endian words of a block. -/
def wordsOf : List UInt8 → List UInt32
  | first :: second :: third :: fourth :: rest =>
      ((first.toUInt32 <<< 24) ||| (second.toUInt32 <<< 16) ||| (third.toUInt32 <<< 8) |||
        fourth.toUInt32) :: wordsOf rest
  | _ => []

def sha256Block (state : Sha256State) (block : List UInt8) : Sha256State :=
  state.add (sha256Rounds sha256Constants state (wordsOf block))

def sha256Blocks : Nat → Sha256State → List UInt8 → Sha256State
  | 0, state, _ => state
  | count + 1, state, message =>
      sha256Blocks count (sha256Block state (message.take 64)) (message.drop 64)

/-- The message, a one bit, zeros up to eight bytes before the end of a block, and the
length in bits. -/
def sha256Pad (message : List UInt8) : List UInt8 :=
  let zeros := (119 - message.length % 64) % 64
  let length := (List.range 8).map fun index =>
    UInt8.ofNat ((8 * message.length) >>> (8 * (7 - index)))
  message ++ [0x80] ++ List.replicate zeros 0 ++ length

/-- The big-endian bytes of a word. -/
def bytesOfWord (word : UInt32) : List UInt8 :=
  [(word >>> 24).toUInt8, (word >>> 16).toUInt8, (word >>> 8).toUInt8, word.toUInt8]

/-- `sha256.Sum256`. -/
def sha256 (message : List UInt8) : List UInt8 :=
  let padded := sha256Pad message
  (sha256Blocks (padded.length / 64) .initial padded).words.flatMap bytesOfWord

@[simp] theorem length_sha256 (message : List UInt8) : (sha256 message).length = 32 := by
  simp [sha256, Sha256State.words, bytesOfWord]

/-- A key of the length of a block: a longer one is hashed, a shorter one is filled up with
zeros. -/
def hmacKey (key : List UInt8) : List UInt8 :=
  let key := if 64 < key.length then sha256 key else key
  key ++ List.replicate (64 - key.length) 0

/-- `hmac.New(sha256.New, key)` after writing the message. -/
def hmacSha256 (key message : List UInt8) : List UInt8 :=
  sha256 ((hmacKey key).map (· ^^^ 0x5c) ++ sha256 ((hmacKey key).map (· ^^^ 0x36) ++ message))

@[simp] theorem length_hmacSha256 (key message : List UInt8) :
    (hmacSha256 key message).length = 32 :=
  length_sha256 _

/-- A lower-case hexadecimal digit. -/
def hexDigit (value : UInt8) : Char :=
  "0123456789abcdef".toList.getD value.toNat '0'

/-- `hex.EncodeToString`, which is `fmt.Sprintf("%x", bytes)`. -/
def hexEncode (bytes : List UInt8) : String :=
  String.ofList (bytes.flatMap fun (byte : UInt8) => [hexDigit (byte >>> 4), hexDigit (byte &&& 0xf)])

theorem hexDigit_mem (value : UInt8) : hexDigit value ∈ '0' :: "0123456789abcdef".toList := by
  rw [hexDigit, List.getD_eq_getElem?_getD]
  cases present : "0123456789abcdef".toList[value.toNat]? with
  | none => exact List.mem_cons_self
  | some digit => exact List.mem_cons_of_mem _ (List.mem_of_getElem? present)

/-- A hexadecimal text has no spaces. -/
theorem isSpace_of_mem_hexEncode {bytes : List UInt8} {char : Char}
    (member : char ∈ (hexEncode bytes).toList) : isSpace char = false := by
  have digits : ∀ digit ∈ '0' :: "0123456789abcdef".toList, isSpace digit = false := by
    simp [isSpace]
  rw [hexEncode, String.toList_ofList, List.mem_flatMap] at member
  rcases member with ⟨byte, -, equal⟩
  simp only [List.mem_cons, List.not_mem_nil, or_false] at equal
  rcases equal with rfl | rfl
  · exact digits _ (hexDigit_mem _)
  · exact digits _ (hexDigit_mem _)

example : hexEncode (sha256
      "abcdbcdecdefdefgefghfghighijhijkijkljklmklmnlmnomnopnopq".toUTF8.toList) =
    "248d6a61d20638b8e5c026930c3e6039a33ce45964ff2167f6ecedd419db06c1" := by
  decide +kernel

example : hexEncode (hmacSha256 "Jefe".toUTF8.toList
      "what do ya want for nothing?".toUTF8.toList) =
    "5bdcc146bf60754e6a042426089575c75a003f089d2739839dec58b964ec3843" := by
  decide +kernel

end GitScale.Go
