import GitScale.Go.Text

/-!
# Base64

`base64.RawURLEncoding`: six bits for each character of the alphabet for file names and
URLs, without padding.
-/

namespace GitScale.Go

/-- The character for six bits. -/
def base64Char (value : Nat) : UInt8 :=
  if value < 26 then UInt8.ofNat (65 + value)
  else if value < 52 then UInt8.ofNat (71 + value)
  else if value < 62 then UInt8.ofNat (value - 4)
  else if value = 62 then byte '-'
  else byte '_'

/-- The six bits of a character of the alphabet. -/
def base64Value (character : UInt8) : Option Nat :=
  if within (byte 'A') (byte 'Z') character then some (character.toNat - 65)
  else if within (byte 'a') (byte 'z') character then some (character.toNat - 71)
  else if within (byte '0') (byte '9') character then some (character.toNat + 4)
  else if character = byte '-' then some 62
  else if character = byte '_' then some 63
  else none

/-- Three bytes are four groups of six bits; the last group is filled up with zeros. -/
def sextets : Text → List Nat
  | [] => []
  | [a] => [a.toNat / 4, a.toNat % 4 * 16]
  | [a, b] => [a.toNat / 4, a.toNat % 4 * 16 + b.toNat / 16, b.toNat % 16 * 4]
  | a :: b :: c :: rest =>
      a.toNat / 4 :: (a.toNat % 4 * 16 + b.toNat / 16) :: (b.toNat % 16 * 4 + c.toNat / 64) ::
        (c.toNat % 64) :: sextets rest

/-- The bytes of groups of six bits; what fills up the last group is not looked at. -/
def ofSextets : List Nat → Option Text
  | [] => some []
  | [_] => none
  | [p, q] => some [UInt8.ofNat (p * 4 + q / 16)]
  | [p, q, r] => some [UInt8.ofNat (p * 4 + q / 16), UInt8.ofNat (q % 16 * 16 + r / 4)]
  | p :: q :: r :: s :: rest =>
      (ofSextets rest).map fun others =>
        UInt8.ofNat (p * 4 + q / 16) :: UInt8.ofNat (q % 16 * 16 + r / 4) ::
          UInt8.ofNat (r % 4 * 64 + s) :: others

/-- `RawURLEncoding.EncodeToString`. -/
def base64Encode (text : Text) : Text := (sextets text).map base64Char

/-- `RawURLEncoding.DecodeString`, which skips line breaks. -/
def base64Decode (text : Text) : Option Text :=
  ((text.filter fun value => value ≠ 10 ∧ value ≠ 13).mapM base64Value).bind ofSextets

example : base64Encode [0xFB, 0xFF] = [byte '-', byte '_', byte '8'] ∧
    base64Decode [byte '-', byte '_', byte '8'] = some [0xFB, 0xFF] := by decide

theorem base64Char_spec : ∀ value < 64,
    base64Value (base64Char value) = some value ∧ base64Char value ≠ 10 ∧
      base64Char value ≠ 13 := by
  decide

theorem sextets_lt (text : Text) : ∀ value ∈ sextets text, value < 64 := by
  induction text using sextets.induct with
  | case1 => simp [sextets]
  | case2 a =>
      have bound := a.toNat_lt
      simp [sextets]
      omega
  | case3 a b =>
      have bound := a.toNat_lt
      have bound' := b.toNat_lt
      simp [sextets]
      omega
  | case4 a b c rest inductionHypothesis =>
      have bound := a.toNat_lt
      have bound' := b.toNat_lt
      have bound'' := c.toNat_lt
      simp only [sextets, List.mem_cons, forall_eq_or_imp]
      exact ⟨by omega, by omega, by omega, by omega, inductionHypothesis⟩

theorem ofSextets_sextets (text : Text) : ofSextets (sextets text) = some text := by
  induction text using sextets.induct with
  | case1 => rfl
  | case2 a =>
      have first : a.toNat / 4 * 4 + a.toNat % 4 * 16 / 16 = a.toNat := by omega
      rw [sextets, ofSextets, first, UInt8.ofNat_toNat]
  | case3 a b =>
      have bound := b.toNat_lt
      have first : a.toNat / 4 * 4 + (a.toNat % 4 * 16 + b.toNat / 16) / 16 = a.toNat := by omega
      have second : (a.toNat % 4 * 16 + b.toNat / 16) % 16 * 16 + b.toNat % 16 * 4 / 4 =
          b.toNat := by omega
      rw [sextets, ofSextets, first, second, UInt8.ofNat_toNat, UInt8.ofNat_toNat]
  | case4 a b c rest inductionHypothesis =>
      have bound := b.toNat_lt
      have bound' := c.toNat_lt
      have first : a.toNat / 4 * 4 + (a.toNat % 4 * 16 + b.toNat / 16) / 16 = a.toNat := by omega
      have second : (a.toNat % 4 * 16 + b.toNat / 16) % 16 * 16 +
          (b.toNat % 16 * 4 + c.toNat / 64) / 4 = b.toNat := by omega
      have third : (b.toNat % 16 * 4 + c.toNat / 64) % 4 * 64 + c.toNat % 64 = c.toNat := by
        omega
      rw [sextets, ofSextets, first, second, third, inductionHypothesis, UInt8.ofNat_toNat,
        UInt8.ofNat_toNat, UInt8.ofNat_toNat]
      rfl

theorem mapM_base64Char {values : List Nat} (small : ∀ value ∈ values, value < 64) :
    (values.map base64Char).mapM base64Value = some values := by
  induction values with
  | nil => rfl
  | cons value values inductionHypothesis =>
      have here := base64Char_spec value (small value List.mem_cons_self)
      have others := inductionHypothesis fun value later => small value (List.mem_cons_of_mem _ later)
      rw [List.map_cons, List.mapM_cons, here.1, others]
      rfl

/-- Every text is decoded from its encoding. -/
theorem base64Decode_base64Encode (text : Text) :
    base64Decode (base64Encode text) = some text := by
  have kept : (base64Encode text).filter (fun value => value ≠ 10 ∧ value ≠ 13) =
      base64Encode text := by
    apply List.filter_eq_self.mpr
    intro character member
    obtain ⟨value, present, rfl⟩ := List.mem_map.mp member
    have plain := (base64Char_spec value (sextets_lt text value present)).2
    exact decide_eq_true plain
  rw [base64Decode, kept, base64Encode, mapM_base64Char (sextets_lt text), Option.bind_some,
    ofSextets_sextets]

/-- A byte that is not in the alphabet is not in an encoding. -/
theorem not_mem_base64Encode {value : UInt8} (foreign : base64Value value = none) (text : Text) :
    value ∉ base64Encode text := by
  intro member
  obtain ⟨sextet, present, rfl⟩ := List.mem_map.mp member
  rw [(base64Char_spec sextet (sextets_lt text sextet present)).1] at foreign
  cases foreign

/-- Only the empty text has an empty encoding. -/
theorem base64Encode_eq_nil_iff {text : Text} : base64Encode text = [] ↔ text = [] := by
  constructor
  · intro empty
    have decoded := base64Decode_base64Encode text
    rw [empty] at decoded
    exact (Option.some.inj decoded).symm
  · intro empty
    rw [empty]
    rfl

end GitScale.Go
