import GitScale.Basic
import GitScale.Go.Sha256
import GitScale.Go.Text
import Mathlib.Logic.Function.Basic

/-!
# The text of a UUID

`UUID.String` of `github.com/google/uuid`: the sixteen bytes in hexadecimal, with hyphens after
the first eight digits and after each of the next three groups of four.
-/

namespace GitScale.Go

/-- The hexadecimal digits of a UUID, the highest first. -/
def uuidDigits (id : UUID) : List Char :=
  (List.range 32).map fun index => hexDigit (id.toNat / 16 ^ (31 - index) % 16).toUInt8

/-- `UUID.String`. -/
def formatUUID (id : UUID) : String :=
  let digits := uuidDigits id
  String.ofList (digits.take 8 ++ '-' :: ((digits.drop 8).take 4 ++ '-' ::
    ((digits.drop 12).take 4 ++ '-' :: ((digits.drop 16).take 4 ++ '-' :: digits.drop 20))))

example : formatUUID 0x0123456789abcdef0123456789abcdef#128 =
    "01234567-89ab-cdef-0123-456789abcdef" := by decide

theorem formatUUID_ne_empty (id : UUID) : formatUUID id ≠ "" := by
  intro empty
  have characters := congrArg String.toList empty
  rw [formatUUID, String.toList_ofList] at characters
  simp at characters

theorem hyphen_not_mem_uuidDigits (id : UUID) : '-' ∉ uuidDigits id := by
  intro membership
  obtain ⟨index, -, hyphen⟩ := List.mem_map.mp membership
  have digit := hexDigit_mem (id.toNat / 16 ^ (31 - index) % 16).toUInt8
  rw [hyphen] at digit
  simp at digit

/-- Without the hyphens the digits are left. -/
theorem filter_formatUUID (id : UUID) :
    (formatUUID id).toList.filter (· ≠ '-') = uuidDigits id := by
  have kept {part : List Char} (subset : part ⊆ uuidDigits id) :
      (part.filter fun character => ¬ character = '-') = part := by
    apply List.filter_eq_self.mpr
    intro character membership
    simp only [decide_eq_true_eq]
    rintro rfl
    exact hyphen_not_mem_uuidDigits id (subset membership)
  have group (start : Nat) : ((uuidDigits id).drop start).take 4 ⊆ uuidDigits id :=
    List.Subset.trans (List.take_subset 4 _) (List.drop_subset start _)
  have joined (start : Nat) :
      ((uuidDigits id).drop start).take 4 ++ (uuidDigits id).drop (start + 4) =
        (uuidDigits id).drop start := by
    rw [← List.drop_drop, List.take_append_drop]
  simp only [formatUUID, String.toList_ofList, List.filter_append, ne_eq, List.filter_cons,
    not_true_eq_false, decide_false, Bool.false_eq_true, if_false]
  rw [kept (List.take_subset 8 _), kept (group 8), kept (group 12), kept (group 16),
    kept (List.drop_subset 20 _), joined 16, joined 12, joined 8, List.take_append_drop]

/-! ## Reading it back -/

def hexValue (character : Char) : Option Nat :=
  if '0' ≤ character ∧ character ≤ '9' then some (character.toNat - 48)
  else if 'a' ≤ character ∧ character ≤ 'f' then some (character.toNat - 87)
  else if 'A' ≤ character ∧ character ≤ 'F' then some (character.toNat - 55)
  else none

def ofHexDigits (digits : List Nat) : Nat := digits.foldl (fun value digit => 16 * value + digit) 0

/-- `uuid.Parse` of the form with hyphens. -/
def parseHyphenated (text : String) : Option UUID :=
  let characters := text.toList
  if characters.length = 36 ∧ ∀ index ∈ [8, 13, 18, 23], characters[index]? = some '-' then
    ((characters.filter (· ≠ '-')).mapM hexValue).bind fun digits =>
      if digits.length = 32 then some (BitVec.ofNat 128 (ofHexDigits digits)) else none
  else none

theorem ofHexDigits_nibbles (count value : Nat) :
    ofHexDigits ((List.range count).map fun index => value / 16 ^ (count - 1 - index) % 16) =
      value % 16 ^ count := by
  induction count generalizing value with
  | zero => simp [ofHexDigits, Nat.mod_one]
  | succ count inductionHypothesis =>
      have high : (List.range count).map (fun index => value / 16 ^ (count - index) % 16) =
          (List.range count).map fun index => value / 16 / 16 ^ (count - 1 - index) % 16 := by
        apply List.map_congr_left
        intro index member
        have power : count - index = count - 1 - index + 1 := by
          have below := List.mem_range.mp member
          omega
        rw [power, Nat.pow_succ, Nat.mul_comm, Nat.div_div_eq_div_mul]
      have rest := inductionHypothesis (value / 16)
      rw [ofHexDigits] at rest ⊢
      rw [List.range_succ, List.map_append, List.foldl_append, Nat.add_sub_cancel, high, rest,
        Nat.pow_succ, Nat.mul_comm (16 ^ count), Nat.mod_mul]
      simp only [List.map_cons, List.map_nil, List.foldl_cons, List.foldl_nil, Nat.sub_self,
        Nat.pow_zero, Nat.div_one]
      omega

theorem hexValue_hexDigit {value : Nat} (below : value < 16) :
    hexValue (hexDigit value.toUInt8) = some value := by
  have table : ∀ value < 16, hexValue (hexDigit value.toUInt8) = some value := by decide
  exact table value below

theorem mapM_hexValue_uuidDigits (id : UUID) :
    (uuidDigits id).mapM hexValue =
      some ((List.range 32).map fun index => id.toNat / 16 ^ (32 - 1 - index) % 16) := by
  rw [uuidDigits]
  induction List.range 32 with
  | nil => rfl
  | cons index rest inductionHypothesis =>
      rw [List.map_cons, List.mapM_cons, hexValue_hexDigit (Nat.mod_lt _ (by decide)),
        inductionHypothesis]
      rfl

theorem formatUUID_shape (id : UUID) : (formatUUID id).toList.length = 36 ∧
    ∀ index ∈ [8, 13, 18, 23], (formatUUID id).toList[index]? = some '-' := by
  have length : (uuidDigits id).length = 32 := by simp [uuidDigits]
  simp [formatUUID, List.getElem?_append, length]

/-- Every identifier is read from its text. -/
theorem parseHyphenated_formatUUID (id : UUID) : parseHyphenated (formatUUID id) = some id := by
  have whole : BitVec.ofNat 128 (id.toNat % 16 ^ 32) = id := by
    apply BitVec.eq_of_toNat_eq
    rw [BitVec.toNat_ofNat, Nat.mod_eq_of_lt (show id.toNat < 16 ^ 32 from id.isLt),
      Nat.mod_eq_of_lt id.isLt]
  simp only [parseHyphenated]
  rw [if_pos (formatUUID_shape id), filter_formatUUID, mapM_hexValue_uuidDigits,
    Option.bind_some, if_pos (by simp), ofHexDigits_nibbles, whole]

theorem formatUUID_injective : Function.Injective formatUUID := by
  intro first second same
  have read := parseHyphenated_formatUUID first
  rw [same, parseHyphenated_formatUUID] at read
  exact (Option.some.inj read).symm

/-- The characters of `UUID.String`. -/
theorem mem_formatUUID {id : UUID} {character : Char}
    (member : character ∈ (formatUUID id).toList) :
    character ∈ "-0123456789abcdef".toList := by
  by_cases hyphen : character = '-'
  · rw [hyphen]
    exact List.mem_cons_self
  · have kept : character ∈ (formatUUID id).toList.filter (· ≠ '-') :=
      List.mem_filter.mpr ⟨member, decide_eq_true hyphen⟩
    rw [filter_formatUUID, uuidDigits] at kept
    obtain ⟨index, -, rfl⟩ := List.mem_map.mp kept
    rcases List.mem_cons.mp (hexDigit_mem (id.toNat / 16 ^ (31 - index) % 16).toUInt8) with
      zero | digit
    · rw [zero]
      exact List.mem_cons_of_mem _ List.mem_cons_self
    · exact List.mem_cons_of_mem _ digit

theorem ofBytes_ascii_formatUUID (id : UUID) : ofBytes (ascii (formatUUID id)) = formatUUID id := by
  have table : "-0123456789abcdef".toList.all
      (fun character => Char.ofNat (byte character).toNat = character) = true := by decide
  have back : (ascii (formatUUID id)).map (fun value => Char.ofNat value.toNat) =
      (formatUUID id).toList := by
    rw [ascii, List.map_map]
    exact (List.map_congr_left fun character member => of_decide_eq_true
      (List.all_eq_true.mp table character (mem_formatUUID member))).trans (List.map_id _)
  rw [ofBytes, back, String.ofList_toList]

end GitScale.Go
