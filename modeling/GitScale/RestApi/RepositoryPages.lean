import GitScale.Foundation.Keyset
import GitScale.GraphQL.QueryRoot
import GitScale.RestApi.Cursor
import Mathlib.Data.List.Forall2
import Mathlib.Data.Prod.Lex
import Mathlib.Data.String.Basic
import Mathlib.Order.ConditionallyCompleteLattice.Basic
import Mathlib.Data.Int.ConditionallyCompleteOrder

/-!
# Listing the repositories of an organisation

`service.ListByOrg` over the stub reader, page after page, each from the token that the page
before ended with.  The pages are those of a keyset pagination, until a page ends with the
zero cursor: its token is empty, and the listing stops there.
-/

namespace GitScale.RestApi

open Foundation Go GraphQL

/-! ## One page -/

/-- The order of `sort.Slice` in the stub reader. -/
def listedBefore (first second : Repository) : Bool :=
  if first.createdAt ≠ second.createdAt then first.createdAt < second.createdAt
  else formatUUID first.id < formatUUID second.id

/-- A row that the loop of the stub reader passes over. -/
def passedOver (cursor : Cursor) (row : Repository) : Bool :=
  row.createdAt < cursor.afterCreatedAt ||
    (row.createdAt = cursor.afterCreatedAt && formatUUID row.id ≤ formatUUID cursor.afterID)

/-- `stubRepositoryReader.ListByOrg`; the two pointers of the position are set together. -/
def readerListByOrg (table : List Repository) (orgID : UUID) (after : Option Cursor)
    (limit : Int) : List Repository :=
  if limit ≤ 0 then []
  else
    (((table.filter (·.orgID = orgID)).insertionSort fun first second =>
      listedBefore second first = false).filter fun row =>
        after.all fun cursor => !passedOver cursor row).take limit.toNat

/-- The limit that `service.ListByOrg` goes by. -/
def pageLimit (limit : Int) : Int :=
  if limit ≤ 0 then 20
  else if limit > 100 then 100
  else limit

/-- `service.ListByOrg`. -/
def listByOrg (table : List Repository) (orgID : UUID) (after : Cursor) (limit : Int) :
    List Repository × Option Cursor :=
  let rows := readerListByOrg table orgID (if after.isZero then none else some after)
    (pageLimit limit)
  if rows.length < pageLimit limit then (rows, none)
  else (rows, rows.getLast?.map fun last => ⟨last.createdAt, last.id⟩)

/-- A request with a token: the items and `next_cursor`, which is empty if there is none.
`none` is a token that is rejected. -/
def requestPage (parsers : Parsers) (table : List Repository) (orgID : UUID) (token : Text)
    (limit : Int) : Option (List Repository × Text) :=
  (decodeCursor parsers token).map fun cursor =>
    let answer := listByOrg table orgID cursor limit
    (answer.1, answer.2.elim [] encodeCursor)

/-! ## The whole listing -/

/-- Requests until no cursor is returned.  The rows of the first list of `inserts` are
inserted after this request, and so on. -/
def followPages (parsers : Parsers) (orgID : UUID) (limit : Int) :
    Nat → List Repository → List (List Repository) → Text → Option (List Repository)
  | 0, _, _, _ => none
  | fuel + 1, table, inserts, token =>
      match requestPage parsers table orgID token limit with
      | none => none
      | some (rows, next) =>
          if next = [] then some rows
          else
            (followPages parsers orgID limit fuel (table ++ inserts.headD []) inserts.tail
              next).map (rows ++ ·)

/-- All pages from the empty cursor on; every page but the last has a row. -/
def listing (parsers : Parsers) (orgID : UUID) (limit : Int) (table : List Repository)
    (inserts : List (List Repository)) : Option (List Repository) :=
  followPages parsers orgID limit ((table ++ inserts.flatten).length + 1) table inserts []

/-! ## Keys -/

/-- What the listing is ordered by. -/
def keyOf (createdAt : Time) (id : UUID) : Int ×ₗ String := toLex (createdAt, formatUUID id)

def rowKey (row : Repository) : Int ×ₗ String := keyOf row.createdAt row.id

theorem rowKey_le_iff {first second : Repository} :
    rowKey first ≤ rowKey second ↔ listedBefore second first = false := by
  rw [rowKey, rowKey, keyOf, keyOf, Prod.Lex.toLex_le_toLex, listedBefore]
  split
  case isTrue different =>
      simp only [decide_eq_false_iff_not, not_lt]
      constructor
      · rintro (before | ⟨same, -⟩)
        · exact le_of_lt before
        · exact absurd same.symm different
      · intro notAfter
        exact .inl (lt_of_le_of_ne notAfter (Ne.symm different))
  case isFalse same =>
      rw [not_not] at same
      simp only [same, lt_self_iff_false, true_and, false_or, decide_eq_false_iff_not, not_lt]

theorem keyOf_lt_rowKey_iff {cursor : Cursor} {row : Repository} :
    keyOf cursor.afterCreatedAt cursor.afterID < rowKey row ↔ passedOver cursor row = false := by
  rw [rowKey, keyOf, keyOf, Prod.Lex.toLex_lt_toLex, passedOver]
  simp only [Bool.or_eq_false_iff, Bool.and_eq_false_iff, decide_eq_false_iff_not, not_lt, not_le]
  constructor
  · rintro (before | ⟨same, later⟩)
    · exact ⟨le_of_lt before, .inl (ne_of_gt before)⟩
    · exact ⟨le_of_eq same, .inr later⟩
  · rintro ⟨notBefore, different | later⟩
    · exact .inl (lt_of_le_of_ne notBefore (Ne.symm different))
    · rcases lt_or_eq_of_le notBefore with before | same
      · exact .inl before
      · exact .inr ⟨same, later⟩

theorem rowKey_injective_on_ids {first second : Repository}
    (same : rowKey first = rowKey second) : first.id = second.id :=
  formatUUID_injective (congrArg (fun key => (ofLex key).2) same)

/-- The stub reader reads a page of a keyset pagination. -/
theorem readerListByOrg_eq {table : List Repository} {orgID : UUID} {after : Option Cursor}
    {limit : Int} (positive : 0 < limit) :
    readerListByOrg table orgID after limit =
      page rowKey limit.toNat
        (after.map fun cursor => keyOf cursor.afterCreatedAt cursor.afterID)
        (table.filter (·.orgID = orgID)) := by
  have order : (fun first second : Repository => listedBefore second first = false) =
      fun first second => rowKey first ≤ rowKey second := by
    funext first second
    exact propext rowKey_le_iff.symm
  have ahead : (fun row => after.all fun cursor => !passedOver cursor row) =
      beyond rowKey (after.map fun cursor => keyOf cursor.afterCreatedAt cursor.afterID) := by
    funext row
    cases after with
    | none => rfl
    | some cursor =>
        rw [beyond, Option.map_some, Option.all_some, Option.all_some, Bool.eq_iff_iff,
          Bool.not_eq_true_eq_eq_false, decide_eq_true_eq, keyOf_lt_rowKey_iff]
  rw [readerListByOrg, if_neg (not_le.mpr positive), ahead, page]
  congr 2
  simp only [order]

/-! ## The first key -/

theorem le_of_forall₂ {first second : List Char}
    (pointwise : List.Forall₂ (· ≤ ·) first second) : first ≤ second := by
  induction pointwise with
  | nil => exact le_refl _
  | cons here _ inductionHypothesis =>
      rcases lt_or_eq_of_le here with less | same
      · exact le_of_lt (List.cons_lt_cons_iff.mpr (.inl less))
      · rw [same]
        refine not_lt.mp fun greater => ?_
        rcases List.cons_lt_cons_iff.mp greater with wrong | ⟨-, wrong⟩
        · exact lt_irrefl _ wrong
        · exact not_lt.mpr inductionHypothesis wrong

theorem zero_le_hexDigit (value : UInt8) : '0' ≤ hexDigit value := by
  have table : ('0' :: "0123456789abcdef".toList).all (fun digit => '0' ≤ digit) = true := by
    decide
  exact of_decide_eq_true (List.all_eq_true.mp table _ (hexDigit_mem value))

theorem formatUUID_nil_le (id : UUID) : formatUUID UUID.nil ≤ formatUUID id := by
  have digits : List.Forall₂ (· ≤ ·) (uuidDigits UUID.nil) (uuidDigits id) := by
    rw [uuidDigits, uuidDigits, List.forall₂_map_left_iff, List.forall₂_map_right_iff,
      List.forall₂_same]
    intro index _
    have zero : hexDigit (UUID.nil.toNat / 16 ^ (31 - index) % 16).toUInt8 = '0' := by
      have value : UUID.nil.toNat = 0 := rfl
      rw [value, Nat.zero_div]
      rfl
    rw [zero]
    exact zero_le_hexDigit _
  rw [String.le_iff_toList_le]
  apply le_of_forall₂
  simp only [formatUUID, String.toList_ofList]
  have group (start : Nat) := List.forall₂_take 4 (List.forall₂_drop start digits)
  exact List.rel_append (List.forall₂_take 8 digits) (.cons (le_refl _)
    (List.rel_append (group 8) (.cons (le_refl _) (List.rel_append (group 12) (.cons (le_refl _)
    (List.rel_append (group 16) (.cons (le_refl _) (List.forall₂_drop 20 digits))))))))

theorem daysBeforeYear_nonneg {year : Int} (inEra : 1 ≤ year) : 0 ≤ daysBeforeYear year := by
  unfold daysBeforeYear
  omega

theorem daysBeforeMonth_nonneg {leap : Int} (leaps : 0 ≤ leap) (month : Int) :
    0 ≤ daysBeforeMonth leap month := by
  unfold daysBeforeMonth
  repeat' refine iteInduction (motive := (0 ≤ ·)) (fun _ => ?_) fun _ => ?_
  all_goals omega

theorem nonneg_of_year {instant : Time} (inEra : 1 ≤ (dateOfTime instant).year) :
    0 ≤ instant := by
  obtain ⟨-, counted, firstDay, -⟩ := dateOf_spec (instant / nanosPerDay)
  have years : 0 ≤ daysBeforeYear (dateOf (instant / nanosPerDay)).year :=
    daysBeforeYear_nonneg inEra
  have months := daysBeforeMonth_nonneg (leapDay_bounds (dateOf (instant / nanosPerDay)).year).1
    (dateOf (instant / nanosPerDay)).month
  rw [firstOfMonth] at counted
  have days : (0 : Int) ≤ instant / nanosPerDay := by omega
  rw [← Int.mul_ediv_add_emod instant nanosPerDay]
  exact Int.add_nonneg (Int.mul_nonneg (by decide) days) (Int.emod_nonneg _ (by decide))

/-- The key of the zero cursor comes first among instants from year one on. -/
theorem zeroKey_le {createdAt : Time} (inEra : 1 ≤ (dateOfTime createdAt).year) (id : UUID) :
    keyOf 0 UUID.nil ≤ keyOf createdAt id := by
  rw [keyOf, keyOf, Prod.Lex.toLex_le_toLex]
  rcases lt_or_eq_of_le (nonneg_of_year inEra) with later | same
  · exact .inl later
  · exact .inr ⟨same, formatUUID_nil_le id⟩

theorem keyOf_eq_zeroKey_iff {createdAt : Time} {id : UUID} :
    keyOf createdAt id = keyOf 0 UUID.nil ↔ (⟨createdAt, id⟩ : Cursor) = .zero := by
  constructor
  · intro same
    have instants : createdAt = 0 := congrArg (fun key => (ofLex key).1) same
    have ids := formatUUID_injective (congrArg (fun key => (ofLex key).2) same)
    rw [instants, ids]
    rfl
  · intro zero
    injection zero with instants ids
    rw [instants, ids]

/-! ## The pages of the requests -/

/-- The position after a row. -/
def cursorOf (row : Repository) : Cursor := ⟨row.createdAt, row.id⟩

/-- The years of the instants, and `uuid.Parse` on the identifiers, which are distinct. -/
structure Listable (parsers : Parsers) (rows : List Repository) : Prop where
  years : ∀ row ∈ rows,
    1 ≤ (dateOfTime row.createdAt).year ∧ (dateOfTime row.createdAt).year ≤ 9999
  parses : ∀ row ∈ rows, parsers.parseUUID (formatUUID row.id) = some row.id
  distinct : (rows.map Repository.id).Nodup

section Requests

variable {parsers : Parsers} {table rows : List Repository} {orgID : UUID} {limit : Int}
  {last : Repository}

theorem Listable.fits (listable : Listable parsers rows) (member : last ∈ rows) :
    yearFits last.createdAt = true := by
  obtain ⟨low, high⟩ := listable.years last member
  rw [yearFits, Bool.and_eq_true, decide_eq_true_eq, decide_eq_true_eq]
  omega

theorem Listable.decodes (listable : Listable parsers rows) (member : last ∈ rows) :
    decodeCursor parsers (encodeCursor (cursorOf last)) = some (cursorOf last) :=
  decodeCursor_encodeCursor (listable.parses last member) (listable.fits member)

theorem Listable.encodeCursor_ne_nil (listable : Listable parsers rows) (member : last ∈ rows)
    (nonzero : cursorOf last ≠ .zero) : encodeCursor (cursorOf last) ≠ [] := by
  have fits : yearFits (cursorOf last).afterCreatedAt = true := listable.fits member
  intro empty
  exact nonzero ((encodeCursor_eq_nil_iff fits).mp empty)

theorem pageLimit_pos (limit : Int) : 0 < pageLimit limit := by
  unfold pageLimit
  split_ifs <;> omega

/-- The key that a cursor stands for; the zero cursor is the start. -/
def Cursor.position (cursor : Cursor) : Option (Int ×ₗ String) :=
  if cursor.isZero then none else some (keyOf cursor.afterCreatedAt cursor.afterID)

/-- The page of an organisation from a position on. -/
def foundAt (table : List Repository) (orgID : UUID) (limit : Int)
    (position : Option (Int ×ₗ String)) : List Repository :=
  page rowKey (pageLimit limit).toNat position (table.filter (·.orgID = orgID))

/-- The token after a page: none if the page is not full. -/
def tokenAfter (limit : Int) (found : List Repository) : Text :=
  if found.length < (pageLimit limit).toNat then []
  else found.getLast?.elim [] fun last => encodeCursor (cursorOf last)

/-- What a request finds and returns. -/
theorem requestPage_eq {token : Text} {cursor : Cursor}
    (decoded : decodeCursor parsers token = some cursor) :
    requestPage parsers table orgID token limit =
      some (foundAt table orgID limit cursor.position,
        tokenAfter limit (foundAt table orgID limit cursor.position)) := by
  have position : (if cursor.isZero then none else some cursor).map
      (fun cursor => keyOf cursor.afterCreatedAt cursor.afterID) = cursor.position := by
    unfold Cursor.position
    split <;> rfl
  have positive := pageLimit_pos limit
  have rows : readerListByOrg table orgID (if cursor.isZero then none else some cursor)
      (pageLimit limit) = foundAt table orgID limit cursor.position := by
    rw [readerListByOrg_eq positive, position, foundAt]
  simp only [requestPage, decoded, Option.map_some, listByOrg, rows, tokenAfter]
  by_cases short : (foundAt table orgID limit cursor.position).length < (pageLimit limit).toNat
  · have shorter : (foundAt table orgID limit cursor.position).length < pageLimit limit := by
      omega
    rw [if_pos short, if_pos shorter]
    rfl
  · have notShorter :
        ¬ (foundAt table orgID limit cursor.position).length < pageLimit limit := by omega
    rw [if_neg short, if_neg notShorter]
    dsimp only
    rw [Option.elim_map]
    rfl

theorem Cursor.position_zero : Cursor.zero.position = none := rfl

theorem Cursor.position_cursorOf (nonzero : cursorOf last ≠ .zero) :
    (cursorOf last).position = some (rowKey last) := by
  rw [Cursor.position, if_neg fun isZero => nonzero (Cursor.isZero_iff.mp isZero)]
  rfl

/-- A row after another one is not at the zero cursor. -/
theorem Listable.nonzero_of_lt (listable : Listable parsers rows) (member : last ∈ rows)
    {next : Repository} (later : rowKey last < rowKey next) : cursorOf next ≠ .zero := by
  intro zero
  have first := zeroKey_le (listable.years last member).1 last.id
  have same : rowKey next = keyOf 0 UUID.nil := keyOf_eq_zeroKey_iff.mpr zero
  rw [same] at later
  exact not_lt.mpr first later

section Following

variable {inserts : List (List Repository)} {token : Text} {cursor : Cursor}
  (decoded : decodeCursor parsers token = some cursor)
include decoded

/-- A page without a token is the last one. -/
theorem followPages_last (fuel : Nat)
    (stops : tokenAfter limit (foundAt table orgID limit cursor.position) = []) :
    followPages parsers orgID limit (fuel + 1) table inserts token =
      some (foundAt table orgID limit cursor.position) := by
  rw [followPages, requestPage_eq decoded]
  exact if_pos stops

theorem followPages_full (fuel : Nat)
    (full : ¬ (foundAt table orgID limit cursor.position).length < (pageLimit limit).toNat)
    (ends : (foundAt table orgID limit cursor.position).getLast? = some last)
    (more : encodeCursor (cursorOf last) ≠ []) :
    followPages parsers orgID limit (fuel + 1) table inserts token =
      (followPages parsers orgID limit fuel (table ++ inserts.headD []) inserts.tail
        (encodeCursor (cursorOf last))).map (foundAt table orgID limit cursor.position ++ ·) := by
  have next : tokenAfter limit (foundAt table orgID limit cursor.position) =
      encodeCursor (cursorOf last) := by
    rw [tokenAfter, if_neg full, ends]
    rfl
  rw [followPages, requestPage_eq decoded]
  dsimp only
  rw [next, if_neg more]

end Following

/-- The pages that are walked through while no page ends at the zero cursor. -/
def walkedFrom (orgID : UUID) (limit : Int) (fuel : Nat) (table : List Repository)
    (inserts : List (List Repository)) (position : Option (Int ×ₗ String)) :
    Option (List Repository) :=
  walk rowKey (pageLimit limit).toNat fuel (table.filter (·.orgID = orgID))
    (inserts.map (List.filter (·.orgID = orgID))) position

section Walking

variable {inserts : List (List Repository)}

theorem walkedFrom_short (fuel : Nat) {position : Option (Int ×ₗ String)}
    (short : (foundAt table orgID limit position).length < (pageLimit limit).toNat) :
    walkedFrom orgID limit (fuel + 1) table inserts position =
      some (foundAt table orgID limit position) := by
  rw [walkedFrom, walk]
  exact if_pos short

theorem walkedFrom_full (fuel : Nat) {position : Option (Int ×ₗ String)}
    (full : ¬ (foundAt table orgID limit position).length < (pageLimit limit).toNat)
    (ends : (foundAt table orgID limit position).getLast? = some last) :
    walkedFrom orgID limit (fuel + 1) table inserts position =
      (walkedFrom orgID limit fuel (table ++ inserts.headD []) inserts.tail
        (some (rowKey last))).map (foundAt table orgID limit position ++ ·) := by
  have head : (inserts.map (List.filter (·.orgID = orgID))).headD [] =
      (inserts.headD []).filter (·.orgID = orgID) := by cases inserts <;> rfl
  rw [walkedFrom, walk, walkedFrom, List.filter_append, ← head, List.map_tail]
  rw [foundAt] at full ends
  rw [if_neg full, ends]
  rfl

/-- A full page has a last row. -/
theorem exists_getLast_of_full {position : Option (Int ×ₗ String)}
    (full : ¬ (foundAt table orgID limit position).length < (pageLimit limit).toNat) :
    ∃ last, (foundAt table orgID limit position).getLast? = some last := by
  have positive := pageLimit_pos limit
  apply Option.isSome_iff_exists.mp
  rw [List.getLast?_isSome]
  intro empty
  rw [empty, List.length_nil] at full
  omega

theorem mem_of_mem_foundAt {position : Option (Int ×ₗ String)} {row : Repository}
    (member : row ∈ foundAt table orgID limit position) :
    (row ∈ table ∧ row.orgID = orgID) ∧ beyond rowKey position row = true := by
  obtain ⟨present, ahead⟩ := mem_of_mem_page member
  obtain ⟨stored, own⟩ := List.mem_filter.mp present
  exact ⟨⟨stored, of_decide_eq_true own⟩, ahead⟩

/-- From a cursor that is not zero on, the requests go through the pages. -/
theorem followPages_eq_walkedFrom (fuel : Nat)
    (listable : Listable parsers (table ++ inserts.flatten))
    (member : last ∈ table ++ inserts.flatten) (nonzero : cursorOf last ≠ .zero) :
    followPages parsers orgID limit fuel table inserts (encodeCursor (cursorOf last)) =
      walkedFrom orgID limit fuel table inserts (some (rowKey last)) := by
  induction fuel generalizing table inserts last with
  | zero => rfl
  | succ fuel inductionHypothesis =>
      have decoded := listable.decodes member
      have position := Cursor.position_cursorOf nonzero
      by_cases short : (foundAt table orgID limit (some (rowKey last))).length <
          (pageLimit limit).toNat
      · rw [walkedFrom_short fuel short, followPages_last decoded fuel, position]
        rw [position]
        exact if_pos short
      · obtain ⟨next, ends⟩ := exists_getLast_of_full short
        obtain ⟨⟨stored, -⟩, ahead⟩ := mem_of_mem_foundAt (List.mem_of_getLast? ends)
        have later : rowKey last < rowKey next := by simpa [beyond] using ahead
        have nonzero' := listable.nonzero_of_lt member later
        have member' : next ∈ table ++ inserts.flatten := List.mem_append_left _ stored
        have more := listable.encodeCursor_ne_nil member' nonzero'
        have same : (table ++ inserts.headD []) ++ inserts.tail.flatten =
            table ++ inserts.flatten := by
          cases inserts <;> simp
        rw [← position] at short ends
        rw [followPages_full decoded fuel short ends more]
        rw [position] at short ends ⊢
        rw [walkedFrom_full fuel short ends, inductionHypothesis (by rw [same]; exact listable)
          (by rw [same]; exact member') nonzero']

end Walking

end Requests

/-! ## Complete listings -/

/-- The rows are strictly increasing, have each repository of the organisation in the table
exactly once, and none of another organisation. -/
structure ListsAll (orgID : UUID) (table rows : List Repository) : Prop where
  increasing : rows.Pairwise (rowKey · < rowKey ·)
  once : ∀ row ∈ table, row.orgID = orgID → rows.count row = 1
  own : ∀ row ∈ rows, row.orgID = orgID

section Listings

variable {parsers : Parsers} {table : List Repository} {inserts : List (List Repository)}
  {orgID : UUID} {limit : Int} {zero : Repository}

theorem Listable.distinct_keys {rows : List Repository} (listable : Listable parsers rows) :
    (rows.map rowKey).Nodup := by
  apply List.pairwise_map.mpr
  exact (List.pairwise_map.mp listable.distinct).imp fun different same =>
    different (rowKey_injective_on_ids same)

theorem flatten_map_filter (inserts : List (List Repository)) (orgID : UUID) :
    (inserts.map (List.filter (·.orgID = orgID))).flatten =
      inserts.flatten.filter (·.orgID = orgID) := by
  rw [List.filter_flatten]

/-- The walk from the start ends and lists everything. -/
theorem Listable.exists_walkedFrom (listable : Listable parsers (table ++ inserts.flatten))
    (orgID : UUID) (limit : Int) :
    ∃ rows, walkedFrom orgID limit ((table ++ inserts.flatten).length + 1) table inserts none =
        some rows ∧ ListsAll orgID table rows := by
  have all : table.filter (·.orgID = orgID) ++
      (inserts.map (List.filter (·.orgID = orgID))).flatten =
        (table ++ inserts.flatten).filter (·.orgID = orgID) := by
    rw [flatten_map_filter, List.filter_append]
  have distinct : ((table.filter (·.orgID = orgID) ++
      (inserts.map (List.filter (·.orgID = orgID))).flatten).map rowKey).Nodup := by
    rw [all]
    exact listable.distinct_keys.sublist (List.filter_sublist.map rowKey)
  have enough : ((table.filter (·.orgID = orgID) ++
      (inserts.map (List.filter (·.orgID = orgID))).flatten).filter
        (beyond rowKey none)).length < (table ++ inserts.flatten).length + 1 := by
    rw [all]
    exact Nat.lt_succ_of_le (Nat.le_trans (List.length_filter_le _ _) (List.length_filter_le _ _))
  have positive : 0 < (pageLimit limit).toNat := by
    have positive := pageLimit_pos limit
    omega
  obtain ⟨rows, walked, covers⟩ := exists_walk positive _ distinct enough
  refine ⟨rows, walked, covers.increasing, ?_, ?_⟩
  · intro row present own
    have listed := covers.complete row
      (List.mem_filter.mpr ⟨present, decide_eq_true own⟩) rfl
    have unique : rows.Nodup := covers.increasing.imp fun less same => by
      rw [same] at less
      exact lt_irrefl _ less
    exact List.count_eq_one_of_mem unique listed
  · intro row member
    have known := covers.known row member
    rw [all] at known
    exact of_decide_eq_true (List.mem_filter.mp known).2

theorem Listable.distinct_own (listable : Listable parsers (table ++ inserts.flatten))
    (orgID : UUID) : ((table.filter (·.orgID = orgID)).map rowKey).Nodup :=
  listable.distinct_keys.sublist
    ((List.filter_sublist.trans (List.sublist_append_left table _)).map rowKey)

/-- No row comes before one at the zero cursor. -/
theorem Listable.not_lt_zero (listable : Listable parsers (table ++ inserts.flatten))
    (isZero : cursorOf zero = .zero) {row : Repository} (present : row ∈ table) :
    ¬ rowKey row < rowKey zero := by
  have same : rowKey zero = keyOf 0 UUID.nil := keyOf_eq_zeroKey_iff.mpr isZero
  rw [same, not_lt]
  exact zeroKey_le (listable.years row (List.mem_append_left _ present)).1 row.id

/-- A page that ends at the zero cursor has one row. -/
theorem Listable.foundAt_of_zero (listable : Listable parsers (table ++ inserts.flatten))
    (full : ¬ (foundAt table orgID limit none).length < (pageLimit limit).toNat)
    (ends : (foundAt table orgID limit none).getLast? = some zero)
    (isZero : cursorOf zero = .zero) :
    pageLimit limit = 1 ∧ foundAt table orgID limit none = [zero] := by
  have increasing : (foundAt table orgID limit none).Pairwise (rowKey · < rowKey ·) :=
    pairwise_page (listable.distinct_own orgID)
  obtain ⟨front, cut⟩ := List.getLast?_eq_some_iff.mp ends
  have alone : front = [] := by
    apply List.eq_nil_iff_forall_not_mem.mpr
    intro row early
    have member : row ∈ foundAt table orgID limit none := by
      rw [cut]
      exact List.mem_append_left _ early
    rw [cut] at increasing
    exact listable.not_lt_zero isZero (mem_of_mem_foundAt member).1.1
      ((List.pairwise_append.mp increasing).2.2 row early zero (List.mem_singleton_self _))
  rw [alone, List.nil_append] at cut
  rw [cut, List.length_singleton] at full
  have positive := pageLimit_pos limit
  exact ⟨by omega, cut⟩

/-- With one row on a page, a row at the zero cursor is the first page. -/
theorem Listable.foundAt_one (listable : Listable parsers (table ++ inserts.flatten))
    (one : pageLimit limit = 1) (present : zero ∈ table) (own : zero.orgID = orgID)
    (isZero : cursorOf zero = .zero) : foundAt table orgID limit none = [zero] := by
  have kept : zero ∈ table.filter (·.orgID = orgID) :=
    List.mem_filter.mpr ⟨present, decide_eq_true own⟩
  have short : (foundAt table orgID limit none).length ≤ 1 := by
    rw [foundAt, one, page, List.length_take]
    exact Nat.min_le_left _ _
  have listed : zero ∈ foundAt table orgID limit none := by
    have ahead : beyond rowKey none zero = true := rfl
    rcases mem_page_or_beyond (pageLimit limit).toNat (listable.distinct_own orgID) kept ahead with
      taken | earlier
    · exact taken
    · have empty : foundAt table orgID limit none = [] := by
        apply List.eq_nil_iff_forall_not_mem.mpr
        intro row member
        exact listable.not_lt_zero isZero (mem_of_mem_foundAt member).1.1 (earlier row member)
      apply mem_page_of_short _ kept ahead
      rw [foundAt] at empty
      rw [empty, one]
      decide
  obtain ⟨only, single⟩ := List.length_eq_one_iff.mp
    (Nat.le_antisymm short (List.length_pos_of_mem listed))
  rw [single] at listed ⊢
  rw [List.mem_singleton.mp listed]

theorem pageLimit_eq_one_iff {limit : Int} : pageLimit limit = 1 ↔ limit = 1 := by
  unfold pageLimit
  split_ifs <;> omega

/-- The first page ends at the zero cursor. -/
def StopsAt (table : List Repository) (orgID : UUID) (limit : Int) (zero : Repository) : Prop :=
  ¬ (foundAt table orgID limit none).length < (pageLimit limit).toNat ∧
    (foundAt table orgID limit none).getLast? = some zero ∧ cursorOf zero = .zero

theorem listing_of_stopsAt (parsers : Parsers) (inserts : List (List Repository))
    (stops : StopsAt table orgID limit zero) :
    listing parsers orgID limit table inserts = some (foundAt table orgID limit none) := by
  obtain ⟨full, ends, isZero⟩ := stops
  have decoded : decodeCursor parsers [] = some .zero := rfl
  apply followPages_last decoded
  rw [Cursor.position_zero, tokenAfter, if_neg full, ends, Option.elim_some, isZero]
  rfl

/-- If the first page does not end at the zero cursor, no page does. -/
theorem Listable.listing_eq_walkedFrom (listable : Listable parsers (table ++ inserts.flatten))
    (goesOn : ∀ zero, ¬ StopsAt table orgID limit zero) :
    listing parsers orgID limit table inserts =
      walkedFrom orgID limit ((table ++ inserts.flatten).length + 1) table inserts none := by
  have decoded : decodeCursor parsers [] = some .zero := rfl
  by_cases short : (foundAt table orgID limit none).length < (pageLimit limit).toNat
  · rw [walkedFrom_short _ short]
    exact followPages_last decoded _ (if_pos short)
  · obtain ⟨last, ends⟩ := exists_getLast_of_full short
    have nonzero : cursorOf last ≠ .zero := fun isZero => goesOn last ⟨short, ends, isZero⟩
    have stored := (mem_of_mem_foundAt (List.mem_of_getLast? ends)).1.1
    have more := listable.encodeCursor_ne_nil (List.mem_append_left _ stored) nonzero
    have same : (table ++ inserts.headD []) ++ inserts.tail.flatten =
        table ++ inserts.flatten := by
      cases inserts <;> simp
    have later : followPages parsers orgID limit (table ++ inserts.flatten).length
        (table ++ inserts.headD []) inserts.tail (encodeCursor (cursorOf last)) =
        walkedFrom orgID limit (table ++ inserts.flatten).length
          (table ++ inserts.headD []) inserts.tail (some (rowKey last)) := by
      apply followPages_eq_walkedFrom
      · rw [same]
        exact listable
      · exact List.mem_append_left _ (List.mem_append_left _ stored)
      · exact nonzero
    rw [walkedFrom_full _ short ends, ← later]
    exact followPages_full decoded _ short ends more

/-- The listing is complete unless pages have one row, the first of them has the row at the
zero cursor, and there are others. -/
theorem listing_complete_iff (parsers : Parsers) (orgID : UUID) (limit : Int)
    (table : List Repository) (inserts : List (List Repository))
    (listable : Listable parsers (table ++ inserts.flatten)) :
    (∃ rows, listing parsers orgID limit table inserts = some rows ∧
      ListsAll orgID table rows) ↔
      ¬ (limit = 1 ∧ (∃ row ∈ table, row.orgID = orgID ∧ cursorOf row = .zero) ∧
        ∃ row ∈ table, row.orgID = orgID ∧ cursorOf row ≠ .zero) := by
  by_cases stops : ∃ zero, StopsAt table orgID limit zero
  · obtain ⟨zero, stops⟩ := stops
    have listed := listing_of_stopsAt parsers inserts stops
    obtain ⟨full, ends, isZero⟩ := stops
    obtain ⟨one, single⟩ := listable.foundAt_of_zero full ends isZero
    rw [single] at listed ends
    obtain ⟨⟨present, own⟩, -⟩ := mem_of_mem_foundAt (single ▸ List.mem_singleton_self zero)
    constructor
    · rintro ⟨rows, returned, complete⟩ ⟨-, -, other, stored, belongs, nonzero⟩
      rw [listed, Option.some.injEq] at returned
      have counted := complete.once other stored belongs
      rw [← returned] at counted
      have member := List.count_pos_iff.mp (counted ▸ Nat.one_pos)
      rw [List.mem_singleton.mp member] at nonzero
      exact nonzero isZero
    · intro noOther
      refine ⟨[zero], listed, List.pairwise_singleton _ _, ?_, ?_⟩
      · intro row stored belongs
        have rowZero : cursorOf row = .zero := by
          by_contra nonzero
          exact noOther ⟨pageLimit_eq_one_iff.mp one, ⟨zero, present, own, isZero⟩, row, stored,
            belongs, nonzero⟩
        have ids : row.id = zero.id := congrArg Cursor.afterID (rowZero.trans isZero.symm)
        have equal := List.inj_on_of_nodup_map listable.distinct (List.mem_append_left _ stored)
          (List.mem_append_left _ present) ids
        rw [equal]
        simp
      · intro row member
        rw [List.mem_singleton.mp member]
        exact own
  · have goesOn := not_exists.mp stops
    obtain ⟨rows, walked, complete⟩ := listable.exists_walkedFrom orgID limit
    constructor
    · rintro - ⟨one, ⟨zero, present, own, isZero⟩, -⟩
      have one' := pageLimit_eq_one_iff.mpr one
      have single := listable.foundAt_one one' present own isZero
      refine goesOn zero ⟨?_, ?_, isZero⟩
      · rw [single, one']
        exact Nat.lt_irrefl 1
      · rw [single]
        rfl
    · intro _
      exact ⟨rows, (listable.listing_eq_walkedFrom goesOn).trans walked, complete⟩

end Listings

/-- A repository of organisation 7. -/
def repositoryAt (id : UUID) (createdAt : Time) : Repository where
  id := id
  orgID := 7
  name := "service"
  slug := "service"
  ownerID := 8
  defaultBranch := "main"
  visibility := "private"
  replicaSetID := ""
  homeRegion := ""
  createdAt := createdAt
  updatedAt := createdAt

/-- `uuid.Parse` on the texts of the first identifiers. -/
def smallParsers : Parsers where
  parseUUID text := [UUID.nil, 1, 2, 3].find? fun id => formatUUID id = text
  parseTime _ := none

/-- Two repositories of one instant, one row on a page, and one more that comes in after the
first page. -/
theorem listing_complete_iff_oneInstant :
    ∃ rows, listing smallParsers 7 1 [repositoryAt 2 5, repositoryAt 1 5] [[repositoryAt 3 4]] =
        some rows ∧ ListsAll 7 [repositoryAt 2 5, repositoryAt 1 5] rows := by
  refine (listing_complete_iff smallParsers 7 1 _ _ ⟨?_, ?_, ?_⟩).mpr ?_
  · decide
  · decide
  · decide
  · decide

/-- A repository with the nil identifier and the zero instant hides the other one when pages
have one row. -/
theorem listing_stops_at_zero :
    listing smallParsers 7 1 [repositoryAt UUID.nil 0, repositoryAt 1 5] [] =
        some [repositoryAt UUID.nil 0] ∧
      ¬ ListsAll 7 [repositoryAt UUID.nil 0, repositoryAt 1 5] [repositoryAt UUID.nil 0] := by
  have listable : Listable smallParsers
      ([repositoryAt UUID.nil 0, repositoryAt 1 5] ++ ([] : List (List Repository)).flatten) :=
    ⟨by decide, by decide, by decide⟩
  have single : foundAt [repositoryAt UUID.nil 0, repositoryAt 1 5] 7 1 none =
      [repositoryAt UUID.nil 0] := listable.foundAt_one rfl List.mem_cons_self rfl rfl
  have stops : StopsAt [repositoryAt UUID.nil 0, repositoryAt 1 5] 7 1
      (repositoryAt UUID.nil 0) := by
    rw [StopsAt, single]
    exact ⟨Nat.lt_irrefl 1, rfl, rfl⟩
  constructor
  · rw [listing_of_stopsAt smallParsers [] stops, single]
  · intro complete
    have counted := complete.once (repositoryAt 1 5) (by decide) rfl
    exact absurd counted (by decide)

end GitScale.RestApi
