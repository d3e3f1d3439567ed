import Mathlib.Data.List.Sort
import Mathlib.Tactic.TypeStar

/-!
# Lists of entries as maps

A map from keys to values, given by a list of entries.  Where keys repeat, the last entry of a
key counts; where they do not, the sorted list is determined by the map.
-/

namespace GitScale.Foundation

variable {Key Value Image : Type*}

section Last

variable [DecidableEq Key]

/-- The value of the last entry with the given key. -/
def lastEntry (key : Key) : List (Key × Value) → Option Value
  | [] => none
  | (other, value) :: rest =>
      (lastEntry key rest).or (if other = key then some value else none)

theorem lastEntry_map (image : Value → Image) (key : Key) (entries : List (Key × Value)) :
    lastEntry key (entries.map fun entry => (entry.1, image entry.2)) =
      (lastEntry key entries).map image := by
  induction entries with
  | nil => rfl
  | cons entry entries inductionHypothesis =>
      rw [List.map_cons, lastEntry, inductionHypothesis, lastEntry]
      cases lastEntry key entries with
      | some value => rfl
      | none =>
          by_cases same : entry.1 = key
          · simp [same]
          · simp [same]

theorem mem_of_lastEntry {key : Key} {value : Value} {entries : List (Key × Value)}
    (found : lastEntry key entries = some value) : (key, value) ∈ entries := by
  induction entries with
  | nil => cases found
  | cons entry entries inductionHypothesis =>
      rw [lastEntry] at found
      cases later : lastEntry key entries with
      | some other =>
          rw [later] at found
          cases found
          exact List.mem_cons_of_mem _ (inductionHypothesis later)
      | none =>
          rw [later, Option.none_or] at found
          split_ifs at found with same
          cases found
          rw [← same]
          exact List.mem_cons_self

/-- A key has an entry if and only if it has a last one. -/
theorem isSome_lastEntry_iff {key : Key} {entries : List (Key × Value)} :
    (lastEntry key entries).isSome = true ↔ key ∈ entries.map Prod.fst := by
  induction entries with
  | nil => simp [lastEntry]
  | cons entry entries inductionHypothesis =>
      rw [lastEntry, Option.isSome_or, Bool.or_eq_true, inductionHypothesis, List.map_cons,
        List.mem_cons, or_comm]
      by_cases same : entry.1 = key
      · simp [same]
      · simp [same, Ne.symm same]

end Last

section Distinct

variable [DecidableEq Key] {entries entries' : List (Key × Value)}

/-- With one entry for each key, the entries are the pairs of the map. -/
theorem lookup_eq_some_iff_mem (distinct : (entries.map Prod.fst).Nodup) {key : Key}
    {value : Value} : entries.lookup key = some value ↔ (key, value) ∈ entries := by
  constructor
  · intro found
    obtain ⟨front, back, split, -⟩ := List.lookup_eq_some_iff.mp found
    rw [split]
    simp
  · intro member
    obtain ⟨front, back, split⟩ := List.append_of_mem member
    rw [List.lookup_eq_some_iff]
    refine ⟨front, back, split, ?_⟩
    intro entry before
    rw [split, List.map_append, List.map_cons, List.nodup_append] at distinct
    have different := distinct.2.2 entry.1 (List.mem_map_of_mem before) key List.mem_cons_self
    simpa using different.symm

theorem lastEntry_eq_some_iff_mem (distinct : (entries.map Prod.fst).Nodup) {key : Key}
    {value : Value} : lastEntry key entries = some value ↔ (key, value) ∈ entries := by
  refine ⟨mem_of_lastEntry, ?_⟩
  intro member
  have present : (lastEntry key entries).isSome = true :=
    isSome_lastEntry_iff.mpr (List.mem_map_of_mem member)
  obtain ⟨last, found⟩ := Option.isSome_iff_exists.mp present
  have same := List.inj_on_of_nodup_map distinct (mem_of_lastEntry found) member rfl
  rw [found, (Prod.mk.inj same).2]

/-- The order of distinct entries does not matter. -/
theorem lastEntry_eq_of_perm (distinct : (entries.map Prod.fst).Nodup)
    (permuted : entries.Perm entries') (key : Key) :
    lastEntry key entries = lastEntry key entries' := by
  apply Option.ext
  intro value
  rw [lastEntry_eq_some_iff_mem distinct, permuted.mem_iff,
    lastEntry_eq_some_iff_mem ((permuted.map Prod.fst).nodup_iff.mp distinct)]

theorem mem_iff_of_lookup (distinct : (entries.map Prod.fst).Nodup)
    (distinct' : (entries'.map Prod.fst).Nodup) :
    (∀ key, entries.lookup key = entries'.lookup key) ↔
      ∀ entry, entry ∈ entries ↔ entry ∈ entries' := by
  constructor
  · intro same entry
    rw [← lookup_eq_some_iff_mem distinct, same, lookup_eq_some_iff_mem distinct']
  · intro same key
    apply Option.ext
    intro value
    rw [lookup_eq_some_iff_mem distinct, same, lookup_eq_some_iff_mem distinct']

end Distinct

/-- Two maps are equal exactly if their entries are, in the order of the keys. -/
theorem insertionSort_eq_iff_lookup [DecidableEq Key] [LE Key] [DecidableLE Key]
    [Std.IsLinearOrder Key] {entries entries' : List (Key × Value)}
    (distinct : (entries.map Prod.fst).Nodup) (distinct' : (entries'.map Prod.fst).Nodup) :
    entries.insertionSort (fun left right => left.1 ≤ right.1) =
        entries'.insertionSort (fun left right => left.1 ≤ right.1) ↔
      ∀ key, entries.lookup key = entries'.lookup key := by
  rw [mem_iff_of_lookup distinct distinct']
  constructor
  · intro same entry
    rw [← List.mem_insertionSort (r := fun left right => left.1 ≤ right.1), same,
      List.mem_insertionSort]
  · intro same
    have total : Std.Total fun left right : Key × Value => left.1 ≤ right.1 :=
      ⟨fun left right => Std.le_total (a := left.1) (b := right.1)⟩
    have transitive : IsTrans (Key × Value) fun left right => left.1 ≤ right.1 :=
      ⟨fun _ _ _ => Std.le_trans⟩
    have permuted : entries.Perm entries' :=
      (List.perm_ext_iff_of_nodup (distinct.of_map _) (distinct'.of_map _)).mpr same
    -- Entries with the same key are the same entry.
    have antisymmetric : ∀ left right,
        left ∈ entries.insertionSort (fun left right => left.1 ≤ right.1) →
        right ∈ entries'.insertionSort (fun left right => left.1 ≤ right.1) →
        left.1 ≤ right.1 → right.1 ≤ left.1 → left = right := by
      intro left right inside inside' below above
      rw [List.mem_insertionSort] at inside inside'
      have keys : left.1 = right.1 := Std.le_antisymm below above
      have first := (lookup_eq_some_iff_mem distinct).mpr inside
      have second := (lookup_eq_some_iff_mem distinct).mpr ((same right).mpr inside')
      rw [keys, second] at first
      exact Prod.ext keys (Option.some.inj first).symm
    apply List.Perm.eq_of_pairwise antisymmetric
    · exact List.pairwise_insertionSort _ entries
    · exact List.pairwise_insertionSort _ entries'
    · exact (List.perm_insertionSort _ entries).trans
        (permuted.trans (List.perm_insertionSort _ entries').symm)

end GitScale.Foundation
