import Mathlib.Data.List.Sort
import Mathlib.Order.Defs.LinearOrder

/-!
# Keyset pagination

A listing in pages over a table that grows between the pages.  Each page has the first rows
beyond the key that the page before ended with, in the order of the keys.  Whatever is
inserted in between, the pages together are strictly increasing and leave out no row that was
there at the start.
-/

namespace GitScale.Foundation

variable {Row Key : Type*} [LinearOrder Key] (key : Row → Key)

/-- The row comes after a position; `none` is the start. -/
def beyond (after : Option Key) (row : Row) : Bool := after.all (· < key row)

/-- The first rows beyond a position. -/
def page (limit : Nat) (after : Option Key) (rows : List Row) : List Row :=
  ((rows.insertionSort fun left right => key left ≤ key right).filter (beyond key after)).take
    limit

/-- The pages from a position on, until one is not full.  The rows of the first list of
`inserts` come in after this page, and so on. -/
def walk (limit : Nat) : Nat → List Row → List (List Row) → Option Key → Option (List Row)
  | 0, _, _, _ => none
  | fuel + 1, rows, inserts, after =>
      let found := page key limit after rows
      if found.length < limit then some found
      else
        (walk limit fuel (rows ++ inserts.headD []) inserts.tail
          (found.getLast?.map key)).map (found ++ ·)

section Pages

variable {key} {limit : Nat} {after : Option Key} {rows : List Row} {row : Row}

theorem mem_of_mem_page (member : row ∈ page key limit after rows) :
    row ∈ rows ∧ beyond key after row = true := by
  have kept := List.mem_filter.mp (List.mem_of_mem_take member)
  exact ⟨(List.mem_insertionSort _).mp kept.1, kept.2⟩

/-- Rows with distinct keys come in strictly increasing order. -/
theorem pairwise_filter_insertionSort (distinct : (rows.map key).Nodup)
    (test : Row → Bool) :
    ((rows.insertionSort fun left right => key left ≤ key right).filter test).Pairwise
      (key · < key ·) := by
  have total : Std.Total fun left right : Row => key left ≤ key right :=
    ⟨fun left right => le_total _ _⟩
  have trans : IsTrans Row fun left right => key left ≤ key right :=
    ⟨fun _ _ _ first second => le_trans first second⟩
  have weak := List.pairwise_insertionSort (fun left right => key left ≤ key right) rows
  have different : ((rows.insertionSort fun left right => key left ≤ key right).map
      key).Nodup := ((List.perm_insertionSort _ rows).map key).nodup_iff.mpr distinct
  have strict := (weak.and (List.pairwise_map.mp different)).imp
    fun both => lt_of_le_of_ne both.1 both.2
  exact strict.sublist List.filter_sublist

theorem pairwise_page (distinct : (rows.map key).Nodup) :
    (page key limit after rows).Pairwise (key · < key ·) :=
  (pairwise_filter_insertionSort distinct _).sublist (List.take_sublist _ _)

/-- A page that is not full has all rows beyond its position. -/
theorem mem_page_of_short (short : (page key limit after rows).length < limit)
    (present : row ∈ rows) (ahead : beyond key after row = true) :
    row ∈ page key limit after rows := by
  have whole : page key limit after rows =
      (rows.insertionSort fun left right => key left ≤ key right).filter (beyond key after) := by
    apply List.take_of_length_le
    rw [page, List.length_take] at short
    omega
  rw [whole]
  exact List.mem_filter.mpr ⟨(List.mem_insertionSort _).mpr present, ahead⟩

/-- A page leaves out only rows beyond its own. -/
theorem mem_page_or_beyond (limit : Nat) (distinct : (rows.map key).Nodup)
    (present : row ∈ rows) (ahead : beyond key after row = true) :
    row ∈ page key limit after rows ∨
      ∀ listed ∈ page key limit after rows, key listed < key row := by
  have kept : row ∈ (rows.insertionSort fun left right => key left ≤ key right).filter
      (beyond key after) :=
    List.mem_filter.mpr ⟨(List.mem_insertionSort _).mpr present, ahead⟩
  rw [← List.take_append_drop limit ((rows.insertionSort fun left right =>
    key left ≤ key right).filter (beyond key after))] at kept
  rcases List.mem_append.mp kept with taken | dropped
  · exact .inl taken
  · right
    intro listed member
    have order := pairwise_filter_insertionSort distinct (beyond key after)
    rw [← List.take_append_drop limit ((rows.insertionSort fun left right =>
      key left ≤ key right).filter (beyond key after))] at order
    exact (List.pairwise_append.mp order).2.2 listed member row dropped

/-- The last row of an increasing list has the greatest key. -/
theorem key_le_getLast {found : List Row} {last listed : Row}
    (increasing : found.Pairwise (key · < key ·)) (ends : found.getLast? = some last)
    (member : listed ∈ found) : key listed ≤ key last := by
  obtain ⟨front, rfl⟩ := List.getLast?_eq_some_iff.mp ends
  rcases List.mem_append.mp member with early | here
  · exact le_of_lt ((List.pairwise_append.mp increasing).2.2 listed early last
      (List.mem_singleton_self _))
  · rw [List.mem_singleton.mp here]

end Pages

/-- What the pages from a position on come to. -/
structure Covers (all rows : List Row) (after : Option Key) (listed : List Row) : Prop where
  increasing : listed.Pairwise (key · < key ·)
  ahead : ∀ row ∈ listed, beyond key after row = true
  known : ∀ row ∈ listed, row ∈ all
  complete : ∀ row ∈ rows, beyond key after row = true → row ∈ listed

section Walks

variable {key} {limit : Nat} {after : Option Key} {rows all : List Row} {last : Row}

theorem beyond_of_beyond_last (located : beyond key after last = true) {row : Row}
    (ahead : beyond key (some (key last)) row = true) : beyond key after row = true := by
  cases after with
  | none => rfl
  | some position =>
      simp only [beyond, Option.all_some, decide_eq_true_eq] at located ahead ⊢
      exact lt_trans located ahead

/-- The rows of a page put before what follows it. -/
theorem Covers.prepend {later listed : List Row} (distinct : (rows.map key).Nodup)
    (included : ∀ row ∈ rows, row ∈ all) (kept : ∀ row ∈ rows, row ∈ later)
    (ends : (page key limit after rows).getLast? = some last)
    (covers : Covers key all later (some (key last)) listed) :
    Covers key all rows after (page key limit after rows ++ listed) where
  increasing := by
    refine List.pairwise_append.mpr ⟨pairwise_page distinct, covers.increasing, ?_⟩
    intro row early other late
    have beyondLast := covers.ahead other late
    simp only [beyond, Option.all_some, decide_eq_true_eq] at beyondLast
    exact lt_of_le_of_lt (key_le_getLast (pairwise_page distinct) ends early) beyondLast
  ahead := by
    intro row member
    rcases List.mem_append.mp member with early | late
    · exact (mem_of_mem_page early).2
    · exact beyond_of_beyond_last (mem_of_mem_page (List.mem_of_getLast? ends)).2
        (covers.ahead row late)
  known := by
    intro row member
    rcases List.mem_append.mp member with early | late
    · exact included row (mem_of_mem_page early).1
    · exact covers.known row late
  complete := by
    intro row present ahead
    rcases mem_page_or_beyond limit distinct present ahead with taken | skipped
    · exact List.mem_append_left _ taken
    · apply List.mem_append_right
      apply covers.complete row (kept row present)
      simpa [beyond] using skipped last (List.mem_of_getLast? ends)

/-- After a full page fewer rows are ahead. -/
theorem length_filter_beyond_lt (member : last ∈ all) (located : beyond key after last = true) :
    (all.filter (beyond key (some (key last)))).length <
      (all.filter (beyond key after)).length := by
  have both : all.filter (beyond key (some (key last))) =
      (all.filter (beyond key after)).filter (beyond key (some (key last))) := by
    rw [List.filter_filter]
    apply List.filter_congr
    intro row _
    cases ahead : beyond key (some (key last)) row with
    | false => simp
    | true => simp [beyond_of_beyond_last located ahead]
  rw [both, List.length_filter_lt_length_iff_exists]
  exact ⟨last, List.mem_filter.mpr ⟨member, located⟩, by simp [beyond]⟩

/-- The pages end, and together they list every row that was there at the start. -/
theorem exists_walk (positive : 0 < limit) (fuel : Nat) {inserts : List (List Row)}
    (distinct : ((rows ++ inserts.flatten).map key).Nodup)
    (enough : ((rows ++ inserts.flatten).filter (beyond key after)).length < fuel) :
    ∃ listed, walk key limit fuel rows inserts after = some listed ∧
      Covers key (rows ++ inserts.flatten) rows after listed := by
  induction fuel generalizing rows inserts after with
  | zero => exact absurd enough (Nat.not_lt_zero _)
  | succ fuel inductionHypothesis =>
      have unique : (rows.map key).Nodup := by
        rw [List.map_append] at distinct
        exact (List.nodup_append.mp distinct).1
      rw [walk]
      by_cases short : (page key limit after rows).length < limit
      · refine ⟨page key limit after rows, if_pos short, pairwise_page unique, ?_, ?_, ?_⟩
        · exact fun row member => (mem_of_mem_page member).2
        · exact fun row member => List.mem_append_left _ (mem_of_mem_page member).1
        · exact fun row present ahead => mem_page_of_short short present ahead
      · have nonempty : page key limit after rows ≠ [] := by
          intro empty
          rw [empty] at short
          exact short positive
        obtain ⟨last, ends⟩ := List.getLast?_isSome.mpr nonempty |> Option.isSome_iff_exists.mp
        have listedLast := mem_of_mem_page (List.mem_of_getLast? ends)
        have same : (rows ++ inserts.headD []) ++ inserts.tail.flatten =
            rows ++ inserts.flatten := by
          cases inserts <;> simp
        have fewer := length_filter_beyond_lt (List.mem_append_left inserts.flatten listedLast.1)
          listedLast.2
        have distinct' : (((rows ++ inserts.headD []) ++ inserts.tail.flatten).map key).Nodup := by
          rw [same]
          exact distinct
        have enough' : (((rows ++ inserts.headD []) ++ inserts.tail.flatten).filter
            (beyond key (some (key last)))).length < fuel := by
          rw [same]
          omega
        obtain ⟨listed, walked, covers⟩ := inductionHypothesis distinct' enough'
        rw [same] at covers
        refine ⟨page key limit after rows ++ listed, ?_, ?_⟩
        · simp only [if_neg short, ends, Option.map_some, walked]
        · exact covers.prepend unique (fun row => List.mem_append_left _)
            (fun row => List.mem_append_left _) ends

end Walks

end GitScale.Foundation
