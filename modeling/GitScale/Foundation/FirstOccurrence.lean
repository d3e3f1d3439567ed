import Mathlib.Data.List.Nodup
import Mathlib.Order.Basic

/-!
# The order of first occurrences

A log may repeat an element.  `log` follows `order` when the first occurrences in
the log are a prefix of `order`; the elements of `order` that are still to come
are `remaining`.  If what remains is sorted by some key, then appending a sorted
list that skips nothing smaller keeps the log in step.
-/

namespace GitScale.Foundation

variable {α β : Type*}

section Prefix

variable [Preorder β] {key : α → β}

/-- A sorted list that is closed downwards in another sorted list is a prefix of
it. -/
theorem prefix_of_lowerClosed {chosen all : List α}
    (chosenSorted : chosen.Pairwise (key · < key ·))
    (allSorted : all.Pairwise (key · < key ·)) (subset : chosen ⊆ all)
    (closed : ∀ smaller ∈ all, ∀ larger ∈ chosen, key smaller < key larger →
      smaller ∈ chosen) :
    chosen <+: all := by
  induction all generalizing chosen with
  | nil =>
      obtain rfl : chosen = [] := List.subset_nil.mp subset
      exact List.prefix_rfl
  | cons first rest inductionHypothesis =>
      cases chosen with
      | nil => exact List.nil_prefix
      | cons head tail =>
          rw [List.pairwise_cons] at chosenSorted allSorted
          have same : head = first := by
            rcases List.mem_cons.mp (subset List.mem_cons_self) with equal | later
            · exact equal
            · have below := allSorted.1 head later
              rcases List.mem_cons.mp
                (closed first List.mem_cons_self head List.mem_cons_self below) with
                equal | inTail
              · exact equal.symm
              · exact absurd (below.trans (chosenSorted.1 first inTail))
                  (lt_irrefl _)
          subst same
          apply (List.prefix_cons_inj head).mpr
          apply inductionHypothesis chosenSorted.2 allSorted.2
          · intro element membership
            rcases List.mem_cons.mp (subset (List.mem_cons_of_mem _ membership)) with
              equal | later
            · have below := chosenSorted.1 element membership
              rw [equal] at below
              exact absurd below (lt_irrefl _)
            · exact later
          · intro smaller present larger membership below
            rcases List.mem_cons.mp
              (closed smaller (List.mem_cons_of_mem _ present) larger
                (List.mem_cons_of_mem _ membership) below) with equal | later
            · have above := allSorted.1 smaller present
              rw [equal] at above
              exact absurd above (lt_irrefl _)
            · exact later

/-- A prefix of a sorted list is closed downwards in it. -/
theorem mem_of_prefix_of_lt {front all : List α} (isPrefix : front <+: all)
    (sorted : all.Pairwise (key · < key ·)) {smaller larger : α}
    (present : smaller ∈ all) (membership : larger ∈ front)
    (below : key smaller < key larger) : smaller ∈ front := by
  rcases isPrefix with ⟨rest, rfl⟩
  rcases List.mem_append.mp present with inFront | later
  · exact inFront
  · have above := (List.pairwise_append.mp sorted).2.2 larger membership smaller later
    exact absurd (below.trans above) (lt_irrefl _)

theorem nodup_of_pairwise_lt {elements : List α}
    (sorted : elements.Pairwise (key · < key ·)) : elements.Nodup := by
  apply List.Pairwise.imp _ sorted
  intro left right below equal
  rw [equal] at below
  exact absurd below (lt_irrefl _)

end Prefix

variable [DecidableEq α]

/-- The elements of `order` that the log does not contain. -/
def remaining (log order : List α) : List α :=
  order.filter fun element => element ∉ log

/-- First occurrences in the log come in the order given, without a gap. -/
def InStep (log order : List α) : Prop :=
  log.eraseDups ++ remaining log order = order

theorem mem_remaining {log order : List α} {element : α} :
    element ∈ remaining log order ↔ element ∈ order ∧ element ∉ log := by
  simp [remaining]

theorem remaining_append_log (log written order : List α) :
    remaining (log ++ written) order = remaining written (remaining log order) := by
  rw [remaining, remaining, remaining, List.filter_filter]
  apply List.filter_congr
  intro element _
  simp [Bool.and_comm]

theorem remaining_append_order {log order added : List α}
    (fresh : ∀ element ∈ added, element ∉ log) :
    remaining log (order ++ added) = remaining log order ++ added := by
  have kept : remaining log added = added := by
    apply List.filter_eq_self.mpr
    intro element membership
    simpa using fresh element membership
  rw [remaining, List.filter_append]
  exact congrArg _ kept

theorem eraseDups_of_nodup {elements : List α} (nodup : elements.Nodup) :
    elements.eraseDups = elements := by
  induction elements with
  | nil => rfl
  | cons head tail inductionHypothesis =>
      rw [List.nodup_cons] at nodup
      have kept : tail.filter (fun element => !element == head) = tail := by
        apply List.filter_eq_self.mpr
        intro element membership
        have different : element ≠ head := fun equal => nodup.1 (equal ▸ membership)
        simpa using different
      rw [List.eraseDups_cons, kept, inductionHypothesis nodup.2]

theorem InStep.isPrefix {log order : List α} (inStep : InStep log order) :
    log.eraseDups <+: order :=
  ⟨remaining log order, inStep⟩

/-- New elements of `order` come after everything logged so far. -/
theorem InStep.append_order {log order added : List α} (inStep : InStep log order)
    (fresh : ∀ element ∈ added, element ∉ log) : InStep log (order ++ added) := by
  rw [InStep, remaining_append_order fresh, ← List.append_assoc, inStep]

/-- Appending a sorted selection to the log.  It may repeat logged elements, but
among those that remain it must not skip one with a smaller key. -/
theorem InStep.append_log [Preorder β] {key : α → β} {log order written : List α}
    (inStep : InStep log order)
    (sorted : (remaining log order).Pairwise (key · < key ·))
    (writtenSorted : written.Pairwise (key · < key ·)) (subset : written ⊆ order)
    (closed : ∀ smaller ∈ remaining log order, ∀ larger ∈ written, larger ∉ log →
      key smaller < key larger → smaller ∈ written) :
    InStep (log ++ written) order := by
  have newSorted : (remaining log written).Pairwise (key · < key ·) :=
    writtenSorted.filter _
  have isPrefix : remaining log written <+: remaining log order := by
    apply prefix_of_lowerClosed newSorted sorted
    · intro element membership
      rcases mem_remaining.mp membership with ⟨present, unlogged⟩
      exact mem_remaining.mpr ⟨subset present, unlogged⟩
    · intro smaller present larger membership below
      rcases mem_remaining.mp membership with ⟨chosen, unlogged⟩
      exact mem_remaining.mpr ⟨closed smaller present larger chosen unlogged below,
        (mem_remaining.mp present).2⟩
  rcases isPrefix with ⟨rest, split⟩
  have firsts : (log ++ written).eraseDups = log.eraseDups ++ remaining log written := by
    have removed : written.removeAll log = remaining log written := by
      simp [List.removeAll, remaining]
    rw [List.eraseDups_append, removed,
      eraseDups_of_nodup (nodup_of_pairwise_lt newSorted)]
  have left : remaining (log ++ written) order = rest := by
    have gone : remaining written (remaining log written) = [] := by
      apply List.filter_eq_nil_iff.mpr
      intro element membership
      simpa using (mem_remaining.mp membership).1
    have kept : remaining written rest = rest := by
      apply List.filter_eq_self.mpr
      intro element membership
      have nodup := nodup_of_pairwise_lt (split ▸ sorted)
      have unlogged : element ∉ log := by
        have present : element ∈ remaining log order :=
          split ▸ List.mem_append_right _ membership
        exact (mem_remaining.mp present).2
      have unwritten : element ∉ written := fun chosen =>
        List.disjoint_of_nodup_append nodup
          (mem_remaining.mpr ⟨chosen, unlogged⟩) membership
      simpa using unwritten
    have divided : remaining written (remaining log order) =
        remaining written (remaining log written) ++ remaining written rest := by
      rw [← split]
      exact List.filter_append _ _
    rw [remaining_append_log, divided, gone, kept, List.nil_append]
  rw [InStep, firsts, left, List.append_assoc, split, inStep]

end GitScale.Foundation
