import GitScale.Foundation.FirstOccurrence
import GitScale.Outbox.Delivery
import Mathlib.Data.Prod.Lex

/-!
# Publication order and commit order

`drainBatch` publishes in the order of `(created_at, id)`, the start of the
inserting transaction and the sequence value of the insert.  Per aggregate this is
the commit order as long as no transaction commits a row below one that is already
committed and still unpublished.
-/

namespace GitScale.Outbox

open Foundation

/-- The sort key of `ORDER BY created_at, id`. -/
def OutboxRow.key (row : OutboxRow) : Lex (Time × Nat) := toLex (row.createdAt, row.id)

theorem OutboxRow.before_iff {left right : OutboxRow} :
    left.Before right ↔ left.key ≤ right.key := by
  rw [OutboxRow.key, OutboxRow.key, Prod.Lex.toLex_le_toLex, OutboxRow.Before]

/-- Per aggregate, rows are first published in the order in which their
transactions committed, without a gap. -/
def PublishedInCommitOrder (state : State) : Prop :=
  ∀ aggregateID, (ofAggregate aggregateID state.kafka).eraseDups <+:
    ofAggregate aggregateID state.committed

/-- A producer transaction commits only rows whose key is above that of every row
of the same aggregate that is committed and not yet in Kafka. -/
def CommitsAboveUnpublished (state : State) : Label → Prop
  | .produce producer .commit =>
      match state.producers producer with
      | none => True
      | some transaction =>
          ∀ row ∈ transaction.inserted, ∀ earlier ∈ state.committed,
            earlier ∉ state.kafka → earlier.aggregateID = row.aggregateID →
              earlier.key < row.key
  | _ => True

instance decidableCommitsAboveUnpublished (state : State) (label : Label) :
    Decidable (CommitsAboveUnpublished state label) :=
  match label with
  | .produce producer .commit =>
      match running : state.producers producer with
      | none => isTrue (by simp [CommitsAboveUnpublished, running])
      | some transaction =>
          decidable_of_iff
            (∀ row ∈ transaction.inserted, ∀ earlier ∈ state.committed,
              earlier ∉ state.kafka → earlier.aggregateID = row.aggregateID →
                (earlier.createdAt < row.createdAt ∨
                  earlier.createdAt = row.createdAt ∧ earlier.id < row.id))
            (by simp [CommitsAboveUnpublished, running, OutboxRow.key,
              Prod.Lex.toLex_lt_toLex])
  | .produce _ (.begin _) | .produce _ (.insert _) | .produce _ .abort | .drain _ _
  | .expire _ _ => isTrue trivial

/-! ## Rows and their transactions -/

/-- Where rows can be: every inserted row has one place, rows of one transaction
are sorted, and Kafka has seen only committed rows. -/
structure Catalogued (state : State) : Prop where
  nodup : state.committed.Nodup
  rows : (state.table.map Stored.row).Sublist state.committed
  apart : ∀ producer transaction, state.producers producer = some transaction →
    ∀ row ∈ transaction.inserted, row ∉ state.committed
  separate : ∀ left right transaction other, left ≠ right →
    state.producers left = some transaction → state.producers right = some other →
      ∀ row ∈ transaction.inserted, row ∉ other.inserted
  started : ∀ producer transaction, state.producers producer = some transaction →
    ∀ row ∈ transaction.inserted, row.createdAt = transaction.startedAt
  sorted : ∀ producer transaction, state.producers producer = some transaction →
    transaction.inserted.Pairwise (OutboxRow.key · < OutboxRow.key ·)
  sent : state.kafka ⊆ state.committed
  logged : ∀ batch ∈ state.published, batch ⊆ state.kafka
  batches : ∀ drainer, (state.drainers drainer).phase.batch.Pairwise
    (OutboxRow.key · < OutboxRow.key ·)

theorem catalogued_initial : Catalogued initial where
  nodup := List.nodup_nil
  rows := List.Sublist.refl _
  apart := by simp [initial]
  separate := by simp [initial]
  started := by simp [initial]
  sorted := by simp [initial]
  sent := by simp [initial]
  logged := by simp [initial]
  batches := by simp [initial, Phase.batch]

/-- Updating one producer. -/
theorem Catalogued.setProducer {state : State} (catalogued : Catalogued state)
    (nextID producer : Nat) (transaction : Option Producing)
    (apart : ∀ running, transaction = some running →
      ∀ row ∈ running.inserted, row ∉ state.committed)
    (separate : ∀ running, transaction = some running →
      ∀ other otherTransaction, other ≠ producer →
        state.producers other = some otherTransaction →
          ∀ row ∈ running.inserted, row ∉ otherTransaction.inserted)
    (started : ∀ running, transaction = some running →
      ∀ row ∈ running.inserted, row.createdAt = running.startedAt)
    (sorted : ∀ running, transaction = some running →
      running.inserted.Pairwise (OutboxRow.key · < OutboxRow.key ·)) :
    Catalogued { state with
      nextID := nextID
      producers := Function.update state.producers producer transaction } where
  nodup := catalogued.nodup
  rows := catalogued.rows
  apart other running present := by
    by_cases same : other = producer
    · subst same
      simp only [Function.update_self] at present
      exact apart running present
    · simp only [Function.update_of_ne same] at present
      exact catalogued.apart other running present
  separate left right running other different presentLeft presentRight := by
    by_cases sameLeft : left = producer
    · subst sameLeft
      simp only [Function.update_self] at presentLeft
      simp only [Function.update_of_ne different.symm] at presentRight
      exact separate running presentLeft right other different.symm presentRight
    · simp only [Function.update_of_ne sameLeft] at presentLeft
      by_cases sameRight : right = producer
      · subst sameRight
        simp only [Function.update_self] at presentRight
        intro row membership inOther
        exact separate other presentRight left running sameLeft presentLeft row inOther
          membership
      · simp only [Function.update_of_ne sameRight] at presentRight
        exact catalogued.separate left right running other different presentLeft
          presentRight
  started other running present := by
    by_cases same : other = producer
    · subst same
      simp only [Function.update_self] at present
      exact started running present
    · simp only [Function.update_of_ne same] at present
      exact catalogued.started other running present
  sorted other running present := by
    by_cases same : other = producer
    · subst same
      simp only [Function.update_self] at present
      exact sorted running present
    · simp only [Function.update_of_ne same] at present
      exact catalogued.sorted other running present
  sent := catalogued.sent
  logged := catalogued.logged
  batches := catalogued.batches

/-- The rows of one transaction share their `created_at`, and sequence values only
grow. -/
theorem Catalogued.insert {state : State} (catalogued : Catalogued state)
    (consistent : Consistent state) {producer : Nat} {transaction : Producing}
    (running : state.producers producer = some transaction) (event : Event) :
    Catalogued { state with
      nextID := state.nextID + 1
      producers := Function.update state.producers producer
        (some { transaction with
          inserted := transaction.inserted ++
            [rowOf event state.nextID transaction.startedAt] }) } := by
  have unseen : ∀ row, Inserted state row → row.id < state.nextID := consistent.issued
  have own : ∀ row ∈ transaction.inserted, Inserted state row := by
    intro row membership
    exact Or.inr ⟨producer, transaction, running, membership⟩
  have issued : (rowOf event state.nextID transaction.startedAt).id = state.nextID := rfl
  apply catalogued.setProducer
  · intro updated equal row membership committed
    cases equal
    rcases List.mem_append.mp membership with old | new
    · exact catalogued.apart producer transaction running row old committed
    · rw [List.mem_singleton.mp new] at committed
      have below := unseen _ (Or.inl committed)
      omega
  · intro updated equal other otherTransaction different present row membership inOther
    cases equal
    rcases List.mem_append.mp membership with old | new
    · exact catalogued.separate producer other transaction otherTransaction
        different.symm running present row old inOther
    · rw [List.mem_singleton.mp new] at inOther
      have below := unseen _ (Or.inr ⟨other, otherTransaction, present, inOther⟩)
      omega
  · intro updated equal row membership
    cases equal
    rcases List.mem_append.mp membership with old | new
    · exact catalogued.started producer transaction running row old
    · rw [List.mem_singleton.mp new]
      rfl
  · intro updated equal
    cases equal
    apply List.pairwise_append.mpr
    refine ⟨catalogued.sorted producer transaction running, List.pairwise_singleton _ _,
      ?_⟩
    intro row membership last new
    rw [List.mem_singleton.mp new, OutboxRow.key, OutboxRow.key,
      Prod.Lex.toLex_lt_toLex]
    exact Or.inr ⟨catalogued.started producer transaction running row membership,
      unseen row (own row membership)⟩

theorem Catalogued.commit {state : State} (catalogued : Catalogued state)
    {producer : Nat} {transaction : Producing}
    (running : state.producers producer = some transaction) :
    Catalogued { state with
      table := state.table ++ transaction.inserted.map fun row => ⟨row, none⟩
      committed := state.committed ++ transaction.inserted
      producers := Function.update state.producers producer none } := by
  have remains : ∀ {other otherTransaction},
      Function.update state.producers producer none other = some otherTransaction →
      other ≠ producer ∧ state.producers other = some otherTransaction := by
    intro other otherTransaction present
    by_cases same : other = producer
    · subst same
      simp at present
    · rw [Function.update_of_ne same] at present
      exact ⟨same, present⟩
  constructor
  · apply List.nodup_append'.mpr
    refine ⟨catalogued.nodup,
      nodup_of_pairwise_lt (catalogued.sorted producer transaction running), ?_⟩
    intro row committed inserted
    exact catalogued.apart producer transaction running row inserted committed
  · have unchanged : (transaction.inserted.map fun row => (⟨row, none⟩ : Stored)).map
        Stored.row = transaction.inserted := by
      simp [Function.comp_def]
    rw [List.map_append, unchanged]
    exact catalogued.rows.append (List.Sublist.refl _)
  · intro other otherTransaction present row inserted committed
    obtain ⟨different, present⟩ := remains present
    rcases List.mem_append.mp committed with old | new
    · exact catalogued.apart other otherTransaction present row inserted old
    · exact catalogued.separate other producer otherTransaction transaction different
        present running row inserted new
  · intro left right leftTransaction rightTransaction different presentLeft presentRight
    exact catalogued.separate left right leftTransaction rightTransaction different
      (remains presentLeft).2 (remains presentRight).2
  · intro other otherTransaction present
    exact catalogued.started other otherTransaction (remains present).2
  · intro other otherTransaction present
    exact catalogued.sorted other otherTransaction (remains present).2
  · exact List.subset_append_of_subset_left _ catalogued.sent
  · exact catalogued.logged
  · exact catalogued.batches

/-- A step of a replica, seen from the rows. -/
theorem Catalogued.drainer {state next : State} (catalogued : Catalogued state)
    (rows : next.table.map Stored.row = state.table.map Stored.row)
    (producers : next.producers = state.producers)
    (committed : next.committed = state.committed)
    (sent : next.kafka ⊆ state.committed)
    (logged : ∀ batch ∈ next.published, batch ⊆ next.kafka)
    (batches : ∀ drainer, (next.drainers drainer).phase.batch.Pairwise
      (OutboxRow.key · < OutboxRow.key ·)) :
    Catalogued next where
  nodup := committed ▸ catalogued.nodup
  rows := by
    rw [rows, committed]
    exact catalogued.rows
  apart := by
    rw [producers, committed]
    exact catalogued.apart
  separate := by
    rw [producers]
    exact catalogued.separate
  started := by
    rw [producers]
    exact catalogued.started
  sorted := by
    rw [producers]
    exact catalogued.sorted
  sent := committed ▸ sent
  logged := logged
  batches := batches

/-- A step that gives no replica a new batch keeps the batches sorted. -/
theorem Catalogued.batches_of_shrinks {state next : State}
    (catalogued : Catalogued state)
    (shrinks : ∀ drainer,
      (next.drainers drainer).phase.batch = (state.drainers drainer).phase.batch ∨
        (next.drainers drainer).phase.batch = []) (drainer : Nat) :
    (next.drainers drainer).phase.batch.Pairwise (OutboxRow.key · < OutboxRow.key ·) := by
  rcases shrinks drainer with same | empty
  · rw [same]
    exact catalogued.batches drainer
  · rw [empty]
    exact List.Pairwise.nil

/-- Two committed rows with one key are one row, so the sorted select is strictly
sorted. -/
theorem Catalogued.selectBatch_sorted {state : State} (catalogued : Catalogued state)
    (consistent : Consistent state) (limit : Nat) :
    (selectBatch limit state).Pairwise (OutboxRow.key · < OutboxRow.key ·) := by
  have nodup : (candidates state).Nodup := by
    have kept := (List.filter_sublist (p := fun stored : Stored =>
      stored.processedAt.isNone &&
        !(state.rowLocks.map Prod.fst).contains stored.row.id)
      (l := state.table)).map Stored.row
    exact (catalogued.nodup.sublist catalogued.rows).sublist kept
  have weak : ((candidates state).insertionSort OutboxRow.Before).Pairwise
      OutboxRow.Before := by
    have total : Std.Total OutboxRow.Before := ⟨by
      intro left right
      rw [OutboxRow.before_iff, OutboxRow.before_iff]
      exact le_total _ _⟩
    have trans : IsTrans OutboxRow OutboxRow.Before := ⟨by
      intro left middle right
      rw [OutboxRow.before_iff, OutboxRow.before_iff, OutboxRow.before_iff]
      exact le_trans⟩
    exact List.pairwise_insertionSort _ _
  have distinct : ((candidates state).insertionSort OutboxRow.Before).Nodup :=
    (List.perm_insertionSort _ _).nodup_iff.mpr nodup
  have strict : ((candidates state).insertionSort OutboxRow.Before).Pairwise
      (OutboxRow.key · < OutboxRow.key ·) := by
    apply List.Pairwise.imp_of_mem _ (weak.and distinct)
    intro left right presentLeft presentRight both
    obtain ⟨before, different⟩ := both
    apply lt_of_le_of_ne (OutboxRow.before_iff.mp before)
    intro equal
    apply different
    have committed : ∀ row ∈ (candidates state).insertionSort OutboxRow.Before,
        Inserted state row := by
      intro row membership
      have candidate := mem_candidates.mp ((List.mem_insertionSort _).mp membership)
      exact Or.inl (consistent.recorded _ candidate.1)
    have ids : left.id = right.id := congrArg (fun key => (ofLex key).2) equal
    exact consistent.unique left right (committed left presentLeft)
      (committed right presentRight) ids
  exact strict.sublist (List.take_sublist _ _)

/-! ## Locks -/

/-- Who holds the advisory lock and the row locks. -/
structure Exclusive (state : State) : Prop where
  holder : ∀ drainer, (state.drainers drainer).alive →
    (state.drainers drainer).phase.holds → state.advisory = some drainer
  owner : ∀ lock ∈ state.rowLocks, state.advisory = some lock.2 ∧
    (state.drainers lock.2).phase.taken

theorem exclusive_initial : Exclusive initial where
  holder := by simp [initial]
  owner := by simp [initial]

theorem Exclusive.frame {state next : State} (exclusive : Exclusive state)
    (drainers : next.drainers = state.drainers)
    (advisory : next.advisory = state.advisory)
    (rowLocks : next.rowLocks = state.rowLocks) : Exclusive next where
  holder := by
    rw [drainers, advisory]
    exact exclusive.holder
  owner := by
    rw [drainers, advisory, rowLocks]
    exact exclusive.owner

/-- The replica that is about to select finds no row locked. -/
theorem Exclusive.rowLocks_eq_nil {state : State} (exclusive : Exclusive state)
    {drainer : Nat} {now : Time}
    (replica : state.drainers drainer = ⟨.locked now, true⟩) : state.rowLocks = [] := by
  have held : state.advisory = some drainer := by
    apply exclusive.holder drainer
    · rw [replica]
    · rw [replica]
      rfl
  apply List.eq_nil_iff_forall_not_mem.mpr
  intro lock membership
  obtain ⟨owned, taken⟩ := exclusive.owner lock membership
  rw [held, Option.some.injEq] at owned
  rw [← owned, replica] at taken
  exact absurd taken (by simp [Phase.taken])

/-- A replica drops its locks and is left dead or idle. -/
theorem Exclusive.unlock {state next : State} (exclusive : Exclusive state)
    {drainer : Nat} {replica : Drainer}
    (drainers : next.drainers = Function.update state.drainers drainer replica)
    (advisory : next.advisory = (unlock state drainer).advisory)
    (rowLocks : next.rowLocks = (unlock state drainer).rowLocks)
    (dead : replica.alive = false) : Exclusive next := by
  constructor
  · intro other alive holds
    rw [drainers] at alive holds
    by_cases same : other = drainer
    · subst same
      rw [Function.update_self, dead] at alive
      exact absurd alive (by simp)
    · rw [Function.update_of_ne same] at alive holds
      have held := exclusive.holder other alive holds
      rw [advisory, Outbox.unlock, if_neg, held]
      rw [held, Option.some.injEq]
      exact same
  · intro lock membership
    rw [rowLocks] at membership
    obtain ⟨present, others⟩ := List.mem_filter.mp membership
    have different : lock.2 ≠ drainer := by simpa using others
    obtain ⟨held, taken⟩ := exclusive.owner lock present
    rw [drainers, Function.update_of_ne different, advisory, Outbox.unlock, if_neg]
    · exact ⟨held, taken⟩
    · rw [held, Option.some.injEq]
      exact different

/-- A replica moves on without touching the locks. -/
theorem Exclusive.move {state next : State} (exclusive : Exclusive state)
    {drainer : Nat} {replica : Drainer}
    (drainers : next.drainers = Function.update state.drainers drainer replica)
    (advisory : next.advisory = state.advisory)
    (rowLocks : next.rowLocks = state.rowLocks)
    (holds : replica.alive → replica.phase.holds →
      (state.drainers drainer).alive ∧ (state.drainers drainer).phase.holds)
    (taken : (state.drainers drainer).phase.taken → replica.phase.taken) :
    Exclusive next := by
  constructor
  · intro other
    rw [drainers, advisory]
    by_cases same : other = drainer
    · subst same
      rw [Function.update_self]
      intro alive phase
      obtain ⟨aliveBefore, phaseBefore⟩ := holds alive phase
      exact exclusive.holder other aliveBefore phaseBefore
    · rw [Function.update_of_ne same]
      exact exclusive.holder other
  · intro lock membership
    rw [rowLocks] at membership
    obtain ⟨held, before⟩ := exclusive.owner lock membership
    rw [drainers, advisory]
    refine ⟨held, ?_⟩
    by_cases same : lock.2 = drainer
    · rw [same, Function.update_self]
      rw [same] at before
      exact taken before
    · rw [Function.update_of_ne same]
      exact before

theorem Exclusive.drainStep {deployment : Deployment} {state next : State}
    {drainer : Nat} (exclusive : Exclusive state)
    (taken : DrainStep deployment state drainer next) : Exclusive next := by
  cases taken with
  | begin now last alive replica =>
      refine exclusive.move rfl rfl rfl ?_ ?_
      · simp [Phase.holds]
      · simp [replica, Phase.taken]
  | lock now replica free =>
      constructor
      · intro other alive holds
        by_cases same : other = drainer
        · rw [same]
        · simp only [setPhase, Function.update_of_ne same] at alive holds
          have held := exclusive.holder other alive holds
          rw [free] at held
          cases held
      · intro lock membership
        have held := (exclusive.owner lock membership).1
        rw [free] at held
        cases held
  | release result => exact exclusive.unlock rfl rfl rfl rfl
  | select now replica =>
      have held : state.advisory = some drainer := by
        apply exclusive.holder drainer
        · rw [replica]
        · rw [replica]
          rfl
      constructor
      · intro other alive holds
        by_cases same : other = drainer
        · rw [same]
          exact held
        · simp only [setPhase, Function.update_of_ne same] at alive holds
          exact exclusive.holder other alive holds
      · intro lock membership
        simp only [exclusive.rowLocks_eq_nil replica, List.nil_append] at membership
        obtain ⟨row, -, rfl⟩ := List.mem_map.mp membership
        refine ⟨held, ?_⟩
        simp [setPhase, Phase.taken]
  | publish now batch alive replica =>
      refine exclusive.move rfl rfl rfl ?_ ?_
      · simp [replica, Phase.holds]
      · simp [Phase.taken]
  | publishError now batch written alive replica partially =>
      exact exclusive.unlock rfl rfl rfl rfl
  | update now batch replica =>
      refine exclusive.move rfl rfl rfl ?_ ?_
      · simp [replica, Phase.holds]
      · simp [Phase.taken]
  | commit now batch result replica => exact exclusive.unlock rfl rfl rfl rfl
  | sessionLost => exact exclusive.unlock rfl rfl rfl rfl

/-! ## The order of publication -/

theorem mem_ofAggregate {aggregateID : UUID} {rows : List OutboxRow} {row : OutboxRow} :
    row ∈ ofAggregate aggregateID rows ↔ row ∈ rows ∧ row.aggregateID = aggregateID := by
  simp [ofAggregate]

theorem ofAggregate_append (aggregateID : UUID) (left right : List OutboxRow) :
    ofAggregate aggregateID (left ++ right) =
      ofAggregate aggregateID left ++ ofAggregate aggregateID right :=
  List.filter_append _ _

/-- For every key, a partial write is a prefix of the batch. -/
theorem prefix_of_partialWrite {written batch : List OutboxRow}
    (partially : partialWrite written batch) (aggregateID : UUID) :
    ofAggregate aggregateID written <+: ofAggregate aggregateID batch := by
  simp only [partialWrite, Bool.and_eq_true, List.all_eq_true, List.contains_eq_mem,
    decide_eq_true_eq, List.isPrefixOf_iff_prefix] at partially
  by_cases occurs : ∃ row ∈ batch, row.aggregateID = aggregateID
  · obtain ⟨row, membership, rfl⟩ := occurs
    exact partially.2 row membership
  · have nothing : ofAggregate aggregateID written = [] := by
      apply List.filter_eq_nil_iff.mpr
      intro row membership equal
      exact occurs ⟨row, partially.1 row membership, by simpa using equal⟩
    rw [nothing]
    exact List.nil_prefix

/-- The unpublished rows of an aggregate are sorted in commit order, and no batch
skips one of them. -/
structure Ordered (state : State) : Prop where
  inStep : ∀ aggregateID, InStep (ofAggregate aggregateID state.kafka)
    (ofAggregate aggregateID state.committed)
  sorted : ∀ aggregateID, (remaining (ofAggregate aggregateID state.kafka)
    (ofAggregate aggregateID state.committed)).Pairwise (OutboxRow.key · < OutboxRow.key ·)
  closed : ∀ drainer, ∀ larger ∈ (state.drainers drainer).phase.batch,
    larger ∉ state.kafka → ∀ smaller ∈ state.committed, smaller ∉ state.kafka →
      smaller.aggregateID = larger.aggregateID → smaller.key < larger.key →
        smaller ∈ (state.drainers drainer).phase.batch

theorem ordered_initial : Ordered initial where
  inStep _ := rfl
  sorted _ := List.Pairwise.nil
  closed := by simp [initial, Phase.batch]

/-- A producer's commit that respects the guard puts its rows at the end. -/
theorem Ordered.commit {state : State} (ordered : Ordered state)
    (consistent : Consistent state) (catalogued : Catalogued state)
    {producer : Nat} {transaction : Producing}
    (running : state.producers producer = some transaction)
    (above : ∀ row ∈ transaction.inserted, ∀ earlier ∈ state.committed,
      earlier ∉ state.kafka → earlier.aggregateID = row.aggregateID →
        earlier.key < row.key) :
    Ordered { state with
      table := state.table ++ transaction.inserted.map fun row => ⟨row, none⟩
      committed := state.committed ++ transaction.inserted
      producers := Function.update state.producers producer none } := by
  have fresh : ∀ aggregateID, ∀ row ∈ ofAggregate aggregateID transaction.inserted,
      row ∉ ofAggregate aggregateID state.kafka := by
    intro aggregateID row membership sent
    exact catalogued.apart producer transaction running row
      (mem_ofAggregate.mp membership).1 (catalogued.sent (mem_ofAggregate.mp sent).1)
  constructor
  · intro aggregateID
    rw [ofAggregate_append]
    exact (ordered.inStep aggregateID).append_order (fresh aggregateID)
  · intro aggregateID
    rw [ofAggregate_append, remaining_append_order (fresh aggregateID)]
    apply List.pairwise_append.mpr
    refine ⟨ordered.sorted aggregateID,
      (catalogued.sorted producer transaction running).filter _, ?_⟩
    intro earlier unpublished row membership
    obtain ⟨committed, unsent⟩ := mem_remaining.mp unpublished
    obtain ⟨committed, aggregate⟩ := mem_ofAggregate.mp committed
    obtain ⟨inserted, sameAggregate⟩ := mem_ofAggregate.mp membership
    apply above row inserted earlier committed
    · intro sent
      exact unsent (mem_ofAggregate.mpr ⟨sent, aggregate⟩)
    · rw [aggregate, sameAggregate]
  · intro drainer larger selected unsent smaller committed unsentSmaller aggregate below
    rcases List.mem_append.mp committed with old | new
    · exact ordered.closed drainer larger selected unsent smaller old unsentSmaller
        aggregate below
    · have reversed := above smaller new larger (consistent.selected drainer larger selected)
        unsent aggregate.symm
      exact absurd (below.trans reversed) (lt_irrefl _)

/-- A step of a replica that writes, for every key, a prefix of its batch to Kafka
and takes no new batch. -/
theorem Ordered.write {state next : State} (ordered : Ordered state)
    (consistent : Consistent state) (catalogued : Catalogued state) (drainer : Nat)
    (written : List OutboxRow)
    (isPrefix : ∀ aggregateID, ofAggregate aggregateID written <+:
      ofAggregate aggregateID (state.drainers drainer).phase.batch)
    (committed : next.committed = state.committed)
    (kafka : next.kafka = state.kafka ++ written)
    (shrinks : ∀ other,
      (next.drainers other).phase.batch = (state.drainers other).phase.batch ∨
        (next.drainers other).phase.batch = []) :
    Ordered next := by
  constructor
  · intro aggregateID
    rw [committed, kafka, ofAggregate_append]
    have batchSorted : (ofAggregate aggregateID
        (state.drainers drainer).phase.batch).Pairwise (OutboxRow.key · < OutboxRow.key ·) :=
      (catalogued.batches drainer).filter _
    apply (ordered.inStep aggregateID).append_log (ordered.sorted aggregateID)
    · exact batchSorted.sublist (isPrefix aggregateID).sublist
    · intro row membership
      obtain ⟨selected, aggregate⟩ :=
        mem_ofAggregate.mp ((isPrefix aggregateID).subset membership)
      exact mem_ofAggregate.mpr ⟨consistent.selected drainer row selected, aggregate⟩
    · intro smaller unpublished larger membership unsent below
      obtain ⟨selected, aggregate⟩ :=
        mem_ofAggregate.mp ((isPrefix aggregateID).subset membership)
      obtain ⟨present, unsentSmaller⟩ := mem_remaining.mp unpublished
      obtain ⟨present, aggregateSmaller⟩ := mem_ofAggregate.mp present
      have chosen := ordered.closed drainer larger selected
        (fun sent => unsent (mem_ofAggregate.mpr ⟨sent, aggregate⟩)) smaller present
        (fun sent => unsentSmaller (mem_ofAggregate.mpr ⟨sent, aggregateSmaller⟩))
        (aggregateSmaller.trans aggregate.symm) below
      exact mem_of_prefix_of_lt (isPrefix aggregateID) batchSorted
        (mem_ofAggregate.mpr ⟨chosen, aggregateSmaller⟩) membership below
  · intro aggregateID
    rw [committed, kafka, ofAggregate_append, remaining_append_log]
    exact (ordered.sorted aggregateID).filter _
  · intro other larger selected unsent smaller present unsentSmaller aggregate below
    rw [kafka, List.mem_append, not_or] at unsent unsentSmaller
    rw [committed] at present
    rcases shrinks other with same | empty
    · rw [same] at selected ⊢
      exact ordered.closed other larger selected unsent.1 smaller present
        unsentSmaller.1 aggregate below
    · rw [empty] at selected
      exact absurd selected List.not_mem_nil

/-- A step of a replica that neither writes nor selects. -/
theorem Ordered.move {state next : State} (ordered : Ordered state)
    (consistent : Consistent state) (catalogued : Catalogued state)
    (committed : next.committed = state.committed) (kafka : next.kafka = state.kafka)
    (shrinks : ∀ other,
      (next.drainers other).phase.batch = (state.drainers other).phase.batch ∨
        (next.drainers other).phase.batch = []) :
    Ordered next :=
  ordered.write consistent catalogued 0 [] (fun _ => List.nil_prefix) committed
    (by rw [kafka, List.append_nil]) shrinks

/-- Changing one replica's phase to one with the same batch, or with none. -/
theorem shrinks_of_update {state : State} {drainers : Nat → Drainer} {drainer : Nat}
    {replica : Drainer} (updated : drainers = Function.update state.drainers drainer replica)
    (batch : replica.phase.batch = (state.drainers drainer).phase.batch ∨
      replica.phase.batch = []) (other : Nat) :
    (drainers other).phase.batch = (state.drainers other).phase.batch ∨
      (drainers other).phase.batch = [] := by
  rw [updated]
  by_cases same : other = drainer
  · rw [same, Function.update_self]
    exact batch
  · rw [Function.update_of_ne same]
    exact Or.inl rfl

/-- The select skips no unpublished row of an aggregate below one it takes. -/
theorem selectBatch_closed {state : State} (consistent : Consistent state)
    (catalogued : Catalogued state) (unlocked : state.rowLocks = []) (limit : Nat)
    {larger smaller : OutboxRow} (selected : larger ∈ selectBatch limit state)
    (committed : smaller ∈ state.committed) (unsent : smaller ∉ state.kafka)
    (below : smaller.key < larger.key) : smaller ∈ selectBatch limit state := by
  have unpublished : ¬ Published state smaller := by
    rintro ⟨batch, logged, membership⟩
    exact unsent (catalogued.logged batch logged membership)
  have present := (consistent.present smaller committed).resolve_right unpublished
  have candidate : smaller ∈ candidates state := by
    apply mem_candidates.mpr
    simp [unlocked, present]
  have sorted := catalogued.selectBatch_sorted consistent (candidates state).length
  have everything : selectBatch (candidates state).length state =
      (candidates state).insertionSort OutboxRow.Before := by
    apply List.take_of_length_le
    rw [List.length_insertionSort]
  rw [everything] at sorted
  exact mem_of_prefix_of_lt (List.take_prefix limit _) sorted
    ((List.mem_insertionSort _).mpr candidate) selected below

theorem Ordered.select {state next : State} (ordered : Ordered state)
    (consistent : Consistent state) (catalogued : Catalogued state)
    (unlocked : state.rowLocks = []) {drainer limit : Nat} {replica : Drainer}
    (committed : next.committed = state.committed) (kafka : next.kafka = state.kafka)
    (drainers : next.drainers = Function.update state.drainers drainer replica)
    (batch : replica.phase.batch = selectBatch limit state) : Ordered next := by
  constructor
  · rw [committed, kafka]
    exact ordered.inStep
  · rw [committed, kafka]
    exact ordered.sorted
  · intro other larger selected unsent smaller present unsentSmaller aggregate below
    rw [kafka] at unsent unsentSmaller
    rw [committed] at present
    rw [drainers] at selected ⊢
    by_cases same : other = drainer
    · rw [same, Function.update_self, batch] at selected ⊢
      exact selectBatch_closed consistent catalogued unlocked limit selected present
        unsentSmaller below
    · rw [Function.update_of_ne same] at selected ⊢
      exact ordered.closed other larger selected unsent smaller present unsentSmaller
        aggregate below

/-! ## Whole runs -/

/-- The invariant of runs that respect the guard. -/
structure Tracked (state : State) : Prop where
  consistent : Consistent state
  catalogued : Catalogued state
  exclusive : Exclusive state
  ordered : Ordered state

theorem Tracked.produceStep {state next : State} {producer : Nat}
    {action : ProduceAction} (tracked : Tracked state)
    (guarded : CommitsAboveUnpublished state (.produce producer action))
    (taken : produceStep state producer action = some next) : Tracked next := by
  have consistent := tracked.consistent.produceStep taken
  cases produceStep_cases taken with
  | begin now idle =>
      refine ⟨consistent, ?_, tracked.exclusive.frame rfl rfl rfl,
        tracked.ordered.move tracked.consistent tracked.catalogued rfl rfl
          fun _ => Or.inl rfl⟩
      apply tracked.catalogued.setProducer
      all_goals
        intro running present
        cases present
        simp
  | insert event transaction running =>
      exact ⟨consistent, tracked.catalogued.insert tracked.consistent running event,
        tracked.exclusive.frame rfl rfl rfl,
        tracked.ordered.move tracked.consistent tracked.catalogued rfl rfl
          fun _ => Or.inl rfl⟩
  | commit transaction running =>
      refine ⟨consistent, tracked.catalogued.commit running,
        tracked.exclusive.frame rfl rfl rfl,
        tracked.ordered.commit tracked.consistent tracked.catalogued running ?_⟩
      simpa only [CommitsAboveUnpublished, running] using guarded
  | abort =>
      refine ⟨consistent, ?_, tracked.exclusive.frame rfl rfl rfl,
        tracked.ordered.move tracked.consistent tracked.catalogued rfl rfl
          fun _ => Or.inl rfl⟩
      apply tracked.catalogued.setProducer
      all_goals
        intro running present
        cases present

theorem markProcessed_rows (now : Time) (batch : List OutboxRow) (table : List Stored) :
    (markProcessed now batch table).map Stored.row = table.map Stored.row := by
  rw [markProcessed, List.map_map]
  apply List.map_congr_left
  intro stored _
  simp only [Function.comp_apply]
  split <;> rfl

theorem Catalogued.drainStep {deployment : Deployment} {state next : State}
    {drainer : Nat} (catalogued : Catalogued state) (consistent : Consistent state)
    (taken : DrainStep deployment state drainer next) : Catalogued next := by
  have selected : (state.drainers drainer).phase.batch ⊆ state.committed :=
    consistent.selected drainer
  cases taken with
  | begin | lock | release =>
      exact catalogued.drainer rfl rfl rfl catalogued.sent catalogued.logged
        (catalogued.batches_of_shrinks (shrinks_of_update rfl (Or.inr rfl)))
  | select now replica =>
      refine catalogued.drainer rfl rfl rfl catalogued.sent catalogued.logged ?_
      intro other
      by_cases same : other = drainer
      · simp only [setPhase, same, Function.update_self]
        exact catalogued.selectBatch_sorted consistent _
      · simp only [setPhase, Function.update_of_ne same]
        exact catalogued.batches other
  | publish now batch alive replica =>
      rw [replica] at selected
      refine catalogued.drainer rfl rfl rfl ?_ ?_
        (catalogued.batches_of_shrinks (shrinks_of_update rfl (Or.inl ?_)))
      · exact List.append_subset.mpr ⟨catalogued.sent, selected⟩
      · intro logged membership
        rcases List.mem_append.mp membership with old | new
        · exact List.subset_append_of_subset_left _ (catalogued.logged logged old)
        · rw [List.mem_singleton.mp new]
          exact List.subset_append_right _ _
      · rw [replica]
        rfl
  | publishError now batch written alive replica partially =>
      rw [replica] at selected
      refine catalogued.drainer rfl rfl rfl ?_ ?_
        (catalogued.batches_of_shrinks (shrinks_of_update rfl (Or.inr rfl)))
      · apply List.append_subset.mpr
        refine ⟨catalogued.sent, ?_⟩
        intro row membership
        have own := mem_ofAggregate.mpr ⟨membership, rfl⟩
        have inBatch := (prefix_of_partialWrite partially row.aggregateID).subset own
        exact selected (mem_ofAggregate.mp inBatch).1
      · intro logged membership
        exact List.subset_append_of_subset_left _ (catalogued.logged logged membership)
  | update now batch replica =>
      refine catalogued.drainer rfl rfl rfl catalogued.sent catalogued.logged
        (catalogued.batches_of_shrinks (shrinks_of_update rfl (Or.inl ?_)))
      rw [replica]
      rfl
  | commit now batch result replica =>
      exact catalogued.drainer (markProcessed_rows now batch state.table) rfl rfl
        catalogued.sent catalogued.logged
        (catalogued.batches_of_shrinks (shrinks_of_update rfl (Or.inr rfl)))
  | sessionLost =>
      exact catalogued.drainer rfl rfl rfl catalogued.sent catalogued.logged
        (catalogued.batches_of_shrinks (shrinks_of_update rfl (Or.inl rfl)))

theorem Ordered.drainStep {deployment : Deployment} {state next : State}
    {drainer : Nat} (ordered : Ordered state) (consistent : Consistent state)
    (catalogued : Catalogued state) (exclusive : Exclusive state)
    (taken : DrainStep deployment state drainer next) : Ordered next := by
  cases taken with
  | begin | lock | release | commit =>
      exact ordered.move consistent catalogued rfl rfl
        (shrinks_of_update rfl (Or.inr rfl))
  | select now replica =>
      exact ordered.select consistent catalogued (exclusive.rowLocks_eq_nil replica)
        rfl rfl rfl rfl
  | publish now batch alive replica =>
      refine ordered.write consistent catalogued drainer batch ?_ rfl rfl
        (shrinks_of_update rfl (Or.inl ?_))
      · intro aggregateID
        rw [replica]
        exact List.prefix_rfl
      · rw [replica]
        rfl
  | publishError now batch written alive replica partially =>
      refine ordered.write consistent catalogued drainer written ?_ rfl rfl
        (shrinks_of_update rfl (Or.inr rfl))
      intro aggregateID
      rw [replica]
      exact prefix_of_partialWrite partially aggregateID
  | update now batch replica =>
      refine ordered.move consistent catalogued rfl rfl
        (shrinks_of_update rfl (Or.inl ?_))
      rw [replica]
      rfl
  | sessionLost =>
      exact ordered.move consistent catalogued rfl rfl
        (shrinks_of_update rfl (Or.inl rfl))

theorem Tracked.expireStep {deployment : Deployment} {state next : State}
    {expirer : Nat} {action : ExpireAction} (tracked : Tracked state)
    (taken : expireStep deployment state expirer action = some next) :
    Tracked next := by
  have consistent := tracked.consistent.expireStep taken
  obtain ⟨table, expirers, rfl, change⟩ := expireStep_cases taken
  have sublist : (table.map Stored.row).Sublist (state.table.map Stored.row) := by
    rcases change with rfl | ⟨now, rfl⟩
    · exact List.Sublist.refl _
    · exact (List.filter_sublist).map Stored.row
  refine ⟨consistent, ?_, tracked.exclusive.frame rfl rfl rfl,
    tracked.ordered.move tracked.consistent tracked.catalogued rfl rfl
      fun _ => Or.inl rfl⟩
  exact { tracked.catalogued with rows := sublist.trans tracked.catalogued.rows }

theorem Tracked.step {deployment : Deployment} {state next : State} {label : Label}
    (tracked : Tracked state) (guarded : CommitsAboveUnpublished state label)
    (taken : step deployment state label = some next) : Tracked next := by
  cases label with
  | produce producer action => exact tracked.produceStep guarded taken
  | drain drainer action =>
      have inversion := drainStep_cases taken
      exact ⟨tracked.consistent.drainStep taken,
        tracked.catalogued.drainStep tracked.consistent inversion,
        tracked.exclusive.drainStep inversion,
        tracked.ordered.drainStep tracked.consistent tracked.catalogued
          tracked.exclusive inversion⟩
  | expire expirer action => exact tracked.expireStep taken

/-- In every run whose producers commit above the unpublished rows, rows are first
published in commit order. -/
theorem publishedInCommitOrder_of_run (deployment : Deployment) (schedule : List Label)
    (final : State)
    (guarded : Meets (step deployment) CommitsAboveUnpublished initial schedule)
    (reached : run (step deployment) initial schedule = some final) :
    PublishedInCommitOrder final := by
  have tracked : Tracked final :=
    invariant_of_meets (fun _ _ _ guarded tracked taken => tracked.step guarded taken)
      schedule initial final guarded
      ⟨consistent_initial, catalogued_initial, exclusive_initial, ordered_initial⟩ reached
  intro aggregateID
  exact (tracked.ordered.inStep aggregateID).isPrefix

/-- Two transactions on one aggregate that do not overlap, and one drain cycle. -/
def sequentialWriters : List Label :=
  [.produce 0 (.begin 1), .produce 0 (.insert ⟨1, "agent", 7, "agent.created", "x"⟩),
    .produce 0 .commit,
    .produce 1 (.begin 2), .produce 1 (.insert ⟨2, "agent", 7, "agent.revoked", "y"⟩),
    .produce 1 .commit,
    .drain 0 (.begin 3), .drain 0 .lock, .drain 0 .select, .drain 0 .publish,
    .drain 0 .update, .drain 0 (.commit .ok)]

theorem publishedInCommitOrder_sequentialWriters :
    ∃ final, run (step .default) initial sequentialWriters = some final ∧
      final.kafka.length = 2 ∧ PublishedInCommitOrder final :=
  ⟨_, rfl, rfl, publishedInCommitOrder_of_run .default sequentialWriters _
    (by decide) rfl⟩

/-- The transaction that starts first commits last. -/
def overtakingWriters : List Label :=
  [.produce 0 (.begin 1), .produce 1 (.begin 2),
    .produce 1 (.insert ⟨1, "agent", 7, "agent.created", "x"⟩), .produce 1 .commit,
    .produce 0 (.insert ⟨2, "agent", 7, "agent.revoked", "y"⟩), .produce 0 .commit,
    .drain 0 (.begin 3), .drain 0 .lock, .drain 0 .select, .drain 0 .publish,
    .drain 0 .update, .drain 0 (.commit .ok)]

theorem publishedOutOfOrder_overtakingWriters :
    ∃ final, run (step .default) initial overtakingWriters = some final ∧
      ¬ PublishedInCommitOrder final := by
  refine ⟨_, rfl, ?_⟩
  intro inOrder
  exact absurd (inOrder 7) (by decide)

end GitScale.Outbox
