import GitScale.Outbox.System

/-!
# No outbox event is lost

The invariant ties every row that is marked processed, or that has left the table,
to a `PublishBatch` call that returned nil.  Replicas change only their own phase
and locks, apart from the commit that marks a batch, so one frame lemma covers
most of `drainBatch`.
-/

namespace GitScale.Outbox

/-- Some `PublishBatch` call that contained the row has returned nil. -/
def Published (state : State) (row : OutboxRow) : Prop :=
  ∃ batch ∈ state.published, row ∈ batch

/-- The row was committed, or inserted by a transaction that is still open. -/
def Inserted (state : State) (row : OutboxRow) : Prop :=
  row ∈ state.committed ∨
    ∃ producer transaction, state.producers producer = some transaction ∧
      row ∈ transaction.inserted

/-- A row that is marked or deleted was published, and every other committed row is
present and unprocessed. -/
structure NoEventLost (state : State) : Prop where
  processed : ∀ stored ∈ state.table, stored.processedAt ≠ none →
    Published state stored.row
  deleted : ∀ row ∈ state.committed, (∀ stored ∈ state.table, stored.row ≠ row) →
    Published state row
  pending : ∀ row ∈ state.committed, ¬ Published state row →
    ⟨row, none⟩ ∈ state.table

/-- The invariant of the system. -/
structure Consistent (state : State) : Prop where
  issued : ∀ row, Inserted state row → row.id < state.nextID
  unique : ∀ left right, Inserted state left → Inserted state right →
    left.id = right.id → left = right
  recorded : ∀ stored ∈ state.table, stored.row ∈ state.committed
  processed : ∀ stored ∈ state.table, stored.processedAt ≠ none →
    Published state stored.row
  present : ∀ row ∈ state.committed, ⟨row, none⟩ ∈ state.table ∨ Published state row
  selected : ∀ drainer, ∀ row ∈ (state.drainers drainer).phase.batch,
    row ∈ state.committed
  acked : ∀ drainer, (state.drainers drainer).phase.acked →
    (state.drainers drainer).phase.batch ∈ state.published

theorem consistent_initial : Consistent initial where
  issued row inserted := by simp [Inserted, initial] at inserted
  unique left right inserted := by simp [Inserted, initial] at inserted
  recorded := by simp [initial]
  processed := by simp [initial]
  present := by simp [initial]
  selected := by simp [initial, Phase.batch]
  acked := by simp [initial, Phase.acked]

theorem Consistent.noEventLost {state : State} (consistent : Consistent state) :
    NoEventLost state where
  processed := consistent.processed
  deleted row committed absent := by
    rcases consistent.present row committed with present | published
    · exact absurd rfl (absent _ present)
    · exact published
  pending row committed unpublished :=
    (consistent.present row committed).resolve_right unpublished

/-! ## Frame lemmas -/

/-- A replica may change its phase, the locks and the Kafka log as long as its
batch is committed and, once acknowledged, logged.  `published` may only grow. -/
theorem Consistent.drainer {state next : State} (consistent : Consistent state)
    {drainer : Nat} {replica : Drainer}
    (table : next.table = state.table) (nextID : next.nextID = state.nextID)
    (producers : next.producers = state.producers)
    (committed : next.committed = state.committed)
    (published : state.published ⊆ next.published)
    (drainers : next.drainers = Function.update state.drainers drainer replica)
    (selected : ∀ row ∈ replica.phase.batch, row ∈ state.committed)
    (acked : replica.phase.acked → replica.phase.batch ∈ next.published) :
    Consistent next := by
  have grows : ∀ row, Published state row → Published next row := by
    rintro row ⟨batch, logged, membership⟩
    exact ⟨batch, published logged, membership⟩
  have inserted : ∀ row, Inserted next row → Inserted state row := by
    intro row
    simp only [Inserted, committed, producers]
    exact id
  constructor
  · intro row known
    rw [nextID]
    exact consistent.issued row (inserted row known)
  · intro left right knownLeft knownRight
    exact consistent.unique left right (inserted left knownLeft)
      (inserted right knownRight)
  · rw [table, committed]
    exact consistent.recorded
  · rw [table]
    intro stored membership marked
    exact grows _ (consistent.processed stored membership marked)
  · rw [table, committed]
    intro row membership
    exact (consistent.present row membership).imp_right (grows row)
  · intro other row membership
    rw [committed]
    rw [drainers] at membership
    by_cases same : other = drainer
    · subst same
      rw [Function.update_self] at membership
      exact selected row membership
    · rw [Function.update_of_ne same] at membership
      exact consistent.selected other row membership
  · intro other
    rw [drainers]
    by_cases same : other = drainer
    · subst same
      rw [Function.update_self]
      exact acked
    · rw [Function.update_of_ne same]
      intro done
      exact published (consistent.acked other done)

/-- Ending a replica's transaction. -/
theorem Consistent.release {state : State} (consistent : Consistent state)
    (drainer : Nat) (result : Option DrainResult) :
    Consistent (release state drainer result) :=
  consistent.drainer rfl rfl rfl rfl (fun _ membership => membership) rfl
    (by simp [Phase.batch]) (by simp [Phase.acked])

/-- A step that only removes or marks rows of the table. -/
theorem Consistent.retable {state : State} (consistent : Consistent state)
    {table : List Stored}
    (recorded : ∀ stored ∈ table, stored.row ∈ state.committed)
    (processed : ∀ stored ∈ table, stored.processedAt ≠ none →
      Published state stored.row)
    (present : ∀ row, ⟨row, none⟩ ∈ state.table →
      ⟨row, none⟩ ∈ table ∨ Published state row) :
    Consistent { state with table := table } where
  issued := consistent.issued
  unique := consistent.unique
  recorded := recorded
  processed := processed
  present row committed :=
    (consistent.present row committed).elim (present row) Or.inr
  selected := consistent.selected
  acked := consistent.acked

/-! ## Producers -/

/-- Beginning a transaction and aborting one insert nothing. -/
theorem Consistent.setProducer {state : State} (consistent : Consistent state)
    (producer : Nat) (transaction : Option Producing)
    (blank : ∀ running, transaction = some running → running.inserted = []) :
    Consistent { state with
      producers := Function.update state.producers producer transaction } := by
  have inserted : ∀ row, Inserted { state with
      producers := Function.update state.producers producer transaction } row →
      Inserted state row := by
    rintro row (committed | ⟨other, running, present, membership⟩)
    · exact Or.inl committed
    · by_cases same : other = producer
      · subst same
        simp only [Function.update_self] at present
        rw [blank running present] at membership
        exact absurd membership List.not_mem_nil
      · simp only [Function.update_of_ne same] at present
        exact Or.inr ⟨other, running, present, membership⟩
  constructor
  · intro row known
    exact consistent.issued row (inserted row known)
  · intro left right knownLeft knownRight
    exact consistent.unique left right (inserted left knownLeft)
      (inserted right knownRight)
  · exact consistent.recorded
  · exact consistent.processed
  · exact consistent.present
  · exact consistent.selected
  · exact consistent.acked

/-- An insert takes the next sequence value, which no inserted row has. -/
theorem Consistent.insert {state : State} (consistent : Consistent state)
    {producer : Nat} {transaction : Producing}
    (running : state.producers producer = some transaction) (row : OutboxRow)
    (issued : row.id = state.nextID) :
    Consistent { state with
      nextID := state.nextID + 1
      producers := Function.update state.producers producer
        (some { transaction with inserted := transaction.inserted ++ [row] }) } := by
  have known : ∀ candidate, Inserted { state with
      nextID := state.nextID + 1
      producers := Function.update state.producers producer
        (some { transaction with inserted := transaction.inserted ++ [row] }) } candidate →
      Inserted state candidate ∨ candidate = row := by
    rintro candidate (committed | ⟨other, otherTransaction, present, membership⟩)
    · exact Or.inl (Or.inl committed)
    · by_cases same : other = producer
      · subst same
        simp only [Function.update_self, Option.some.injEq] at present
        subst present
        rcases List.mem_append.mp membership with old | new
        · exact Or.inl (Or.inr ⟨other, transaction, running, old⟩)
        · exact Or.inr (List.mem_singleton.mp new)
      · simp only [Function.update_of_ne same] at present
        exact Or.inl (Or.inr ⟨other, otherTransaction, present, membership⟩)
  constructor
  · intro candidate inserted
    rcases known candidate inserted with old | rfl
    · exact Nat.lt_succ_of_lt (consistent.issued candidate old)
    · exact Nat.lt_succ_of_le issued.le
  · intro left right insertedLeft insertedRight equal
    rcases known left insertedLeft with oldLeft | rfl
    · rcases known right insertedRight with oldRight | rfl
      · exact consistent.unique left right oldLeft oldRight equal
      · have below := consistent.issued left oldLeft
        omega
    · rcases known right insertedRight with oldRight | rfl
      · have below := consistent.issued right oldRight
        omega
      · rfl
  · exact consistent.recorded
  · exact consistent.processed
  · exact consistent.present
  · exact consistent.selected
  · exact consistent.acked

/-- A commit turns the rows of the transaction into unprocessed rows of the
table. -/
theorem Consistent.commit {state : State} (consistent : Consistent state)
    {producer : Nat} {transaction : Producing}
    (running : state.producers producer = some transaction) :
    Consistent { state with
      table := state.table ++ transaction.inserted.map fun row => ⟨row, none⟩
      committed := state.committed ++ transaction.inserted
      producers := Function.update state.producers producer none } := by
  have inserted : ∀ row, Inserted { state with
      table := state.table ++ transaction.inserted.map fun row => ⟨row, none⟩
      committed := state.committed ++ transaction.inserted
      producers := Function.update state.producers producer none } row →
      Inserted state row := by
    rintro row (committed | ⟨other, otherTransaction, present, membership⟩)
    · rcases List.mem_append.mp committed with old | new
      · exact Or.inl old
      · exact Or.inr ⟨producer, transaction, running, new⟩
    · by_cases same : other = producer
      · subst same
        simp at present
      · simp only [Function.update_of_ne same] at present
        exact Or.inr ⟨other, otherTransaction, present, membership⟩
  constructor
  · intro row known
    exact consistent.issued row (inserted row known)
  · intro left right knownLeft knownRight
    exact consistent.unique left right (inserted left knownLeft)
      (inserted right knownRight)
  · intro stored membership
    rcases List.mem_append.mp membership with old | new
    · exact List.mem_append_left _ (consistent.recorded stored old)
    · obtain ⟨row, present, rfl⟩ := List.mem_map.mp new
      exact List.mem_append_right _ present
  · intro stored membership marked
    rcases List.mem_append.mp membership with old | new
    · exact consistent.processed stored old marked
    · obtain ⟨row, present, rfl⟩ := List.mem_map.mp new
      exact absurd rfl marked
  · intro row membership
    rcases List.mem_append.mp membership with old | new
    · exact (consistent.present row old).imp_left (List.mem_append_left _)
    · exact Or.inl (List.mem_append_right _ (List.mem_map.mpr ⟨row, new, rfl⟩))
  · intro drainer row membership
    exact List.mem_append_left _ (consistent.selected drainer row membership)
  · exact consistent.acked

theorem Consistent.produceStep {state next : State} {producer : Nat}
    {action : ProduceAction} (consistent : Consistent state)
    (taken : produceStep state producer action = some next) : Consistent next := by
  cases produceStep_cases taken with
  | begin now idle =>
      apply consistent.setProducer
      intro running present
      cases present
      rfl
  | insert event transaction running => exact consistent.insert running _ rfl
  | commit transaction running => exact consistent.commit running
  | abort =>
      apply consistent.setProducer
      intro running present
      cases present

/-! ## Replicas -/

theorem mem_candidates {state : State} {row : OutboxRow} :
    row ∈ candidates state ↔
      ⟨row, none⟩ ∈ state.table ∧ row.id ∉ state.rowLocks.map Prod.fst := by
  constructor
  · intro membership
    obtain ⟨stored, kept, rfl⟩ := List.mem_map.mp membership
    obtain ⟨present, conditions⟩ := List.mem_filter.mp kept
    obtain ⟨row, processedAt⟩ := stored
    simp only [Bool.and_eq_true, Option.isNone_iff_eq_none, Bool.not_eq_true',
      List.contains_eq_mem, decide_eq_false_iff_not] at conditions
    obtain ⟨rfl, unlocked⟩ := conditions
    exact ⟨present, unlocked⟩
  · rintro ⟨present, unlocked⟩
    apply List.mem_map.mpr
    refine ⟨⟨row, none⟩, ?_, rfl⟩
    apply List.mem_filter.mpr
    simp only [Option.isNone_none, List.contains_eq_mem, unlocked, decide_false,
      Bool.not_false, Bool.and_self, and_true]
    exact present

theorem candidate_of_selectBatch {state : State} {limit : Nat} {row : OutboxRow}
    (membership : row ∈ selectBatch limit state) : row ∈ candidates state := by
  have sorted := List.mem_of_mem_take membership
  exact (List.mem_insertionSort _).mp sorted

/-- The commit of a published batch marks only published rows. -/
theorem Consistent.markProcessed {state : State} (consistent : Consistent state)
    (now : Time) {batch : List OutboxRow}
    (committed : ∀ row ∈ batch, row ∈ state.committed)
    (logged : batch ∈ state.published) :
    Consistent { state with table := markProcessed now batch state.table } := by
  have marks : ∀ stored ∈ state.table,
      (batch.map OutboxRow.id).contains stored.row.id → Published state stored.row := by
    intro stored present contained
    simp only [List.contains_eq_mem, decide_eq_true_eq, List.mem_map] at contained
    obtain ⟨row, membership, equal⟩ := contained
    have same := consistent.unique row stored.row (Or.inl (committed row membership))
      (Or.inl (consistent.recorded stored present)) equal
    exact ⟨batch, logged, same ▸ membership⟩
  apply consistent.retable
  · intro stored membership
    obtain ⟨original, present, rfl⟩ := List.mem_map.mp membership
    have recorded := consistent.recorded original present
    split
    · exact recorded
    · exact recorded
  · intro stored membership marked
    obtain ⟨original, present, rfl⟩ := List.mem_map.mp membership
    split at marked
    · rename_i contained
      rw [if_pos contained]
      exact marks original present contained
    · rename_i contained
      rw [if_neg contained]
      exact consistent.processed original present marked
  · intro row present
    by_cases contained : (batch.map OutboxRow.id).contains row.id
    · exact Or.inr (marks ⟨row, none⟩ present contained)
    · apply Or.inl
      apply List.mem_map.mpr
      exact ⟨⟨row, none⟩, present, if_neg contained⟩

theorem Consistent.drainStep {deployment : Deployment} {state next : State}
    {drainer : Nat} {action : DrainAction} (consistent : Consistent state)
    (taken : drainStep deployment state drainer action = some next) :
    Consistent next := by
  have selected := consistent.selected drainer
  have acked := consistent.acked drainer
  cases drainStep_cases taken with
  | begin | lock =>
      exact consistent.drainer rfl rfl rfl rfl (fun _ membership => membership) rfl
        (by simp [Phase.batch]) (by simp [Phase.acked])
  | release result => exact consistent.release drainer result
  | select now replica =>
      refine consistent.drainer rfl rfl rfl rfl (fun _ membership => membership) rfl
        ?_ (by simp [Phase.acked])
      intro row membership
      have candidate := mem_candidates.mp (candidate_of_selectBatch membership)
      exact consistent.recorded _ candidate.1
  | publish now batch alive replica =>
      rw [replica] at selected
      exact consistent.drainer rfl rfl rfl rfl (List.subset_append_left _ _) rfl
        selected (by simp [Phase.batch])
  | publishError now batch written alive replica partially =>
      exact consistent.drainer rfl rfl rfl rfl (fun _ membership => membership) rfl
        (by simp [Phase.batch]) (by simp [Phase.acked])
  | update now batch replica =>
      rw [replica] at selected acked
      exact consistent.drainer rfl rfl rfl rfl (fun _ membership => membership) rfl
        selected acked
  | commit now batch result replica =>
      rw [replica] at selected acked
      have marked := consistent.markProcessed now selected (acked rfl)
      exact marked.release drainer (some result)
  | sessionLost =>
      exact consistent.drainer rfl rfl rfl rfl (fun _ membership => membership) rfl
        selected acked

/-! ## Expirers -/

/-- Only processed rows expire. -/
theorem Consistent.expireBatch {state : State} (consistent : Consistent state)
    (now ttl : Time) (limit : Nat) :
    Consistent { state with table := expireBatch now ttl limit state.table } := by
  apply consistent.retable
  · intro stored membership
    exact consistent.recorded stored (List.mem_of_mem_filter membership)
  · intro stored membership
    exact consistent.processed stored (List.mem_of_mem_filter membership)
  · intro row present
    by_cases victim : (victims now ttl limit state.table).contains row.id
    · apply Or.inr
      simp only [List.contains_eq_mem, decide_eq_true_eq] at victim
      have sorted := List.mem_of_mem_take victim
      rw [List.mem_insertionSort] at sorted
      obtain ⟨stored, kept, equal⟩ := List.mem_map.mp sorted
      obtain ⟨stays, old⟩ := List.mem_filter.mp kept
      have same := consistent.unique stored.row row
        (Or.inl (consistent.recorded stored stays))
        (Or.inl (consistent.recorded _ present)) equal
      have marked : stored.processedAt ≠ none := by
        intro unmarked
        simp [expired, unmarked] at old
      exact same ▸ consistent.processed stored stays marked
    · apply Or.inl
      apply List.mem_filter.mpr
      exact ⟨present, by simpa using victim⟩

theorem Consistent.setExpirers {state : State} (consistent : Consistent state)
    (expirers : Nat → Option Nat) : Consistent { state with expirers := expirers } :=
  ⟨consistent.issued, consistent.unique, consistent.recorded, consistent.processed,
    consistent.present, consistent.selected, consistent.acked⟩

theorem Consistent.expireStep {deployment : Deployment} {state next : State}
    {expirer : Nat} {action : ExpireAction} (consistent : Consistent state)
    (taken : expireStep deployment state expirer action = some next) :
    Consistent next := by
  obtain ⟨table, expirers, rfl, rfl | ⟨now, rfl⟩⟩ := expireStep_cases taken
  · exact consistent.setExpirers expirers
  · exact (consistent.expireBatch now _ _).setExpirers expirers

/-! ## Whole runs -/

theorem Consistent.step {deployment : Deployment} {state next : State} {label : Label}
    (consistent : Consistent state) (taken : step deployment state label = some next) :
    Consistent next := by
  cases label with
  | produce producer action => exact consistent.produceStep taken
  | drain drainer action => exact consistent.drainStep taken
  | expire expirer action => exact consistent.expireStep taken

/-- In every interleaving, no event is lost. -/
theorem noEventLost_of_run (deployment : Deployment) (schedule : List Label)
    (final : State)
    (reached : Foundation.run (step deployment) initial schedule = some final) :
    NoEventLost final := by
  have consistent : Consistent final :=
    Foundation.invariant_of_run
      (fun _ _ _ consistent taken => Consistent.step consistent taken)
      schedule initial final consistent_initial reached
  exact consistent.noEventLost

/-- One event from its insert to its deletion: a first replica publishes and
crashes, a second one publishes again and commits, and the row expires a day
later. -/
def lifecycle : List Label :=
  [.produce 0 (.begin 1), .produce 0 (.insert ⟨1, "user", 7, "user.created", "x"⟩),
    .produce 0 .commit,
    .drain 0 (.begin 2), .drain 0 .lock, .drain 0 .select, .drain 0 .publish,
    .drain 0 .crash,
    .drain 1 (.begin 3), .drain 1 .lock, .drain 1 .select, .drain 1 .publish,
    .drain 1 .update, .drain 1 (.commit .ok),
    .expire 0 .begin, .expire 0 (.batch 86400000000004 .ok)]

theorem noEventLost_lifecycle :
    ∃ final, Foundation.run (step .default) initial lifecycle = some final ∧
      final.committed.length = 1 ∧ final.table = [] ∧ NoEventLost final :=
  ⟨_, rfl, rfl, rfl, noEventLost_of_run .default lifecycle _ rfl⟩

end GitScale.Outbox
