import GitScale.Outbox.System

/-!
# One writer for every domain

`StartAll` starts one consumer per domain against a single Kafka producer, and
`PublishBatch` passes its topic by assigning a field of the shared writer.  A call
is therefore two steps, the assignment and the write, and the consumers interleave
between them.
-/

namespace GitScale.Outbox

/-- `store.Domain`. -/
inductive Domain where
  | identity
  | repositories
  | collaboration
  | ci
  | billing
  | git
  deriving DecidableEq, Repr

/-- The text of a domain. -/
def Domain.name : Domain → String
  | identity => "identity"
  | repositories => "repositories"
  | collaboration => "collaboration"
  | ci => "ci"
  | billing => "billing"
  | git => "git"

/-- `Domain.OutboxTable`. -/
def Domain.outboxTable (domain : Domain) : String :=
  domain.name ++ "." ++ domain.name ++ "_outbox"

/-- `wiring.DomainConfig`. -/
structure DomainConfig where
  domain : Domain
  table : String
  topic : String
  deriving DecidableEq, Repr

/-- `wiring.AllDomains`. -/
def allDomains : List DomainConfig :=
  [⟨.identity, Domain.identity.outboxTable, "gitscale.identity.events"⟩,
    ⟨.repositories, Domain.repositories.outboxTable, "gitscale.repositories.events"⟩,
    ⟨.collaboration, Domain.collaboration.outboxTable, "gitscale.collaboration.events"⟩,
    ⟨.ci, Domain.ci.outboxTable, "gitscale.ci.events"⟩,
    ⟨.billing, Domain.billing.outboxTable, "gitscale.billing.events"⟩,
    ⟨.git, Domain.git.outboxTable, "gitscale.git.metering.events"⟩]

/-- `kafkadata.EventEnvelope`, as far as `PublishBatch` fills it in. -/
structure EventEnvelope where
  eventID : UUID
  aggregateType : String
  aggregateID : UUID
  eventType : String
  schemaVersion : String
  payload : String
  occurredAt : Time
  publishedAt : Time
  deriving DecidableEq, Repr

/-- A Kafka message; the key selects the partition. -/
structure Message where
  key : UUID
  value : EventEnvelope
  deriving DecidableEq, Repr

/-- The message that `PublishBatch` builds from a row. -/
def messageOf (now : Time) (row : OutboxRow) : Message where
  key := row.aggregateID
  value :=
    { eventID := row.eventID
      aggregateType := row.aggregateType
      aggregateID := row.aggregateID
      eventType := row.eventType
      schemaVersion := "v1"
      payload := row.payload
      occurredAt := row.createdAt
      publishedAt := now }

namespace Topics

variable {configs : List DomainConfig}

/-- A consumer started by `StartAll`, by its place in the list. -/
abbrev Consumer (configs : List DomainConfig) := Fin configs.length

/-- `cfg.Topic` of a consumer. -/
def topicOf (consumer : Consumer configs) : String := (configs.get consumer).topic

/-- Where a consumer stands in its drain cycle.  `assigned` lies between the two
steps of `PublishBatch`. -/
inductive Phase where
  | idle
  | selected (batch : List OutboxRow)
  | assigned (batch : List OutboxRow)
  | published (batch : List OutboxRow)
  deriving DecidableEq, Repr

/-- A message in Kafka: where it went, and the row that it was built from. -/
structure Delivery (configs : List DomainConfig) where
  topic : String
  consumer : Consumer configs
  row : OutboxRow
  message : Message
  deriving DecidableEq, Repr

/-- The shared writer, the consumers, the messages delivered, and the rows marked
processed in each consumer's table. -/
structure State (configs : List DomainConfig) where
  writerTopic : String
  consumers : Consumer configs → Phase
  delivered : List (Delivery configs)
  processed : List (Consumer configs × OutboxRow)

/-- A new writer has no topic. -/
def initial : State configs where
  writerTopic := ""
  consumers _ := .idle
  delivered := []
  processed := []

/-- The steps of one drain cycle.  `write` is a `WriteMessages` call that returns
nil; `writeError` stands for every error of `PublishBatch` after the assignment,
with the rows that were written all the same. -/
inductive Action where
  | select (batch : List OutboxRow)
  | assignTopic
  | write (now : Time)
  | writeError (now : Time) (written : List OutboxRow)
  | commit
  | abort
  deriving DecidableEq, Repr

/-- One consumer takes one step. -/
structure Label (configs : List DomainConfig) where
  consumer : Consumer configs
  action : Action
  deriving DecidableEq, Repr

/-- The messages of `rows`, sent to the writer's current topic. -/
def deliveries (state : State configs) (consumer : Consumer configs) (now : Time)
    (rows : List OutboxRow) : List (Delivery configs) :=
  rows.map fun row => ⟨state.writerTopic, consumer, row, messageOf now row⟩

/-- Move one consumer to another phase. -/
def setPhase (state : State configs) (consumer : Consumer configs) (phase : Phase) :
    State configs :=
  { state with consumers := Function.update state.consumers consumer phase }

/-- One step of the process. -/
def step (state : State configs) (label : Label configs) : Option (State configs) :=
  let consumer := label.consumer
  match label.action, state.consumers consumer with
  | .select batch, .idle =>
      if batch.isEmpty then none else some (setPhase state consumer (.selected batch))
  | .assignTopic, .selected batch =>
      some { setPhase state consumer (.assigned batch) with
        writerTopic := topicOf consumer }
  | .write now, .assigned batch =>
      some { setPhase state consumer (.published batch) with
        delivered := state.delivered ++ deliveries state consumer now batch }
  | .writeError now written, .assigned batch =>
      if written.all fun row => batch.contains row then
        some { setPhase state consumer .idle with
          delivered := state.delivered ++ deliveries state consumer now written }
      else none
  | .commit, .published batch =>
      some { setPhase state consumer .idle with
        processed := state.processed ++ batch.map fun row => (consumer, row) }
  | .abort, _ => some (setPhase state consumer .idle)
  | _, _ => none

/-- Every message went to the topic of the consumer whose row it carries, and every
processed row has such a message. -/
structure TopicIsolated (state : State configs) : Prop where
  delivered : ∀ delivery ∈ state.delivered, delivery.topic = topicOf delivery.consumer
  processed : ∀ entry ∈ state.processed, ∃ delivery ∈ state.delivered,
    delivery.consumer = entry.1 ∧ delivery.row = entry.2 ∧
      delivery.topic = topicOf entry.1

/-- The phase between the two steps of `PublishBatch`. -/
def Phase.publishing : Phase → Bool
  | assigned _ => true
  | idle | selected _ | published _ => false

/-- A call assigns its topic only while no call for a different topic stands
between its assignment and its write. -/
def AssignsAlone (state : State configs) (label : Label configs) : Prop :=
  label.action = .assignTopic → ∀ other, (state.consumers other).publishing →
    topicOf other = topicOf label.consumer

instance (state : State configs) (label : Label configs) :
    Decidable (AssignsAlone state label) :=
  inferInstanceAs (Decidable (label.action = .assignTopic →
    ∀ other, (state.consumers other).publishing →
      topicOf other = topicOf label.consumer))

/-- The invariant: a call that is about to write finds its own topic in the writer,
and an acknowledged batch is in Kafka. -/
structure Routed (state : State configs) : Prop where
  isolated : TopicIsolated state
  current : ∀ consumer, (state.consumers consumer).publishing →
    state.writerTopic = topicOf consumer
  acked : ∀ consumer batch, state.consumers consumer = .published batch →
    ∀ row ∈ batch, ∃ delivery ∈ state.delivered,
      delivery.consumer = consumer ∧ delivery.row = row ∧
        delivery.topic = topicOf consumer

theorem routed_initial : Routed (initial : State configs) where
  isolated := ⟨by simp [initial], by simp [initial]⟩
  current := by simp [initial, Phase.publishing]
  acked := by simp [initial]

/-- Moving one consumer to a phase that promises nothing. -/
theorem Routed.setPhase {state : State configs} (routed : Routed state)
    (consumer : Consumer configs) (phase : Phase) (waiting : phase.publishing = false)
    (unpublished : ∀ batch, phase ≠ .published batch) :
    Routed (setPhase state consumer phase) where
  isolated := ⟨routed.isolated.delivered, routed.isolated.processed⟩
  current other := by
    by_cases same : other = consumer
    · simp [Topics.setPhase, same, waiting]
    · simpa [Topics.setPhase, same] using routed.current other
  acked other batch := by
    by_cases same : other = consumer
    · intro equal
      simp only [Topics.setPhase, same, Function.update_self] at equal
      exact absurd equal (unpublished batch)
    · simpa [Topics.setPhase, same] using routed.acked other batch

/-- Kafka may receive more messages as long as they are routed right. -/
theorem Routed.deliver {state : State configs} (routed : Routed state)
    (more : List (Delivery configs))
    (right : ∀ delivery ∈ more, delivery.topic = topicOf delivery.consumer) :
    Routed { state with delivered := state.delivered ++ more } where
  isolated := by
    constructor
    · intro delivery membership
      rcases List.mem_append.mp membership with old | new
      · exact routed.isolated.delivered delivery old
      · exact right delivery new
    · intro entry membership
      rcases routed.isolated.processed entry membership with ⟨delivery, present, rest⟩
      exact ⟨delivery, List.mem_append_left _ present, rest⟩
  current := routed.current
  acked consumer batch equal row membership := by
    rcases routed.acked consumer batch equal row membership with ⟨delivery, present, rest⟩
    exact ⟨delivery, List.mem_append_left _ present, rest⟩

theorem deliveries_topic {state : State configs} {consumer : Consumer configs}
    (current : state.writerTopic = topicOf consumer) (now : Time)
    (rows : List OutboxRow) :
    ∀ delivery ∈ deliveries state consumer now rows,
      delivery.topic = topicOf delivery.consumer := by
  intro delivery membership
  rcases List.mem_map.mp membership with ⟨row, -, rfl⟩
  exact current

/-- An assignment that is alone leaves every other call its own topic. -/
theorem Routed.assignTopic {state : State configs} (routed : Routed state)
    (consumer : Consumer configs) (batch : List OutboxRow)
    (alone : ∀ other, (state.consumers other).publishing →
      topicOf other = topicOf consumer) :
    Routed { Topics.setPhase state consumer (.assigned batch) with
      writerTopic := topicOf consumer } where
  isolated := ⟨routed.isolated.delivered, routed.isolated.processed⟩
  current other publishing := by
    by_cases same : other = consumer
    · rw [same]
    · simp only [Topics.setPhase, Function.update_of_ne same] at publishing
      exact (alone other publishing).symm
  acked other published equal := by
    by_cases same : other = consumer
    · simp [Topics.setPhase, same] at equal
    · simp only [Topics.setPhase, Function.update_of_ne same] at equal
      exact routed.acked other published equal

/-- A write to the right topic acknowledges the batch. -/
theorem Routed.write {state : State configs} (routed : Routed state)
    (consumer : Consumer configs) (now : Time) (batch : List OutboxRow)
    (assigned : state.consumers consumer = .assigned batch) :
    Routed { Topics.setPhase state consumer (.published batch) with
      delivered := state.delivered ++ deliveries state consumer now batch } := by
  have current : state.writerTopic = topicOf consumer := by
    apply routed.current consumer
    rw [assigned]
    rfl
  have delivered := routed.deliver (deliveries state consumer now batch)
    (deliveries_topic current now batch)
  constructor
  · exact ⟨delivered.isolated.delivered, delivered.isolated.processed⟩
  · intro other publishing
    by_cases same : other = consumer
    · rw [same]
      exact current
    · simp only [Topics.setPhase, Function.update_of_ne same] at publishing
      exact routed.current other publishing
  · intro other published equal row membership
    by_cases same : other = consumer
    · subst same
      simp only [Topics.setPhase, Function.update_self, Phase.published.injEq] at equal
      subst equal
      refine ⟨⟨state.writerTopic, other, row, messageOf now row⟩, ?_, rfl, rfl, current⟩
      exact List.mem_append_right _ (List.mem_map.mpr ⟨row, membership, rfl⟩)
    · simp only [Topics.setPhase, Function.update_of_ne same] at equal
      exact delivered.acked other published equal row membership

/-- Marking an acknowledged batch processed. -/
theorem Routed.commit {state : State configs} (routed : Routed state)
    (consumer : Consumer configs) (batch : List OutboxRow)
    (published : state.consumers consumer = .published batch) :
    Routed { Topics.setPhase state consumer .idle with
      processed := state.processed ++ batch.map fun row => (consumer, row) } := by
  have idle := routed.setPhase consumer .idle rfl (by simp)
  refine ⟨⟨idle.isolated.delivered, ?_⟩, idle.current, idle.acked⟩
  intro entry membership
  rcases List.mem_append.mp membership with old | new
  · exact routed.isolated.processed entry old
  · rcases List.mem_map.mp new with ⟨row, present, rfl⟩
    exact routed.acked consumer batch published row present

theorem Routed.step {state next : State configs} {label : Label configs}
    (routed : Routed state) (guarded : AssignsAlone state label)
    (taken : step state label = some next) : Routed next := by
  rcases label with ⟨consumer, action⟩
  cases action with
  | select batch =>
      cases phase : state.consumers consumer with
      | idle =>
          simp only [Topics.step, phase] at taken
          split at taken
          · cases taken
          · cases taken
            exact routed.setPhase consumer _ rfl (by simp)
      | selected | assigned | published => simp [Topics.step, phase] at taken
  | assignTopic =>
      cases phase : state.consumers consumer with
      | selected batch =>
          simp only [Topics.step, phase, Option.some.injEq] at taken
          subst taken
          exact routed.assignTopic consumer batch (guarded rfl)
      | idle | assigned | published => simp [Topics.step, phase] at taken
  | write now =>
      cases phase : state.consumers consumer with
      | assigned batch =>
          simp only [Topics.step, phase, Option.some.injEq] at taken
          subst taken
          exact routed.write consumer now batch phase
      | idle | selected | published => simp [Topics.step, phase] at taken
  | writeError now written =>
      cases phase : state.consumers consumer with
      | assigned batch =>
          simp only [Topics.step, phase] at taken
          split at taken
          · cases taken
            have current : state.writerTopic = topicOf consumer := by
              apply routed.current consumer
              rw [phase]
              rfl
            exact (routed.deliver _ (deliveries_topic current now written)).setPhase
              consumer .idle rfl (by simp)
          · cases taken
      | idle | selected | published => simp [Topics.step, phase] at taken
  | commit =>
      cases phase : state.consumers consumer with
      | published batch =>
          simp only [Topics.step, phase, Option.some.injEq] at taken
          subst taken
          exact routed.commit consumer batch phase
      | idle | selected | assigned => simp [Topics.step, phase] at taken
  | abort =>
      simp only [Topics.step, Option.some.injEq] at taken
      subst taken
      exact routed.setPhase consumer .idle rfl (by simp)

/-- In every run in which topics are assigned alone, no message leaves its
domain. -/
theorem topicIsolated_of_run (configs : List DomainConfig)
    (schedule : List (Label configs)) (final : State configs)
    (guarded : Foundation.Meets step AssignsAlone initial schedule)
    (reached : Foundation.run step initial schedule = some final) :
    TopicIsolated final := by
  have routed : Routed final :=
    Foundation.invariant_of_meets
      (fun _ _ _ guarded routed taken => routed.step guarded taken)
      schedule initial final guarded routed_initial reached
  exact routed.isolated

/-- The consumer of the identity table. -/
def identityConsumer : Consumer allDomains := ⟨0, by decide⟩

/-- The consumer of the billing table. -/
def billingConsumer : Consumer allDomains := ⟨4, by decide⟩

/-- A row of the identity table. -/
def identityRow : OutboxRow := ⟨1, 1, "user", 7, "user.disabled", "x", 1⟩

/-- A row of the billing table. -/
def billingRow : OutboxRow := ⟨1, 2, "agent", 8, "usage.recorded", "y", 1⟩

/-- The cycles of the identity and the billing consumer, one after the other. -/
def oneAfterTheOther : List (Label allDomains) :=
  [⟨identityConsumer, .select [identityRow]⟩, ⟨identityConsumer, .assignTopic⟩,
    ⟨identityConsumer, .write 2⟩, ⟨identityConsumer, .commit⟩,
    ⟨billingConsumer, .select [billingRow]⟩, ⟨billingConsumer, .assignTopic⟩,
    ⟨billingConsumer, .write 3⟩, ⟨billingConsumer, .commit⟩]

theorem topicIsolated_oneAfterTheOther :
    ∃ final, Foundation.run step initial oneAfterTheOther = some final ∧
      final.processed.length = 2 ∧ TopicIsolated final :=
  ⟨_, rfl, rfl, topicIsolated_of_run allDomains oneAfterTheOther _ (by decide) rfl⟩

/-- The billing consumer assigns its topic between the two steps of the identity
consumer's call. -/
def topicOverwritten : List (Label allDomains) :=
  [⟨identityConsumer, .select [identityRow]⟩, ⟨billingConsumer, .select [billingRow]⟩,
    ⟨identityConsumer, .assignTopic⟩, ⟨billingConsumer, .assignTopic⟩,
    ⟨identityConsumer, .write 2⟩, ⟨identityConsumer, .commit⟩]

theorem topicMixed_topicOverwritten :
    ∃ final, Foundation.run step initial topicOverwritten = some final ∧
      (identityConsumer, identityRow) ∈ final.processed ∧ ¬ TopicIsolated final := by
  refine ⟨_, rfl, by decide, ?_⟩
  intro isolated
  exact absurd (isolated.delivered _ List.mem_cons_self) (by decide)

end Topics

end GitScale.Outbox
