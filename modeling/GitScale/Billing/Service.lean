import GitScale.Billing.PartitionArchives
import GitScale.Foundation.Separator
import GitScale.Foundation.Service
import GitScale.Go.JsonFields

/-!
# The billing service, its test double and its client

`PostgresService` and `StubService` are behind one interface, and the workflow plane reaches a
service through a gRPC client and server.  The two services answer every sequence of calls alike,
and of each answer the client sees what the interface of the client has room for.
-/

namespace GitScale.Billing

open Foundation Go

/-- `GetQuotaAccountOutput`, and the row that it is read from. -/
structure QuotaAccount where
  accountID : UUID
  orgID : UUID
  planTier : String
  tokensPerWeekCap : Int
  computeMinutesPerMonthCap : Int
  storageGBCap : Int
  deriving DecidableEq, Repr

/-- What a method returns in place of an answer: a sentinel of a failed check, the sentinel for a
missing quota account, or any other error. -/
inductive ServiceError where
  | invalid (message : String)
  | quotaAccountNotFound
  | fault (message : String)
  deriving DecidableEq, Repr

/-- A call of the service, with what it reads and draws. -/
inductive ServiceCall where
  | recordPartitionArchived (input : RecordPartitionArchivedInput) (freshID : UUID)
      (readings : RecordReadings)
  | record (record : Record) (readings : RecordReadings)
  | getQuotaAccount (orgID : UUID)
  deriving DecidableEq, Repr

inductive ServiceReply where
  | archived (reply : Except ServiceError RecordPartitionArchivedOutput)
  | recorded (reply : Except ServiceError RecordOutput)
  | quota (reply : Except ServiceError QuotaAccount)

/-- `ErrEmptyOrgID`. -/
def errEmptyOrgID : ServiceError := .invalid "billing: org_id is empty"

/-- A reply whose error is the sentinel of a failed check exactly if the check fails. -/
def classify {Output : Type} (check : Option String) (reply : Except String Output) :
    Except ServiceError Output :=
  match check with
  | some message => .error (.invalid message)
  | none => reply.mapError .fault

/-! ## PostgresService -/

/-- The database of `PostgresService`. -/
structure PostgresState where
  ledger : Ledger
  quotaAccounts : List QuotaAccount

/-- The methods of `PostgresService`. -/
def postgresServe (encoding : Encoding) (marshal : PartitionArchiveRow → String)
    (state : PostgresState) : ServiceCall → ServiceReply × PostgresState
  | .recordPartitionArchived input freshID readings =>
      let result := recordPartitionArchived marshal input freshID readings state.ledger
      (.archived (classify (validateInput input) result.1), { state with ledger := result.2 })
  | .record record readings =>
      let result := record.execute encoding readings state.ledger.outbox
      (.recorded (classify record.validate result.1),
        { state with ledger := { state.ledger with outbox := result.2 } })
  | .getQuotaAccount orgID =>
      if orgID = UUID.nil then (.quota (.error errEmptyOrgID), state)
      else
        match state.quotaAccounts.find? fun account => account.orgID = orgID with
        | some account => (.quota (.ok account), state)
        | none => (.quota (.error .quotaAccountNotFound), state)

/-! ## StubService -/

/-- `StubService`: the archives by the text of their natural key, the two sets of events, and the
seeded quotas. -/
structure StubState where
  rows : String → Option PartitionArchiveRow
  dekEvents : UUID → Bool
  ciJobs : UUID → Bool
  quotas : UUID → Option QuotaAccount

/-- The key of a row, `%d-%d-%s`. -/
def stubKey (key : Int × Int × String) : String :=
  String.ofList (formatInt key.1 ++ '-' :: (formatInt key.2.1 ++ '-' :: key.2.2.toList))

/-- `StubService.RecordPartitionArchived`. -/
def StubState.recordPartitionArchived (stub : StubState) (input : RecordPartitionArchivedInput)
    (freshID : UUID) (clock : Time) :
    Except ServiceError RecordPartitionArchivedOutput × StubState :=
  match validateInput input with
  | some message => (.error (.invalid message), stub)
  | none =>
      match stub.rows (stubKey input.key) with
      | some existing => (.ok ⟨formatUUID existing.id, false⟩, stub)
      | none =>
          (.ok ⟨formatUUID freshID, true⟩,
            { stub with
              rows := Function.update stub.rows (stubKey input.key)
                (some (candidateArchive input freshID clock)) })

/-- The set that an event is kept in, and the same set with the event. -/
def StubState.holds (stub : StubState) (encoding : Encoding) : Record → Bool
  | .dekDestroyed input => stub.dekEvents (dekDestroyedAggregateID encoding input)
  | .ciJobCompleted input => stub.ciJobs (ciJobCompletedAggregateID encoding input.jobID)

def StubState.insert (stub : StubState) (encoding : Encoding) : Record → StubState
  | .dekDestroyed input =>
      { stub with
        dekEvents := Function.update stub.dekEvents (dekDestroyedAggregateID encoding input) true }
  | .ciJobCompleted input =>
      { stub with
        ciJobs := Function.update stub.ciJobs
          (ciJobCompletedAggregateID encoding input.jobID) true }

/-- `StubService.RecordDEKDestroyed` and `StubService.RecordCIJobCompleted`. -/
def StubState.record (stub : StubState) (encoding : Encoding) (record : Record) :
    Except ServiceError RecordOutput × StubState :=
  match record.validate with
  | some message => (.error (.invalid message), stub)
  | none =>
      let eventID := encoding.uuidText (record.aggregateID encoding)
      if stub.holds encoding record then (.ok ⟨eventID, false⟩, stub)
      else (.ok ⟨eventID, true⟩, stub.insert encoding record)

/-- The methods of `StubService`. -/
def stubServe (encoding : Encoding) (stub : StubState) : ServiceCall → ServiceReply × StubState
  | .recordPartitionArchived input freshID readings =>
      let result := stub.recordPartitionArchived input freshID readings.clock
      (.archived result.1, result.2)
  | .record record _ =>
      let result := stub.record encoding record
      (.recorded result.1, result.2)
  | .getQuotaAccount orgID =>
      if orgID = UUID.nil then (.quota (.error errEmptyOrgID), stub)
      else
        match stub.quotas orgID with
        | some account => (.quota (.ok account), stub)
        | none => (.quota (.error .quotaAccountNotFound), stub)

/-! ## The wire -/

/-- A conversion to `int32`. -/
def int32 (value : Int) : Int := value.bmod (2 ^ 32)

/-- The codes that `mapErr` produces. -/
inductive Code where
  | invalidArgument
  | notFound
  | internal
  deriving DecidableEq, Repr

/-- A gRPC status, or a failure to read a response. -/
inductive ClientError where
  | status (code : Code) (message : String)
  | quotaAccountNotFound
  | malformed
  deriving DecidableEq, Repr

/-- `mapErr`. -/
def mapErr : ServiceError → Code × String
  | .quotaAccountNotFound => (.notFound, "billing: quota account not found for org")
  | .invalid message => (.invalidArgument, message)
  | .fault message => (.internal, message)

/-- The messages of the requests; identifiers travel as text. -/
inductive Request where
  | recordPartitionArchived (input : RecordPartitionArchivedInput)
  | recordDEKDestroyed (input : RecordDEKDestroyedInput)
  | recordCIJobCompleted (jobID principalID orgID repoID : String)
      (rest : RecordCIJobCompletedInput)
  | getQuotaAccount (orgID : String)

/-- What the client puts into the request. -/
def requestOf : ServiceCall → Request
  | .recordPartitionArchived input _ _ =>
      .recordPartitionArchived { input with year := int32 input.year, month := int32 input.month }
  | .record (.dekDestroyed input) _ =>
      .recordDEKDestroyed { input with
        year := int32 input.year
        month := int32 input.month
        vaultKeyVersion := int32 input.vaultKeyVersion }
  | .record (.ciJobCompleted input) _ =>
      .recordCIJobCompleted (formatUUID input.jobID) (formatUUID input.principalID)
        (formatUUID input.orgID) (formatUUID input.repoID)
        { input with exitCode := int32 input.exitCode }
  | .getQuotaAccount orgID => .getQuotaAccount (formatUUID orgID)

/-- The identifiers and readings that the service draws for a call. -/
def drawsOf : ServiceCall → UUID × RecordReadings
  | .recordPartitionArchived _ freshID readings => (freshID, readings)
  | .record _ readings => (UUID.nil, readings)
  | .getQuotaAccount _ => (UUID.nil, ⟨0, 0, UUID.nil, .ok, ""⟩)

/-- How `GRPCServer` reads a request: the call, or an invalid argument with the text `fault` of the
error of `uuid.Parse`. -/
def callOf (parseUUID : String → Option UUID) (fault : String → String)
    (draws : UUID × RecordReadings) : Request → Except String ServiceCall
  | .recordPartitionArchived input => .ok (.recordPartitionArchived input draws.1 draws.2)
  | .recordDEKDestroyed input => .ok (.record (.dekDestroyed input) draws.2)
  | .recordCIJobCompleted jobID principalID orgID repoID rest =>
      match parseUUID jobID, parseUUID principalID, parseUUID orgID, parseUUID repoID with
      | none, _, _, _ => .error ("invalid job_id: " ++ fault jobID)
      | _, none, _, _ => .error ("invalid principal_id: " ++ fault principalID)
      | _, _, none, _ => .error ("invalid org_id: " ++ fault orgID)
      | _, _, _, none => .error ("invalid repo_id: " ++ fault repoID)
      | some jobID, some principalID, some orgID, some repoID =>
          .ok (.record (.ciJobCompleted { rest with
            jobID := jobID, principalID := principalID, orgID := orgID, repoID := repoID })
            draws.2)
  | .getQuotaAccount orgID =>
      match parseUUID orgID with
      | none => .error ("invalid org_id: " ++ fault orgID)
      | some orgID => .ok (.getQuotaAccount orgID)

/-- The response of `GRPCServer`; a quota account with its identifiers as text. -/
inductive Response where
  | recorded (id : String) (created : Bool)
  | quota (accountID orgID : String) (account : QuotaAccount)
  | failed (code : Code) (message : String)

def failedWith (error : ServiceError) : Response := .failed (mapErr error).1 (mapErr error).2

/-- How `GRPCServer` writes a reply. -/
def responseOf : ServiceReply → Response
  | .archived (.ok output) => .recorded output.archiveID output.created
  | .recorded (.ok output) => .recorded output.eventID output.created
  | .quota (.ok account) =>
      .quota (formatUUID account.accountID) (formatUUID account.orgID) account
  | .archived (.error error) | .recorded (.error error) | .quota (.error error) =>
      failedWith error

/-- What the methods of `BillingClient` return: nothing but an error, or the quota account. -/
inductive ClientReply where
  | done (error : Option ClientError)
  | quota (reply : Except ClientError QuotaAccount)

/-- How `grpcBillingClient` reads a response; the call says which method it is. -/
def clientReplyOf (parseUUID : String → Option UUID) (call : ServiceCall) (response : Response) :
    ClientReply :=
  match call, response with
  | .getQuotaAccount _, .failed .notFound _ => .quota (.error .quotaAccountNotFound)
  | .getQuotaAccount _, .failed code message => .quota (.error (.status code message))
  | .getQuotaAccount _, .quota accountID orgID account =>
      match parseUUID accountID, parseUUID orgID with
      | some accountID, some orgID =>
          .quota (.ok { account with accountID := accountID, orgID := orgID })
      | _, _ => .quota (.error .malformed)
  | .getQuotaAccount _, .recorded _ _ => .quota (.error .malformed)
  | _, .failed code message => .done (some (.status code message))
  | _, _ => .done none

/-- A call of the client, through the wire to a service. -/
def viaWire {State : Type} (parseUUID : String → Option UUID) (fault : String → String)
    (serve : State → ServiceCall → ServiceReply × State) (state : State) (call : ServiceCall) :
    ClientReply × State :=
  match callOf parseUUID fault (drawsOf call) (requestOf call) with
  | .error message =>
      (clientReplyOf parseUUID call (.failed .invalidArgument message), state)
  | .ok received =>
      let result := serve state received
      (clientReplyOf parseUUID call (responseOf result.1), result.2)

/-- The status of an error that has no sentinel at the client. -/
def statusOf : ServiceError → ClientError
  | .invalid message => .status .invalidArgument message
  | .quotaAccountNotFound => .status .notFound "billing: quota account not found for org"
  | .fault message => .status .internal message

/-- What a client is to see of a reply, whatever is in between.  The identifiers of rows and
events, and whether they are new, are not among the results of the client. -/
def clientView : ServiceReply → ClientReply
  | .archived (.ok _) | .recorded (.ok _) => .done none
  | .archived (.error error) | .recorded (.error error) => .done (some (statusOf error))
  | .quota (.ok account) => .quota (.ok account)
  | .quota (.error .quotaAccountNotFound) => .quota (.error .quotaAccountNotFound)
  | .quota (.error error) => .quota (.error (statusOf error))

/-- The reply is one of the method that is called. -/
def ServiceReply.RepliesTo : ServiceReply → ServiceCall → Prop
  | .archived _, .recordPartitionArchived _ _ _ => True
  | .recorded _, .record _ _ => True
  | .quota _, .getQuotaAccount _ => True
  | _, _ => False

/-- The integers of a call that the wire narrows. -/
def narrowed : ServiceCall → List Int
  | .recordPartitionArchived input _ _ => [input.year, input.month]
  | .record (.dekDestroyed input) _ => [input.year, input.month, input.vaultKeyVersion]
  | .record (.ciJobCompleted input) _ => [input.exitCode]
  | .getQuotaAccount _ => []

/-- The wire keeps the integers of the call. -/
def FitsWire (call : ServiceCall) : Prop := ∀ value ∈ narrowed call, int32 value = value

theorem callOf_requestOf {parseUUID : String → Option UUID} (reads : ReadsUUIDs parseUUID)
    {fault : String → String} {call : ServiceCall} (fits : FitsWire call) :
    callOf parseUUID fault (drawsOf call) (requestOf call) = .ok call := by
  cases call with
  | recordPartitionArchived input freshID readings =>
      have year : int32 input.year = input.year := fits _ (by simp [narrowed])
      have month : int32 input.month = input.month := fits _ (by simp [narrowed])
      simp only [requestOf, callOf, drawsOf, year, month]
  | record record readings =>
      cases record with
      | dekDestroyed input =>
          have year : int32 input.year = input.year := fits _ (by simp [narrowed])
          have month : int32 input.month = input.month := fits _ (by simp [narrowed])
          have version : int32 input.vaultKeyVersion = input.vaultKeyVersion :=
            fits _ (by simp [narrowed])
          simp only [requestOf, callOf, drawsOf, year, month, version]
      | ciJobCompleted input =>
          have exitCode : int32 input.exitCode = input.exitCode := fits _ (by simp [narrowed])
          simp only [requestOf, callOf, drawsOf, reads input.jobID, reads input.principalID,
            reads input.orgID, reads input.repoID, exitCode]
  | getQuotaAccount orgID => simp only [requestOf, callOf, reads orgID]

/-- The response that the server writes is read back as the reply. -/
theorem clientReplyOf_responseOf {parseUUID : String → Option UUID} (reads : ReadsUUIDs parseUUID)
    {call : ServiceCall} {reply : ServiceReply} (replies : reply.RepliesTo call) :
    clientReplyOf parseUUID call (responseOf reply) = clientView reply := by
  cases reply with
  | archived result =>
      cases call with
      | recordPartitionArchived input freshID readings =>
          cases result with
          | ok output => rfl
          | error error => cases error <;> rfl
      | record | getQuotaAccount => exact replies.elim
  | recorded result =>
      cases call with
      | record record readings =>
          cases result with
          | ok output => rfl
          | error error => cases error <;> rfl
      | recordPartitionArchived | getQuotaAccount => exact replies.elim
  | quota result =>
      cases call with
      | getQuotaAccount orgID =>
          cases result with
          | ok account =>
              simp only [responseOf, clientReplyOf, reads account.accountID, reads account.orgID,
                clientView]
          | error error => cases error <;> rfl
      | recordPartitionArchived | record => exact replies.elim

/-- A call that fits goes through the wire as it is, to any service, and its reply comes back. -/
theorem viaWire_eq {State : Type} {parseUUID : String → Option UUID}
    (reads : ReadsUUIDs parseUUID) {fault : String → String}
    {serve : State → ServiceCall → ServiceReply × State} {state : State} {call : ServiceCall}
    (fits : FitsWire call) (replies : (serve state call).1.RepliesTo call) :
    viaWire parseUUID fault serve state call =
      (clientView (serve state call).1, (serve state call).2) := by
  rw [viaWire, callOf_requestOf reads fits]
  dsimp only
  rw [clientReplyOf_responseOf reads replies]

/-! ## The double -/

/-- A fresh double with the quotas of the database. -/
def StubState.seeded (accounts : List QuotaAccount) : StubState where
  rows _ := none
  dekEvents _ := false
  ciJobs _ := false
  quotas orgID := accounts.find? fun account => account.orgID = orgID

/-- The identifier that a call draws for an archive. -/
def freshID? : ServiceCall → Option UUID
  | .recordPartitionArchived _ freshID _ => some freshID
  | _ => none

/-- The transaction of the call commits, and the caller hears of it. -/
def Quiet : ServiceCall → Prop
  | .recordPartitionArchived _ _ readings | .record _ readings => readings.outcome = .ok
  | .getQuotaAccount _ => True

/-- What relates the database to the double. -/
structure Doubles (state : PostgresState) (stub : StubState) : Prop where
  rows : ∀ input, validateInput input = none →
    (stub.rows (stubKey input.key)).map PartitionArchiveRow.id =
      (state.ledger.archives.find? fun archive => archive.key = input.key).map
        PartitionArchiveRow.id
  dekEvents : ∀ id, stub.dekEvents id =
    hasOutboxEventForAggregate ("billing.partition_dek_destroyed", id) state.ledger.outbox.table
  ciJobs : ∀ id, stub.ciJobs id =
    hasOutboxEventForAggregate ("ci.job_completed", id) state.ledger.outbox.table
  quotas : ∀ orgID, stub.quotas orgID =
    state.quotaAccounts.find? fun account => account.orgID = orgID

theorem doubles_seeded (accounts : List QuotaAccount) :
    Doubles ⟨Ledger.initial, accounts⟩ (.seeded accounts) where
  rows := by simp [StubState.seeded, Ledger.initial]
  dekEvents := by
    simp [StubState.seeded, Ledger.initial, Outbox.initial, hasOutboxEventForAggregate]
  ciJobs := by simp [StubState.seeded, Ledger.initial, Outbox.initial, hasOutboxEventForAggregate]
  quotas := fun _ => rfl

theorem hyphen_notMem_formatInt {value : Int} (nonneg : 0 ≤ value) : '-' ∉ formatInt value := by
  intro member
  rw [formatInt, if_neg (not_lt.mpr nonneg)] at member
  exact absurd (isDigit_of_mem_toDigits member) (by decide)

theorem formatInt_injective {first second : Int} (positive : 0 ≤ first) (positive' : 0 ≤ second)
    (same : formatInt first = formatInt second) : first = second := by
  rw [formatInt, formatInt, if_neg (not_lt.mpr positive), if_neg (not_lt.mpr positive')] at same
  have digits := congrArg parseUint same
  rw [parseUint_toDigits, parseUint_toDigits, Option.some.injEq] at digits
  omega

theorem bounds_of_validateInput {input : RecordPartitionArchivedInput}
    (valid : validateInput input = none) : 0 ≤ input.year ∧ 0 ≤ input.month := by
  unfold validateInput at valid
  split at valid
  · cases valid
  · split at valid
    · cases valid
    · omega

/-- Valid inputs have the same text exactly if they have the same natural key. -/
theorem stubKey_inj {input other : RecordPartitionArchivedInput}
    (valid : validateInput input = none) (valid' : validateInput other = none)
    (same : stubKey input.key = stubKey other.key) : input.key = other.key := by
  rcases bounds_of_validateInput valid with ⟨year, month⟩
  rcases bounds_of_validateInput valid' with ⟨year', month'⟩
  have texts := congrArg String.toList same
  rw [stubKey, stubKey, String.toList_ofList, String.toList_ofList] at texts
  rcases cut_at_first (hyphen_notMem_formatInt year) (hyphen_notMem_formatInt year') texts with
    ⟨years, rest⟩
  rcases cut_at_first (hyphen_notMem_formatInt month) (hyphen_notMem_formatInt month') rest with
    ⟨months, names⟩
  have first : input.year = other.year := formatInt_injective year year' years
  have second : input.month = other.month := formatInt_injective month month' months
  have third : input.partitionName = other.partitionName := String.toList_inj.mp names
  simp only [RecordPartitionArchivedInput.key, first, second, third]

/-! ## The double answers alike -/

variable {encoding : Encoding} {marshal : PartitionArchiveRow → String}

/-- A table with one more row. -/
theorem hasOutboxEventForAggregate_append (key : String × UUID) (table : List Outbox.Stored)
    (stored : Outbox.Stored) :
    hasOutboxEventForAggregate key (table ++ [stored]) =
      (hasOutboxEventForAggregate key table || decide (keyOf stored.row = key)) := by
  simp [hasOutboxEventForAggregate]

theorem recordPartitionArchived_of_quiet {input : RecordPartitionArchivedInput}
    (valid : validateInput input = none) {readings : RecordReadings}
    (quiet : readings.outcome = .ok) {freshID : UUID} {ledger written : Ledger}
    {output : RecordPartitionArchivedOutput}
    (commits : archiveTx marshal input freshID readings ledger = .ok (output, written)) :
    recordPartitionArchived marshal input freshID readings ledger = (.ok output, written) := by
  rw [recordPartitionArchived, valid]
  simp only [commits, quiet]

/-- A new source row in the database, and the same row in the double. -/
theorem Doubles.announced {state : PostgresState} {stub : StubState} (doubles : Doubles state stub)
    {input : RecordPartitionArchivedInput} (valid : validateInput input = none)
    (absent : (state.ledger.archives.find? fun archive => archive.key = input.key) = none)
    (freshID : UUID) (readings : RecordReadings) :
    Doubles { state with ledger := state.ledger.announced marshal input freshID readings }
      { stub with
        rows := Function.update stub.rows (stubKey input.key)
          (some (candidateArchive input freshID readings.clock)) } := by
  have otherType : ∀ eventType id, eventType ≠ partitionArchivedType →
      hasOutboxEventForAggregate (eventType, id)
          (state.ledger.announced marshal input freshID readings).outbox.table =
        hasOutboxEventForAggregate (eventType, id) state.ledger.outbox.table := by
    intro eventType id other
    have different : keyOf (archivedRow marshal readings
        (candidateArchive input freshID readings.clock) state.ledger.outbox.nextID) ≠
          (eventType, id) := fun same => other (congrArg Prod.fst same).symm
    rw [Ledger.announced, hasOutboxEventForAggregate_append, decide_eq_false different,
      Bool.or_false]
  refine ⟨?_, ?_, ?_, doubles.quotas⟩
  · intro other valid'
    dsimp only [Ledger.announced]
    let added : PartitionArchiveRow :=
      { candidateArchive input freshID readings.clock with
        archivedAt := timestamptz readings.clock }
    have addedKey : added.key = input.key := rfl
    by_cases same : other.key = input.key
    · have hit : ([added].find? fun archive => archive.key = input.key) = some added := by
        rw [List.find?_singleton]
        exact if_pos (decide_eq_true addedKey)
      rw [same, Function.update_self, List.find?_append, absent, Option.none_or, hit]
      rfl
    · have texts : stubKey other.key ≠ stubKey input.key :=
        fun texts => same (stubKey_inj valid' valid texts)
      have skipped : ([added].find? fun archive => archive.key = other.key) = none := by
        rw [List.find?_singleton]
        exact if_neg fun equal => same (of_decide_eq_true equal).symm
      rw [Function.update_of_ne texts, doubles.rows other valid', List.find?_append, skipped,
        Option.or_none]
  · intro id
    rw [otherType _ id (by decide)]
    exact doubles.dekEvents id
  · intro id
    rw [otherType _ id (by decide)]
    exact doubles.ciJobs id

theorem Doubles.archive {state : PostgresState} {stub : StubState} (doubles : Doubles state stub)
    (input : RecordPartitionArchivedInput) {freshID : UUID} {readings : RecordReadings}
    (quiet : readings.outcome = .ok)
    (unused : ∀ archive ∈ state.ledger.archives, archive.id ≠ freshID) :
    let call := ServiceCall.recordPartitionArchived input freshID readings
    (postgresServe encoding marshal state call).1 = (stubServe encoding stub call).1 ∧
      Doubles (postgresServe encoding marshal state call).2 (stubServe encoding stub call).2 := by
  simp only [postgresServe, stubServe, StubState.recordPartitionArchived]
  cases valid : validateInput input with
  | some message =>
      have refused : recordPartitionArchived marshal input freshID readings state.ledger =
          (.error message, state.ledger) := by rw [recordPartitionArchived, valid]
      rw [refused]
      exact ⟨rfl, doubles⟩
  | none =>
      have rows := doubles.rows input valid
      cases found : state.ledger.archives.find? fun archive => archive.key = input.key with
      | some existing =>
          rw [found, Option.map_some] at rows
          rcases Option.map_eq_some_iff.mp rows with ⟨row, held, same⟩
          rw [recordPartitionArchived_of_quiet valid quiet
            (archiveTx_of_found found freshID readings), held]
          simp only [classify, same]
          exact ⟨rfl, doubles⟩
      | none =>
          rw [found, Option.map_none, Option.map_eq_none_iff] at rows
          rw [recordPartitionArchived_of_quiet valid quiet
            (archiveTx_of_absent found unused readings), rows]
          exact ⟨rfl, doubles.announced valid found freshID readings⟩

theorem Doubles.holds_eq {state : PostgresState} {stub : StubState} (doubles : Doubles state stub)
    (record : Record) :
    stub.holds encoding record =
      hasOutboxEventForAggregate (record.key encoding) state.ledger.outbox.table := by
  cases record with
  | dekDestroyed input => exact doubles.dekEvents _
  | ciJobCompleted input => exact doubles.ciJobs _

/-- A new row in the outbox, and the same event in a set of the double. -/
theorem Doubles.insert {state : PostgresState} {stub : StubState} (doubles : Doubles state stub)
    (record : Record) {readings : RecordReadings} {outbox : Outbox.State}
    (table : outbox.table = state.ledger.outbox.table ++
      [⟨record.row encoding readings state.ledger.outbox.nextID, none⟩]) :
    Doubles { state with ledger := { state.ledger with outbox := outbox } }
      (stub.insert encoding record) := by
  have key : keyOf (record.row encoding readings state.ledger.outbox.nextID) =
      record.key encoding := rfl
  have shown : ∀ eventType id, hasOutboxEventForAggregate (eventType, id) outbox.table =
      (hasOutboxEventForAggregate (eventType, id) state.ledger.outbox.table ||
        decide (record.key encoding = (eventType, id))) := by
    intro eventType id
    rw [table, hasOutboxEventForAggregate_append, key]
  cases record with
  | dekDestroyed input =>
      refine ⟨doubles.rows, ?_, ?_, doubles.quotas⟩
      · intro id
        rw [shown, ← doubles.dekEvents id]
        by_cases same : id = dekDestroyedAggregateID encoding input
        · subst same
          simp [StubState.insert, Record.key, Record.eventType, Record.aggregateID]
        · have different : dekDestroyedAggregateID encoding input ≠ id :=
            fun equal => same equal.symm
          simp [StubState.insert, Record.key, Record.eventType, Record.aggregateID, same, different]
      · intro id
        rw [shown, ← doubles.ciJobs id]
        simp [StubState.insert, Record.key, Record.eventType]
  | ciJobCompleted input =>
      refine ⟨doubles.rows, ?_, ?_, doubles.quotas⟩
      · intro id
        rw [shown, ← doubles.dekEvents id]
        simp [StubState.insert, Record.key, Record.eventType]
      · intro id
        rw [shown, ← doubles.ciJobs id]
        by_cases same : id = ciJobCompletedAggregateID encoding input.jobID
        · subst same
          simp [StubState.insert, Record.key, Record.eventType, Record.aggregateID]
        · have different : ciJobCompletedAggregateID encoding input.jobID ≠ id :=
            fun equal => same equal.symm
          simp [StubState.insert, Record.key, Record.eventType, Record.aggregateID, same, different]

theorem Doubles.record {state : PostgresState} {stub : StubState} (doubles : Doubles state stub)
    (record : Record) {readings : RecordReadings} (quiet : readings.outcome = .ok) :
    let call := ServiceCall.record record readings
    (postgresServe encoding marshal state call).1 = (stubServe encoding stub call).1 ∧
      Doubles (postgresServe encoding marshal state call).2 (stubServe encoding stub call).2 := by
  simp only [postgresServe, stubServe, StubState.record, Record.execute]
  cases valid : record.validate with
  | some message => exact ⟨rfl, doubles⟩
  | none =>
      simp only [quiet, doubles.holds_eq record]
      cases present : hasOutboxEventForAggregate (record.key encoding)
          state.ledger.outbox.table with
      | true => exact ⟨rfl, doubles⟩
      | false => exact ⟨rfl, doubles.insert record rfl⟩

/-- One call is answered alike, and the double keeps up. -/
theorem Doubles.serve {state : PostgresState} {stub : StubState} (doubles : Doubles state stub)
    {call : ServiceCall} (quiet : Quiet call)
    (unused : ∀ id, freshID? call = some id → ∀ archive ∈ state.ledger.archives, archive.id ≠ id) :
    (postgresServe encoding marshal state call).1 = (stubServe encoding stub call).1 ∧
      Doubles (postgresServe encoding marshal state call).2 (stubServe encoding stub call).2 := by
  cases call with
  | recordPartitionArchived input freshID readings =>
      exact doubles.archive input quiet (unused freshID rfl)
  | record record readings => exact doubles.record record quiet
  | getQuotaAccount orgID =>
      simp only [postgresServe, stubServe, doubles.quotas]
      by_cases empty : orgID = UUID.nil
      · simp only [empty, if_true]
        exact ⟨trivial, doubles⟩
      · simp only [empty, if_false]
        cases state.quotaAccounts.find? fun account => account.orgID = orgID with
        | some account => exact ⟨rfl, doubles⟩
        | none => exact ⟨rfl, doubles⟩

/-- A call leaves the source rows, or adds one with the identifier that it drew. -/
theorem archives_postgresServe {state : PostgresState} {call : ServiceCall}
    {archive : PartitionArchiveRow}
    (member : archive ∈ (postgresServe encoding marshal state call).2.ledger.archives) :
    archive ∈ state.ledger.archives ∨ freshID? call = some archive.id := by
  cases call with
  | recordPartitionArchived input freshID readings =>
      simp only [postgresServe, recordPartitionArchived] at member
      cases valid : validateInput input with
      | some message =>
          rw [valid] at member
          exact .inl member
      | none =>
          rw [valid] at member
          dsimp only at member
          rcases archiveTx_cases input freshID readings state.ledger with
            ⟨message, fails⟩ | ⟨existing, present, same, finds⟩ | ⟨absent, creates⟩
          · rw [fails] at member
            exact .inl member
          · rw [finds] at member
            cases outcome : readings.outcome <;> rw [outcome] at member <;> exact .inl member
          · rw [creates] at member
            cases outcome : readings.outcome with
            | failed =>
                rw [outcome] at member
                exact .inl member
            | ok | lost =>
                rw [outcome] at member
                rcases List.mem_append.mp member with member | member
                · exact .inl member
                · rcases List.mem_singleton.mp member with rfl
                  exact .inr rfl
  | record record readings => exact .inl member
  | getQuotaAccount orgID =>
      refine .inl ?_
      simp only [postgresServe] at member
      by_cases empty : orgID = UUID.nil
      · simpa only [empty, if_true] using member
      · simp only [empty, if_false] at member
        cases found : state.quotaAccounts.find? fun account => account.orgID = orgID <;>
          rw [found] at member <;> exact member

/-- No call that is to come draws an identifier that is taken. -/
def Unused (state : PostgresState) (calls : List ServiceCall) : Prop :=
  ∀ archive ∈ state.ledger.archives, archive.id ∉ calls.filterMap freshID?

theorem Unused.head {state : PostgresState} {call : ServiceCall} {rest : List ServiceCall}
    (unused : Unused state (call :: rest)) :
    ∀ id, freshID? call = some id → ∀ archive ∈ state.ledger.archives, archive.id ≠ id := by
  intro id draws archive member same
  apply unused archive member
  rw [List.filterMap_cons_some draws, same]
  exact List.mem_cons_self

theorem Unused.next {state : PostgresState} {call : ServiceCall} {rest : List ServiceCall}
    (unused : Unused state (call :: rest))
    (distinct : ((call :: rest).filterMap freshID?).Nodup) :
    Unused (postgresServe encoding marshal state call).2 rest := by
  intro archive member drawn
  rcases archives_postgresServe member with old | draws
  · apply unused archive old
    rw [List.filterMap_cons]
    cases freshID? call with
    | none => exact drawn
    | some id => exact List.mem_cons_of_mem _ drawn
  · rw [List.filterMap_cons_some draws, List.nodup_cons] at distinct
    exact distinct.1 drawn

theorem nodup_of_filterMap_cons {call : ServiceCall} {rest : List ServiceCall}
    (distinct : ((call :: rest).filterMap freshID?).Nodup) : (rest.filterMap freshID?).Nodup := by
  rw [List.filterMap_cons] at distinct
  cases draws : freshID? call with
  | none => simpa only [draws] using distinct
  | some id =>
      rw [draws] at distinct
      exact (List.nodup_cons.mp distinct).2

theorem Doubles.answers_eq {state : PostgresState} {stub : StubState} (doubles : Doubles state stub)
    {calls : List ServiceCall} (quiet : ∀ call ∈ calls, Quiet call)
    (distinct : (calls.filterMap freshID?).Nodup) (unused : Unused state calls) :
    answers (postgresServe encoding marshal) state calls =
      answers (stubServe encoding) stub calls := by
  induction calls generalizing state stub with
  | nil => rfl
  | cons call rest inductionHypothesis =>
      rcases doubles.serve (quiet call List.mem_cons_self) unused.head with ⟨alike, next⟩
      rw [answers, answers, alike]
      congr 1
      apply inductionHypothesis next
      · intro later member
        exact quiet later (List.mem_cons_of_mem _ member)
      · exact nodup_of_filterMap_cons distinct
      · exact unused.next distinct

theorem postgresServe_repliesTo (state : PostgresState) (call : ServiceCall) :
    (postgresServe encoding marshal state call).1.RepliesTo call := by
  cases call with
  | recordPartitionArchived | record => trivial
  | getQuotaAccount orgID =>
      simp only [postgresServe]
      split
      · trivial
      · split <;> trivial

/-- The client of a service sees the service's answers. -/
theorem answers_viaWire {State : Type} {parseUUID : String → Option UUID}
    (reads : ReadsUUIDs parseUUID) {fault : String → String}
    {serve : State → ServiceCall → ServiceReply × State}
    (replies : ∀ state call, (serve state call).1.RepliesTo call)
    {calls : List ServiceCall} (fits : ∀ call ∈ calls, FitsWire call) (state : State) :
    answers (viaWire parseUUID fault serve) state calls =
      (answers serve state calls).map clientView := by
  induction calls generalizing state with
  | nil => rfl
  | cons call rest inductionHypothesis =>
      have seen : viaWire parseUUID fault serve state call =
          (clientView (serve state call).1, (serve state call).2) :=
        viaWire_eq reads (fits call List.mem_cons_self) (replies state call)
      rw [answers, answers, seen, List.map_cons]
      congr 1
      apply inductionHypothesis
      intro later member
      exact fits later (List.mem_cons_of_mem _ member)

/-- On every sequence of calls whose transactions commit, `PostgresService` on an empty database
and a fresh `StubService` with the same quotas return the same outputs and errors.  A client that
reaches `PostgresService` over the wire sees what it is to see of the replies of `StubService`. -/
theorem stubService_doubles_postgresService (encoding : Encoding)
    (marshal : PartitionArchiveRow → String) (parseUUID : String → Option UUID)
    (reads : ReadsUUIDs parseUUID) (fault : String → String) (accounts : List QuotaAccount)
    (calls : List ServiceCall)
    (quiet : ∀ call ∈ calls, Quiet call) (distinct : (calls.filterMap freshID?).Nodup) :
    answers (postgresServe encoding marshal) ⟨Ledger.initial, accounts⟩ calls =
        answers (stubServe encoding) (.seeded accounts) calls ∧
      ((∀ call ∈ calls, FitsWire call) →
        answers (viaWire parseUUID fault (postgresServe encoding marshal))
            ⟨Ledger.initial, accounts⟩ calls =
          (answers (stubServe encoding) (.seeded accounts) calls).map clientView) := by
  have alike : answers (postgresServe encoding marshal) ⟨Ledger.initial, accounts⟩ calls =
      answers (stubServe encoding) (.seeded accounts) calls := by
    apply (doubles_seeded accounts).answers_eq quiet distinct
    intro archive member
    cases member
  refine ⟨alike, fun fits => ?_⟩
  rw [answers_viaWire reads postgresServe_repliesTo fits, alike]

/-- An archive and its retry under another identifier, a job and its retry, a bad month, and
quotas of a known and of an unknown organisation. -/
def sampleCalls : List ServiceCall :=
  let may : RecordPartitionArchivedInput :=
    ⟨2026, 5, "usage_events_2026_05", "s3://lake/2026/05", 10, 2048⟩
  let job : RecordCIJobCompletedInput := ⟨1, 2, "agent", 3, 4, "hot", 0, 0, 0, -1⟩
  let quiet : RecordReadings := ⟨0, 0, 9, .ok, ""⟩
  [.recordPartitionArchived may 7 quiet, .recordPartitionArchived may 8 quiet,
    .record (.ciJobCompleted job) quiet, .record (.ciJobCompleted job) quiet,
    .recordPartitionArchived { may with month := 13 } 10 quiet, .getQuotaAccount 3,
    .getQuotaAccount 5]

def sampleAccounts : List QuotaAccount := [⟨11, 3, "team", 100, 200, 300⟩]

theorem stubService_doubles_sampleCalls :
    answers (postgresServe mayEncoding PartitionArchiveRow.lakeURI)
        ⟨Ledger.initial, sampleAccounts⟩ sampleCalls =
      answers (stubServe mayEncoding) (.seeded sampleAccounts) sampleCalls ∧
    answers (viaWire parseHyphenated (fun _ => "invalid UUID format")
          (postgresServe mayEncoding PartitionArchiveRow.lakeURI))
        ⟨Ledger.initial, sampleAccounts⟩ sampleCalls =
      (answers (stubServe mayEncoding) (.seeded sampleAccounts) sampleCalls).map clientView := by
  have quiet : ∀ call ∈ sampleCalls, Quiet call := by simp [sampleCalls, Quiet]
  have distinct : (sampleCalls.filterMap freshID?).Nodup := by decide
  have fits : ∀ call ∈ sampleCalls, FitsWire call := by
    simp [sampleCalls, FitsWire, narrowed, int32]
  have doubles := stubService_doubles_postgresService mayEncoding PartitionArchiveRow.lakeURI
    parseHyphenated parseHyphenated_formatUUID (fun _ => "invalid UUID format") sampleAccounts
    sampleCalls quiet distinct
  exact ⟨doubles.1, doubles.2 fits⟩

end GitScale.Billing
