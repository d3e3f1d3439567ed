import GitScale.Go.UUID
import GitScale.GraphQL.ChargeCoverage
import GitScale.RateLimit.MemoryLimiter
import Mathlib.Data.Rat.Floor

/-!
# Charging queries to a token bucket

`CostMeter.Charge` takes the cost of a query from the bucket of the principal.  When the analysis
rejects a query, `execute` of the router charges the smaller cost of parsing and does not look at
the answer: the principal sees why the query was rejected, also when the bucket could not pay.
-/

namespace GitScale.GraphQL.Cost

open Foundation Go RateLimit

/-- `ParseCost`. -/
def parseCost (cost : QueryCost) : Int64 :=
  let charge := cost.complexity / 10
  if charge < 20 then 20 else charge

/-- `TokensFor`. -/
def tokensFor (cost : QueryCost) (accepted : Bool) : Int64 :=
  if accepted then cost.complexity else parseCost cost

/-- `BucketParams`. -/
structure BucketParams where
  agentCapacity : ℚ
  agentRefillPerSec : ℚ
  humanCapacity : ℚ
  humanRefillPerSec : ℚ

/-- The capacity that `bucketParams` returns. -/
def BucketParams.capacity (params : BucketParams) : PrincipalKind → ℚ
  | .agent => params.agentCapacity
  | .human => params.humanCapacity
  | .unknown => 0

/-- The refill that `bucketParams` returns. -/
def BucketParams.refill (params : BucketParams) : PrincipalKind → ℚ
  | .agent => params.agentRefillPerSec
  | .human => params.humanRefillPerSec
  | .unknown => 0

/-- `middleware.Principal`, less the parent of an agent. -/
structure Caller where
  kind : PrincipalKind
  id : UUID
  deriving DecidableEq

/-- `TokenBucketKey` of a principal and `SurfaceKey`. -/
def Caller.bucketKey (caller : Caller) : String :=
  "rl:bucket:" ++ formatUUID caller.id ++ ":graphql"

/-- `retrySeconds`; the conversion of the ceiling to `int` is taken to be in range. -/
def retrySeconds (refill : ℚ) (tokens : Int64) : Int :=
  if refill ≤ 0 then 1
  else
    let secs := ⌈(tokens.toInt : ℚ) / refill⌉
    if secs < 1 then 1 else secs

/-- The call of `Take` that `Charge` makes. -/
def chargeCall (params : BucketParams) (caller : Caller) (tokens : Int64) (now : Time) :
    TakeCall where
  now := now
  key := caller.bucketKey
  capacity := params.capacity caller.kind
  refillPerSec := params.refill caller.kind
  n := (if tokens < 1 then 1 else tokens : Int64).toInt

/-- `CostMeter.Charge` with a `MemoryLimiter`, which has no errors of its own: the seconds of
`ErrRateLimited`, if that is returned. -/
def charge (params : BucketParams) (caller : Caller) (tokens : Int64) (now : Time)
    (limiter : MemoryLimiter) : Option Int × MemoryLimiter :=
  if params.capacity caller.kind ≤ 0 then (none, limiter)
  else
    let taken := limiter.take (chargeCall params caller tokens now)
    if taken.1.granted then (none, taken.2)
    else
      (some (retrySeconds (params.refill caller.kind) (if tokens < 1 then 1 else tokens)), taken.2)

/-- The codes of `ErrorCode` that `execute` answers before it runs the resolvers. -/
inductive ErrorCode where
  | depthExceeded
  | costBudgetExceeded
  | validationFailed
  | internal
  deriving DecidableEq

/-- `MapErr` of an error of the analysis. -/
def mapErr : CostError → ErrorCode
  | .depthExceeded _ _ => .depthExceeded
  | .costBudgetExceeded _ _ => .costBudgetExceeded
  | .parse _ => .validationFailed
  | .emptyDocument => .validationFailed
  | .unknownOperation _ => .validationFailed
  | .ambiguousOperation => .validationFailed
  | .fragmentCycle _ => .validationFailed
  | .fragmentNotDefined _ => .validationFailed
  | .stuck => .internal

/-- A request as `execute` gets it, with the reading of the clock that its charge makes. -/
structure QueryRequest where
  query : Text
  operationName : String
  vars : List (String × Variable)
  persistedHit : Bool
  now : Time

/-- What `execute` answers; the operation is handed to the executor. -/
inductive Response where
  | costError (code : ErrorCode) (error : CostError) (cost : QueryCost)
  | rateLimited (retryAfterSeconds : Int) (cost : Int64)
  | unparsed
  | executed (operation : Option Operation) (cost : QueryCost)
  deriving DecidableEq

section Metered

variable (analyzer : Analyzer) (params : BucketParams) (caller : Caller)

/-- The analysis of a request. -/
def QueryRequest.analysis (request : QueryRequest) : Analysis :=
  analyzer.analyze request.vars request.query request.operationName caller.kind
    request.persistedHit

/-- `execute` of the router, up to the executor. -/
def execute (request : QueryRequest) (limiter : MemoryLimiter) : Response × MemoryLimiter :=
  let analysis := request.analysis analyzer caller
  match analysis.error with
  | some error =>
      -- The answer of `Charge` is dropped.
      (.costError (mapErr error) error analysis.cost,
        (charge params caller (tokensFor analysis.cost false) request.now limiter).2)
  | none =>
      match charge params caller (tokensFor analysis.cost true) request.now limiter with
      | (some retryAfterSeconds, limiter) =>
          (.rateLimited retryAfterSeconds analysis.cost.complexity, limiter)
      | (none, limiter) =>
          match parseQuery request.query with
          | .ok document _ =>
              (.executed (executedOperation document request.operationName) analysis.cost, limiter)
          | _ => (.unparsed, limiter)

/-- The tokens that a request is charged. -/
def QueryRequest.tokens (request : QueryRequest) : Int64 :=
  let analysis := request.analysis analyzer caller
  tokensFor analysis.cost analysis.error.isNone

/-- The call of `Take` that a request makes. -/
def QueryRequest.takeCall (request : QueryRequest) : TakeCall :=
  chargeCall params caller (request.tokens analyzer caller) request.now

/-- A request with its answer and the limiter before and after it. -/
structure Exchange where
  request : QueryRequest
  response : Response
  before : MemoryLimiter
  after : MemoryLimiter

/-- The exchanges of a run. -/
def exchanges (limiter : MemoryLimiter) : List QueryRequest → List Exchange
  | [] => []
  | request :: rest =>
      let executed := execute analyzer params caller request limiter
      ⟨request, executed.1, limiter, executed.2⟩ :: exchanges executed.2 rest

/-- The level of the bucket when a request is charged, after the refill. -/
def Exchange.level (exchange : Exchange) : ℚ :=
  let call := exchange.request.takeCall analyzer params caller
  call.refilled (call.bucket (exchange.before.buckets caller.bucketKey))

/-- An exchange takes an amount from the bucket. -/
def Exchange.Deducts (exchange : Exchange) (amount : ℚ) : Prop :=
  exchange.after.buckets caller.bucketKey =
    some ⟨exchange.level analyzer params caller - amount, exchange.request.now,
      params.capacity caller.kind, params.refill caller.kind⟩

/-- The analysis rejects the request. -/
def Exchange.rejected (exchange : Exchange) : Bool :=
  (exchange.request.analysis analyzer caller).error.isSome

/-- The bucket can pay for the request. -/
def Exchange.covered (exchange : Exchange) : Bool :=
  (exchange.request.tokens analyzer caller).toInt ≤ exchange.level analyzer params caller

/-- The answer is a cost error. -/
def Response.isCostError : Response → Bool
  | .costError _ _ _ => true
  | _ => false

/-- The answer is a rate limit. -/
def Response.isRateLimited : Response → Bool
  | .rateLimited _ _ => true
  | _ => false

/-! ## What a request pays -/

/-- A rejected query costs at least twenty tokens. -/
theorem parseCost_ge (cost : QueryCost) : 20 ≤ (parseCost cost).toInt := by
  unfold parseCost
  dsimp only
  split
  · decide
  · next enough =>
      have least := Int64.le_iff_toInt_le.mp (Int64.not_lt.mp enough)
      exact least

theorem chargeCall_n_pos (tokens : Int64) (now : Time) :
    0 < (chargeCall params caller tokens now).n := by
  have least : 1 ≤ (if tokens < 1 then 1 else tokens : Int64).toInt := by
    split
    · decide
    · next enough => exact Int64.le_iff_toInt_le.mp (Int64.not_lt.mp enough)
  have positive : 0 < (if tokens < 1 then 1 else tokens : Int64).toInt := by omega
  exact Int.cast_pos.mpr positive

variable {analyzer params caller}

theorem tokens_of_rejected {request : QueryRequest} {error : CostError}
    (rejected : (request.analysis analyzer caller).error = some error) :
    request.tokens analyzer caller =
      tokensFor (request.analysis analyzer caller).cost false := by
  simp [QueryRequest.tokens, rejected]

/-- A rejected request asks for the cost of parsing. -/
theorem takeCall_n_of_rejected {request : QueryRequest} {error : CostError}
    (rejected : (request.analysis analyzer caller).error = some error) :
    (request.takeCall analyzer params caller).n =
      (tokensFor (request.analysis analyzer caller).cost false).toInt := by
  have least := parseCost_ge (request.analysis analyzer caller).cost
  have enough : ¬ parseCost (request.analysis analyzer caller).cost < 1 := by
    rw [Int64.not_lt, Int64.le_iff_toInt_le]
    exact Int.le_trans (by decide) least
  unfold QueryRequest.takeCall
  rw [tokens_of_rejected rejected]
  simp [chargeCall, tokensFor, enough]

/-- Whatever it answers, a request makes its one call of `Take`. -/
theorem execute_limiter (positive : 0 < params.capacity caller.kind) (request : QueryRequest)
    (limiter : MemoryLimiter) :
    (execute analyzer params caller request limiter).2 =
      (limiter.take (request.takeCall analyzer params caller)).2 := by
  have charged (tokens : Int64) :
      (charge params caller tokens request.now limiter).2 =
        (limiter.take (chargeCall params caller tokens request.now)).2 := by
    unfold charge
    rw [if_neg (not_le.mpr positive)]
    dsimp only
    split <;> rfl
  unfold execute QueryRequest.takeCall QueryRequest.tokens
  dsimp only
  cases verdict : (request.analysis analyzer caller).error with
  | some error => exact charged _
  | none =>
      have paid := charged (tokensFor (request.analysis analyzer caller).cost true)
      dsimp only [Option.isNone]
      rw [← paid]
      split
      · next answered => rw [answered]
      · next answered =>
          rw [answered]
          split <;> rfl

/-- `Take` deducts the amount when the level covers it, and otherwise nothing. -/
theorem take_bucket (limiter : MemoryLimiter) (call : TakeCall) :
    let level := call.refilled (call.bucket (limiter.buckets call.key))
    (limiter.take call).1.granted = decide (call.n ≤ level) ∧
      (limiter.take call).2.buckets call.key =
        some ⟨level - (if call.n ≤ level then call.n else 0), call.now, call.capacity,
          call.refillPerSec⟩ := by
  dsimp only
  unfold MemoryLimiter.take TakeCall.serve
  dsimp only
  rw [Function.update_self]
  split
  · next short =>
      have uncovered : ¬ call.n ≤ call.refilled (call.bucket (limiter.buckets call.key)) :=
        not_le.mpr short
      simp [uncovered]
  · next covered =>
      have enough := not_lt.mp covered
      simp [enough]

/-- A rejected request is answered with its cost error and pays the cost of parsing if the
bucket covers it. -/
theorem execute_rejected (positive : 0 < params.capacity caller.kind) {exchange : Exchange}
    {error : CostError} (served : (exchange.response, exchange.after) =
      execute analyzer params caller exchange.request exchange.before)
    (rejected : (exchange.request.analysis analyzer caller).error = some error) :
    let tokens := (tokensFor (exchange.request.analysis analyzer caller).cost false).toInt
    exchange.response =
        .costError (mapErr error) error (exchange.request.analysis analyzer caller).cost ∧
      exchange.Deducts analyzer params caller
        (if tokens ≤ exchange.level analyzer params caller then tokens else 0) := by
  obtain ⟨responseEq, afterEq⟩ := Prod.ext_iff.mp served
  constructor
  · rw [show exchange.response = _ from responseEq]
    simp [execute, rejected]
  · have bucket := (take_bucket exchange.before
      (exchange.request.takeCall analyzer params caller)).2
    rw [takeCall_n_of_rejected rejected, ← execute_limiter positive,
      ← show exchange.after = _ from afterEq] at bucket
    exact bucket

theorem served_of_mem_exchanges {limiter : MemoryLimiter} {requests : List QueryRequest}
    {exchange : Exchange}
    (membership : exchange ∈ exchanges analyzer params caller limiter requests) :
    (exchange.response, exchange.after) =
      execute analyzer params caller exchange.request exchange.before := by
  induction requests generalizing limiter with
  | nil => cases membership
  | cons request rest inductionHypothesis =>
      rcases List.mem_cons.mp membership with rfl | later
      · rfl
      · exact inductionHypothesis later

/-- Every rejected request that the bucket covers has twenty tokens granted. -/
theorem charged_le_granted (positive : 0 < params.capacity caller.kind)
    (limiter : MemoryLimiter) (requests : List QueryRequest) :
    20 * (((exchanges analyzer params caller limiter requests).countP fun exchange =>
        exchange.rejected analyzer caller && exchange.covered analyzer params caller : Nat) : ℚ) ≤
      granted (limiter.takes (requests.map (·.takeCall analyzer params caller))) := by
  induction requests generalizing limiter with
  | nil => simp [exchanges, MemoryLimiter.takes]
  | cons request rest inductionHypothesis =>
      have later := inductionHypothesis
        (limiter.take (request.takeCall analyzer params caller)).2
      have grantedEq := (take_bucket limiter (request.takeCall analyzer params caller)).1
      have nonneg : 0 ≤ (request.takeCall analyzer params caller).n :=
        le_of_lt (chargeCall_n_pos _ _ _ _)
      simp only [exchanges, List.map_cons, MemoryLimiter.takes, granted_cons,
        execute_limiter positive, List.countP_cons]
      split
      · next paid =>
          -- A rejected request that the bucket covers is granted the cost of parsing.
          obtain ⟨rejected, covered⟩ := Bool.and_eq_true_iff.mp paid
          obtain ⟨error, verdict⟩ := Option.isSome_iff_exists.mp rejected
          have amount : (request.takeCall analyzer params caller).n = _ :=
            takeCall_n_of_rejected verdict
          have least := parseCost_ge (request.analysis analyzer caller).cost
          have enough : (20 : ℚ) ≤ (request.takeCall analyzer params caller).n := by
            rw [amount]
            exact_mod_cast least
          have grants : (limiter.take (request.takeCall analyzer params caller)).1.granted =
              true := by
            rw [grantedEq, decide_eq_true_eq, amount]
            rw [Exchange.covered, tokens_of_rejected verdict] at covered
            exact of_decide_eq_true covered
          rw [if_pos grants]
          push_cast
          linarith
      · next unpaid =>
          have contribution : 0 ≤
              if (limiter.take (request.takeCall analyzer params caller)).1.granted = true then
                (request.takeCall analyzer params caller).n else 0 := by
            split
            · exact nonneg
            · exact le_refl 0
          push_cast
          linarith

/-- Rejected requests are answered with their cost error.  Each takes the cost of parsing, at
least twenty tokens, from the bucket exactly when the bucket holds that much, and else nothing;
so those that are charged are at most a twentieth of the tokens granted. -/
theorem rejected_charged (analyzer : Analyzer) (params : BucketParams) (caller : Caller)
    (positive : 0 < params.capacity caller.kind) (limiter : MemoryLimiter)
    (requests : List QueryRequest) :
    let log := exchanges analyzer params caller limiter requests
    (∀ exchange ∈ log, ∀ error,
      (exchange.request.analysis analyzer caller).error = some error →
        let tokens := (tokensFor (exchange.request.analysis analyzer caller).cost false).toInt
        20 ≤ tokens ∧
          exchange.response =
            .costError (mapErr error) error (exchange.request.analysis analyzer caller).cost ∧
          exchange.Deducts analyzer params caller
            (if tokens ≤ exchange.level analyzer params caller then tokens else 0)) ∧
      20 * ((log.countP fun exchange =>
        exchange.rejected analyzer caller && exchange.covered analyzer params caller : Nat) : ℚ) ≤
        granted (limiter.takes (requests.map (·.takeCall analyzer params caller))) := by
  intro log
  constructor
  · intro exchange membership error rejected tokens
    exact ⟨parseCost_ge _,
      execute_rejected positive (served_of_mem_exchanges membership) rejected⟩
  · exact charged_le_granted positive limiter requests

/-- Rejected requests pay or are answered as rate limited, and a twentieth of the tokens granted
bounds those that are answered with a cost error. -/
structure NeverFree (analyzer : Analyzer) (params : BucketParams) (caller : Caller)
    (limiter : MemoryLimiter) (requests : List QueryRequest) : Prop where
  paid : ∀ exchange ∈ exchanges analyzer params caller limiter requests,
    exchange.rejected analyzer caller = true →
      exchange.Deducts analyzer params caller
          (tokensFor (exchange.request.analysis analyzer caller).cost false).toInt ∨
        exchange.response.isRateLimited = true
  bounded : 20 * (((exchanges analyzer params caller limiter requests).countP fun exchange =>
      exchange.rejected analyzer caller && exchange.response.isCostError : Nat) : ℚ) ≤
    granted (limiter.takes (requests.map (·.takeCall analyzer params caller)))

theorem covered_iff_of_rejected {exchange : Exchange} {error : CostError}
    (rejected : (exchange.request.analysis analyzer caller).error = some error) :
    exchange.covered analyzer params caller = true ↔
      ((tokensFor (exchange.request.analysis analyzer caller).cost false).toInt : ℚ) ≤
        exchange.level analyzer params caller := by
  rw [Exchange.covered, tokens_of_rejected rejected, decide_eq_true_eq]

/-- Deducting two amounts leaves two levels. -/
theorem Exchange.Deducts.unique {exchange : Exchange} {amount other : ℚ}
    (deducts : exchange.Deducts analyzer params caller amount)
    (deductsOther : exchange.Deducts analyzer params caller other) : amount = other := by
  have levels := Option.some.inj (deducts.symm.trans deductsOther)
  rw [Bucket.mk.injEq] at levels
  exact sub_right_injective levels.1

/-- A rejected request that the bucket does not cover is free. -/
theorem NeverFree.covered (positive : 0 < params.capacity caller.kind) {limiter : MemoryLimiter}
    {requests : List QueryRequest} (neverFree : NeverFree analyzer params caller limiter requests)
    {exchange : Exchange}
    (membership : exchange ∈ exchanges analyzer params caller limiter requests)
    (rejected : exchange.rejected analyzer caller = true) :
    exchange.covered analyzer params caller = true := by
  obtain ⟨error, verdict⟩ := Option.isSome_iff_exists.mp rejected
  obtain ⟨charged, -⟩ := rejected_charged analyzer params caller positive limiter requests
  obtain ⟨least, response, deducts⟩ := charged exchange membership error verdict
  rw [covered_iff_of_rejected verdict]
  rcases neverFree.paid exchange membership rejected with paid | limited
  · by_contra short
    have amounts := paid.unique deducts
    rw [if_neg short] at amounts
    have none := Int.cast_eq_zero.mp amounts
    omega
  · rw [response] at limited
    cases limited

end Metered

/-! Thirty tokens, which are not refilled, and two requests that do not parse. -/

def prober : Caller := ⟨.agent, 7⟩

/-- An opening brace and nothing else. -/
def unclosed (now : Time) : QueryRequest := ⟨[byte '\x7b'], "", [], false, now⟩

end GitScale.GraphQL.Cost
