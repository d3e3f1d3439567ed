import GitScale.GraphQL.Parser

/-!
# Cost analysis before execution

`cost.Analyzer.Analyze` parses the source, picks an operation and walks its selections, which
adds up the weight of every field and finds the greatest depth.  Fragments are entered at every
spread; the names that are open are remembered, so that a cycle is an error.
-/

namespace GitScale.GraphQL.Cost

open Foundation Go

/-- `cost.PrincipalKind`. -/
inductive PrincipalKind where
  | unknown
  | human
  | agent
  deriving DecidableEq, Repr

/-- `Cost` of a query. -/
structure QueryCost where
  depth : Nat
  complexity : Int64
  deriving DecidableEq

/-- `Limits`; the discount of persisted queries is given by what it makes of a complexity,
and is none when it is not positive. -/
structure Limits where
  maxDepth : PrincipalKind → Option Int
  maxComplexity : PrincipalKind → Option Int64
  persistedDiscount : Option (Int64 → Int64)
  defaultFirst : Int64
  maxFirst : Int64

/-- `DefaultLimits`.  Half of a complexity is rounded up; above 2^53 the code rounds the
complexity to a float first. -/
def defaultLimits : Limits where
  maxDepth
    | .human => some 10
    | .agent => some 8
    | .unknown => none
  maxComplexity
    | .human => some 1000
    | .agent => some 5000
    | .unknown => none
  persistedDiscount := some fun complexity =>
    complexity / 2 + (if complexity % 2 = 1 then 1 else 0)
  defaultFirst := 20
  maxFirst := 100

/-- `Weight`. -/
structure Weight where
  weight : Int64
  multipliers : List String
  deriving DecidableEq

/-- `FieldWeights`. -/
structure FieldWeights where
  default : Int64
  perType : List (String × List (String × Weight))
  deriving DecidableEq

/-- `DefaultFieldWeights`. -/
def defaultFieldWeights : FieldWeights where
  default := 1
  perType :=
    [("Query",
        [("repository", ⟨1, []⟩), ("user", ⟨1, []⟩), ("agent", ⟨1, []⟩),
          ("pullRequest", ⟨2, []⟩), ("organization", ⟨1, []⟩)]),
      ("Repository",
        [("owner", ⟨1, []⟩), ("pullRequests", ⟨2, ["first"]⟩), ("issues", ⟨2, ["first"]⟩)]),
      ("Organization", [("members", ⟨2, ["first"]⟩)]),
      ("Mutation",
        [("createPullRequest", ⟨10, []⟩), ("createAgent", ⟨10, []⟩),
          ("updateAgentPermissions", ⟨10, []⟩)])]

/-- `Analyzer`; the root types keep the names that `New` gives them. -/
structure Analyzer where
  limits : Limits
  weights : FieldWeights

/-- `New`. -/
def Analyzer.new (limits : Limits) (weights : FieldWeights) : Analyzer where
  limits :=
    { limits with
      defaultFirst := if limits.defaultFirst ≤ 0 then 20 else limits.defaultFirst
      maxFirst := if limits.maxFirst ≤ 0 then 100 else limits.maxFirst }
  weights := weights

/-- The analyzer with the default limits and weights. -/
def Analyzer.standard : Analyzer := .new defaultLimits defaultFieldWeights

/-- The errors of `Analyze`; the model also ends with `stuck` when the fuel of the parser or
of the walk does not suffice. -/
inductive CostError where
  | parse (message : String)
  | depthExceeded (depth : Nat) (max : Int)
  | costBudgetExceeded (complexity budget : Int64)
  | emptyDocument
  | unknownOperation (name : String)
  | ambiguousOperation
  | fragmentCycle (name : String)
  | fragmentNotDefined (name : String)
  | stuck
  deriving DecidableEq

/-- The text of an error, with the verb `%q` for strings. -/
def CostError.message (quoted : String → String) : CostError → String
  | .parse message => message
  | .depthExceeded depth max =>
      "cost: depth exceeded: depth=" ++ toString depth ++ " max=" ++ toString max
  | .costBudgetExceeded complexity budget =>
      "cost: complexity budget exceeded: complexity=" ++ toString complexity.toInt ++
        " budget=" ++ toString budget.toInt
  | .emptyDocument => "cost: unknown operation name: empty document"
  | .unknownOperation name => "cost: unknown operation name: " ++ quoted name
  | .ambiguousOperation => "cost: operationName required for multi-operation document"
  | .fragmentCycle name => "cost: fragment cycle detected: " ++ name
  | .fragmentNotDefined name => "cost: fragment not defined: " ++ name
  | .stuck => ""

/-! ## The charge of a field -/

/-- A variable of the request, as far as `coerceInt` tells them apart.  A float is given by
its conversion to `int`. -/
inductive Variable where
  | int (value : Int64)
  | int32 (value : Int32)
  | int64 (value : Int64)
  | float64 (converted : Int64)
  | jsonNumber (text : String)
  | other
  deriving DecidableEq

/-- `coerceInt`. -/
def coerceInt : Variable → Int64
  | .int value => value
  | .int32 value => value.toInt64
  | .int64 value => value
  | .float64 converted => converted
  | .jsonNumber text => ((parseInt text.toList).map Int64.ofInt).getD 0
  | .other => 0

/-- `Analyzer.intArg`. -/
def intArg (args : List (String × ArgValue)) (name : String)
    (vars : List (String × Variable)) : Int64 :=
  match args.lookup name with
  | none => 0
  | some value =>
      match value.intValue with
      | some number => Int64.ofInt number
      | none =>
          match value.raw.toList with
          | '$' :: first :: rest =>
              ((vars.lookup (String.ofList (first :: rest))).map coerceInt).getD 0
          | digits => ((parseInt digits).map Int64.ofInt).getD 0

/-- `Analyzer.weightFor`. -/
def FieldWeights.weightFor (weights : FieldWeights) (parent field : String) : Weight :=
  match (weights.perType.lookup parent).bind (List.lookup field) with
  | some weight => weight
  | none => ⟨weights.default, []⟩

/-- The factor of `walkField`. -/
def Limits.multiplier (limits : Limits) (weight : Weight) (args : List (String × ArgValue))
    (vars : List (String × Variable)) : Int64 :=
  let picked := weight.multipliers.findSome? fun name =>
    let value := intArg args name vars
    if value > 0 then some (if value > limits.maxFirst then limits.maxFirst else value)
    else none
  match weight.multipliers with
  | [] => picked.getD 1
  | first :: _ =>
      if intArg args first vars ≤ 0 then limits.defaultFirst else picked.getD 1

/-- `childTypes`. -/
def childTypes : List (String × List (String × String)) :=
  [("Query",
      [("repository", "Repository"), ("user", "User"), ("agent", "Agent"),
        ("pullRequest", "PullRequest"), ("organization", "Organization")]),
    ("Repository",
      [("owner", "User"), ("pullRequests", "PullRequestConnection"),
        ("issues", "IssueConnection"), ("defaultBranch", "Ref")]),
    ("Organization", [("members", "UserConnection")]),
    ("PullRequestConnection", [("nodes", "PullRequest"), ("pageInfo", "PageInfo")]),
    ("IssueConnection", [("nodes", "Issue"), ("pageInfo", "PageInfo")]),
    ("UserConnection", [("nodes", "User"), ("pageInfo", "PageInfo")]),
    ("PullRequest", [("author", "User")]),
    ("Mutation",
      [("createPullRequest", "CreatePullRequestPayload"),
        ("createAgent", "CreateAgentPayload"),
        ("updateAgentPermissions", "UpdateAgentPermissionsPayload")]),
    ("CreatePullRequestPayload", [("pullRequest", "PullRequest")]),
    ("CreateAgentPayload", [("agent", "Agent")]),
    ("UpdateAgentPermissionsPayload", [("agent", "Agent")])]

/-- `Analyzer.childType`. -/
def childType (parent field : String) : String :=
  ((childTypes.lookup parent).bind (List.lookup field)).getD "_unknown_"

/-- A name that starts with two underscores. -/
def isIntrospection (name : String) : Bool :=
  match name.toList with
  | '_' :: '_' :: _ => true
  | _ => false

/-! ## The walk -/

/-- What a walk changes: the cost, the open fragments, and the number of calls of `walk` and
`walkField` so far, which the code does not keep. -/
structure Progress where
  depth : Nat
  complexity : Int64
  visited : List String
  calls : Nat
  deriving DecidableEq

/-- The walk before it starts. -/
def Progress.zero : Progress := ⟨0, 0, [], 0⟩

/-- A call of `walk` at a depth. -/
def Progress.enter (progress : Progress) (depth : Nat) : Progress :=
  { progress with depth := max progress.depth depth, calls := progress.calls + 1 }

/-- A call of `walkField`. -/
def Progress.called (progress : Progress) : Progress :=
  { progress with calls := progress.calls + 1 }

def Progress.charge (progress : Progress) (amount : Int64) : Progress :=
  { progress with complexity := progress.complexity + amount }

/-- `visited[name] = true`. -/
def Progress.openFragment (progress : Progress) (name : String) : Progress :=
  { progress with visited := name :: progress.visited }

/-- `delete(visited, name)`. -/
def Progress.closeFragment (progress : Progress) (name : String) : Progress :=
  { progress with visited := progress.visited.filter (· ≠ name) }

/-- What a walk leaves behind, with the error that ended it. -/
abbrev Walked := Progress × Option CostError

/-- Go on unless an error was returned. -/
def Walked.andThen (walked : Walked) (next : Progress → Walked) : Walked :=
  match walked with
  | (progress, none) => next progress
  | (progress, some error) => (progress, some error)

variable (analyzer : Analyzer) (document : Document) (vars : List (String × Variable))

/-- The charge of a field under a type. -/
def Analyzer.fieldCharge (parentType name : String) (args : List (String × ArgValue)) : Int64 :=
  let weight := analyzer.weights.weightFor parentType name
  weight.weight * analyzer.limits.multiplier weight args vars

section Syntax

-- How a named fragment is walked at a depth.
variable (spread : String → Nat → Progress → Walked)

mutual

/-- The loop of `walk`. -/
def walkSelections (parentType : String) (depth : Nat) : List Selection → Progress → Walked
  | [], progress => (progress, none)
  | selection :: rest, progress =>
      (walkSelection parentType depth selection progress).andThen
        (walkSelections parentType depth rest)

/-- One iteration of `walk`. -/
def walkSelection (parentType : String) (depth : Nat) : Selection → Progress → Walked
  | .field field, progress => walkField parentType depth field progress
  | .inlineFragment onType sels, progress =>
      walkSelections (if onType = "" then parentType else onType) depth sels
        (progress.enter depth)
  | .fragmentSpread name, progress => spread name depth progress

/-- `Analyzer.walkField`. -/
def walkField (parentType : String) (depth : Nat) : Field → Progress → Walked
  | .mk name _ args _ sels, progress =>
      if isIntrospection name then (progress.called, none)
      else
        let charged := progress.called.charge (analyzer.fieldCharge vars parentType name args)
        if sels.isEmpty then (charged, none)
        else
          walkSelections (childType parentType name) (depth + 1) sels
            (charged.enter (depth + 1))

end

end Syntax

/-- The spread of a named fragment. -/
def walkSpread (walk : String → Nat → List Selection → Progress → Walked) (name : String)
    (depth : Nat) (progress : Progress) : Walked :=
  if name ∈ progress.visited then (progress, some (.fragmentCycle name))
  else
    match document.fragments.lookup name with
    | none => (progress, some (.fragmentNotDefined name))
    | some fragment =>
        Walked.andThen (walk fragment.onType depth fragment.sels (progress.openFragment name))
          fun walked => (walked.closeFragment name, none)

/-- `Analyzer.walk`, with a bound on how deep spreads are nested. -/
def walk : Nat → String → Nat → List Selection → Progress → Walked
  | 0, _, _, _, progress => (progress, some .stuck)
  | fuel + 1, parentType, depth, sels, progress =>
      walkSelections analyzer vars (walkSpread document (walk fuel)) parentType depth sels
        (progress.enter depth)

/-! ## Analysis -/

/-- `pickOperation`. -/
def pickOperation (name : String) : Except CostError Operation :=
  match document.operations with
  | [] => .error .emptyDocument
  | [operation] =>
      if name ≠ "" ∧ operation.name ≠ name ∧ operation.name ≠ "" then
        .error (.unknownOperation name)
      else .ok operation
  | operations =>
      if name = "" then .error .ambiguousOperation
      else
        match operations.find? fun operation => operation.name = name with
        | some operation => .ok operation
        | none => .error (.unknownOperation name)

/-- The root type of an operation. -/
def rootType (operation : Operation) : String :=
  match operation.kind with
  | .query => "Query"
  | .mutation => "Mutation"

/-- The walk of an operation.  A fragment is open at most once, so spreads are nested at most
as deep as there are fragments. -/
def walkOperation (operation : Operation) : Walked :=
  walk analyzer document vars (document.fragments.length + 1) (rootType operation) 1
    operation.sels .zero

/-- The results of `Analyze`, with the number of calls that were made. -/
structure Analysis where
  cost : QueryCost
  error : Option CostError
  calls : Nat
  deriving DecidableEq

/-- The error of a complexity or a depth above the limits of the principal. -/
def Limits.check (limits : Limits) (kind : PrincipalKind) (cost : QueryCost) : Option CostError :=
  match (limits.maxDepth kind).filter fun max => 0 < max ∧ max < (cost.depth : Int) with
  | some max => some (.depthExceeded cost.depth max)
  | none =>
      match (limits.maxComplexity kind).filter fun max => 0 < max ∧ max < cost.complexity with
      | some max => some (.costBudgetExceeded cost.complexity max)
      | none => none

/-- `Analyze` of a parsed document. -/
def Analyzer.analyzeDocument (opName : String) (kind : PrincipalKind) (persisted : Bool) :
    Analysis :=
  match pickOperation document opName with
  | .error error => ⟨⟨0, 0⟩, some error, 0⟩
  | .ok operation =>
      match walkOperation analyzer document vars operation with
      | (progress, some error) => ⟨⟨0, 0⟩, some error, progress.calls⟩
      | (progress, none) =>
          let complexity :=
            match persisted, analyzer.limits.persistedDiscount with
            | true, some discount => discount progress.complexity
            | _, _ => progress.complexity
          let cost : QueryCost := ⟨progress.depth, complexity⟩
          ⟨cost, analyzer.limits.check kind cost, progress.calls⟩

/-- `Analyze`. -/
def Analyzer.analyze (source : Text) (opName : String) (kind : PrincipalKind)
    (persisted : Bool) : Analysis :=
  match parseQuery source with
  | .ok document _ => analyzer.analyzeDocument document vars opName kind persisted
  | .failed message => ⟨⟨0, 0⟩, some (.parse message), 0⟩
  | .outOfRange | .exhausted => ⟨⟨0, 0⟩, some .stuck, 0⟩

end GitScale.GraphQL.Cost
