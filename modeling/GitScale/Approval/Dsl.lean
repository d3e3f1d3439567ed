import GitScale.Basic
import Mathlib.Data.List.Infix

/-!
# Approval policies

The policy language, its structural validation and the evaluation of a rule against a
plan.  A closed enumeration that travels as a string also has the values that its
validity check rejects.
-/

namespace GitScale.Approval

/-- `PredicateKind`. -/
inductive PredicateKind where
  | prMerge
  | forcePush
  | productionDeploy
  | bulkAction
  | agentDefault
  | unknown (text : String)
  deriving DecidableEq, Repr

def PredicateKind.text : PredicateKind → String
  | .prMerge => "pr_merge"
  | .forcePush => "force_push"
  | .productionDeploy => "production_deploy"
  | .bulkAction => "bulk_action"
  | .agentDefault => "agent_default"
  | .unknown text => text

def PredicateKind.isValid : PredicateKind → Bool
  | .unknown _ => false
  | _ => true

/-- `OnTimeout`. -/
inductive OnTimeout where
  | notifyNext
  | autoDeny
  | fallBack
  | unknown (text : String)
  deriving DecidableEq, Repr

def OnTimeout.text : OnTimeout → String
  | .notifyNext => "notify_next"
  | .autoDeny => "auto_deny"
  | .fallBack => "fall_back"
  | .unknown text => text

def OnTimeout.isValid : OnTimeout → Bool
  | .unknown _ => false
  | _ => true

/-- `ProposerKind`. -/
inductive ProposerKind where
  | agent
  | service
  | unknown (text : String)
  deriving DecidableEq, Repr

def ProposerKind.text : ProposerKind → String
  | .agent => "agent"
  | .service => "service"
  | .unknown text => text

def ProposerKind.isValid : ProposerKind → Bool
  | .unknown _ => false
  | _ => true

/-- `EscalationRung`. -/
structure EscalationRung where
  groupName : String
  slaSeconds : Int
  onTimeout : OnTimeout
  deriving DecidableEq, Repr

/-- `ApproverGroup`. -/
structure ApproverGroup where
  name : String
  humanUserIDs : List UUID
  requiredCount : Int
  deriving DecidableEq, Repr

/-- `Rule`; `constraints` is its `Match`. -/
structure Rule where
  kind : PredicateKind
  constraints : List (String × String)
  threshold : Option Int
  ladder : List EscalationRung
  expirySeconds : Int
  deriving DecidableEq, Repr

/-- `Policy`.  The map of approver groups is a list with one entry for each key. -/
structure Policy where
  id : UUID
  orgID : UUID
  repoID : Option UUID
  name : String
  version : Int
  rules : List Rule
  approverGroups : List (String × ApproverGroup)
  keys_nodup : (approverGroups.map Prod.fst).Nodup
  deriving DecidableEq

/-- `Action`. -/
structure Action where
  kind : String
  fields : List (String × String)
  deriving DecidableEq, Repr

/-! ## Validation -/

/-- The codes of `ValidationError`. -/
inductive ValidationCode where
  | invalidPredicateKind
  | emptyLadder
  | unknownApproverGroup
  | zeroRequiredCount
  | nonHumanApprover
  | invalidOnTimeout
  | bulkThresholdMissing
  | requiredCountTooLarge
  | fallBackOnFirstRung
  | emptyName
  | nonPositiveExpiry
  | nonPositiveSLA
  | noRules
  deriving DecidableEq, Repr

/-- `ValidationError`. -/
structure ValidationError where
  code : ValidationCode
  message : String
  deriving DecidableEq, Repr

/-- The checks on one approver group; `quote` is the `%q` verb. -/
def validateGroup (quote : String → String) (name : String) (group : ApproverGroup) :
    Option ValidationError :=
  if name ≠ group.name then
    some ⟨.emptyName, "approver group key " ++ quote name ++
      " does not match group.Name " ++ quote group.name⟩
  else if group.requiredCount ≤ 0 then
    some ⟨.zeroRequiredCount, "approver group " ++ quote name ++ " has required_count <= 0"⟩
  else if (group.humanUserIDs.length : Int) < group.requiredCount then
    some ⟨.requiredCountTooLarge, "approver group " ++ quote name ++
      " required_count exceeds member count"⟩
  else if UUID.nil ∈ group.humanUserIDs then
    some ⟨.nonHumanApprover, "approver group " ++ quote name ++ " contains a zero UUID"⟩
  else none

/-- The checks on rung `j` of rule `i`. -/
def validateRung (quote : String → String) (policy : Policy) (i j : Nat)
    (rung : EscalationRung) : Option ValidationError :=
  let place := "rule[" ++ toString i ++ "].ladder[" ++ toString j ++ "]: "
  if (policy.approverGroups.lookup rung.groupName).isNone then
    some ⟨.unknownApproverGroup, place ++ "group " ++ quote rung.groupName ++
      " not declared in approver_groups"⟩
  else if rung.slaSeconds ≤ 0 then
    some ⟨.nonPositiveSLA, place ++ "sla_seconds must be > 0"⟩
  else if ¬ rung.onTimeout.isValid then
    some ⟨.invalidOnTimeout, place ++ "on_timeout " ++ quote rung.onTimeout.text ++
      " is not in the closed enum"⟩
  else if j = 0 ∧ rung.onTimeout = .fallBack then
    some ⟨.fallBackOnFirstRung, "rule[" ++ toString i ++
      "].ladder[0]: first rung cannot use on_timeout=fall_back"⟩
  else none

/-- The checks on rule `i`. -/
def validateRule (quote : String → String) (policy : Policy) (i : Nat) (rule : Rule) :
    Option ValidationError :=
  let place := "rule[" ++ toString i ++ "]: "
  if ¬ rule.kind.isValid then
    some ⟨.invalidPredicateKind, place ++ "predicate kind " ++ quote rule.kind.text ++
      " is not in the closed enum"⟩
  else if rule.expirySeconds ≤ 0 then
    some ⟨.nonPositiveExpiry, place ++ "expiry_seconds must be > 0"⟩
  else if rule.kind = .bulkAction ∧ rule.threshold.getD 0 ≤ 0 then
    some ⟨.bulkThresholdMissing, place ++ "bulk_action requires a positive threshold"⟩
  else if rule.ladder = [] then
    some ⟨.emptyLadder, place ++ "ladder must contain at least one rung"⟩
  else
    rule.ladder.zipIdx.findSome? fun entry => validateRung quote policy i entry.2 entry.1

/-- `Validate`: the first error, for the groups in the order of the list. -/
def validate (quote : String → String) (policy : Option Policy) : Option ValidationError :=
  match policy with
  | none => some ⟨.emptyName, "policy is nil"⟩
  | some policy =>
      if policy.name = "" then some ⟨.emptyName, "policy.name is empty"⟩
      else if policy.rules = [] then some ⟨.noRules, "policy.rules is empty"⟩
      else
        match policy.approverGroups.findSome? fun entry =>
            validateGroup quote entry.1 entry.2 with
        | some error => some error
        | none =>
            policy.rules.zipIdx.findSome? fun entry =>
              validateRule quote policy entry.2 entry.1

/-! ## Rules -/

/-- `m[key]` of a `map[string]string`. -/
def fieldOf (fields : List (String × String)) (key : String) : String :=
  (fields.lookup key).getD ""

/-- `matchByField`. -/
def matchByField (actions : List Action) (kind field want : String) : Bool :=
  actions.any fun action =>
    action.kind = kind && (want = "" || fieldOf action.fields field = want)

/-- `matchByPattern`, for the `path.Match` of the platform; `none` is a malformed
pattern. -/
def matchByPattern (pathMatch : String → String → Option Bool) (actions : List Action)
    (kind field pattern : String) : Bool :=
  actions.any fun action =>
    let value := fieldOf action.fields field
    action.kind = kind &&
      (pattern = "" || pathMatch pattern value = some true ||
        ("/*".toList.isSuffixOf pattern.toList &&
          pattern.toList.dropLast.isPrefixOf value.toList))

/-- `matchRule`. -/
def matchRule (pathMatch : String → String → Option Bool) (rule : Rule)
    (actions : List Action) (proposer : ProposerKind) : Bool :=
  match rule.kind with
  | .prMerge => matchByField actions "pr_merge" "branch" (fieldOf rule.constraints "branch")
  | .forcePush =>
      matchByPattern pathMatch actions "force_push" "ref"
        (fieldOf rule.constraints "ref_pattern")
  | .productionDeploy =>
      matchByField actions "production_deploy" "environment"
        (fieldOf rule.constraints "environment")
  | .bulkAction =>
      match rule.threshold with
      | none => false
      | some threshold => threshold ≤ actions.length
  | .agentDefault => proposer = .agent
  | .unknown _ => false

end GitScale.Approval
