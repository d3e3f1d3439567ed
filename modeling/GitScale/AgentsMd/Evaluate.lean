import GitScale.AgentsMd.Parser

/-!
# Evaluating Never predicates

Every predicate of a policy is matched against every update of a push.  A predicate that
needs to know about files asks a `FileResolver`, whose failure ends the evaluation.
-/

namespace GitScale.AgentsMd

open Go

/-! ## Errors -/

/-- The sentinel errors that are looked for with `errors.Is`: `hook.ErrBlobNotFound` and
`gitaly.ErrBlobNotFound` are two different values. -/
inductive Sentinel where
  | hookBlobNotFound
  | gitalyBlobNotFound
  deriving DecidableEq, Repr

/-- An error value: its text and the sentinels in its chain. -/
structure Failure where
  message : Text
  chain : List Sentinel
  deriving DecidableEq

/-- `errors.Is`. -/
def Failure.is (failure : Failure) (sentinel : Sentinel) : Bool := sentinel ∈ failure.chain

/-- `fmt.Errorf` with a `%w` verb at the end. -/
def Failure.wrap (context : Text) (failure : Failure) : Failure :=
  { failure with message := context ++ failure.message }

/-! ## Inputs -/

/-- `ZeroOID`. -/
def zeroOID : Text := List.replicate 40 (byte '0')

/-- `RefUpdate`. -/
structure RefUpdate where
  refName : Text
  oldOID : Text
  newOID : Text
  deriving DecidableEq

/-- `FileResolver`. -/
structure FileResolver where
  changed : Text → Text → Except Failure (List Text)
  size : Text → Text → Except Failure Int64
  isFastForward : Text → Text → Except Failure Bool

/-- `Violation`. -/
structure Violation where
  predicate : NeverPredicate
  refName : Text
  reason : Text
  deriving DecidableEq

/-! ## Globs -/

/-- `refs/heads/`. -/
def headsPrefix : Text := utf8 "refs/heads/"

variable (platform : Platform)

/-- `globMatch`. -/
def globMatch (glob name : Text) : Bool :=
  if glob = [] then false else platform.pathMatch glob name = some true

/-- `branchMatches`. -/
def branchMatches (glob refName : Text) : Bool :=
  if hasPrefix refName headsPrefix then
    globMatch platform glob (refName.drop headsPrefix.length)
  else false

/-- `branchName`. -/
def branchName (refName : Text) : Text :=
  if hasPrefix refName headsPrefix then refName.drop headsPrefix.length else refName

/-- `pathMatches`. -/
def pathMatches (glob path : Text) : Bool :=
  if hasSuffix glob (utf8 "/**") then
    let directory := trimSuffix glob (utf8 "/**")
    path = directory || hasPrefix path (directory ++ [byte '/'])
  else if glob = utf8 "**" then true
  else platform.pathMatch glob path = some true

/-! ## One predicate against one update -/

/-- The reason of a branch rule. -/
def branchReason (before : String) (after : String) (refName glob : Text) : Text :=
  utf8 before ++ platform.quote (branchName refName) ++ utf8 after ++ utf8 "(glob " ++
    platform.quote glob ++ utf8 ")"

/-- The `%d` verb. -/
def decimal (n : Int64) : Text := utf8 (toString n.toInt)

/-- The loop of `push_binary_over_size` over the changed paths. -/
def firstOverSize (files : FileResolver) (oid : Text) (maxBytes : Int64) :
    List Text → Except Failure (Option Text)
  | [] => .ok none
  | path :: rest =>
      match files.size oid path with
      | .error failure => .error failure
      | .ok size =>
          if size > maxBytes then
            .ok (some (utf8 "blob " ++ platform.quote path ++ utf8 " size " ++ decimal size ++
              utf8 " > limit " ++ decimal maxBytes))
          else firstOverSize files oid maxBytes rest

/-- `matchPredicate`: the reason of a match, or `none`. -/
def matchPredicate (files : Option FileResolver) (pred : NeverPredicate) (upd : RefUpdate) :
    Except Failure (Option Text) :=
  let glob := pred.selector.branchGlob
  match pred.name with
  | .deleteBranch =>
      if ¬ branchMatches platform glob upd.refName then .ok none
      else if upd.newOID ≠ zeroOID then .ok none
      else
        .ok (some (branchReason platform "branch " " deletion blocked by Never rule "
          upd.refName glob))
  | .pushToBranch =>
      if ¬ branchMatches platform glob upd.refName then .ok none
      else
        .ok (some (branchReason platform "push to branch " " blocked by Never rule "
          upd.refName glob))
  | .forcePushToBranch =>
      if ¬ branchMatches platform glob upd.refName then .ok none
      else if upd.oldOID = zeroOID ∨ upd.newOID = zeroOID then .ok none
      else
        match files with
        | none => .error ⟨utf8 "force_push_to_branch requires a FileResolver", []⟩
        | some files =>
            match files.isFastForward upd.oldOID upd.newOID with
            | .error failure => .error failure
            | .ok true => .ok none
            | .ok false =>
                .ok (some (branchReason platform "force push to " " blocked by Never rule "
                  upd.refName glob))
  | .modifyPath =>
      match files with
      | none => .error ⟨utf8 "modify_path requires a FileResolver", []⟩
      | some files =>
          match files.changed upd.oldOID upd.newOID with
          | .error failure => .error failure
          | .ok paths =>
              .ok ((paths.find? (pathMatches platform pred.selector.pathGlob)).map fun path =>
                utf8 "path " ++ platform.quote path ++
                  utf8 " modification blocked by Never rule (glob " ++
                  platform.quote pred.selector.pathGlob ++ utf8 ")")
  | .pushBinaryOverSize =>
      match files with
      | none => .error ⟨utf8 "push_binary_over_size requires a FileResolver", []⟩
      | some files =>
          match files.changed upd.oldOID upd.newOID with
          | .error failure => .error failure
          | .ok paths => firstOverSize platform files upd.newOID pred.selector.maxBytes paths
  | .unknown _ => .ok none

/-! ## Evaluation -/

/-- The pairs that the two loops of `Evaluate` visit, in order. -/
def pairsOf (never : List NeverPredicate) (updates : List RefUpdate) :
    List (NeverPredicate × RefUpdate) :=
  never.flatMap fun pred => updates.map fun upd => (pred, upd)

/-- The body of the loops. -/
def evaluatePairs (files : Option FileResolver) :
    List (NeverPredicate × RefUpdate) → Except Failure (List Violation)
  | [] => .ok []
  | (pred, upd) :: rest =>
      match matchPredicate platform files pred upd with
      | .error failure =>
          .error (failure.wrap (utf8 "agentsmd: evaluate " ++ pred.name.text ++ utf8 " on " ++
            upd.refName ++ utf8 ": "))
      | .ok none => evaluatePairs files rest
      | .ok (some reason) =>
          (evaluatePairs files rest).map (⟨pred, upd.refName, reason⟩ :: ·)

/-- The predicates that a policy enforces; nil and empty policies enforce none. -/
def enforced : Option Policy → List NeverPredicate
  | none => []
  | some policy => if policy.empty then [] else policy.never

/-- `Evaluate`. -/
def evaluate (policy : Option Policy) (updates : List RefUpdate)
    (files : Option FileResolver) : Except Failure (List Violation) :=
  evaluatePairs platform files (pairsOf (enforced policy) updates)

section Evaluate

variable {platform} {files : Option FileResolver}

theorem mem_pairsOf {never : List NeverPredicate} {updates : List RefUpdate}
    {pred : NeverPredicate} {upd : RefUpdate} :
    (pred, upd) ∈ pairsOf never updates ↔ pred ∈ never ∧ upd ∈ updates := by
  simp [pairsOf]

theorem pairsOf_append (front back : List NeverPredicate) (updates : List RefUpdate) :
    pairsOf (front ++ back) updates = pairsOf front updates ++ pairsOf back updates := by
  simp [pairsOf]

theorem enforced_of_wellFormed {policy : Policy} (wellFormed : policy.WellFormed) :
    enforced (some policy) = policy.never := by
  simp only [enforced]
  split
  · next empty => exact (wellFormed.empty.mp empty).symm
  · rfl

/-- Nothing is reported exactly when no pair matches and none fails. -/
theorem evaluatePairs_eq_nil_iff (pairs : List (NeverPredicate × RefUpdate)) :
    evaluatePairs platform files pairs = .ok [] ↔
      ∀ pair ∈ pairs, matchPredicate platform files pair.1 pair.2 = .ok none := by
  induction pairs with
  | nil => simp [evaluatePairs]
  | cons pair rest inductionHypothesis =>
      rw [evaluatePairs, List.forall_mem_cons, ← inductionHypothesis]
      cases matchPredicate platform files pair.1 pair.2 with
      | error failure => simp
      | ok found =>
          cases found with
          | none => simp
          | some reason =>
              cases evaluatePairs platform files rest with
              | error failure => simp [Except.map]
              | ok violations => simp [Except.map]

theorem evaluate_eq_nil_iff (policy : Option Policy) (updates : List RefUpdate) :
    evaluate platform policy updates files = .ok [] ↔
      ∀ pred ∈ enforced policy, ∀ upd ∈ updates,
        matchPredicate platform files pred upd = .ok none := by
  rw [evaluate, evaluatePairs_eq_nil_iff]
  constructor
  · intro quiet pred listed upd member
    exact quiet (pred, upd) (mem_pairsOf.mpr ⟨listed, member⟩)
  · rintro quiet ⟨pred, upd⟩ member
    obtain ⟨listed, member⟩ := mem_pairsOf.mp member
    exact quiet pred listed upd member

/-- The violation of a pair, when the predicate matches. -/
def violationOf (platform : Platform) (files : Option FileResolver)
    (pair : NeverPredicate × RefUpdate) : Option Violation :=
  match matchPredicate platform files pair.1 pair.2 with
  | .ok (some reason) => some ⟨pair.1, pair.2.refName, reason⟩
  | _ => none

/-- Without failures the loops collect the violations of the pairs. -/
theorem evaluatePairs_of_total {pairs : List (NeverPredicate × RefUpdate)}
    (total : ∀ pair ∈ pairs, ∃ found, matchPredicate platform files pair.1 pair.2 = .ok found) :
    evaluatePairs platform files pairs = .ok (pairs.filterMap (violationOf platform files)) := by
  induction pairs with
  | nil => rfl
  | cons pair rest inductionHypothesis =>
      obtain ⟨found, matched⟩ := total pair List.mem_cons_self
      have others := inductionHypothesis fun other member =>
        total other (List.mem_cons_of_mem pair member)
      rw [evaluatePairs, matched, List.filterMap_cons, others]
      cases found with
      | none => simp [violationOf, matched]
      | some reason => simp [violationOf, matched, Except.map]

/-- A violation that is reported is the match of a pair. -/
theorem exists_of_mem_evaluatePairs {pairs : List (NeverPredicate × RefUpdate)}
    {violations : List Violation} {violation : Violation}
    (evaluated : evaluatePairs platform files pairs = .ok violations)
    (reported : violation ∈ violations) :
    ∃ pair ∈ pairs, pair.1 = violation.predicate ∧
      ∃ reason, matchPredicate platform files pair.1 pair.2 = .ok (some reason) := by
  induction pairs generalizing violations with
  | nil =>
      cases evaluated
      simp at reported
  | cons pair rest inductionHypothesis =>
      rw [evaluatePairs] at evaluated
      cases matched : matchPredicate platform files pair.1 pair.2 with
      | error failure => simp [matched] at evaluated
      | ok found =>
          cases found with
          | none =>
              simp only [matched] at evaluated
              obtain ⟨other, member, found⟩ := inductionHypothesis evaluated reported
              exact ⟨other, List.mem_cons_of_mem pair member, found⟩
          | some reason =>
              simp only [matched] at evaluated
              cases others : evaluatePairs platform files rest with
              | error failure => simp [others, Except.map] at evaluated
              | ok later =>
                  simp only [others, Except.map, Except.ok.injEq] at evaluated
                  rw [← evaluated] at reported
                  cases List.mem_cons.mp reported with
                  | inl same =>
                      exact ⟨pair, List.mem_cons_self, by rw [same], reason, matched⟩
                  | inr listed =>
                      obtain ⟨other, member, found⟩ := inductionHypothesis others listed
                      exact ⟨other, List.mem_cons_of_mem pair member, found⟩

/-- A `FileResolver` that answers every question about an update. -/
structure FileResolver.Answers (files : FileResolver) (upd : RefUpdate) : Prop where
  changed : ∃ paths, files.changed upd.oldOID upd.newOID = .ok paths ∧
    ∀ path ∈ paths, ∃ size, files.size upd.newOID path = .ok size
  isFastForward : ∃ answer, files.isFastForward upd.oldOID upd.newOID = .ok answer

theorem firstOverSize_total {files : FileResolver} {oid : Text} (maxBytes : Int64)
    {paths : List Text} (sizes : ∀ path ∈ paths, ∃ size, files.size oid path = .ok size) :
    ∃ found, firstOverSize platform files oid maxBytes paths = .ok found := by
  induction paths with
  | nil => exact ⟨none, rfl⟩
  | cons path rest inductionHypothesis =>
      obtain ⟨size, known⟩ := sizes path List.mem_cons_self
      rw [firstOverSize, known]
      simp only
      split
      · exact ⟨_, rfl⟩
      · exact inductionHypothesis fun other member =>
          sizes other (List.mem_cons_of_mem path member)

/-- Matching fails only when the resolver does. -/
theorem FileResolver.Answers.matchPredicate {files : FileResolver} {upd : RefUpdate}
    (answers : files.Answers upd) (pred : NeverPredicate) :
    ∃ found, AgentsMd.matchPredicate platform (some files) pred upd = .ok found := by
  obtain ⟨paths, changed, sizes⟩ := answers.changed
  obtain ⟨answer, descends⟩ := answers.isFastForward
  unfold AgentsMd.matchPredicate
  simp only [changed, descends]
  cases pred.name with
  | deleteBranch =>
      simp only
      split
      · exact ⟨_, rfl⟩
      · split
        · exact ⟨_, rfl⟩
        · exact ⟨_, rfl⟩
  | pushToBranch =>
      simp only
      split
      · exact ⟨_, rfl⟩
      · exact ⟨_, rfl⟩
  | forcePushToBranch =>
      simp only
      split
      · exact ⟨_, rfl⟩
      · split
        · exact ⟨_, rfl⟩
        · cases answer with
          | true => exact ⟨_, rfl⟩
          | false => exact ⟨_, rfl⟩
  | modifyPath => exact ⟨_, rfl⟩
  | pushBinaryOverSize => exact firstOverSize_total _ sizes
  | unknown text => exact ⟨_, rfl⟩

/-- A `FileResolver` that never fails. -/
structure FileResolver.NeverFails (files : FileResolver) : Prop where
  changed : ∀ oldOID newOID, ∃ paths, files.changed oldOID newOID = .ok paths
  size : ∀ oid path, ∃ size, files.size oid path = .ok size
  isFastForward : ∀ oldOID newOID, ∃ answer, files.isFastForward oldOID newOID = .ok answer

theorem FileResolver.NeverFails.answers {files : FileResolver} (neverFails : files.NeverFails)
    (upd : RefUpdate) : files.Answers upd where
  changed := by
    obtain ⟨paths, changed⟩ := neverFails.changed upd.oldOID upd.newOID
    exact ⟨paths, changed, fun path _ => neverFails.size upd.newOID path⟩
  isFastForward := neverFails.isFastForward upd.oldOID upd.newOID

end Evaluate

end GitScale.AgentsMd
