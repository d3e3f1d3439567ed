import GitScale.Go.Strconv
import Mathlib.Data.Finset.Filter
import Mathlib.Data.Finset.Insert
import Mathlib.Tactic.Tauto

/-!
# The transit key behind the billing archives

Vault keeps a set of key versions.  Trimming to `min_available_version = m`
deletes every version below `m`.  `DestroyDEKActivity.Execute` takes the version
of one archive from its `kek_hint` and trims to the version after it.
-/

namespace GitScale.Billing

/-- What Vault holds for one transit key. -/
structure TransitKey where
  live : Finset Nat
  minAvailable : Nat
  minDecryption : Nat
  minEncryption : Nat
  available : ∀ version ∈ live, minAvailable ≤ version

/-- The versions that can still decrypt; none for a deleted key. -/
def liveVersions : Option TransitKey → Finset Nat
  | none => ∅
  | some key => key.live

namespace TransitKey

/-- The `config` write of the activity. -/
def config (key : TransitKey) (version : Nat) : TransitKey :=
  { key with minDecryption := version + 1, minEncryption := version + 1 }

/-- The `trim` write of the activity. -/
def trim (key : TransitKey) (version : Nat) : TransitKey where
  live := key.live.filter fun other => version < other
  minAvailable := version + 1
  minDecryption := key.minDecryption
  minEncryption := key.minEncryption
  available := by
    intro other membership
    exact (Finset.mem_filter.mp membership).2

end TransitKey

/-! ## The hint -/

/-- `fmt.Sprintf("platform-billing-v%d", version)`. -/
def kekHint (version : Nat) : List Char :=
  "platform-billing".toList ++ '-' :: 'v' :: Nat.toDigits 10 version

/-- The text after the last occurrence of `-v`, if there is one. -/
def afterLastV : List Char → Option (List Char)
  | [] => none
  | char :: rest =>
      match afterLastV rest with
      | some tail => some tail
      | none => if char = '-' ∧ rest.head? = some 'v' then some rest.tail else none

/-- The text of the error of `strconv.Atoi`; `quote` is the verb `%q`. -/
def atoiError (quote : String → String) (text : List Char) : String :=
  let digits := if text.head? = some '-' ∨ text.head? = some '+' then text.tail else text
  "strconv.Atoi: parsing " ++ quote (String.ofList text) ++ ": " ++
    if (Go.parseUint digits).isSome then "value out of range" else "invalid syntax"

/-- `parseKEKHintVersion`.  The verb `%w` prints the error of a number below one, which is nil. -/
def parseKEKHintVersion (quote : String → String) (hint : List Char) : Except String Nat :=
  if hint = [] then .error "destroy dek: empty kek_hint"
  else
    match afterLastV hint with
    | none => .error ("destroy dek: malformed kek_hint " ++ quote (String.ofList hint))
    | some tail =>
        let badVersion := "destroy dek: bad version in kek_hint " ++ quote (String.ofList hint)
        match Go.parseInt tail with
        | some (.ofNat (version + 1)) => .ok (version + 1)
        | some _ => .error (badVersion ++ ": %!w(<nil>)")
        | none => .error (badVersion ++ ": " ++ atoiError quote tail)

theorem afterLastV_eq_none {text : List Char} (absent : '-' ∉ text) :
    afterLastV text = none := by
  induction text with
  | nil => rfl
  | cons char rest inductionHypothesis =>
      rw [List.mem_cons, not_or] at absent
      have different : char ≠ '-' := fun equal => absent.1 equal.symm
      simp [afterLastV, inductionHypothesis absent.2, different]

theorem afterLastV_append (front : List Char) {tail : List Char} (absent : '-' ∉ tail) :
    afterLastV (front ++ '-' :: 'v' :: tail) = some tail := by
  induction front with
  | nil =>
      have later : afterLastV ('v' :: tail) = none := by
        apply afterLastV_eq_none
        simp [absent]
      rw [List.nil_append, afterLastV, later]
      simp
  | cons char rest inductionHypothesis =>
      rw [List.cons_append, afterLastV, inductionHypothesis]

theorem kekHint_ne_nil (version : Nat) : kekHint version ≠ [] :=
  List.append_ne_nil_of_right_ne_nil _ (List.cons_ne_nil _ _)

/-- The hint of a version is read back as that version. -/
theorem parseKEKHintVersion_kekHint (quote : String → String) {version : Nat}
    (positive : 1 ≤ version) (fits : version < Go.int64Bound) :
    parseKEKHintVersion quote (kekHint version) = .ok version := by
  have digits : '-' ∉ Nat.toDigits 10 version := by
    intro membership
    have digit := Nat.isDigit_of_mem_toDigits (b := 10) (by decide) (by decide) membership
    exact absurd digit (by decide)
  have tail : afterLastV (kekHint version) = some (Nat.toDigits 10 version) :=
    afterLastV_append _ digits
  rw [parseKEKHintVersion, if_neg (kekHint_ne_nil version), tail]
  simp only [Go.parseInt_toDigits fits]
  cases version with
  | zero => exact absurd positive (by decide)
  | succ predecessor => rfl

/-! ## Destroying one version -/

/-- How the `trim` write ends.  A lost answer comes after the effect. -/
inductive TrimOutcome where
  | ok
  | failed (message : String)
  | lost (message : String)
  deriving DecidableEq, Repr

/-- What goes wrong in one attempt of the activity, if anything. -/
structure Attempt where
  read : Option String
  config : Option String
  trim : TrimOutcome
  deriving DecidableEq, Repr

/-- The attempt reaches Vault and its trim takes effect, unless the version is
gone already. -/
def Attempt.effective (attempt : Attempt) : Bool :=
  attempt.read.isNone && attempt.config.isNone &&
    match attempt.trim with
    | .ok | .lost _ => true
    | .failed _ => false

/-- The answer of an activity, the key it leaves, and whether a trim of its own
took effect. -/
structure Execution where
  answer : Except String Nat
  key : Option TransitKey
  trimmed : Bool

/-- The version is no longer available, or the key does not exist. -/
def Gone (key : Option TransitKey) (version : Nat) : Prop :=
  ∀ present, key = some present → version < present.minAvailable

/-- `DestroyDEKActivity` with the mount and the key name in use, and the verb `%q` that its errors
are printed with. -/
structure DestroyDEKActivity where
  mount : String := "transit"
  keyName : String := "platform-billing-master"
  quote : String → String := fun text => "\"" ++ text ++ "\""

namespace DestroyDEKActivity

def keyPath (activity : DestroyDEKActivity) : String :=
  activity.mount ++ "/keys/" ++ activity.keyName

/-- One attempt for a version: probe, raise the minimum versions, trim. -/
def attempt (activity : DestroyDEKActivity) (version : Nat) (faults : Attempt)
    (key : Option TransitKey) : Execution :=
  match faults.read, key with
  | some message, _ =>
      ⟨.error ("destroy dek: read " ++ activity.keyPath ++ ": " ++ message), key, false⟩
  | none, none => ⟨.ok version, key, false⟩
  | none, some present =>
      if version < present.minAvailable then ⟨.ok version, key, false⟩
      else
        match faults.config with
        | some message =>
            ⟨.error ("destroy dek: config " ++ activity.keyPath ++ "/config: " ++ message),
              key, false⟩
        | none =>
            let configured := present.config version
            match faults.trim with
            | .ok => ⟨.ok version, some (configured.trim version), true⟩
            | .failed message =>
                ⟨.error ("destroy dek: trim " ++ activity.keyPath ++ "/trim: " ++ message),
                  some configured, false⟩
            | .lost message =>
                ⟨.error ("destroy dek: trim " ++ activity.keyPath ++ "/trim: " ++ message),
                  some (configured.trim version), true⟩

/-- The attempts that the retry policy allows, up to the first success. -/
def attempts (activity : DestroyDEKActivity) (version : Nat) :
    Attempt → List Attempt → Option TransitKey → Execution
  | first, [], key => activity.attempt version first key
  | first, second :: rest, key =>
      let execution := activity.attempt version first key
      match execution.answer with
      | .ok _ => execution
      | .error _ =>
          let later := activity.attempts version second rest execution.key
          { later with trimmed := execution.trimmed || later.trimmed }

/-- `DestroyDEKActivity.Execute` under the retry policy. -/
def execute (activity : DestroyDEKActivity) (hint : List Char) (first : Attempt)
    (retries : List Attempt) (key : Option TransitKey) : Execution :=
  match parseKEKHintVersion activity.quote hint with
  | .error message => ⟨.error message, key, false⟩
  | .ok version => activity.attempts version first retries key

end DestroyDEKActivity

/-- The partition's own destruction took place: the activity returned nil, or a
trim of its own took effect although it returned an error. -/
def Execution.destroyed (execution : Execution) : Bool :=
  execution.trimmed || execution.answer.isOk

/-! ### What an execution does -/

theorem not_gone_of_live {key : Option TransitKey} {version : Nat}
    (live : version ∈ liveVersions key) : ¬ Gone key version := by
  cases key with
  | none => exact absurd live (Finset.notMem_empty _)
  | some present =>
      intro gone
      have below := gone present rfl
      have above := present.available version live
      omega

theorem Gone.mono {key : Option TransitKey} {version older : Nat}
    (gone : Gone key version) (below : older ≤ version) : Gone key older := by
  intro present equal
  exact Nat.lt_of_le_of_lt below (gone present equal)

/-- What a destruction of `version` does to the key: if `trims` holds then exactly
the versions up to `version` go. -/
structure Trims (key next : Option TransitKey) (version : Nat) (trims : Prop) : Prop where
  live : ∀ other, other ∈ liveVersions next ↔
    other ∈ liveVersions key ∧ ¬ (trims ∧ other ≤ version)
  gone : ∀ other, Gone next other ↔ Gone key other ∨ (trims ∧ other ≤ version)

/-- Nothing to trim, or nothing left to trim. -/
theorem Trims.same {key : Option TransitKey} {version : Nat} {trims : Prop}
    (idle : trims → Gone key version) : Trims key key version trims where
  live other := by
    constructor
    · intro live
      refine ⟨live, ?_⟩
      intro both
      exact not_gone_of_live live ((idle both.1).mono both.2)
    · intro both
      exact both.1
  gone other := by
    constructor
    · exact Or.inl
    · intro either
      rcases either with gone | both
      · exact gone
      · exact (idle both.1).mono both.2

theorem trims_trim (key : TransitKey) {version : Nat}
    (available : key.minAvailable ≤ version) :
    Trims (some key) (some ((key.config version).trim version)) version True where
  live other := by
    simp [liveVersions, TransitKey.trim, TransitKey.config]
  gone other := by
    simp only [Gone, TransitKey.trim, TransitKey.config, Option.some.injEq, forall_eq',
      true_and]
    omega

theorem trims_config (key : TransitKey) {version : Nat} :
    Trims (some key) (some (key.config version)) version False where
  live other := by simp [liveVersions, TransitKey.config]
  gone other := by simp [Gone, TransitKey.config]

theorem Trims.congr {key next : Option TransitKey} {version : Nat} {left right : Prop}
    (trims : Trims key next version left) (same : left ↔ right) :
    Trims key next version right := by
  rwa [propext same] at trims

/-- A version that is gone stays gone, whatever is trimmed up to it. -/
theorem Trims.of_gone {key next : Option TransitKey} {version : Nat} {left : Prop}
    (trims : Trims key next version left) (gone : Gone key version) (right : Prop) :
    Trims key next version right where
  live other := by
    have stays : other ∈ liveVersions key → ¬ other ≤ version := by
      intro live below
      exact not_gone_of_live live (gone.mono below)
    rw [trims.live]
    tauto
  gone other := by
    have below : other ≤ version → Gone key other := gone.mono
    rw [trims.gone]
    tauto

/-- Two destructions of the same version in a row. -/
theorem Trims.trans {first second third : Option TransitKey} {version : Nat}
    {left right : Prop} (earlier : Trims first second version left)
    (later : Trims second third version right) :
    Trims first third version (left ∨ right) where
  live other := by
    rw [later.live, earlier.live]
    tauto
  gone other := by
    rw [later.gone, earlier.gone]
    tauto

/-- What one attempt does and when it counts as the destruction. -/
structure Spec (key : Option TransitKey) (version : Nat) (execution : Execution)
    (effective reads : Prop) : Prop where
  trims : Trims key execution.key version effective
  destroyed : execution.destroyed ↔ effective ∨ (reads ∧ Gone key version)

theorem DestroyDEKActivity.attempt_spec (activity : DestroyDEKActivity) (version : Nat)
    (faults : Attempt) (key : Option TransitKey) :
    Spec key version (activity.attempt version faults key) faults.effective
      (faults.read = none) := by
  cases read : faults.read with
  | some message =>
      have idle : faults.effective = false := by simp [Attempt.effective, read]
      constructor
      · simp only [DestroyDEKActivity.attempt, read]
        exact Trims.same (by simp [idle])
      · simp [DestroyDEKActivity.attempt, read, Execution.destroyed, idle, Except.isOk,
          Except.toBool]
  | none =>
  cases key with
  | none =>
      have gone : Gone none version := by simp [Gone]
      constructor
      · simp only [DestroyDEKActivity.attempt, read]
        exact Trims.same fun _ => gone
      · simp [DestroyDEKActivity.attempt, read, Execution.destroyed, Except.isOk,
          Except.toBool, gone]
  | some present =>
  by_cases trimmed : version < present.minAvailable
  · have gone : Gone (some present) version := by simp [Gone, trimmed]
    constructor
    · simp only [DestroyDEKActivity.attempt, read, if_pos trimmed]
      exact Trims.same fun _ => gone
    · simp [DestroyDEKActivity.attempt, read, trimmed, Execution.destroyed, Except.isOk,
        Except.toBool, gone]
  · have available : ¬ Gone (some present) version := by simpa [Gone] using trimmed
    cases config : faults.config with
    | some message =>
        have idle : faults.effective = false := by simp [Attempt.effective, config]
        constructor
        · simp only [DestroyDEKActivity.attempt, read, if_neg trimmed, config]
          exact Trims.same (by simp [idle])
        · simp [DestroyDEKActivity.attempt, read, trimmed, config, Execution.destroyed,
            idle, Except.isOk, Except.toBool, available]
    | none =>
        cases outcome : faults.trim with
        | failed message =>
            have idle : faults.effective = false := by simp [Attempt.effective, outcome]
            constructor
            · simp only [DestroyDEKActivity.attempt, read, if_neg trimmed, config, outcome]
              exact (trims_config present).congr (by simp [idle])
            · simp [DestroyDEKActivity.attempt, read, trimmed, config, outcome,
                Execution.destroyed, idle, Except.isOk, Except.toBool, available]
        | ok | lost message =>
            have effective : faults.effective = true := by
              simp [Attempt.effective, read, config, outcome]
            constructor
            · simp only [DestroyDEKActivity.attempt, read, if_neg trimmed, config, outcome]
              exact (trims_trim present (Nat.le_of_not_lt trimmed)).congr
                (by simp [effective])
            · simp [DestroyDEKActivity.attempt, read, trimmed, config, outcome,
                Execution.destroyed, effective]

/-- An attempt that returns nil has trimmed or has found the version gone, and an
attempt that returns an error has not found it gone. -/
theorem DestroyDEKActivity.attempt_answer (activity : DestroyDEKActivity) (version : Nat)
    (faults : Attempt) (key : Option TransitKey) :
    (∀ answer, (activity.attempt version faults key).answer = .ok answer →
      faults.effective ∨ Gone key version) ∧
    (∀ message, (activity.attempt version faults key).answer = .error message →
      faults.read = none → ¬ Gone key version) := by
  cases read : faults.read with
  | some message => simp [DestroyDEKActivity.attempt, read]
  | none =>
  cases key with
  | none => simp [DestroyDEKActivity.attempt, read, Gone]
  | some present =>
  by_cases trimmed : version < present.minAvailable
  · simp [DestroyDEKActivity.attempt, read, trimmed, Gone]
  · cases config : faults.config with
    | some message => simp [DestroyDEKActivity.attempt, read, trimmed, config, Gone]
    | none =>
        cases outcome : faults.trim <;>
          simp [DestroyDEKActivity.attempt, read, trimmed, config, outcome, Gone,
            Attempt.effective]

/-- A failed first attempt leaves the decision to the later ones. -/
theorem destroyed_after_error {effective later reads laterReads gone : Prop}
    (unseen : reads → ¬ gone) :
    (effective ∨ later ∨ laterReads ∧ (gone ∨ effective)) ↔
      ((effective ∨ later) ∨ (reads ∨ laterReads) ∧ gone) := by
  tauto

/-- All attempts together behave like one that is effective if some attempt is. -/
theorem DestroyDEKActivity.attempts_spec (activity : DestroyDEKActivity) (version : Nat)
    (first : Attempt) (retries : List Attempt) (key : Option TransitKey) :
    Spec key version (activity.attempts version first retries key)
      (∃ faults ∈ first :: retries, faults.effective)
      (∃ faults ∈ first :: retries, faults.read = none) := by
  induction retries generalizing first key with
  | nil => simpa [DestroyDEKActivity.attempts] using activity.attempt_spec version first key
  | cons second rest inductionHypothesis =>
      have spec := activity.attempt_spec version first key
      have answers := activity.attempt_answer version first key
      simp only [List.exists_mem_cons_iff]
      cases answer : (activity.attempt version first key).answer with
      | ok value =>
          have unfolded : activity.attempts version first (second :: rest) key =
              activity.attempt version first key := by
            simp [DestroyDEKActivity.attempts, answer]
          have destroyed : (activity.attempt version first key).destroyed := by
            simp [Execution.destroyed, answer, Except.isOk, Except.toBool]
          rw [unfolded]
          constructor
          · rcases answers.1 value answer with effective | gone
            · exact spec.trims.congr (by simp [effective])
            · exact spec.trims.of_gone gone _
          · have reason := spec.destroyed.mp destroyed
            tauto
      | error message =>
          have unfolded : activity.attempts version first (second :: rest) key =
              { activity.attempts version second rest
                  (activity.attempt version first key).key with
                trimmed := (activity.attempt version first key).trimmed ||
                  (activity.attempts version second rest
                    (activity.attempt version first key).key).trimmed } := by
            simp [DestroyDEKActivity.attempts, answer]
          have later := inductionHypothesis second (activity.attempt version first key).key
          simp only [List.exists_mem_cons_iff] at later
          have unseen := answers.2 message answer
          have own : (activity.attempt version first key).trimmed ↔ first.effective := by
            have reason := spec.destroyed
            simp only [Execution.destroyed, answer, Except.isOk, Except.toBool,
              Bool.or_false] at reason
            tauto
          have goneAfter := spec.trims.gone version
          rw [unfolded]
          constructor
          · exact spec.trims.trans later.trims
          · have split : Execution.destroyed
                { activity.attempts version second rest
                    (activity.attempt version first key).key with
                  trimmed := (activity.attempt version first key).trimmed ||
                    (activity.attempts version second rest
                      (activity.attempt version first key).key).trimmed } ↔
                first.effective ∨ (activity.attempts version second rest
                  (activity.attempt version first key).key).destroyed := by
              simp only [Execution.destroyed, Bool.or_eq_true, own, or_assoc]
            rw [split, later.destroyed, goneAfter, and_iff_left (Nat.le_refl version)]
            exact destroyed_after_error unseen

end GitScale.Billing
