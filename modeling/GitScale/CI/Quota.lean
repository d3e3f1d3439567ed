import GitScale.CI.Workflow
import Mathlib.Algebra.Order.Ring.Int

/-!
# The ceiling of a job

A boot activity asks the provisioner for a VM only after `validateAgainstQuota` let the shape pass.
The check compares two products that are computed in 64 bits.  The main result says for which
shapes and caps that is the comparison of the exact products.
-/

namespace GitScale.CI

/-! ## Calls of the provisioner -/

/-- `BootInput`; `LeaseInput` has the same fields. -/
structure BootInput where
  jobID : UUID
  principalID : UUID
  orgID : UUID
  resource : ResourceShape
  deriving DecidableEq

/-- What an execution of a boot activity leaves behind: its result, and the inputs it passed to
the provisioner. -/
structure BootRun where
  result : Except BootError MicroVMHandle
  provisioned : List BootInput

/-- The body that the two boot activities share, as `bootVM`, with its calls. -/
def executeBoot (activity method : String) (getQuotaAccount : UUID → QuotaAnswer)
    (provisioner : BootInput → Provision) (input : BootInput) : BootRun :=
  match getQuotaAccount input.orgID with
  | .notFound => ⟨.error (.quotaInsufficient (activity ++ ": quota account not found")), []⟩
  | .failed message => ⟨.error (.other (activity ++ ": GetQuotaAccount: " ++ message)), []⟩
  | .account cap =>
      match validateAgainstQuota input.resource cap with
      | some .quotaInsufficient =>
          ⟨.error (.quotaInsufficient (activity ++ ": quota insufficient")), []⟩
      | some .invalidShape =>
          ⟨.error (.invalidShape (activity ++ ": invalid resource shape")), []⟩
      | none =>
          match provisioner input with
          | .error (some .quotaInsufficient, _) =>
              ⟨.error (.quotaInsufficient (activity ++ ": provisioner: quota insufficient")),
                [input]⟩
          | .error (some .invalidShape, _) =>
              ⟨.error (.invalidShape (activity ++ ": provisioner: invalid shape")), [input]⟩
          | .error (none, message) =>
              ⟨.error (.other (activity ++ ": provisioner." ++ method ++ ": " ++ message)),
                [input]⟩
          | .ok handle => ⟨.ok handle, [input]⟩

/-- `BootColdVMActivity.Execute`. -/
def executeBootCold : (UUID → QuotaAnswer) → (BootInput → Provision) → BootInput → BootRun :=
  executeBoot "runner.BootColdVM" "BootCold"

/-- `LeaseHotVMActivity.Execute`. -/
def executeLeaseHot : (UUID → QuotaAnswer) → (BootInput → Provision) → BootInput → BootRun :=
  executeBoot "runner.LeaseHotVM" "LeaseHot"

/-- The quota lets the shape pass. -/
def admits (resource : ResourceShape) : QuotaAnswer → Bool
  | .account cap => (validateAgainstQuota resource cap).isNone
  | .notFound | .failed _ => false

/-- The result is the one of `bootVM`, and the provisioner is called once, with the input, if the
quota lets it pass. -/
theorem executeBoot_eq (activity method : String) (getQuotaAccount : UUID → QuotaAnswer)
    (provisioner : BootInput → Provision) (input : BootInput) :
    executeBoot activity method getQuotaAccount provisioner input =
      ⟨bootVM activity method input.resource (getQuotaAccount input.orgID) (provisioner input),
        if admits input.resource (getQuotaAccount input.orgID) then [input] else []⟩ := by
  cases quota : getQuotaAccount input.orgID with
  | notFound => simp [executeBoot, bootVM, admits, quota]
  | failed message => simp [executeBoot, bootVM, admits, quota]
  | account cap =>
      cases checked : validateAgainstQuota input.resource cap with
      | some sentinel => cases sentinel <;> simp [executeBoot, bootVM, admits, quota, checked]
      | none =>
          cases answer : provisioner input with
          | ok handle => simp [executeBoot, bootVM, admits, quota, checked, answer]
          | error failure =>
              obtain ⟨sentinel, message⟩ := failure
              rcases sentinel with _ | _ | _ <;>
                simp [executeBoot, bootVM, admits, quota, checked, answer]

theorem provisioned_ne_nil_iff (activity method : String) (getQuotaAccount : UUID → QuotaAnswer)
    (provisioner : BootInput → Provision) (input : BootInput) :
    (executeBoot activity method getQuotaAccount provisioner input).provisioned ≠ [] ↔
      admits input.resource (getQuotaAccount input.orgID) := by
  rw [executeBoot_eq]
  simp

/-! ## The exact ceiling -/

/-- The shape is positive, and its exact product is at most a fifth of the cap. -/
structure WithinCeiling (shape : ResourceShape) (cap : Int64) : Prop where
  vcpu : 0 < shape.vcpu.toInt
  memoryMB : 0 < shape.memoryMB.toInt
  wallClockSeconds : 0 < shape.wallClockSeconds.toInt
  product : shape.vcpu.toInt * shape.wallClockSeconds.toInt ≤ cap.toInt * 60 / 5

/-- No boot activity calls the provisioner beyond the ceiling, and the check lets every shape
below it pass. -/
structure KeepsCeiling (shape : ResourceShape) (cap : Int64) : Prop where
  cold : ∀ getQuotaAccount provisioner input, input.resource = shape →
    getQuotaAccount input.orgID = .account cap →
    (executeBootCold getQuotaAccount provisioner input).provisioned ≠ [] → WithinCeiling shape cap
  hot : ∀ getQuotaAccount provisioner input, input.resource = shape →
    getQuotaAccount input.orgID = .account cap →
    (executeLeaseHot getQuotaAccount provisioner input).provisioned ≠ [] → WithinCeiling shape cap
  accepts : WithinCeiling shape cap → validateAgainstQuota shape cap = none

/-- The exact products stand in the same order as what 64 bits keep of them. -/
inductive ComparesExactly (shape : ResourceShape) (cap : Int64) : Prop
  | noEntitlement (cap : cap.toInt ≤ 0)
  | notPositive (shape : shape.vcpu.toInt ≤ 0 ∨ shape.memoryMB.toInt ≤ 0 ∨
      shape.wallClockSeconds.toInt ≤ 0)
  | within (fits : cap.toInt * 60 < 2 ^ 63)
      (small : shape.vcpu.toInt * shape.wallClockSeconds.toInt ≤ cap.toInt * 12)
  | beyond (fits : cap.toInt * 60 < 2 ^ 63)
      (large : cap.toInt * 12 < shape.vcpu.toInt * shape.wallClockSeconds.toInt % 2 ^ 64)
      (below : shape.vcpu.toInt * shape.wallClockSeconds.toInt % 2 ^ 64 < 2 ^ 63)
  | withinLarge (wraps : 2 ^ 63 ≤ cap.toInt * 60)
      (small : shape.vcpu.toInt * shape.wallClockSeconds.toInt ≤ cap.toInt * 12)
      (kept : (shape.vcpu.toInt * shape.wallClockSeconds.toInt).bmod (2 ^ 64) ≤
        ((cap.toInt * 60).bmod (2 ^ 64)).tdiv 5)
  | beyondLarge (wraps : 2 ^ 63 ≤ cap.toInt * 60)
      (large : cap.toInt * 12 < shape.vcpu.toInt * shape.wallClockSeconds.toInt)
      (kept : ((cap.toInt * 60).bmod (2 ^ 64)).tdiv 5 <
        (shape.vcpu.toInt * shape.wallClockSeconds.toInt).bmod (2 ^ 64))

theorem validateAgainstQuota_eq_none_iff (shape : ResourceShape) (cap : Int64) :
    validateAgainstQuota shape cap = none ↔
      0 < cap.toInt ∧ 0 < shape.vcpu.toInt ∧ 0 < shape.memoryMB.toInt ∧
        0 < shape.wallClockSeconds.toInt ∧
        (shape.vcpu.toInt * shape.wallClockSeconds.toInt).bmod (2 ^ 64) ≤
          ((cap.toInt * 60).bmod (2 ^ 64)).tdiv 5 := by
  have ceiling : (cap * 60 / 5).toInt = ((cap.toInt * 60).bmod (2 ^ 64)).tdiv 5 := by
    rw [Int64.toInt_div_of_ne_right _ _ (by decide), Int64.toInt_mul]
    rfl
  have zero : (0 : Int64).toInt = 0 := rfl
  unfold validateAgainstQuota
  simp only [gt_iff_lt, Int64.le_iff_toInt_le, Int64.lt_iff_toInt_lt, ceiling, Int64.toInt_mul, zero]
  generalize ((cap.toInt * 60).bmod (2 ^ 64)).tdiv 5 = perJobCeiling
  generalize (shape.vcpu.toInt * shape.wallClockSeconds.toInt).bmod (2 ^ 64) = requested
  split
  · simp
    omega
  · split
    · simp
      omega
    · split
      · simp
        omega
      · simp
        omega

/-- The ceiling is kept if the check lets exactly the shapes below it pass. -/
theorem keepsCeiling_iff (shape : ResourceShape) (cap : Int64) :
    KeepsCeiling shape cap ↔ (validateAgainstQuota shape cap = none ↔ WithinCeiling shape cap) := by
  constructor
  · intro keeps
    refine ⟨?_, keeps.accepts⟩
    intro passes
    apply keeps.cold (fun _ => .account cap) (fun _ => .ok ⟨""⟩) ⟨0, 0, 0, shape⟩ rfl rfl
    rw [executeBootCold, provisioned_ne_nil_iff]
    simp [admits, passes]
  · intro exact
    constructor
    · rintro getQuotaAccount provisioner input rfl account called
      rw [executeBootCold, provisioned_ne_nil_iff, account] at called
      exact exact.mp (Option.isNone_iff_eq_none.mp called)
    · rintro getQuotaAccount provisioner input rfl account called
      rw [executeLeaseHot, provisioned_ne_nil_iff, account] at called
      exact exact.mp (Option.isNone_iff_eq_none.mp called)
    · exact exact.mpr

/-- A product in the range of an `int64` is kept, and others are moved by multiples of `2^64`. -/
theorem bmod_le_iff {requested ceiling : Int} (positive : 0 < requested) (nonnegative : 0 ≤ ceiling)
    (fits : ceiling < 2 ^ 63) :
    (requested.bmod (2 ^ 64) ≤ ceiling ↔ requested ≤ ceiling) ↔
      requested ≤ ceiling ∨ ceiling < requested % 2 ^ 64 ∧ requested % 2 ^ 64 < 2 ^ 63 := by
  rw [Int.bmod_def]
  split
  · omega
  · omega

/-- For positive shapes and caps only the two products decide. -/
theorem accepts_iff_comparesExactly {shape : ResourceShape} {cap : Int64} (entitled : 0 < cap.toInt)
    (vcpu : 0 < shape.vcpu.toInt) (memoryMB : 0 < shape.memoryMB.toInt)
    (wallClockSeconds : 0 < shape.wallClockSeconds.toInt) :
    (validateAgainstQuota shape cap = none ↔ WithinCeiling shape cap) ↔
      ComparesExactly shape cap := by
  have checked : validateAgainstQuota shape cap = none ↔
      (shape.vcpu.toInt * shape.wallClockSeconds.toInt).bmod (2 ^ 64) ≤
        ((cap.toInt * 60).bmod (2 ^ 64)).tdiv 5 := by
    rw [validateAgainstQuota_eq_none_iff]
    simp [entitled, vcpu, memoryMB, wallClockSeconds]
  have ceiling : cap.toInt * 60 / 5 = cap.toInt * 12 := by omega
  have allowed : WithinCeiling shape cap ↔
      shape.vcpu.toInt * shape.wallClockSeconds.toInt ≤ cap.toInt * 12 := by
    constructor
    · intro inside
      rw [← ceiling]
      exact inside.product
    · intro product
      rw [← ceiling] at product
      exact ⟨vcpu, memoryMB, wallClockSeconds, product⟩
  have positive : 0 < shape.vcpu.toInt * shape.wallClockSeconds.toInt :=
    mul_pos vcpu wallClockSeconds
  rw [checked, allowed]
  by_cases fits : cap.toInt * 60 < 2 ^ 63
  · have kept : ((cap.toInt * 60).bmod (2 ^ 64)).tdiv 5 = cap.toInt * 12 := by
      rw [Int.bmod_eq_of_le (by omega) (by omega), Int.tdiv_eq_ediv_of_nonneg (by omega), ceiling]
    rw [kept, bmod_le_iff positive (by omega) (by omega)]
    constructor
    · rintro (small | ⟨large, below⟩)
      · exact .within fits small
      · exact .beyond fits large below
    · intro compares
      cases compares with
      | noEntitlement none => omega
      | notPositive shape => omega
      | within _ small => exact .inl small
      | beyond _ large below => exact .inr ⟨large, below⟩
      | withinLarge wraps => omega
      | beyondLarge wraps => omega
  · constructor
    · intro sameOrder
      by_cases small : shape.vcpu.toInt * shape.wallClockSeconds.toInt ≤ cap.toInt * 12
      · exact .withinLarge (by omega) small (sameOrder.mpr small)
      · have kept := mt sameOrder.mp small
        exact .beyondLarge (by omega) (by omega) (by omega)
    · intro compares
      cases compares with
      | noEntitlement none => omega
      | notPositive shape => omega
      | within fits' => omega
      | beyond fits' => omega
      | withinLarge _ small kept => exact iff_of_true kept small
      | beyondLarge _ large kept => exact iff_of_false (by omega) (by omega)

/-- The ceiling is kept exactly where 64 bits are enough to compare the products. -/
theorem keepsCeiling_iff_comparesExactly (shape : ResourceShape) (cap : Int64) :
    KeepsCeiling shape cap ↔ ComparesExactly shape cap := by
  rw [keepsCeiling_iff]
  by_cases shaped : 0 < shape.vcpu.toInt ∧ 0 < shape.memoryMB.toInt ∧
      0 < shape.wallClockSeconds.toInt
  · obtain ⟨vcpu, memoryMB, wallClockSeconds⟩ := shaped
    by_cases entitled : 0 < cap.toInt
    · exact accepts_iff_comparesExactly entitled vcpu memoryMB wallClockSeconds
    · -- Without an entitlement the ceiling is below every positive product.
      have refused : validateAgainstQuota shape cap ≠ none := by
        rw [Ne, validateAgainstQuota_eq_none_iff]
        omega
      have outside : ¬ WithinCeiling shape cap := by
        intro inside
        have positive := mul_pos vcpu wallClockSeconds
        have product := inside.product
        omega
      exact iff_of_true (iff_of_false refused outside) (.noEntitlement (by omega))
  · have refused : validateAgainstQuota shape cap ≠ none := by
      rw [Ne, validateAgainstQuota_eq_none_iff]
      omega
    have outside : ¬ WithinCeiling shape cap := fun inside =>
      shaped ⟨inside.vcpu, inside.memoryMB, inside.wallClockSeconds⟩
    exact iff_of_true (iff_of_false refused outside) (.notPositive (by omega))

/-- The product of this shape is `2^64`, of which 64 bits keep nothing. -/
def wrappingShape : ResourceShape := ⟨4294967296, 1, 4294967296⟩

/-- It is booted on the free tier. -/
theorem wrappingShape_booted : ¬ KeepsCeiling wrappingShape 500 := by
  intro keeps
  have inside := ((keepsCeiling_iff wrappingShape 500).mp keeps).mp (by decide)
  exact absurd inside.product (by decide)

end GitScale.CI
