import GitScale.Basic
import Mathlib.Data.Rat.Defs
import Mathlib.Algebra.Order.Ring.Rat
import Mathlib.Logic.Function.Basic
import Mathlib.Tactic.Linarith
import Mathlib.Tactic.Ring

/-!
# The in-process token bucket

`MemoryLimiter` keeps one bucket per key behind a mutex, so the calls it receives
are one sequence.  Its clock is a parameter and nothing makes it monotone: a call
may read an earlier instant than the call before it, and then the bucket is
drained rather than refilled.  Tokens are exact rationals here.
-/

namespace GitScale.RateLimit

/-- `time.Duration.Seconds` of the difference of two instants. -/
def seconds (duration : Int) : ℚ := (duration : ℚ) / 1000000000

theorem seconds_sub_add_sub (latest middle first : Time) :
    seconds (latest - middle) + seconds (middle - first) = seconds (latest - first) := by
  simp only [seconds]
  push_cast
  ring

/-- `bucketState`. -/
structure Bucket where
  tokens : ℚ
  lastAt : Time
  capacity : ℚ
  refill : ℚ
  deriving DecidableEq, Repr

/-- The arguments of one `Take` call and the clock reading it makes. -/
structure TakeCall where
  now : Time
  key : String
  capacity : ℚ
  refillPerSec : ℚ
  n : ℚ
  deriving DecidableEq, Repr

/-- What `Take` returns.  Its error is always nil. -/
structure Answer where
  granted : Bool
  remaining : ℚ
  deriving DecidableEq, Repr

/-- The bucket `Take` works on: the one the map holds, or a full one. -/
def TakeCall.bucket (call : TakeCall) (held : Option Bucket) : Bucket :=
  held.getD ⟨call.capacity, call.now, call.capacity, call.refillPerSec⟩

/-- The level after the refill.  Only the upper bound is clamped. -/
def TakeCall.refilled (call : TakeCall) (bucket : Bucket) : ℚ :=
  let tokens := bucket.tokens + seconds (call.now - bucket.lastAt) * call.refillPerSec
  if tokens > call.capacity then call.capacity else tokens

/-- The part of `MemoryLimiter.Take` that follows the map look-up. -/
def TakeCall.serve (call : TakeCall) (held : Option Bucket) : Answer × Bucket :=
  let tokens := call.refilled (call.bucket held)
  if tokens < call.n then
    (⟨false, tokens⟩, ⟨tokens, call.now, call.capacity, call.refillPerSec⟩)
  else
    (⟨true, tokens - call.n⟩, ⟨tokens - call.n, call.now, call.capacity, call.refillPerSec⟩)

/-- `MemoryLimiter`, less its mutex and its clock. -/
structure MemoryLimiter where
  buckets : String → Option Bucket

namespace MemoryLimiter

/-- `NewMemoryLimiter`. -/
def new : MemoryLimiter := ⟨fun _ => none⟩

/-- `MemoryLimiter.Take`. -/
def take (limiter : MemoryLimiter) (call : TakeCall) : Answer × MemoryLimiter :=
  let served := call.serve (limiter.buckets call.key)
  (served.1, ⟨Function.update limiter.buckets call.key (some served.2)⟩)

/-- `MemoryLimiter.Inspect`: the capacity, the level and the refill of a bucket.  A
key without one answers with the zero `BucketState`. -/
def inspect (limiter : MemoryLimiter) (key : String) : ℚ × ℚ × ℚ :=
  match limiter.buckets key with
  | none => (0, 0, 0)
  | some bucket => (bucket.capacity, bucket.tokens, bucket.refill)

/-- Serve a sequence of calls and keep each with its answer. -/
def takes (limiter : MemoryLimiter) : List TakeCall → List (TakeCall × Answer)
  | [] => []
  | call :: rest => (call, (limiter.take call).1) :: (limiter.take call).2.takes rest

end MemoryLimiter

/-- The answers one bucket gives to the calls on its key. -/
def bucketTakes (held : Option Bucket) : List TakeCall → List (TakeCall × Answer)
  | [] => []
  | call :: rest => (call, (call.serve held).1) :: bucketTakes (some (call.serve held).2) rest

/-- The calls on other keys do not matter to a key. -/
theorem takes_filter_key (key : String) (limiter : MemoryLimiter) (calls : List TakeCall) :
    (limiter.takes calls).filter (fun served => served.1.key = key) =
      bucketTakes (limiter.buckets key) (calls.filter fun call => call.key = key) := by
  induction calls generalizing limiter with
  | nil => rfl
  | cons call rest inductionHypothesis =>
      by_cases same : call.key = key
      · subst same
        simp [MemoryLimiter.takes, MemoryLimiter.take, bucketTakes, inductionHypothesis]
      · have other : key ≠ call.key := fun equal => same equal.symm
        simp [MemoryLimiter.takes, MemoryLimiter.take, same, inductionHypothesis,
          Function.update_of_ne other]

/-- The sum of the amounts of the granted calls. -/
def granted (served : List (TakeCall × Answer)) : ℚ :=
  (served.map fun one => if one.2.granted then one.1.n else 0).sum

@[simp] theorem granted_nil : granted [] = 0 := rfl

@[simp] theorem granted_cons (one : TakeCall × Answer) (rest : List (TakeCall × Answer)) :
    granted (one :: rest) = (if one.2.granted then one.1.n else 0) + granted rest := by
  simp [granted]

theorem refilled_le_capacity (call : TakeCall) (bucket : Bucket) :
    call.refilled bucket ≤ call.capacity := by
  simp only [TakeCall.refilled]
  split
  · exact le_refl _
  · next within => exact not_lt.mp within

theorem refilled_le_tokens (call : TakeCall) (bucket : Bucket) :
    call.refilled bucket ≤
      bucket.tokens + seconds (call.now - bucket.lastAt) * call.refillPerSec := by
  simp only [TakeCall.refilled]
  split
  · next above => exact le_of_lt above
  · exact le_refl _

/-- What one call leaves in its bucket is the level it refilled to, less the amount it
granted. -/
theorem serve_spec (call : TakeCall) (held : Option Bucket) :
    let served := call.serve held
    served.2 = ⟨served.1.remaining, call.now, call.capacity, call.refillPerSec⟩ ∧
      (if served.1.granted then call.n else 0) + served.1.remaining =
        call.refilled (call.bucket held) ∧
      (served.1.granted = true → 0 ≤ served.1.remaining) := by
  simp only [TakeCall.serve]
  split
  · simp
  · next covered => exact ⟨rfl, by simp, fun _ => sub_nonneg.mpr (not_lt.mp covered)⟩

/-- The potential of a bucket: what has been granted and what is left are together
covered by the capacity and the time since the first call. -/
structure Covered (capacity refill : ℚ) (first : Time) (spent : ℚ) (bucket : Bucket) : Prop where
  potential : spent + bucket.tokens ≤ capacity + refill * seconds (bucket.lastAt - first)

theorem Covered.of_serve {capacity refill spent : ℚ} {first : Time} {bucket : Bucket}
    {call : TakeCall} (covered : Covered capacity refill first spent bucket)
    (refills : call.refillPerSec = refill) :
    Covered capacity refill first
      (spent + if (call.serve (some bucket)).1.granted then call.n else 0)
      (call.serve (some bucket)).2 := by
  obtain ⟨bucketEq, level, -⟩ := serve_spec call (some bucket)
  have refilled := refilled_le_tokens call bucket
  have elapsed := seconds_sub_add_sub call.now bucket.lastAt first
  constructor
  rw [bucketEq]
  calc
    _ = spent + call.refilled bucket := by
      rw [add_assoc]
      exact congrArg (spent + ·) level
    _ ≤ spent + (bucket.tokens + seconds (call.now - bucket.lastAt) * refill) := by
      rw [refills] at refilled
      exact add_le_add_right refilled spent
    _ ≤ capacity + refill * seconds (bucket.lastAt - first) +
        seconds (call.now - bucket.lastAt) * refill := by
      linarith [covered.potential]
    _ = capacity + refill * seconds (call.now - first) := by
      rw [← elapsed]
      ring

/-- The potential bounds what a covered bucket grants from now on. -/
theorem Covered.granted_le {capacity refill : ℚ} {first : Time} {calls : List TakeCall}
    (refills : ∀ call ∈ calls, call.refillPerSec = refill) {spent : ℚ} {bucket : Bucket}
    (covered : Covered capacity refill first spent bucket)
    {before after : List (TakeCall × Answer)} {latest : TakeCall × Answer}
    (split : bucketTakes (some bucket) calls = before ++ latest :: after)
    (succeeded : latest.2.granted = true) :
    spent + granted (before ++ [latest]) ≤
      capacity + refill * seconds (latest.1.now - first) := by
  induction calls generalizing spent bucket before with
  | nil => simp [bucketTakes] at split
  | cons call rest inductionHypothesis =>
      have next := covered.of_serve (refills call List.mem_cons_self)
      obtain ⟨bucketEq, -, nonneg⟩ := serve_spec call (some bucket)
      cases before with
      | nil =>
          -- The granted call itself: what it leaves in the bucket is not negative.
          obtain ⟨rfl, -⟩ := List.cons.inj split
          have left := next.potential
          rw [bucketEq] at left
          have remaining := nonneg succeeded
          simp only [List.nil_append, granted_cons, granted_nil, add_zero]
          linarith
      | cons one before =>
          obtain ⟨rfl, later⟩ := List.cons.inj split
          have bound := inductionHypothesis
            (fun call membership => refills call (List.mem_cons_of_mem _ membership)) next later
          simp only [List.cons_append, granted_cons]
          linarith

/-- No answer reports more than the capacity of its call. -/
theorem remaining_le_capacity {calls : List TakeCall}
    (nonneg : ∀ call ∈ calls, 0 ≤ call.n) (held : Option Bucket) :
    ∀ served ∈ bucketTakes held calls, served.2.remaining ≤ served.1.capacity := by
  induction calls generalizing held with
  | nil => simp [bucketTakes]
  | cons call rest inductionHypothesis =>
      intro served membership
      rcases List.mem_cons.mp membership with rfl | later
      · obtain ⟨-, level, -⟩ := serve_spec call held
        have capacity := refilled_le_capacity call (call.bucket held)
        have amount := nonneg call List.mem_cons_self
        dsimp only at level ⊢
        split at level <;> linarith
      · exact inductionHypothesis
          (fun call membership => nonneg call (List.mem_cons_of_mem _ membership)) _ served later

theorem mem_of_mem_bucketTakes {held : Option Bucket} {calls : List TakeCall}
    {served : TakeCall × Answer} (membership : served ∈ bucketTakes held calls) :
    served.1 ∈ calls := by
  induction calls generalizing held with
  | nil => simp [bucketTakes] at membership
  | cons call rest inductionHypothesis =>
      rcases List.mem_cons.mp membership with rfl | later
      · exact List.mem_cons_self
      · exact List.mem_cons_of_mem _ (inductionHypothesis later)

/-- The token-bucket bound.  The calls on `key` all pass one capacity and one refill;
those on other keys are arbitrary, and so are the clock readings. -/
theorem granted_le_capacity_add_refill (key : String) (capacity refill : ℚ)
    (limiter : MemoryLimiter) (unused : limiter.buckets key = none) (calls : List TakeCall)
    (fixed : ∀ call ∈ calls, call.key = key →
      call.capacity = capacity ∧ call.refillPerSec = refill ∧ 0 ≤ call.n) :
    let served := (limiter.takes calls).filter fun one => one.1.key = key
    (∀ first rest before latest after,
        served = first :: rest → served = before ++ latest :: after →
        latest.2.granted = true →
        granted (before ++ [latest]) ≤
          capacity + refill * seconds (latest.1.now - first.1.now)) ∧
      ∀ one ∈ served, one.2.remaining ≤ capacity := by
  have onKey : ∀ call ∈ calls.filter fun call => call.key = key,
      call.capacity = capacity ∧ call.refillPerSec = refill ∧ 0 ≤ call.n := by
    intro call membership
    obtain ⟨present, same⟩ := List.mem_filter.mp membership
    exact fixed call present (of_decide_eq_true same)
  rw [takes_filter_key, unused]
  constructor
  · intro first rest before latest after starts split succeeded
    cases listed : calls.filter fun call => call.key = key with
    | nil => simp [listed, bucketTakes] at starts
    | cons call calls =>
        rw [listed] at starts split onKey
        obtain ⟨rfl, -⟩ := List.cons.inj starts
        -- The first call works on a full bucket dated at its own clock reading.
        let full : Bucket := ⟨call.capacity, call.now, call.capacity, call.refillPerSec⟩
        have covered : Covered capacity refill call.now 0 full :=
          ⟨by simp [full, seconds, (onKey call List.mem_cons_self).1]⟩
        have bound := covered.granted_le (fun call membership => (onKey call membership).2.1)
          (show bucketTakes (some full) (call :: calls) = before ++ latest :: after from split)
          succeeded
        linarith
  · intro one membership
    have bound := remaining_le_capacity
      (fun call membership => (onKey call membership).2.2) none one membership
    exact (onKey one.1 (mem_of_mem_bucketTakes membership)).1 ▸ bound

/-- Ten tokens at two a second.  The second call reads a clock that has gone back three
seconds, the third one that has come forward again. -/
def unsteadyCalls : List TakeCall :=
  [⟨5000000000, "rl:agent", 10, 2, 4⟩, ⟨2000000000, "rl:agent", 10, 2, 1⟩,
    ⟨6000000000, "rl:agent", 10, 2, 7⟩]

theorem granted_le_capacity_add_refill_unsteadyCalls :
    let served := (MemoryLimiter.new.takes unsteadyCalls).filter fun one =>
      one.1.key = "rl:agent"
    (∀ first rest before latest after,
        served = first :: rest → served = before ++ latest :: after →
        latest.2.granted = true →
        granted (before ++ [latest]) ≤ 10 + 2 * seconds (latest.1.now - first.1.now)) ∧
      ∀ one ∈ served, one.2.remaining ≤ 10 :=
  granted_le_capacity_add_refill "rl:agent" 10 2 MemoryLimiter.new rfl unsteadyCalls
    (by simp [unsteadyCalls])

end GitScale.RateLimit
