import GitScale.Cache.Stores
import GitScale.Foundation.Separator
import GitScale.Foundation.Transition
import GitScale.Git.Metering
import GitScale.Go.Decimal
import GitScale.Go.RFC3339
import Mathlib.Algebra.Order.BigOperators.Group.List
import Mathlib.Algebra.Order.Group.Int

/-!
# The enforcement counter under concurrency

Tier 1 has no atomic increment: `recordEnforcement` reads the total of the hour, adds, and writes
it back, so concurrent calls overwrite each other.  Here one `Record` call takes four steps (read
the clock, `Get`, `Set`, commit the outbox row), and the steps of any number of calls interleave.
The overwrites only ever lose bytes: the total that throttles an agent never exceeds what tier 2
accounts for.
-/

namespace GitScale.Git

open Foundation Cache Go

/-- `now.Format("2006-01-02T15")`. -/
def windowOf (now : Time) : List Char :=
  let date := dateOfTime now
  layoutInt 4 date.year ++ '-' :: layoutInt 2 date.month ++ '-' :: layoutInt 2 date.day ++
    'T' :: layoutInt 2 (nanosOfDay now / 3600000000000 : Nat)

/-- `EnforcementTTL`, two windows of an hour. -/
def enforcementTTL : Time := 2 * 3600000000000

/-- The key of an agent's total in one window. -/
def enforcementKey (agentID : String) (window : List Char) : String :=
  "git:meter:" ++ agentID ++ ":" ++ String.ofList window

/-- What `recordEnforcement` makes of the bytes that `Get` returned; an empty or unreadable value
counts as zero. -/
def previousTotal (existing : Option Text) : Int64 :=
  match existing.bind fun text => parseInt (ofBytes text).toList with
  | some value => Int64.ofInt value
  | none => 0

/-- The bytes that `Set` stores for a total. -/
def totalText (total : Int64) : Text := (formatInt total.toInt).map byte

/-- How far a `Record` call has come. -/
inductive Phase where
  | started
  | loaded (previous : Int64)
  | counted
  | returned (error : Option String)
  deriving DecidableEq, Repr

/-- One `Record` call and the instant that it read from the clock. -/
structure RecordCall where
  recording : Recording
  now : Time
  phase : Phase
  deriving DecidableEq, Repr

/-- The two tiers and every call so far. -/
structure Metered where
  store : MemoryStore
  outbox : List OutboxRecord
  calls : List RecordCall

/-- `Metered` before the first call. -/
def Metered.new : Metered := ⟨MemoryStore.new, [], []⟩

/-- One step of a call, or an eviction.  The cache reads its own clock; `lost` says that its call
failed without an effect. -/
inductive RecordStep where
  | begin (recording : Recording) (now : Time)
  | get (index : Nat) (clock : Time) (lost : Bool)
  | set (index : Nat) (clock : Time) (lost : Bool)
  | commit (index : Nat) (eventID : String) (freshID : UUID) (error : Option String)
  | evict (key : String)
  deriving DecidableEq, Repr

namespace RecordCall

def key (call : RecordCall) : String :=
  enforcementKey call.recording.ref.agentID (windowOf call.now)

/-- A call as the atomic model of `Record` has it. -/
def surroundings (call : RecordCall) (eventID : String) (freshID : UUID)
    (error : Option String) : TwoTierCall where
  now := call.now
  window := String.ofList (windowOf call.now)
  eventID := eventID
  freshID := freshID
  getFails := false
  setFails := false
  transactError := error

end RecordCall

/-- The steps of `TwoTierCounter.Record`.  A nil cache and a human push skip tier 1. -/
def recordStep (counter : TwoTierCounter) (state : Metered) : RecordStep → Option Metered
  | .begin recording now =>
      let skips := !counter.hasCache || recording.ref.agentID.isEmpty
      some { state with
        calls := state.calls ++ [⟨recording, now, if skips then .counted else .started⟩] }
  | .get index clock lost => do
      let call ← state.calls[index]?
      match call.phase with
      | .started =>
          let got := if lost then (none, state.store) else state.store.get clock call.key
          some { state with
            store := got.2
            calls := state.calls.set index { call with phase := .loaded (previousTotal got.1) } }
      | _ => none
  | .set index clock lost => do
      let call ← state.calls[index]?
      match call.phase with
      | .loaded previous =>
          let updated := totalText (previous + call.recording.bytes)
          some { state with
            store := if lost then state.store
              else state.store.set clock call.key updated enforcementTTL
            calls := state.calls.set index { call with phase := .counted } }
      | _ => none
  | .commit index eventID freshID error => do
      let call ← state.calls[index]?
      match call.phase with
      | .counted =>
          let row := counter.outboxRecord (call.surroundings eventID freshID error) call.recording
          some { state with
            outbox := if error.isNone then state.outbox ++ [row] else state.outbox
            calls := state.calls.set index
              { call with phase := .returned (error.map ("metering: outbox write: " ++ ·)) } }
      | _ => none
  | .evict key => some { state with store := state.store.delete key }

/-! ## What one step does -/

/-- Every step of a call changes that call alone, and moves it one phase on. -/
inductive Advances (counter : TwoTierCounter) (state : Metered) : RecordStep → Metered → Prop
  | begin (recording : Recording) (now : Time) (phase : Phase)
      (first : phase = .counted ∧ (counter.hasCache = false ∨ recording.ref.agentID = "") ∨
        phase = .started) :
      Advances counter state (.begin recording now)
        { state with calls := state.calls ++ [⟨recording, now, phase⟩] }
  | get {index : Nat} {call : RecordCall} (clock : Time) (lost : Bool)
      (found : state.calls[index]? = some call) (phase : call.phase = .started) :
      Advances counter state (.get index clock lost)
        { state with
          store := if lost then state.store else (state.store.get clock call.key).2
          calls := state.calls.set index { call with
            phase := .loaded (previousTotal
              (if lost then none else (state.store.get clock call.key).1)) } }
  | set {index : Nat} {call : RecordCall} {previous : Int64} (clock : Time) (lost : Bool)
      (found : state.calls[index]? = some call) (phase : call.phase = .loaded previous) :
      Advances counter state (.set index clock lost)
        { state with
          store := if lost then state.store else
            state.store.set clock call.key (totalText (previous + call.recording.bytes))
              enforcementTTL
          calls := state.calls.set index { call with phase := .counted } }
  | commit {index : Nat} {call : RecordCall} (eventID : String) (freshID : UUID)
      (error : Option String) (found : state.calls[index]? = some call)
      (phase : call.phase = .counted) :
      Advances counter state (.commit index eventID freshID error)
        { state with
          outbox := if error.isNone then state.outbox ++
            [counter.outboxRecord (call.surroundings eventID freshID error) call.recording]
            else state.outbox
          calls := state.calls.set index
            { call with phase := .returned (error.map ("metering: outbox write: " ++ ·)) } }
  | evict (key : String) :
      Advances counter state (.evict key) { state with store := state.store.delete key }

theorem advances_of_recordStep {counter : TwoTierCounter} {state next : Metered}
    {label : RecordStep} (taken : recordStep counter state label = some next) :
    Advances counter state label next := by
  cases label with
  | begin recording now =>
      rcases Option.some.inj taken with rfl
      apply Advances.begin
      by_cases skips : !counter.hasCache || recording.ref.agentID.isEmpty
      · refine .inl ⟨if_pos skips, ?_⟩
        simpa using skips
      · exact .inr (if_neg skips)
  | get index clock lost =>
      rcases Option.bind_eq_some_iff.mp taken with ⟨call, found, taken⟩
      cases phase : call.phase with
      | started =>
          rw [phase] at taken
          rcases Option.some.inj taken with rfl
          cases lost with
          | true => exact .get clock true found phase
          | false => exact .get clock false found phase
      | _ => simp [phase] at taken
  | set index clock lost =>
      rcases Option.bind_eq_some_iff.mp taken with ⟨call, found, taken⟩
      cases phase : call.phase with
      | loaded previous =>
          rw [phase] at taken
          rcases Option.some.inj taken with rfl
          exact .set clock lost found phase
      | _ => simp [phase] at taken
  | commit index eventID freshID error =>
      rcases Option.bind_eq_some_iff.mp taken with ⟨call, found, taken⟩
      cases phase : call.phase with
      | counted =>
          rw [phase] at taken
          rcases Option.some.inj taken with rfl
          exact .commit eventID freshID error found phase
      | _ => simp [phase] at taken
  | evict key =>
      rcases Option.some.inj taken with rfl
      exact .evict key

/-! ## Keys and totals -/

theorem colon_notMem_layoutInt (width : Nat) (value : Int) : ':' ∉ layoutInt width value := by
  intro member
  rcases mem_layoutInt member with sign | digit
  · exact absurd sign (by decide)
  · exact absurd digit (by decide)

theorem colon_notMem_windowOf (now : Time) : ':' ∉ windowOf now := by
  simp [windowOf, colon_notMem_layoutInt]

/-- The totals of two agents, or of two hours, never share a key. -/
theorem enforcementKey_inj {agentID agentID' : String} {now now' : Time}
    (equal : enforcementKey agentID (windowOf now) = enforcementKey agentID' (windowOf now')) :
    agentID = agentID' ∧ windowOf now = windowOf now' := by
  have lists := congrArg String.toList equal
  simp only [enforcementKey, String.toList_append, String.toList_ofList, List.append_assoc,
    List.append_cancel_left_eq] at lists
  have parts := cut_at_last (colon_notMem_windowOf now)
    (colon_notMem_windowOf now') (by simpa using lists)
  exact ⟨String.toList_inj.mp parts.1, parts.2⟩

/-- A total survives its way through the cache. -/
theorem previousTotal_totalText (total : Int64) : previousTotal (some (totalText total)) = total := by
  have fits : -(int64Bound : Int) ≤ total.toInt ∧ total.toInt < int64Bound :=
    ⟨total.le_toInt, total.toInt_lt⟩
  simp only [previousTotal, totalText, Option.bind_some, parseInt_ofBytes_formatInt fits]
  exact Int64.ofInt_toInt total

/-- A call belongs to the total of an agent in a window. -/
def RecordCall.matches (agentID : String) (window : List Char) (call : RecordCall) : Bool :=
  call.recording.ref.agentID = agentID ∧ windowOf call.now = window

/-- Tier 1 is behind the call. -/
def RecordCall.isCounted (call : RecordCall) : Bool :=
  match call.phase with
  | .counted | .returned _ => true
  | _ => false

/-- The call has counted, and no outbox row says so: it is about to commit, or it was rejected. -/
def RecordCall.isUnbilled (call : RecordCall) : Bool :=
  match call.phase with
  | .counted | .returned (some _) => true
  | _ => false

/-- The bytes of the calls that a test picks. -/
def bytesOf (test : RecordCall → Bool) (calls : List RecordCall) : Int :=
  (calls.map fun call => if test call then call.recording.bytes.toInt else 0).sum

/-- The bytes of the outbox rows of an agent in a window. -/
def billedBytes (agentID : String) (window : List Char) (outbox : List OutboxRecord) : Int :=
  (outbox.map fun row =>
    if row.payload.agentID = agentID ∧ windowOf row.payload.occurredAt = window then
      row.payload.bytesTransferred.toInt
    else 0).sum

/-- The total that throttling reads for an agent in a window. -/
def enforcedBytes (state : Metered) (clock : Time) (agentID : String) (window : List Char) : Int64 :=
  previousTotal (state.store.get clock (enforcementKey agentID window)).1

theorem bytesOf_set {test : RecordCall → Bool} {calls : List RecordCall} {index : Nat}
    {call : RecordCall} (found : calls[index]? = some call) (next : RecordCall) :
    bytesOf test (calls.set index next) = bytesOf test calls -
      (if test call then call.recording.bytes.toInt else 0) +
      (if test next then next.recording.bytes.toInt else 0) := by
  induction calls generalizing index with
  | nil => cases found
  | cons first rest inductionHypothesis =>
      cases index with
      | zero =>
          cases found
          simp only [bytesOf, List.set_cons_zero, List.map_cons, List.sum_cons]
          omega
      | succ index =>
          have rest_eq := inductionHypothesis (by simpa using found)
          simp only [bytesOf, List.set_cons_succ, List.map_cons, List.sum_cons] at rest_eq ⊢
          omega

theorem bytesOf_concat (test : RecordCall → Bool) (calls : List RecordCall) (call : RecordCall) :
    bytesOf test (calls ++ [call]) = bytesOf test calls +
      (if test call then call.recording.bytes.toInt else 0) := by
  simp [bytesOf]

theorem bytesOf_nonneg {test : RecordCall → Bool} {calls : List RecordCall}
    (nonneg : ∀ call ∈ calls, 0 ≤ call.recording.bytes.toInt) : 0 ≤ bytesOf test calls := by
  apply List.sum_nonneg
  intro bytes member
  rcases List.mem_map.mp member with ⟨call, call_mem, rfl⟩
  split
  · exact nonneg call call_mem
  · exact le_refl 0

/-- An addition that overflows comes out smaller, never larger. -/
theorem toInt_add_le {left right : Int64} (nonneg : 0 ≤ right.toInt) :
    (left + right).toInt ≤ left.toInt + right.toInt := by
  rw [Int64.toInt_add]
  have bounds := left.le_toInt
  have bound := right.toInt_lt
  rw [Int.bmod_def]
  split <;> omega

/-! ## Tier 1 never counts what tier 2 does not -/

/-- The bytes of an agent in a window that tier 1 has been told about. -/
def countedBytes (agentID : String) (window : List Char) (calls : List RecordCall) : Int :=
  bytesOf (fun call => call.matches agentID window && call.isCounted) calls

/-- The bytes that were counted and for which there is no outbox row. -/
def unbilledBytes (agentID : String) (window : List Char) (calls : List RecordCall) : Int :=
  bytesOf (fun call => call.matches agentID window && call.isUnbilled) calls

/-- Every counted byte has its outbox row, or a call that owes it. -/
def Booked (state : Metered) : Prop :=
  ∀ agentID window, billedBytes agentID window state.outbox +
    unbilledBytes agentID window state.calls = countedBytes agentID window state.calls

/-- What holds between the steps.  A total that a call carries from its `Get` to its `Set` is
bounded like a stored one. -/
structure Accounted (state : Metered) : Prop where
  nonneg : ∀ call ∈ state.calls, 0 ≤ call.recording.bytes.toInt
  stored : ∀ agentID hour entry,
    state.store.entries (enforcementKey agentID (windowOf hour)) = some entry →
    (previousTotal (some entry.value)).toInt ≤ countedBytes agentID (windowOf hour) state.calls
  loaded : ∀ call ∈ state.calls, ∀ previous, call.phase = .loaded previous →
    previous.toInt ≤ countedBytes call.recording.ref.agentID (windowOf call.now) state.calls

theorem booked_new : Booked Metered.new := by
  simp [Booked, Metered.new, billedBytes, unbilledBytes, countedBytes, bytesOf]

theorem accounted_new : Accounted Metered.new where
  nonneg := by simp [Metered.new]
  stored := by simp [Metered.new, MemoryStore.new]
  loaded := by simp [Metered.new]

/-- A call moves on; the totals of the counted calls do not go back. -/
theorem Accounted.set_call {state : Metered} (accounted : Accounted state) {index : Nat}
    {call : RecordCall} (found : state.calls[index]? = some call) {phase : Phase}
    (onward : call.isCounted = true → ({ call with phase } : RecordCall).isCounted = true)
    (agentID : String) (window : List Char) :
    countedBytes agentID window state.calls ≤
      countedBytes agentID window (state.calls.set index { call with phase }) := by
  have nonneg := accounted.nonneg call (List.mem_of_getElem? found)
  rw [countedBytes, countedBytes, bytesOf_set found]
  have same : ({ call with phase } : RecordCall).matches agentID window =
      call.matches agentID window := rfl
  rw [same]
  cases call.matches agentID window with
  | false => simp
  | true =>
      cases counted : call.isCounted with
      | true => simp [onward counted]
      | false =>
          simp only [Bool.and_false, Bool.false_eq_true, if_false, Bool.true_and]
          split <;> omega

theorem mem_set_cases {calls : List RecordCall} {index : Nat} {next call : RecordCall}
    (member : call ∈ calls.set index next) : call = next ∨ call ∈ calls :=
  (List.mem_or_eq_of_mem_set member).symm

/-- The part of a step that is the same for `Get`, `Set` and the commit: one call moves on. -/
theorem Accounted.advance {state : Metered} (accounted : Accounted state) {index : Nat}
    {call : RecordCall} (found : state.calls[index]? = some call) {phase : Phase}
    {store : MemoryStore} {outbox : List OutboxRecord}
    (onward : call.isCounted = true → ({ call with phase } : RecordCall).isCounted = true)
    (stored : ∀ agentID hour entry,
      store.entries (enforcementKey agentID (windowOf hour)) = some entry →
      state.store.entries (enforcementKey agentID (windowOf hour)) = some entry ∨
      (previousTotal (some entry.value)).toInt ≤ countedBytes agentID (windowOf hour)
        (state.calls.set index { call with phase }))
    (loaded : ∀ previous, phase = .loaded previous →
      previous.toInt ≤ countedBytes call.recording.ref.agentID (windowOf call.now) state.calls) :
    Accounted ⟨store, outbox, state.calls.set index { call with phase }⟩ where
  nonneg := by
    intro other member
    rcases mem_set_cases member with rfl | member
    · exact accounted.nonneg call (List.mem_of_getElem? found)
    · exact accounted.nonneg other member
  stored := by
    intro agentID hour entry held
    rcases stored agentID hour entry held with before | bounded
    · exact (accounted.stored agentID hour entry before).trans
        (accounted.set_call found onward agentID (windowOf hour))
    · exact bounded
  loaded := by
    intro other member previous at_previous
    rcases mem_set_cases member with rfl | member
    · exact (loaded previous at_previous).trans (accounted.set_call found onward _ _)
    · exact (accounted.loaded other member previous at_previous).trans
        (accounted.set_call found onward _ _)

/-- A move that does not commit leaves the books as they are. -/
theorem Booked.set_call {state : Metered} (booked : Booked state) {index : Nat}
    {call : RecordCall} (found : state.calls[index]? = some call) {phase : Phase}
    (same : (({ call with phase } : RecordCall).isCounted ↔
        ({ call with phase } : RecordCall).isUnbilled) ∧ (call.isCounted ↔ call.isUnbilled))
    (store : MemoryStore) :
    Booked ⟨store, state.outbox, state.calls.set index { call with phase }⟩ := by
  intro agentID window
  have before := booked agentID window
  simp only [unbilledBytes, countedBytes, bytesOf_set found] at before ⊢
  rw [Bool.eq_iff_iff.mpr same.1, Bool.eq_iff_iff.mpr same.2]
  omega

theorem Booked.step {counter : TwoTierCounter} {state next : Metered} {label : RecordStep}
    (booked : Booked state) (advances : Advances counter state label next) : Booked next := by
  cases advances with
  | begin recording now phase first =>
      intro agentID window
      have before := booked agentID window
      have same : (⟨recording, now, phase⟩ : RecordCall).isCounted =
          (⟨recording, now, phase⟩ : RecordCall).isUnbilled := by
        rcases first with ⟨rfl, -⟩ | rfl <;> rfl
      simp only [unbilledBytes, countedBytes, bytesOf_concat, same] at before ⊢
      omega
  | get clock lost found phase =>
      apply booked.set_call found
      simp [RecordCall.isCounted, RecordCall.isUnbilled, phase]
  | set clock lost found phase =>
      apply booked.set_call found
      simp [RecordCall.isCounted, RecordCall.isUnbilled, phase]
  | @commit index call eventID freshID error found phase =>
      cases error with
      | some message =>
          apply booked.set_call found
          simp [RecordCall.isCounted, RecordCall.isUnbilled, phase]
      | none =>
          intro agentID window
          have before := booked agentID window
          simp only [unbilledBytes, countedBytes, bytesOf_set found] at before ⊢
          simp only [billedBytes, Option.isNone_none, if_true, List.map_append, List.map_cons,
            List.map_nil, List.sum_append, List.sum_cons, List.sum_nil, Int.add_zero,
            TwoTierCounter.outboxRecord, RecordCall.surroundings, RecordCall.isCounted,
            RecordCall.isUnbilled, RecordCall.matches, phase, Option.map_none, Bool.and_true,
            Bool.and_false, Bool.false_eq_true, if_false, decide_eq_true_eq] at before ⊢
          omega
  | evict key => exact booked

theorem Accounted.step {counter : TwoTierCounter} {state next : Metered} {label : RecordStep}
    (accounted : Accounted state)
    (nonneg : ∀ recording now, label = .begin recording now → 0 ≤ recording.bytes.toInt)
    (advances : Advances counter state label next) : Accounted next := by
  cases advances with
  | begin recording now phase first =>
      have bytes := nonneg recording now rfl
      have onward (agentID : String) (window : List Char) :
          countedBytes agentID window state.calls ≤
            countedBytes agentID window (state.calls ++ [⟨recording, now, phase⟩]) := by
        rw [countedBytes, countedBytes, bytesOf_concat]
        dsimp only
        split <;> omega
      refine ⟨?_, ?_, ?_⟩
      · intro call member
        rcases List.mem_append.mp member with member | member
        · exact accounted.nonneg call member
        · rcases List.mem_singleton.mp member with rfl
          exact bytes
      · intro agentID hour entry held
        exact (accounted.stored agentID hour entry held).trans (onward agentID _)
      · intro call member previous at_previous
        rcases List.mem_append.mp member with member | member
        · exact (accounted.loaded call member previous at_previous).trans (onward _ _)
        · rcases List.mem_singleton.mp member with rfl
          rcases first with ⟨rfl, -⟩ | rfl <;> cases at_previous
  | @get index call clock lost found phase =>
      apply accounted.advance found
      · simp [RecordCall.isCounted, phase]
      · intro agentID hour entry held
        cases lost with
        | true => exact .inl held
        | false => exact .inl (MemoryStore.entries_of_get held)
      · rintro _ ⟨⟩
        have zero : 0 ≤ countedBytes call.recording.ref.agentID (windowOf call.now)
            state.calls := bytesOf_nonneg accounted.nonneg
        cases lost with
        | true => exact zero
        | false =>
            rw [if_neg (by simp), MemoryStore.get_fst]
            cases held : state.store.entries call.key with
            | none => exact zero
            | some entry =>
                by_cases fresh : clock ≤ entry.expiresAt
                · simpa [Option.filter, fresh] using accounted.stored _ _ entry held
                · simp only [Option.filter, fresh, decide_false, Bool.false_eq_true, if_false,
                    Option.map_none]
                  exact zero
  | @set index call previous clock lost found phase =>
      apply accounted.advance found
      · simp [RecordCall.isCounted]
      · intro agentID hour entry held
        cases lost with
        | true => exact .inl held
        | false =>
            rcases MemoryStore.entries_of_set held with before | ⟨same, rfl⟩
            · exact .inl before
            · -- The new total is what the call had read, and its own bytes.
              right
              rcases enforcementKey_inj same with ⟨rfl, window⟩
              have before := accounted.loaded call (List.mem_of_getElem? found) previous phase
              have own : (previous + call.recording.bytes).toInt ≤
                  previous.toInt + call.recording.bytes.toInt :=
                toInt_add_le (accounted.nonneg call (List.mem_of_getElem? found))
              rw [previousTotal_totalText, window]
              simp only [countedBytes] at before ⊢
              rw [bytesOf_set found]
              simp only [RecordCall.matches, RecordCall.isCounted, phase, and_self,
                decide_true, Bool.and_false, Bool.and_true, Bool.false_eq_true, if_false,
                if_true]
              simp only [RecordCall.matches, RecordCall.isCounted] at before
              omega
      · rintro _ ⟨⟩
  | @commit index call eventID freshID error found phase =>
      apply accounted.advance found
      · simp [RecordCall.isCounted]
      · intro agentID hour entry held
        exact .inl held
      · rintro _ ⟨⟩
  | evict key =>
      refine ⟨accounted.nonneg, ?_, accounted.loaded⟩
      intro agentID hour entry held
      exact accounted.stored agentID hour entry (MemoryStore.entries_of_delete held)

/-- However the calls interleave, whatever the cache drops and even when a sum overflows, the
total that throttles an agent stays within the outbox rows of its hour and the bytes of calls
that are about to commit or were rejected. -/
theorem enforcedBytes_le_billed_add_unbilled (counter : TwoTierCounter)
    {schedule : List RecordStep} {final : Metered}
    (nonneg : ∀ recording now, .begin recording now ∈ schedule → 0 ≤ recording.bytes.toInt)
    (completed : run (recordStep counter) Metered.new schedule = some final)
    (agentID : String) (hour clock : Time) :
    (enforcedBytes final clock agentID (windowOf hour)).toInt ≤
      billedBytes agentID (windowOf hour) final.outbox +
        unbilledBytes agentID (windowOf hour) final.calls := by
  have guarded : Meets (recordStep counter)
      (fun _ label => ∀ recording now, label = .begin recording now → 0 ≤ recording.bytes.toInt)
      Metered.new schedule := by
    apply meets_of_forall
    rintro label member recording now rfl
    exact nonneg recording now member
  have accounted : Accounted final := by
    apply invariant_of_meets _ schedule Metered.new final guarded accounted_new completed
    intro state label next bytes accounted taken
    exact accounted.step bytes (advances_of_recordStep taken)
  have booked : Booked final := by
    apply invariant_of_run _ schedule Metered.new final booked_new completed
    intro state label next booked taken
    exact booked.step (advances_of_recordStep taken)
  rw [booked agentID (windowOf hour), enforcedBytes, MemoryStore.get_fst]
  have zero : 0 ≤ countedBytes agentID (windowOf hour) final.calls :=
    bytesOf_nonneg accounted.nonneg
  cases held : final.store.entries (enforcementKey agentID (windowOf hour)) with
  | none => exact zero
  | some entry =>
      by_cases fresh : clock ≤ entry.expiresAt
      · simpa [Option.filter, fresh] using accounted.stored agentID hour entry held
      · simp only [Option.filter, fresh, decide_false, Bool.false_eq_true, if_false,
          Option.map_none]
        exact zero

/-- Two pushes of one agent that overlap: the second one reads nothing and overwrites the first. -/
def overlappingPushes : List RecordStep :=
  let push : Recording := ⟨⟨"repository", "agent"⟩, opReceivePack, 5, 0, 1⟩
  [.begin push 0, .begin push 1, .get 0 2 false, .get 1 3 true, .set 0 4 false, .set 1 5 false,
    .commit 0 "first" 1 none, .commit 1 "second" 2 none]

theorem enforcedBytes_overlappingPushes :
    ∃ final, run (recordStep ⟨true, fun _ => none⟩) Metered.new overlappingPushes = some final ∧
      (enforcedBytes final 6 "agent" (windowOf 0)).toInt ≤
        billedBytes "agent" (windowOf 0) final.outbox +
          unbilledBytes "agent" (windowOf 0) final.calls := by
  have completed : (run (recordStep ⟨true, fun _ => none⟩) Metered.new
      overlappingPushes).isSome = true := rfl
  rcases Option.isSome_iff_exists.mp completed with ⟨final, completed⟩
  refine ⟨final, completed, ?_⟩
  apply enforcedBytes_le_billed_add_unbilled ⟨true, fun _ => none⟩ _ completed
  intro recording now member
  have bytes : recording = ⟨⟨"repository", "agent"⟩, opReceivePack, 5, 0, 1⟩ := by
    simp only [overlappingPushes, List.mem_cons, RecordStep.begin.injEq, reduceCtorEq,
      List.not_mem_nil, or_false] at member
    rcases member with ⟨same, -⟩ | ⟨same, -⟩ <;> exact same
  subst bytes
  decide

/-! ## Calls that do not overlap -/

section Undisturbed

variable (agentID : String) (hour : Time)

/-- The call is between its `Get` and its `Set`. -/
def RecordCall.isLoaded (call : RecordCall) : Bool :=
  match call.phase with
  | .loaded _ => true
  | _ => false

/-- The cache keeps an agent's total of one hour and serves its calls one at a time: nothing is
lost, evicted or expired, and no call reads while another one is about to write. -/
def Undisturbed (state : Metered) : RecordStep → Prop
  | .begin _ _ | .commit _ _ _ _ => True
  | .get index clock lost =>
      ∀ call, state.calls[index]? = some call → call.matches agentID (windowOf hour) = true →
        lost = false ∧
        (∀ entry, state.store.entries call.key = some entry → clock ≤ entry.expiresAt) ∧
        ∀ other ∈ state.calls, other.matches agentID (windowOf hour) = true →
          other.isLoaded = false
  | .set index _ lost =>
      ∀ call, state.calls[index]? = some call → call.matches agentID (windowOf hour) = true →
        lost = false
  | .evict key => key ≠ enforcementKey agentID (windowOf hour)

instance decidableUndisturbed (state : Metered) :
    ∀ label, Decidable (Undisturbed agentID hour state label)
  | .begin _ _ | .commit _ _ _ _ => isTrue trivial
  | .get index clock lost =>
      inferInstanceAs (Decidable (∀ call ∈ state.calls[index]?,
        call.matches agentID (windowOf hour) = true → lost = false ∧
          (∀ entry ∈ state.store.entries call.key, clock ≤ entry.expiresAt) ∧
          ∀ other ∈ state.calls, other.matches agentID (windowOf hour) = true →
            other.isLoaded = false))
  | .set index _ lost =>
      inferInstanceAs (Decidable (∀ call ∈ state.calls[index]?,
        call.matches agentID (windowOf hour) = true → lost = false))
  | .evict key => inferInstanceAs (Decidable (key ≠ enforcementKey agentID (windowOf hour)))

/-- The total that the cache holds, expired or not. -/
def heldTotal (store : MemoryStore) : Int64 :=
  previousTotal ((store.entries (enforcementKey agentID (windowOf hour))).map MemEntry.value)

/-- What holds between undisturbed steps: the held total is that of the counted calls, and at
most one call carries it. -/
structure Tallied (state : Metered) : Prop where
  held : heldTotal agentID hour state.store =
    Int64.ofInt (countedBytes agentID (windowOf hour) state.calls)
  carried : ∀ call ∈ state.calls, call.matches agentID (windowOf hour) = true →
    ∀ previous, call.phase = .loaded previous → previous = heldTotal agentID hour state.store
  alone : ∀ (first second : Nat) (call other : RecordCall),
    state.calls[first]? = some call → state.calls[second]? = some other →
    call.matches agentID (windowOf hour) = true → other.matches agentID (windowOf hour) = true →
    call.isLoaded = true → other.isLoaded = true → first = second

variable {agentID hour}

theorem key_of_matches {call : RecordCall} (belongs : call.matches agentID (windowOf hour) = true) :
    call.key = enforcementKey agentID (windowOf hour) := by
  simp only [RecordCall.matches, decide_eq_true_eq] at belongs
  rw [RecordCall.key, belongs.1, belongs.2]

theorem matches_of_key {call : RecordCall}
    (same : enforcementKey agentID (windowOf hour) = call.key) :
    call.matches agentID (windowOf hour) = true := by
  rcases enforcementKey_inj same with ⟨agent, window⟩
  simp [RecordCall.matches, agent, window]

theorem tallied_new : Tallied agentID hour Metered.new where
  held := by simp [heldTotal, Metered.new, MemoryStore.new, previousTotal, countedBytes, bytesOf]
  carried := by simp [Metered.new]
  alone := by simp [Metered.new]

/-- A call of another agent or hour that moves on, and a call that commits, leave the tally. -/
theorem Tallied.set_call {state : Metered} (tallied : Tallied agentID hour state) {index : Nat}
    {call : RecordCall} (found : state.calls[index]? = some call) {phase : Phase}
    {store : MemoryStore} {outbox : List OutboxRecord}
    (kept : heldTotal agentID hour store = heldTotal agentID hour state.store)
    (apart : call.matches agentID (windowOf hour) = true →
      ({ call with phase } : RecordCall).isCounted = call.isCounted ∧
      ({ call with phase } : RecordCall).isLoaded = false) :
    Tallied agentID hour ⟨store, outbox, state.calls.set index { call with phase }⟩ where
  held := by
    have same : ({ call with phase } : RecordCall).matches agentID (windowOf hour) =
      call.matches agentID (windowOf hour) := rfl
    rw [kept, tallied.held, countedBytes, countedBytes, bytesOf_set found, same]
    cases belongs : call.matches agentID (windowOf hour) with
    | false => simp
    | true =>
        rw [(apart belongs).1]
        congr 1
        dsimp only
        omega
  carried := by
    intro other member belongs previous at_previous
    rcases mem_set_cases member with rfl | member
    · have idle := (apart belongs).2
      rw [RecordCall.isLoaded, at_previous] at idle
      cases idle
    · rw [tallied.carried other member belongs previous at_previous, kept]
  alone := by
    intro first second one two at_first at_second belongs belongs' loaded loaded'
    have before {position : Nat} {current : RecordCall}
        (at_position : (state.calls.set index { call with phase })[position]? = some current)
        (belongs : current.matches agentID (windowOf hour) = true)
        (loaded : current.isLoaded = true) : state.calls[position]? = some current := by
      by_cases same : index = position
      · subst same
        rw [List.getElem?_set_self (List.getElem?_eq_some_iff.mp found).1,
          Option.some.injEq] at at_position
        subst at_position
        rw [(apart belongs).2] at loaded
        cases loaded
      · rwa [List.getElem?_set_ne same] at at_position
    exact tallied.alone first second one two (before at_first belongs loaded)
      (before at_second belongs' loaded') belongs belongs' loaded loaded'

theorem heldTotal_get {store : MemoryStore} {clock : Time} {key : String}
    (kept : key = enforcementKey agentID (windowOf hour) →
      ∀ entry, store.entries key = some entry → clock ≤ entry.expiresAt) :
    heldTotal agentID hour (store.get clock key).2 = heldTotal agentID hour store := by
  have dropped (gone : key = enforcementKey agentID (windowOf hour) →
      store.entries key = none) :
      (store.delete key).entries (enforcementKey agentID (windowOf hour)) =
        store.entries (enforcementKey agentID (windowOf hour)) := by
    by_cases same : enforcementKey agentID (windowOf hour) = key
    · simp [MemoryStore.delete, same, gone same.symm]
    · simp [MemoryStore.delete, Function.update_of_ne same]
  have entries : (store.get clock key).2.entries (enforcementKey agentID (windowOf hour)) =
      store.entries (enforcementKey agentID (windowOf hour)) := by
    cases held : store.entries key with
    | none => simpa [MemoryStore.get, held] using dropped fun _ => held
    | some entry =>
        by_cases passed : clock > entry.expiresAt
        · simp only [MemoryStore.get, held, if_pos passed]
          apply dropped
          intro same
          exact absurd (kept same entry held) (not_le.mpr passed)
        · simp [MemoryStore.get, held, passed]
  simp only [heldTotal, entries]

theorem heldTotal_set_of_ne {store : MemoryStore} {clock : Time} {call : RecordCall}
    (apart : call.matches agentID (windowOf hour) = false) (value : Text) :
    heldTotal agentID hour (store.set clock call.key value enforcementTTL) =
      heldTotal agentID hour store := by
  have different : enforcementKey agentID (windowOf hour) ≠ call.key := by
    intro same
    rw [matches_of_key same] at apart
    cases apart
  simp [heldTotal, MemoryStore.set, MemoryStore.insert, Function.update_of_ne different]

theorem Tallied.step {counter : TwoTierCounter} {state next : Metered} {label : RecordStep}
    (enforced : counter.hasCache = true) (agent : agentID ≠ "")
    (undisturbed : Undisturbed agentID hour state label) (tallied : Tallied agentID hour state)
    (advances : Advances counter state label next) : Tallied agentID hour next := by
  cases advances with
  | begin recording now phase first =>
      -- Tier 1 is skipped for other agents only.
      have idle : (⟨recording, now, phase⟩ : RecordCall).isLoaded = false := by
        rcases first with ⟨rfl, -⟩ | rfl <;> rfl
      have uncounted : ((⟨recording, now, phase⟩ : RecordCall).matches agentID (windowOf hour) &&
          (⟨recording, now, phase⟩ : RecordCall).isCounted) = false := by
        rcases first with ⟨-, disabled | human⟩ | rfl
        · simp [enforced] at disabled
        · simp [RecordCall.matches, human, agent.symm]
        · simp [RecordCall.isCounted]
      refine ⟨?_, ?_, ?_⟩
      · rw [countedBytes, bytesOf_concat, uncounted]
        simpa [countedBytes] using tallied.held
      · intro call member belongs previous at_previous
        rcases List.mem_append.mp member with member | member
        · exact tallied.carried call member belongs previous at_previous
        · rcases List.mem_singleton.mp member with rfl
          rw [RecordCall.isLoaded, at_previous] at idle
          cases idle
      · intro first second one two at_first at_second belongs belongs' loaded loaded'
        have before {position : Nat} {current : RecordCall}
            (at_position : (state.calls ++ [⟨recording, now, phase⟩])[position]? = some current)
            (loaded : current.isLoaded = true) : state.calls[position]? = some current := by
          rw [List.getElem?_append] at at_position
          split at at_position
          · exact at_position
          · rcases List.mem_singleton.mp (List.mem_of_getElem? at_position) with rfl
            rw [idle] at loaded
            cases loaded
        exact tallied.alone first second one two (before at_first loaded)
          (before at_second loaded') belongs belongs' loaded loaded'
  | @get index call clock lost found phase =>
      cases belongs : call.matches agentID (windowOf hour) with
      | false =>
          apply tallied.set_call found
          · cases lost with
            | true => rfl
            | false =>
                apply heldTotal_get
                intro same
                rw [matches_of_key same.symm] at belongs
                cases belongs
          · simp [belongs]
      | true =>
          rcases undisturbed call found belongs with ⟨rfl, fresh, alone⟩
          have key := key_of_matches belongs
          have kept : heldTotal agentID hour (state.store.get clock call.key).2 =
              heldTotal agentID hour state.store := heldTotal_get fun _ => fresh
          have loads : previousTotal (state.store.get clock call.key).1 =
              heldTotal agentID hour state.store := by
            rw [MemoryStore.get_fst, heldTotal, ← key]
            cases held : state.store.entries call.key with
            | none => rfl
            | some entry => simp [Option.filter, fresh entry held]
          refine ⟨?_, ?_, ?_⟩
          · rw [if_neg (by simp), kept, tallied.held, countedBytes, countedBytes,
              bytesOf_set found]
            simp [RecordCall.isCounted, phase]
          · intro other member belongs' previous at_previous
            rw [if_neg (by simp), kept]
            rcases mem_set_cases member with rfl | member
            · cases at_previous
              exact loads
            · exact tallied.carried other member belongs' previous at_previous
          · intro first second one two at_first at_second belongs₁ belongs₂ loaded loaded'
            have own {position : Nat} {current : RecordCall}
                (at_position : (state.calls.set index { call with
                  phase := .loaded (previousTotal (if false then none else
                    (state.store.get clock call.key).1)) })[position]? = some current)
                (belongs : current.matches agentID (windowOf hour) = true)
                (loaded : current.isLoaded = true) : position = index := by
              by_contra different
              rw [List.getElem?_set_ne (Ne.symm different)] at at_position
              rw [alone current (List.mem_of_getElem? at_position) belongs] at loaded
              cases loaded
            rw [own at_first belongs₁ loaded, own at_second belongs₂ loaded']
  | @set index call previous clock lost found phase =>
      cases belongs : call.matches agentID (windowOf hour) with
      | false =>
          apply tallied.set_call found
          · cases lost with
            | true => rfl
            | false => exact heldTotal_set_of_ne belongs _
          · simp [belongs]
      | true =>
          rcases undisturbed call found belongs with rfl
          have written : heldTotal agentID hour (state.store.set clock call.key
              (totalText (previous + call.recording.bytes)) enforcementTTL) =
                previous + call.recording.bytes := by
            rw [heldTotal, ← key_of_matches belongs]
            simp [MemoryStore.set, MemoryStore.insert, previousTotal_totalText]
          have read := tallied.carried call (List.mem_of_getElem? found) belongs previous phase
          have idle {position : Nat} {current : RecordCall}
              (at_position : (state.calls.set index { call with phase := .counted })[position]? =
                some current)
              (belongs' : current.matches agentID (windowOf hour) = true)
              (loaded : current.isLoaded = true) : False := by
            by_cases same : index = position
            · subst same
              rw [List.getElem?_set_self (List.getElem?_eq_some_iff.mp found).1,
                Option.some.injEq] at at_position
              subst at_position
              cases loaded
            · rw [List.getElem?_set_ne same] at at_position
              exact same (tallied.alone index position call current found at_position belongs
                belongs' (by simp [RecordCall.isLoaded, phase]) loaded)
          refine ⟨?_, ?_, ?_⟩
          · rw [if_neg (by simp), written, read, tallied.held, countedBytes, countedBytes,
              bytesOf_set found, belongs]
            have same : ({ call with phase := .counted } : RecordCall).matches agentID
              (windowOf hour) = true := belongs
            simp [same, RecordCall.isCounted, phase, Int64.ofInt_add, Int64.ofInt_toInt]
          · intro other member belongs' value at_value
            rcases List.mem_iff_getElem?.mp member with ⟨position, at_position⟩
            exact (idle at_position belongs' (by simp [RecordCall.isLoaded, at_value])).elim
          · intro first second one two at_first _ belongs₁ _ loaded _
            exact (idle at_first belongs₁ loaded).elim
  | @commit index call eventID freshID error found phase =>
      apply tallied.set_call found
      · rfl
      · intro _
        exact ⟨by simp [RecordCall.isCounted, phase], rfl⟩
  | evict key =>
      have kept : heldTotal agentID hour (state.store.delete key) =
          heldTotal agentID hour state.store := by
        simp [heldTotal, MemoryStore.delete, Function.update_of_ne (Ne.symm undisturbed)]
      exact ⟨kept.trans tallied.held, fun call member belongs previous at_previous =>
        (tallied.carried call member belongs previous at_previous).trans kept.symm, tallied.alone⟩

/-- When the cache keeps an agent's total of an hour and its calls do not overlap, the total is,
as a 64-bit sum, that of the outbox rows and of the calls that owe one. -/
theorem enforcedBytes_eq_of_undisturbed (counter : TwoTierCounter) {schedule : List RecordStep}
    {final : Metered} {clock : Time} (enforced : counter.hasCache = true) (agent : agentID ≠ "")
    (undisturbed : Meets (recordStep counter) (Undisturbed agentID hour) Metered.new schedule)
    (completed : run (recordStep counter) Metered.new schedule = some final)
    (fresh : ∀ entry, final.store.entries (enforcementKey agentID (windowOf hour)) = some entry →
      clock ≤ entry.expiresAt) :
    enforcedBytes final clock agentID (windowOf hour) =
      Int64.ofInt (billedBytes agentID (windowOf hour) final.outbox +
        unbilledBytes agentID (windowOf hour) final.calls) := by
  have booked : Booked final := by
    apply invariant_of_run _ schedule Metered.new final booked_new completed
    intro state label next booked taken
    exact booked.step (advances_of_recordStep taken)
  have tallied : Tallied agentID hour final := by
    apply invariant_of_meets _ schedule Metered.new final undisturbed tallied_new completed
    intro state label next guarded tallied taken
    exact tallied.step enforced agent guarded (advances_of_recordStep taken)
  rw [booked agentID (windowOf hour), ← tallied.held, enforcedBytes, MemoryStore.get_fst, heldTotal]
  cases held : final.store.entries (enforcementKey agentID (windowOf hour)) with
  | none => rfl
  | some entry => simp [Option.filter, fresh entry held]

end Undisturbed

/-- Two pushes of one agent in turn, and a push of another agent that begins before the first one
and ends after the second.  The cache fails the other agent, and its row is rejected. -/
def pushesInTurn : List RecordStep :=
  let push : Recording := ⟨⟨"repository", "agent"⟩, opReceivePack, 5, 0, 1⟩
  [.begin ⟨⟨"repository", "other"⟩, opReceivePack, 9, 0, 1⟩ 0, .get 0 1 true, .begin push 2,
    .get 1 3 false, .set 1 4 false, .commit 1 "first" 1 none, .begin push 5, .get 2 6 false,
    .set 0 7 false, .set 2 8 false, .commit 2 "second" 2 none, .commit 0 "third" 3 (some "down")]

theorem enforcedBytes_pushesInTurn :
    ∃ final, run (recordStep ⟨true, fun _ => none⟩) Metered.new pushesInTurn = some final ∧
      enforcedBytes final 9 "agent" (windowOf 0) = 10 ∧
      enforcedBytes final 9 "agent" (windowOf 0) =
        Int64.ofInt (billedBytes "agent" (windowOf 0) final.outbox +
          unbilledBytes "agent" (windowOf 0) final.calls) := by
  have undisturbed : Meets (recordStep ⟨true, fun _ => none⟩) (Undisturbed "agent" 0)
      Metered.new pushesInTurn := by
    decide +kernel
  have finished : ∃ final ∈ run (recordStep ⟨true, fun _ => none⟩) Metered.new pushesInTurn,
      enforcedBytes final 9 "agent" (windowOf 0) = 10 ∧
        ∀ entry ∈ final.store.entries (enforcementKey "agent" (windowOf 0)),
          9 ≤ entry.expiresAt := by
    decide +kernel
  rcases finished with ⟨final, completed, total, fresh⟩
  exact ⟨final, completed, total, enforcedBytes_eq_of_undisturbed ⟨true, fun _ => none⟩ rfl
    (by decide) undisturbed completed fresh⟩

end GitScale.Git
