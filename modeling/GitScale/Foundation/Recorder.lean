import GitScale.Foundation.Reader

/-!
# Recorded runs of readers

A recorder computes what a reader computes and keeps a record of it: every access to the
source, every move of the position, and every iteration of a loop that goes on.  `Tracks` says
that a recorder has the outcome of a reader, that its accesses are in bounds, that the position
never falls, and that the iterations that go on have moved it; there is one rule for each
primitive.
-/

namespace GitScale.Foundation

namespace Recorder

/-- Something that a recorder does. -/
inductive Action where
  /-- The item at an index. -/
  | read (index : Nat)
  /-- The items from one index up to another. -/
  | slice (low high : Nat)
  | move
  /-- A loop goes on; this iteration started at `head`. -/
  | again (head : Nat)
  deriving DecidableEq

/-- An action, and the position after it. -/
structure Event where
  action : Action
  position : Nat
  deriving DecidableEq

/-- Accesses are in bounds, and an iteration that goes on has advanced the position. -/
def Event.Sound (length : Nat) (event : Event) : Prop :=
  match event.action with
  | .read index => index < length
  | .slice low high => low ≤ high ∧ high ≤ length
  | .move => True
  | .again head => head < event.position

/-- From the first position to the last one, the position never falls. -/
def Rises (start : Nat) : List Event → Nat → Prop
  | [], final => start ≤ final
  | event :: rest, final => start ≤ event.position ∧ Rises event.position rest final

theorem Rises.of_le {start later final : Nat} {events : List Event} (earlier : start ≤ later)
    (rises : Rises later events final) : Rises start events final := by
  cases events with
  | nil => exact Nat.le_trans earlier rises
  | cons event rest => exact ⟨Nat.le_trans earlier rises.1, rises.2⟩

theorem Rises.append {start middle final : Nat} {first second : List Event}
    (before : Rises start first middle) (after : Rises middle second final) :
    Rises start (first ++ second) final := by
  induction first generalizing start with
  | nil => exact after.of_le before
  | cons event rest inductionHypothesis => exact ⟨before.1, inductionHypothesis before.2⟩

end Recorder

/-- A reader that keeps a record. -/
def Recorder (Item Error Value : Type) :=
  List Item → Nat → List Recorder.Event × Outcome Error Value

namespace Recorder

variable {Item Error Value Other : Type}

protected def pure (value : Value) : Recorder Item Error Value :=
  fun _ position => ([], .ok value position)

protected def bind (recorder : Recorder Item Error Value)
    (next : Value → Recorder Item Error Other) : Recorder Item Error Other :=
  fun source position =>
    match recorder source position with
    | (events, .ok value position) =>
        let later := next value source position
        (events ++ later.1, later.2)
    | (events, .failed error) => (events, .failed error)
    | (events, .outOfRange) => (events, .outOfRange)
    | (events, .exhausted) => (events, .exhausted)

instance instMonad : Monad (Recorder Item Error) where
  pure := Recorder.pure
  bind := Recorder.bind

/-! ## Primitives -/

def position : Recorder Item Error Nat := fun _ position => ([], .ok position position)

def sourceLength : Recorder Item Error Nat :=
  fun source position => ([], .ok source.length position)

/-- Fail with an error that depends on the position. -/
def fail (error : Nat → Error) : Recorder Item Error Value :=
  fun _ position => ([], .failed (error position))

/-- Out of fuel. -/
def stuck : Recorder Item Error Value := fun _ _ => ([], .exhausted)

/-- The item at an index, which has to be there. -/
def itemAt (index : Nat) : Recorder Item Error Item :=
  fun source position =>
    ([⟨.read index, position⟩],
      match source[index]? with
      | some item => .ok item position
      | none => .outOfRange)

/-- The item at the position, which is not read at the end. -/
def current : Recorder Item Error (Option Item) :=
  fun source position =>
    (if position < source.length then [⟨.read position, position⟩] else [],
      .ok source[position]? position)

/-- The items from one index up to another. -/
def slice (low high : Nat) : Recorder Item Error (List Item) :=
  fun source position =>
    ([⟨.slice low high, position⟩],
      if low ≤ high ∧ high ≤ source.length then
        .ok ((source.drop low).take (high - low)) position
      else .outOfRange)

def advance (count : Nat) : Recorder Item Error Unit :=
  fun _ position => ([⟨.move, position + count⟩], .ok () (position + count))

/-- The loop goes on with another iteration. -/
def again (head : Nat) : Recorder Item Error Unit :=
  fun _ position => ([⟨.again head, position⟩], .ok () position)

/-- The loop that passes the items that satisfy a test. -/
def passWhile (test : Item → Bool) : Nat → Recorder Item Error Unit
  | 0 => stuck
  | fuel + 1 => do
      let head ← position
      let here ← current
      match here with
      | none => return ()
      | some item =>
          if test item then
            advance 1
            again head
            passWhile test fuel
          else return ()

/-! ## Tracking a reader -/

/-- The recorder has the outcome of the reader, and its record is sound. -/
structure Tracks (source : List Item) (start : Nat) (recorder : Recorder Item Error Value)
    (reader : Reader Item Error Value) : Prop where
  outcome : (recorder source start).2 = reader source start
  sound : ∀ event ∈ (recorder source start).1, event.Sound source.length
  rises : ∃ final, Rises start (recorder source start).1 final ∧
    ∀ value next, reader source start = .ok value next → next = final

variable {source : List Item} {start : Nat}

/-- A recorder whose run is known. -/
theorem tracks_of_ok {recorder : Recorder Item Error Value} {reader : Reader Item Error Value}
    {events : List Event} {value : Value} {next : Nat}
    (runs : recorder source start = (events, .ok value next))
    (returns : reader source start = .ok value next)
    (sound : ∀ event ∈ events, event.Sound source.length) (rises : Rises start events next) :
    Tracks source start recorder reader := by
  refine ⟨?_, ?_, next, ?_, ?_⟩
  · rw [runs, returns]
  · rw [runs]
    exact sound
  · rw [runs]
    exact rises
  · intro other position same
    rw [returns] at same
    cases same
    rfl

/-- Another reader with the same outcome is tracked as well. -/
theorem Tracks.congr {recorder : Recorder Item Error Value} {reader other : Reader Item Error Value}
    (tracks : Tracks source start recorder reader)
    (same : reader source start = other source start) : Tracks source start recorder other := by
  refine ⟨tracks.outcome.trans same, tracks.sound, ?_⟩
  rw [← same]
  exact tracks.rises

/-- The position is looked up by the reader only. -/
theorem Tracks.position {recorder : Recorder Item Error Value}
    {next : Nat → Reader Item Error Value} (tracks : Tracks source start recorder (next start)) :
    Tracks source start recorder (Reader.position >>= next) :=
  tracks.congr rfl

/-- The length is looked up by the reader only. -/
theorem Tracks.sourceLength {recorder : Recorder Item Error Value}
    {next : Nat → Reader Item Error Value}
    (tracks : Tracks source start recorder (next source.length)) :
    Tracks source start recorder (Reader.sourceLength >>= next) :=
  tracks.congr rfl

/-- The item at the position is read by the reader only. -/
theorem Tracks.item {recorder : Recorder Item Error Value} {item : Item}
    {next : Item → Reader Item Error Value} (here : source[start]? = some item)
    (tracks : Tracks source start recorder (next item)) :
    Tracks source start recorder (Reader.item >>= next) := by
  have returns : (Reader.item : Reader Item Error Item) source start = .ok item start := by
    simp only [Reader.item, here]
  exact tracks.congr (Reader.bind_eq_of_ok returns).symm

/-- What follows is looked at by the reader only. -/
theorem Tracks.remaining {recorder : Recorder Item Error Value}
    {next : List Item → Reader Item Error Value} (inside : start ≤ source.length)
    (tracks : Tracks source start recorder (next (source.drop start))) :
    Tracks source start recorder (Reader.remaining >>= next) := by
  have returns : (Reader.remaining : Reader Item Error (List Item)) source start =
      .ok (source.drop start) start := by
    rw [Reader.remaining, if_pos inside]
  exact tracks.congr (Reader.bind_eq_of_ok returns).symm

theorem bind_eq_of_ok {recorder : Recorder Item Error Value}
    {next : Value → Recorder Item Error Other} {events : List Event} {value : Value}
    {middle : Nat} (runs : recorder source start = (events, .ok value middle)) :
    (recorder >>= next) source start =
      (events ++ (next value source middle).1, (next value source middle).2) := by
  change Recorder.bind recorder next source start = _
  rw [Recorder.bind, runs]

theorem bind_eq_of_failed {recorder : Recorder Item Error Value}
    {next : Value → Recorder Item Error Other} {events : List Event} {error : Error}
    (runs : recorder source start = (events, .failed error)) :
    (recorder >>= next) source start = (events, .failed error) := by
  change Recorder.bind recorder next source start = _
  rw [Recorder.bind, runs]

/-- One step after another; what the reader leaves is known from a triple about it. -/
theorem Tracks.bind {recorder : Recorder Item Error Value} {reader : Reader Item Error Value}
    {next : Value → Recorder Item Error Other} {next' : Value → Reader Item Error Other}
    {post : Value → Nat → Prop} (tracks : Tracks source start recorder reader)
    (reads : Reader.Reads source start reader post)
    (onward : ∀ value position, post value position →
      Tracks source position (next value) (next' value)) :
    Tracks source start (recorder >>= next) (reader >>= next') := by
  obtain ⟨final, rises, last⟩ := tracks.rises
  rcases reads.ok_or_failed with ⟨value, middle, returns, holds⟩ | ⟨error, fails⟩
  · have runs : recorder source start = ((recorder source start).1, .ok value middle) :=
      Prod.ext rfl (tracks.outcome.trans returns)
    have later := onward value middle holds
    obtain ⟨end', rises', last'⟩ := later.rises
    have position := last value middle returns
    subst position
    have equal : (reader >>= next') source start = next' value source middle :=
      Reader.bind_eq_of_ok returns
    refine ⟨?_, ?_, end', ?_, ?_⟩
    · rw [bind_eq_of_ok runs, equal]
      exact later.outcome
    · rw [bind_eq_of_ok runs]
      intro event member
      cases List.mem_append.mp member with
      | inl before => exact tracks.sound event before
      | inr after => exact later.sound event after
    · rw [bind_eq_of_ok runs]
      exact rises.append rises'
    · rw [equal]
      exact last'
  · have runs : recorder source start = ((recorder source start).1, .failed error) :=
      Prod.ext rfl (tracks.outcome.trans fails)
    have equal : (reader >>= next') source start = .failed error :=
      Reader.bind_eq_of_failed fails
    refine ⟨?_, ?_, final, ?_, ?_⟩
    · rw [bind_eq_of_failed runs, equal]
    · rw [bind_eq_of_failed runs]
      exact tracks.sound
    · rw [bind_eq_of_failed runs]
      exact rises
    · rw [equal]
      intro other position same
      cases same

/-- A step of the recorder whose run is known, after which the reader has the same outcome. -/
theorem Tracks.step {recorder : Recorder Item Error Value}
    {next : Value → Recorder Item Error Other} {reader reader' : Reader Item Error Other}
    {events : List Event} {value : Value} {middle : Nat}
    (tracks : Tracks source middle (next value) reader')
    (runs : recorder source start = (events, .ok value middle))
    (sound : ∀ event ∈ events, event.Sound source.length) (rises : Rises start events middle)
    (same : reader source start = reader' source middle) :
    Tracks source start (recorder >>= next) reader := by
  obtain ⟨final, later, last⟩ := tracks.rises
  refine ⟨?_, ?_, final, ?_, ?_⟩
  · rw [bind_eq_of_ok runs, same]
    exact tracks.outcome
  · rw [bind_eq_of_ok runs]
    intro event member
    cases List.mem_append.mp member with
    | inl before => exact sound event before
    | inr after => exact tracks.sound event after
  · rw [bind_eq_of_ok runs]
    exact rises.append later
  · rw [same]
    exact last

theorem tracks_pure (value : Value) :
    Tracks source start (pure value : Recorder Item Error Value) (pure value) :=
  tracks_of_ok rfl rfl (by simp) (Nat.le_refl start)

theorem tracks_pure_bind {value : Value} {next : Value → Recorder Item Error Other}
    {next' : Value → Reader Item Error Other}
    (tracks : Tracks source start (next value) (next' value)) :
    Tracks source start (pure value >>= next) (pure value >>= next') :=
  tracks.step rfl (by simp) (Nat.le_refl start) rfl

theorem tracks_fail (error : Nat → Error) :
    Tracks source start (fail error : Recorder Item Error Value) (Reader.fail error) := by
  refine ⟨rfl, by simp [fail], start, Nat.le_refl start, ?_⟩
  intro value next returns
  cases returns

section Steps

variable {reader : Reader Item Error Other}

/-- The position is looked up by the recorder only. -/
theorem tracks_head {next : Nat → Recorder Item Error Other}
    (tracks : Tracks source start (next start) reader) :
    Tracks source start (position >>= next) reader :=
  tracks.step rfl (by simp) (Nat.le_refl start) rfl

theorem tracks_position {next : Nat → Recorder Item Error Other}
    {next' : Nat → Reader Item Error Other}
    (tracks : Tracks source start (next start) (next' start)) :
    Tracks source start (position >>= next) (Reader.position >>= next') :=
  tracks_head tracks.position

/-- The length is looked up by the recorder only. -/
theorem tracks_length {next : Nat → Recorder Item Error Other}
    (tracks : Tracks source start (next source.length) reader) :
    Tracks source start (sourceLength >>= next) reader :=
  tracks.step rfl (by simp) (Nat.le_refl start) rfl

theorem tracks_sourceLength {next : Nat → Recorder Item Error Other}
    {next' : Nat → Reader Item Error Other}
    (tracks : Tracks source start (next source.length) (next' source.length)) :
    Tracks source start (sourceLength >>= next) (Reader.sourceLength >>= next') :=
  tracks_length tracks.sourceLength

/-- The item at the position is looked at by the recorder only. -/
theorem tracks_look {next : Option Item → Recorder Item Error Other}
    (tracks : Tracks source start (next source[start]?) reader) :
    Tracks source start (current >>= next) reader := by
  refine tracks.step rfl ?_ ?_ rfl
  · intro event member
    split at member
    · next inside =>
        rw [List.mem_singleton.mp member]
        exact inside
    · cases member
  · split
    · exact ⟨Nat.le_refl start, Nat.le_refl start⟩
    · exact Nat.le_refl start

theorem tracks_current {next : Option Item → Recorder Item Error Other}
    {next' : Option Item → Reader Item Error Other}
    (tracks : Tracks source start (next source[start]?) (next' source[start]?)) :
    Tracks source start (current >>= next) (Reader.current >>= next') :=
  tracks_look (tracks.congr rfl)

/-- The recorder moves in front of the reader. -/
theorem tracks_move {count : Nat} {next : Unit → Recorder Item Error Other}
    {reader' : Reader Item Error Other}
    (tracks : Tracks source (start + count) (next ()) reader')
    (same : reader source start = reader' source (start + count)) :
    Tracks source start (advance count >>= next) reader := by
  refine tracks.step rfl ?_ ⟨Nat.le_add_right start count, Nat.le_refl _⟩ same
  intro event member
  rw [List.mem_singleton.mp member]
  trivial

theorem tracks_advance {count : Nat} {next : Unit → Recorder Item Error Other}
    {next' : Unit → Reader Item Error Other}
    (tracks : Tracks source (start + count) (next ()) (next' ())) :
    Tracks source start (advance count >>= next) (Reader.advance count >>= next') :=
  tracks_move tracks rfl

/-- An iteration that goes on has advanced the position. -/
theorem tracks_again {head : Nat} {next : Unit → Recorder Item Error Other}
    (advanced : head < start) (tracks : Tracks source start (next ()) reader) :
    Tracks source start (again head >>= next) reader := by
  refine tracks.step rfl ?_ ⟨Nat.le_refl start, Nat.le_refl start⟩ rfl
  intro event member
  rw [List.mem_singleton.mp member]
  exact advanced

/-- An item is read by the recorder only. -/
theorem tracks_itemAt {index : Nat} {item : Item} {next : Item → Recorder Item Error Other}
    (here : source[index]? = some item) (tracks : Tracks source start (next item) reader) :
    Tracks source start (itemAt index >>= next) reader := by
  have runs : (itemAt index : Recorder Item Error Item) source start =
      ([⟨.read index, start⟩], .ok item start) := by
    simp only [itemAt, here]
  refine tracks.step runs ?_ ⟨Nat.le_refl start, Nat.le_refl start⟩ rfl
  intro event member
  rw [List.mem_singleton.mp member]
  exact (List.getElem?_eq_some_iff.mp here).1

/-- Items are read by the recorder only. -/
theorem tracks_slice {low high : Nat} {next : List Item → Recorder Item Error Other}
    (ordered : low ≤ high) (inside : high ≤ source.length)
    (tracks : Tracks source start (next ((source.drop low).take (high - low))) reader) :
    Tracks source start (slice low high >>= next) reader := by
  have runs : (slice low high : Recorder Item Error (List Item)) source start =
      ([⟨.slice low high, start⟩], .ok ((source.drop low).take (high - low)) start) := by
    simp only [slice, if_pos (And.intro ordered inside)]
  refine tracks.step runs ?_ ⟨Nat.le_refl start, Nat.le_refl start⟩ rfl
  intro event member
  rw [List.mem_singleton.mp member]
  exact ⟨ordered, inside⟩

end Steps

/-- A move at the end. -/
theorem tracks_advance_last (count : Nat) :
    Tracks source start (advance count : Recorder Item Error Unit) (Reader.advance count) := by
  refine tracks_of_ok rfl rfl ?_ ⟨Nat.le_add_right start count, Nat.le_refl _⟩
  intro event member
  rw [List.mem_singleton.mp member]
  trivial

/-- A slice up to the position, at the end. -/
theorem tracks_slice_last {first : Nat} (ordered : first ≤ start)
    (inside : start ≤ source.length) :
    Tracks source start (slice first start : Recorder Item Error (List Item))
      (Reader.slice first) := by
  have bounds := And.intro ordered inside
  have runs : (slice first start : Recorder Item Error (List Item)) source start =
      ([⟨.slice first start, start⟩], .ok ((source.drop first).take (start - first)) start) := by
    simp only [slice, if_pos bounds]
  refine tracks_of_ok runs ?_ ?_ ⟨Nat.le_refl start, Nat.le_refl start⟩
  · rw [Reader.slice, if_pos bounds]
  · intro event member
    rw [List.mem_singleton.mp member]
    exact bounds

theorem tracks_passWhile (test : Item → Bool) (fuel : Nat)
    (enough : source.length + 1 ≤ start + fuel) (inside : start ≤ source.length) :
    Tracks source start (passWhile test fuel : Recorder Item Error Unit)
      (Reader.advanceWhile test) := by
  induction fuel generalizing start with
  | zero => omega
  | succ fuel inductionHypothesis =>
      unfold passWhile
      apply tracks_head
      apply tracks_look
      -- The reader stops where the test fails or the source ends.
      have stops (taken : (source.drop start).takeWhile test = []) :
          Tracks source start (pure () : Recorder Item Error Unit)
            (Reader.advanceWhile test) := by
        refine (tracks_pure ()).congr ?_
        simp only [Reader.advanceWhile, Reader.advanceBy, taken]
        rfl
      cases here : source[start]? with
      | none =>
          have finished : source.drop start = [] :=
            List.drop_eq_nil_of_le (List.getElem?_eq_none_iff.mp here)
          exact stops (by rw [finished]; rfl)
      | some item =>
          obtain ⟨more, present⟩ := List.getElem?_eq_some_iff.mp here
          have rest : source.drop start = item :: source.drop (start + 1) := by
            rw [List.drop_eq_getElem_cons more, present]
          dsimp only
          split
          · next passes =>
              have same : (Reader.advanceWhile test : Reader Item Error Unit) source start =
                  Reader.advanceWhile test source (start + 1) := by
                simp only [Reader.advanceWhile, Reader.advanceBy, rest, passes,
                  List.takeWhile_cons_of_pos, List.length_cons]
                congr 1
                omega
              refine tracks_move ?_ same
              apply tracks_again (Nat.lt_succ_self start)
              exact inductionHypothesis (by omega) more
          · next fails =>
              exact stops (by rw [rest, List.takeWhile_cons_of_neg fails])

end Recorder

end GitScale.Foundation
