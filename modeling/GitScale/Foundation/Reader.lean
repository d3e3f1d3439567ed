import Mathlib.Data.List.Basic
import Mathlib.Tactic.TypeStar

/-!
# Readers over a source with a position

A recursive-descent parser with one position into a fixed source.  A reader either goes on,
fails with an error, accesses the source outside its bounds, or runs out of the fuel that
bounds its loops; the last two are kept apart from failures so that they can be shown never to
happen.  `Reads` is the weakest precondition of a reader, with one rule for each primitive.
`Returns` is about the values that are returned only.  `Accepts` leaves the fuel aside, and
`Follows` compares two runs, each with its own fuel.
-/

namespace GitScale.Foundation

universe u

variable {Item Error : Type*} {Value Other : Type u}

inductive Outcome (Error Value : Type*) where
  | ok (value : Value) (position : Nat)
  | failed (error : Error)
  | outOfRange
  | exhausted
  deriving DecidableEq

/-- A reader gets the source and the position. -/
def Reader (Item Error Value : Type*) := List Item → Nat → Outcome Error Value

namespace Reader

protected def pure (value : Value) : Reader Item Error Value :=
  fun _ position => .ok value position

protected def bind (reader : Reader Item Error Value)
    (next : Value → Reader Item Error Other) : Reader Item Error Other :=
  fun source position =>
    match reader source position with
    | .ok value position => next value source position
    | .failed error => .failed error
    | .outOfRange => .outOfRange
    | .exhausted => .exhausted

instance instMonad : Monad (Reader Item Error) where
  pure := Reader.pure
  bind := Reader.bind

theorem bind_eq_of_ok {reader : Reader Item Error Value} {next : Value → Reader Item Error Other}
    {source : List Item} {start position : Nat} {value : Value}
    (returns : reader source start = .ok value position) :
    (reader >>= next) source start = next value source position := by
  change Reader.bind reader next source start = _
  rw [Reader.bind, returns]

theorem bind_eq_of_failed {reader : Reader Item Error Value}
    {next : Value → Reader Item Error Other} {source : List Item} {start : Nat} {error : Error}
    (fails : reader source start = .failed error) :
    (reader >>= next) source start = .failed error := by
  change Reader.bind reader next source start = _
  rw [Reader.bind, fails]

/-! ## Primitives -/

/-- The position. -/
def position : Reader Item Error Nat :=
  fun _ position => .ok position position

/-- The length of the source. -/
def sourceLength : Reader Item Error Nat :=
  fun source position => .ok source.length position

/-- Fail with an error that depends on the position. -/
def fail (error : Nat → Error) : Reader Item Error Value :=
  fun _ position => .failed (error position)

/-- Out of fuel. -/
def stuck : Reader Item Error Value :=
  fun _ _ => .exhausted

/-- The item at the position, or none at the end. -/
def current : Reader Item Error (Option Item) :=
  fun source position => .ok source[position]? position

/-- The item at the position, which has to be there. -/
def item : Reader Item Error Item :=
  fun source position =>
    match source[position]? with
    | some item => .ok item position
    | none => .outOfRange

/-- What follows the position, which may be the end but not beyond it. -/
def remaining : Reader Item Error (List Item) :=
  fun source position =>
    if position ≤ source.length then .ok (source.drop position) position else .outOfRange

/-- The part of the source from an earlier position on. -/
def slice (start : Nat) : Reader Item Error (List Item) :=
  fun source position =>
    if start ≤ position ∧ position ≤ source.length then
      .ok ((source.drop start).take (position - start)) position
    else .outOfRange

def advance (count : Nat) : Reader Item Error Unit :=
  fun _ position => .ok () (position + count)

/-- Advance by a length that depends on what follows. -/
def advanceBy (length : List Item → Nat) : Reader Item Error Unit :=
  fun source position => .ok () (position + length (source.drop position))

/-- Advance while the items satisfy a test. -/
def advanceWhile (test : Item → Bool) : Reader Item Error Unit :=
  advanceBy fun rest => (rest.takeWhile test).length

/-! ## Weakest preconditions -/

/-- The reader stays within the source and within its fuel, and when it goes on, the value
and the position satisfy the postcondition. -/
def Reads (source : List Item) (position : Nat) (reader : Reader Item Error Value)
    (post : Value → Nat → Prop) : Prop :=
  match reader source position with
  | .ok value next => post value next
  | .failed _ => True
  | .outOfRange | .exhausted => False

variable {source : List Item} {start : Nat} {post : Value → Nat → Prop}

theorem reads_pure_iff (value : Value) :
    Reads source start (pure value : Reader Item Error Value) post ↔ post value start :=
  Iff.rfl

theorem reads_bind_iff (reader : Reader Item Error Value)
    (next : Value → Reader Item Error Other) {after : Other → Nat → Prop} :
    Reads source start (reader >>= next) after ↔
      Reads source start reader fun value position =>
        Reads source position (next value) after := by
  change (match Reader.bind reader next source start with
    | .ok value next => after value next
    | .failed _ => True
    | .outOfRange | .exhausted => False) ↔ _
  unfold Reader.bind Reads
  cases reader source start with
  | ok value position => rfl
  | failed error => rfl
  | outOfRange => rfl
  | exhausted => rfl

/-- Weaken the postcondition. -/
theorem Reads.mono {reader : Reader Item Error Value} {weaker : Value → Nat → Prop}
    (reads : Reads source start reader post)
    (implies : ∀ value next, post value next → weaker value next) :
    Reads source start reader weaker := by
  unfold Reads at *
  cases outcome : reader source start with
  | ok value next =>
      rw [outcome] at reads
      exact implies value next reads
  | failed error => trivial
  | outOfRange =>
      rw [outcome] at reads
      exact reads
  | exhausted =>
      rw [outcome] at reads
      exact reads

/-- A step whose value is not needed any more. -/
theorem Reads.bind {reader : Reader Item Error Value}
    {next : Value → Reader Item Error Other} {after : Other → Nat → Prop}
    (reads : Reads source start reader post)
    (onward : ∀ value position, post value position →
      Reads source position (next value) after) :
    Reads source start (reader >>= next) after :=
  (reads_bind_iff reader next).mpr (reads.mono onward)

theorem reads_fail (error : Nat → Error) : Reads source start (fail error) post :=
  trivial

theorem reads_position_iff {post : Nat → Nat → Prop} :
    Reads source start (position : Reader Item Error Nat) post ↔ post start start :=
  Iff.rfl

theorem reads_sourceLength_iff {post : Nat → Nat → Prop} :
    Reads source start (sourceLength : Reader Item Error Nat) post ↔ post source.length start :=
  Iff.rfl

theorem reads_current_iff {post : Option Item → Nat → Prop} :
    Reads source start (current : Reader Item Error (Option Item)) post ↔ post source[start]? start :=
  Iff.rfl

theorem reads_advance_iff {count : Nat} {post : Unit → Nat → Prop} :
    Reads source start (advance count : Reader Item Error Unit) post ↔ post () (start + count) :=
  Iff.rfl

theorem reads_advanceBy_iff {length : List Item → Nat} {post : Unit → Nat → Prop} :
    Reads source start (advanceBy length : Reader Item Error Unit) post ↔
      post () (start + length (source.drop start)) :=
  Iff.rfl

theorem reads_item_iff {value : Item} {post : Item → Nat → Prop}
    (here : source[start]? = some value) :
    Reads source start (item : Reader Item Error Item) post ↔ post value start := by
  simp only [Reads, item, here]

theorem reads_remaining_iff {post : List Item → Nat → Prop} (inside : start ≤ source.length) :
    Reads source start (remaining : Reader Item Error (List Item)) post ↔
      post (source.drop start) start := by
  simp only [Reads, remaining, if_pos inside]

theorem reads_slice_iff {first : Nat} {post : List Item → Nat → Prop} (ordered : first ≤ start)
    (inside : start ≤ source.length) :
    Reads source start (slice first : Reader Item Error (List Item)) post ↔
      post ((source.drop first).take (start - first)) start := by
  simp only [Reads, slice, if_pos (And.intro ordered inside)]

/-- A reader that reads is not out of range and not exhausted. -/
theorem Reads.ok_or_failed {reader : Reader Item Error Value}
    (reads : Reads source start reader post) :
    (∃ value next, reader source start = .ok value next ∧ post value next) ∨
      ∃ error, reader source start = .failed error := by
  unfold Reads at reads
  cases outcome : reader source start with
  | ok value next =>
      rw [outcome] at reads
      exact Or.inl ⟨value, next, rfl, reads⟩
  | failed error => exact Or.inr ⟨error, rfl⟩
  | outOfRange =>
      rw [outcome] at reads
      exact reads.elim
  | exhausted =>
      rw [outcome] at reads
      exact reads.elim

/-! ## What is returned -/

/-- Whenever the reader goes on, the value and the position satisfy the postcondition. -/
def Returns (source : List Item) (start : Nat) (reader : Reader Item Error Value)
    (post : Value → Nat → Prop) : Prop :=
  ∀ value next, reader source start = .ok value next → post value next

theorem returns_of_ok {reader : Reader Item Error Value} {value : Value} {next : Nat}
    (runs : reader source start = .ok value next) (holds : post value next) :
    Returns source start reader post := by
  intro other position same
  rw [runs] at same
  cases same
  exact holds

theorem returns_pure {value : Value} (holds : post value start) :
    Returns source start (pure value : Reader Item Error Value) post :=
  returns_of_ok rfl holds

theorem returns_fail (error : Nat → Error) :
    Returns source start (fail error : Reader Item Error Value) post := by
  intro value next returns
  cases returns

theorem returns_stuck : Returns source start (stuck : Reader Item Error Value) post := by
  intro value next returns
  cases returns

theorem returns_any {reader : Reader Item Error Value} :
    Returns source start reader fun _ _ => True :=
  fun _ _ _ => trivial

theorem Returns.bind {reader : Reader Item Error Value}
    {next : Value → Reader Item Error Other} {after : Other → Nat → Prop}
    (returns : Returns source start reader post)
    (onward : ∀ value position, post value position →
      Returns source position (next value) after) :
    Returns source start (reader >>= next) after := by
  intro value final runs
  change Reader.bind reader next source start = .ok value final at runs
  unfold Reader.bind at runs
  cases outcome : reader source start with
  | ok first middle =>
      rw [outcome] at runs
      exact onward first middle (returns first middle outcome) value final runs
  | failed error =>
      rw [outcome] at runs
      cases runs
  | outOfRange =>
      rw [outcome] at runs
      cases runs
  | exhausted =>
      rw [outcome] at runs
      cases runs

section Steps

variable {Symbol Result : Type} {text : List Symbol} {after : Result → Nat → Prop}

theorem returns_position {next : Nat → Reader Symbol Error Result}
    (returns : Returns text start (next start) after) :
    Returns text start ((position : Reader Symbol Error Nat) >>= next) after :=
  returns

theorem returns_sourceLength {next : Nat → Reader Symbol Error Result}
    (returns : Returns text start (next text.length) after) :
    Returns text start ((sourceLength : Reader Symbol Error Nat) >>= next) after :=
  returns

theorem returns_current {next : Option Symbol → Reader Symbol Error Result}
    (returns : Returns text start (next text[start]?) after) :
    Returns text start ((current : Reader Symbol Error (Option Symbol)) >>= next) after :=
  returns

theorem returns_advance {count : Nat} {next : Unit → Reader Symbol Error Result}
    (returns : Returns text (start + count) (next ()) after) :
    Returns text start ((advance count : Reader Symbol Error Unit) >>= next) after :=
  returns

end Steps

theorem returns_remaining :
    Returns source start (remaining : Reader Item Error (List Item)) fun rest next =>
      next = start ∧ rest = source.drop start := by
  intro rest next runs
  unfold remaining at runs
  split at runs
  case isTrue =>
      cases runs
      exact ⟨rfl, rfl⟩
  case isFalse => cases runs

theorem returns_slice {first : Nat} :
    Returns source start (slice first : Reader Item Error (List Item)) fun text next =>
      next = start ∧ start ≤ source.length ∧
        text = (source.drop first).take (start - first) := by
  intro text next runs
  unfold slice at runs
  split at runs
  case isTrue bounds =>
      cases runs
      exact ⟨rfl, bounds.2, rfl⟩
  case isFalse => cases runs

/-! ## Partial correctness -/

/-- The reader goes on, unless its fuel runs out, and the value and the position satisfy the
postcondition. -/
def Accepts (source : List Item) (position : Nat) (reader : Reader Item Error Value)
    (post : Value → Nat → Prop) : Prop :=
  match reader source position with
  | .ok value next => post value next
  | .exhausted => True
  | .failed _ | .outOfRange => False

/-- The rule for readers that go on whatever the source is. -/
theorem accepts_iff_of_ok {reader : Reader Item Error Value} {value : Value} {next : Nat}
    (returns : reader source start = .ok value next) :
    Accepts source start reader post ↔ post value next := by
  rw [Accepts, returns]

theorem accepts_pure {value : Value} (holds : post value start) :
    Accepts source start (pure value : Reader Item Error Value) post :=
  holds

theorem accepts_advance {count : Nat} {post : Unit → Nat → Prop} (holds : post () (start + count)) :
    Accepts source start (advance count : Reader Item Error Unit) post :=
  holds

theorem accepts_stuck : Accepts source start (stuck : Reader Item Error Value) post :=
  trivial

theorem accepts_bind_iff (reader : Reader Item Error Value)
    (next : Value → Reader Item Error Other) {after : Other → Nat → Prop} :
    Accepts source start (reader >>= next) after ↔
      Accepts source start reader fun value position =>
        Accepts source position (next value) after := by
  change (match Reader.bind reader next source start with
    | .ok value next => after value next
    | .exhausted => True
    | .failed _ | .outOfRange => False) ↔ _
  unfold Reader.bind Accepts
  cases reader source start with
  | ok value position => rfl
  | failed error => rfl
  | outOfRange => rfl
  | exhausted => rfl

theorem Accepts.mono {reader : Reader Item Error Value} {weaker : Value → Nat → Prop}
    (accepts : Accepts source start reader post)
    (implies : ∀ value next, post value next → weaker value next) :
    Accepts source start reader weaker := by
  unfold Accepts at *
  cases outcome : reader source start with
  | ok value next =>
      rw [outcome] at accepts
      exact implies value next accepts
  | exhausted => trivial
  | failed error =>
      rw [outcome] at accepts
      exact accepts
  | outOfRange =>
      rw [outcome] at accepts
      exact accepts

theorem Accepts.bind {reader : Reader Item Error Value}
    {next : Value → Reader Item Error Other} {after : Other → Nat → Prop}
    (accepts : Accepts source start reader post)
    (onward : ∀ value position, post value position →
      Accepts source position (next value) after) :
    Accepts source start (reader >>= next) after :=
  (accepts_bind_iff reader next).mpr (accepts.mono onward)

/-- A step that goes on whatever the source is. -/
theorem accepts_bind_of_ok {reader : Reader Item Error Value}
    {next : Value → Reader Item Error Other} {after : Other → Nat → Prop} {value : Value}
    {position : Nat} (returns : reader source start = .ok value position)
    (onward : Accepts source position (next value) after) :
    Accepts source start (reader >>= next) after :=
  (accepts_bind_iff reader next).mpr ((accepts_iff_of_ok returns).mpr onward)

/-- A reader that goes on unless its fuel runs out, and whose fuel suffices. -/
theorem Accepts.ok_of_reads {reader : Reader Item Error Value} {other : Value → Nat → Prop}
    (accepts : Accepts source start reader post) (reads : Reads source start reader other) :
    ∃ value next, reader source start = .ok value next ∧ post value next := by
  unfold Accepts at accepts
  rcases reads.ok_or_failed with ⟨value, next, returns, -⟩ | ⟨error, fails⟩
  · rw [returns] at accepts
    exact ⟨value, next, returns, accepts⟩
  · rw [fails] at accepts
    exact accepts.elim

/-! ## Two runs -/

section TwoRuns

variable {First Second Third Fourth : Type u} {source' : List Item} {start' : Nat}
  {reader : Reader Item Error First} {reader' : Reader Item Error Second}
  {link : First → Nat → Second → Nat → Prop}

/-- Whenever the first reader goes on, so does the second one, unless its fuel runs out, and the
values and positions of both are linked. -/
def Follows (source source' : List Item) (start start' : Nat) (reader : Reader Item Error First)
    (reader' : Reader Item Error Second) (link : First → Nat → Second → Nat → Prop) : Prop :=
  ∀ value next, reader source start = .ok value next →
    Accepts source' start' reader' (link value next)

theorem follows_of_ok {first : First} {second : Second} {next next' : Nat}
    (returns : reader source start = .ok first next)
    (returns' : reader' source' start' = .ok second next') (linked : link first next second next') :
    Follows source source' start start' reader reader' link := by
  intro value position same
  rw [returns] at same
  cases same
  exact (accepts_iff_of_ok returns').mpr linked

theorem Follows.bind {onward : First → Reader Item Error Third}
    {onward' : Second → Reader Item Error Fourth} {later : Third → Nat → Fourth → Nat → Prop}
    (follows : Follows source source' start start' reader reader' link)
    (both : ∀ value next value' next', link value next value' next' →
      Follows source source' next next' (onward value) (onward' value') later) :
    Follows source source' start start' (reader >>= onward) (reader' >>= onward') later := by
  intro value final returns
  change Reader.bind reader onward source start = .ok value final at returns
  unfold Reader.bind at returns
  cases outcome : reader source start with
  | ok first next =>
      rw [outcome] at returns
      refine (follows first next outcome).bind ?_
      intro second next' linked
      exact both first next second next' linked value final returns
  | failed error =>
      rw [outcome] at returns
      cases returns
  | outOfRange =>
      rw [outcome] at returns
      cases returns
  | exhausted =>
      rw [outcome] at returns
      cases returns

/-- A step of both runs whose outcomes are known. -/
theorem follows_bind_of_ok {onward : First → Reader Item Error Third}
    {onward' : Second → Reader Item Error Fourth} {later : Third → Nat → Fourth → Nat → Prop}
    {first : First} {second : Second} {next next' : Nat}
    (returns : reader source start = .ok first next)
    (returns' : reader' source' start' = .ok second next')
    (follows : Follows source source' next next' (onward first) (onward' second) later) :
    Follows source source' start start' (reader >>= onward) (reader' >>= onward') later := by
  have step : Follows source source' start start' reader reader'
      fun value position value' position' =>
        value = first ∧ position = next ∧ value' = second ∧ position' = next' :=
    follows_of_ok returns returns' ⟨rfl, rfl, rfl, rfl⟩
  refine step.bind ?_
  rintro _ _ _ _ ⟨rfl, rfl, rfl, rfl⟩
  exact follows

theorem Follows.mono {later : First → Nat → Second → Nat → Prop}
    (follows : Follows source source' start start' reader reader' link)
    (implies : ∀ value next value' next', link value next value' next' →
      later value next value' next') :
    Follows source source' start start' reader reader' later := fun value next returns =>
  (follows value next returns).mono (implies value next)

theorem follows_pure {first : First} {second : Second} (linked : link first start second start') :
    Follows source source' start start' (pure first : Reader Item Error First)
      (pure second : Reader Item Error Second) link :=
  follows_of_ok rfl rfl linked

/-- Both runs take the same branch. -/
theorem follows_ite {condition : Prop} [Decidable condition]
    {otherwise : Reader Item Error First} {otherwise' : Reader Item Error Second}
    (holds : condition → Follows source source' start start' reader reader' link)
    (fails : ¬ condition → Follows source source' start start' otherwise otherwise' link) :
    Follows source source' start start' (if condition then reader else otherwise)
      (if condition then reader' else otherwise') link := by
  split
  next isTrue => exact holds isTrue
  next isFalse => exact fails isFalse

/-- Nothing has to follow a failure. -/
theorem follows_fail (error : Nat → Error) :
    Follows source source' start start' (fail error : Reader Item Error First) reader' link := by
  intro value next returns
  cases returns

theorem stuck_follows :
    Follows source source' start start' (stuck : Reader Item Error First) reader' link := by
  intro value next returns
  cases returns

theorem follows_stuck :
    Follows source source' start start' reader (stuck : Reader Item Error Second) link :=
  fun _ _ _ => accepts_stuck

end TwoRuns

end Reader

end GitScale.Foundation
