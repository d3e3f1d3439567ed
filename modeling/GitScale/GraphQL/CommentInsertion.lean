import GitScale.GraphQL.Comments

/-!
# Inserted comments

`ParseQuery` on two queries with the same tokens, and on a query and the same query with one more
comment.  Outside the parts that `skipBalanced` passes over, a comment may have any text.
-/

namespace GitScale.GraphQL

open Foundation Go Reader

section Two

variable {cut : Bool} {source source' : Text} {position position' : Nat}

/-! ## Selection sets -/

/-- A selection set is followed by the same one. -/
def SetFollows (cut : Bool) (source source' : Text) (fuel : Nat) : Prop :=
  ∀ fuel' depth position position',
    Paired cut source source' (.level depth .nothing) position position' →
      Follows source source' position position' (parseSelectionSet fuel) (parseSelectionSet fuel')
        fun sels next sels' next' =>
          SameSelections sels sels' ∧ Paired cut source source' (.level depth .nothing) next next'

def LoopFollows (cut : Bool) (source source' : Text) (fuel : Nat) : Prop :=
  ∀ fuel' depth out out' position position', SameSelections out out' →
    Paired cut source source' (.level (depth + 1) .nothing) position position' →
      Follows source source' position position' (parseSelections fuel out)
        (parseSelections fuel' out') fun sels next sels' next' =>
          SameSelections sels sels' ∧ Paired cut source source' (.level depth .nothing) next next'

def FieldFollows (cut : Bool) (source source' : Text) (fuel : Nat) : Prop :=
  ∀ fuel' depth position position',
    Paired cut source source' (.level (depth + 1) .nothing) position position' →
      Follows source source' position position' (parseField fuel) (parseField fuel')
        fun field next field' next' =>
          SameField field field' ∧
            Paired cut source source' (.level (depth + 1) .nothing) next next'

theorem setFollows_succ {fuel : Nat} (loop : LoopFollows cut source source' fuel) :
    SetFollows cut source source' (fuel + 1) := by
  intro fuel' depth position position' paired
  cases fuel' with
  | zero => exact follows_stuck
  | succ fuel' =>
      unfold parseSelectionSet
      have opening : Follows source source' _ _ _ _ _ :=
        follows_expect (show isSingle (byte '\x7b') = true from rfl) rfl paired
      refine opening.bind ?_
      intro _ start _ start' inner
      exact loop fuel' depth [] [] start start' .nil inner

theorem fieldFollows_succ {fuel : Nat} (set : SetFollows cut source source' fuel) :
    FieldFollows cut source source' (fuel + 1) := by
  intro fuel' depth position position' paired
  cases fuel' with
  | zero => exact follows_stuck
  | succ fuel' =>
      unfold parseField
      refine (follows_parseFieldName paired).bind ?_
      rintro _ _ names _ ⟨rfl, settled⟩
      refine (follows_parseOptionalArgs settled).bind ?_
      rintro args _ args' _ ⟨sameArgs, paired⟩
      refine (follows_skipWS paired).bind ?_
      intro _ _ _ _ settled
      refine follows_bind_of_ok rfl rfl ?_
      refine (follows_parseDirectives _ _ [] settled).bind ?_
      rintro _ _ directives _ ⟨rfl, settled⟩
      refine (follows_peek settled).bind ?_
      rintro _ start here start' ⟨rfl, -, rfl, rfl⟩
      have nested : Follows source source' start start'
          (if here = byte '\x7b' then parseSelectionSet fuel else pure [])
          (if here = byte '\x7b' then parseSelectionSet fuel' else pure [])
          fun sels next sels' next' => SameSelections sels sels' ∧
            Paired cut source source' (.level (depth + 1) .nothing) next next' := by
        refine follows_ite (fun _ => ?_) fun _ => follows_pure ⟨.nil, settled.paired⟩
        exact set fuel' (depth + 1) start start' settled.paired
      refine nested.bind ?_
      rintro sels _ sels' _ ⟨sameSels, paired⟩
      exact follows_pure ⟨.mk sameArgs sameSels, paired⟩

theorem loopFollows_succ {fuel : Nat} (set : SetFollows cut source source' fuel)
    (loop : LoopFollows cut source source' fuel) (field : FieldFollows cut source source' fuel) :
    LoopFollows cut source source' (fuel + 1) := by
  intro fuel' depth out out' position position' same paired
  cases fuel' with
  | zero => exact follows_stuck
  | succ fuel' =>
      unfold parseSelections
      refine (follows_skipWS paired).bind ?_
      intro _ _ _ _ settled
      refine (follows_current settled).bind ?_
      rintro _ start here _ ⟨rfl, isHere, rfl, rfl⟩
      cases here with
      | none => exact follows_fail _
      | some value =>
          refine follows_ite (fun isClosing => ?_) fun _ => ?_
          · rw [isClosing] at isHere
            refine follows_bind_of_ok rfl rfl ?_
            exact follows_pure ⟨same, settled.passed isHere.symm rfl rfl⟩
          have more : source[start]? ≠ none := by
            rw [← isHere]
            exact Option.some_ne_none value
          refine (follows_atSpread settled more).bind ?_
          rintro _ _ spread _ ⟨rfl, rfl, rfl, dots⟩
          refine follows_ite (fun isSpread => ?_) fun _ => ?_
          · refine follows_bind_of_ok rfl rfl ?_
            have afterDots : Paired cut source source' (.level (depth + 1) .nothing) _ _ :=
              dots isSpread
            refine (follows_skipWS afterDots).bind ?_
            intro _ _ _ _ settled
            refine (follows_readIdent (steady_level _) settled.paired).bind ?_
            rintro _ _ ident _ ⟨rfl, paired⟩
            refine follows_ite (fun _ => ?_) fun _ => ?_
            · refine (follows_readIdent (steady_level _) paired).bind ?_
              rintro _ _ typeName _ ⟨rfl, paired⟩
              refine (follows_skipWS paired).bind ?_
              intro _ _ _ _ settled
              refine follows_bind_of_ok rfl rfl ?_
              refine (follows_parseDirectives _ _ [] settled).bind ?_
              rintro _ _ _ _ ⟨-, settled⟩
              refine (set fuel' (depth + 1) _ _ settled.paired).bind ?_
              rintro sels _ sels' _ ⟨sameSels, paired⟩
              exact loop fuel' depth _ _ _ _
                (sameSelections_append same (.inlineFragment typeName sameSels)) paired
            · exact loop fuel' depth _ _ _ _
                (sameSelections_append same (.fragmentSpread ident)) paired
          · refine (field fuel' depth _ _ settled.paired).bind ?_
            rintro parsed _ parsed' _ ⟨sameField, paired⟩
            exact loop fuel' depth _ _ _ _ (sameSelections_append same (.field sameField)) paired

theorem selections_follow (fuel : Nat) :
    SetFollows cut source source' fuel ∧ LoopFollows cut source source' fuel ∧
      FieldFollows cut source source' fuel := by
  induction fuel with
  | zero =>
      refine ⟨?_, ?_, ?_⟩
      · intro fuel' depth position position' paired
        exact stuck_follows
      · intro fuel' depth out out' position position' same paired
        exact stuck_follows
      · intro fuel' depth position position' paired
        exact stuck_follows
  | succ fuel inductionHypothesis =>
      obtain ⟨set, loop, field⟩ := inductionHypothesis
      exact ⟨setFollows_succ loop, loopFollows_succ set loop field, fieldFollows_succ set⟩

theorem follows_parseSelectionSet (fuel fuel' : Nat) {depth : Nat}
    (paired : Paired cut source source' (.level depth .nothing) position position') :
    Follows source source' position position' (parseSelectionSet fuel) (parseSelectionSet fuel')
      fun sels next sels' next' =>
        SameSelections sels sels' ∧ Paired cut source source' (.level depth .nothing) next next' :=
  (selections_follow fuel).1 fuel' depth position position' paired

/-! ## Definitions -/

theorem follows_parseOperation (kind : OperationKind)
    (paired : Paired cut source source' (.level 0 .nothing) position position') :
    Follows source source' position position' (parseOperation kind) (parseOperation kind)
      fun operation next operation' next' => SameOperation operation operation' ∧
        Paired cut source source' (.level 0 .nothing) next next' := by
  unfold parseOperation
  refine (follows_readIdent (steady_level 0) paired).bind ?_
  rintro _ _ name _ ⟨rfl, paired⟩
  refine (follows_skipWS paired).bind ?_
  intro _ _ _ _ settled
  have skips : Follows source source' _ _ _ _ _ :=
    follows_skipParenthesised settled (fun _ => Place.next_parenthesis (Or.inl rfl))
      fun _ => settled.paired
  refine skips.bind ?_
  intro _ _ _ _ paired
  refine (follows_skipWS paired).bind ?_
  intro _ _ _ _ settled
  refine follows_bind_of_ok rfl rfl ?_
  refine (follows_parseDirectives _ _ [] settled).bind ?_
  rintro _ _ _ _ ⟨-, settled⟩
  refine (follows_parseSelectionSet _ _ settled.paired).bind ?_
  rintro sels _ sels' _ ⟨sameSels, paired⟩
  exact follows_pure ⟨⟨rfl, rfl, sameSels⟩, paired⟩

theorem follows_parseFragment
    (paired : Paired cut source source' (.level 0 .nothing) position position') :
    Follows source source' position position' parseFragment parseFragment
      fun fragment next fragment' next' => SameFragment fragment fragment' ∧
        Paired cut source source' (.level 0 .nothing) next next' := by
  unfold parseFragment
  refine (follows_readIdent (steady_level 0) paired).bind ?_
  rintro _ _ name _ ⟨rfl, paired⟩
  refine follows_ite (fun _ => follows_fail _) fun _ => ?_
  refine (follows_readIdent (steady_level 0) paired).bind ?_
  rintro _ _ on _ ⟨rfl, paired⟩
  refine follows_ite (fun _ => follows_fail _) fun _ => ?_
  refine (follows_readIdent (steady_level 0) paired).bind ?_
  rintro _ _ onType _ ⟨rfl, paired⟩
  refine follows_ite (fun _ => follows_fail _) fun _ => ?_
  refine follows_bind_of_ok rfl rfl ?_
  refine (follows_parseSelectionSet _ _ paired).bind ?_
  rintro sels _ sels' _ ⟨sameSels, paired⟩
  exact follows_pure ⟨⟨rfl, rfl, sameSels⟩, paired⟩

theorem SameDocument.isEmpty_eq {document document' : Document}
    (same : SameDocument document document') :
    document'.operations.isEmpty = document.operations.isEmpty := by
  rw [Bool.eq_iff_iff, List.isEmpty_iff_length_eq_zero, List.isEmpty_iff_length_eq_zero,
    same.operations.length_eq]

/-- A document is followed by the same one, and both runs get to the end. -/
theorem follows_parseDefinitions (fuel fuel' : Nat) {document document' : Document}
    (same : SameDocument document document')
    (settled : Settled cut source source' (.level 0 .nothing) position position') :
    Follows source source' position position' (parseDefinitions fuel document)
      (parseDefinitions fuel' document') fun parsed _ parsed' _ =>
        SameDocument parsed parsed' ∧ cut = false := by
  induction fuel generalizing fuel' document document' position position' with
  | zero => exact stuck_follows
  | succ fuel inductionHypothesis =>
      cases fuel' with
      | zero => exact follows_stuck
      | succ fuel' =>
          unfold parseDefinitions
          refine (follows_current settled).bind ?_
          rintro _ _ here _ ⟨rfl, isHere, rfl, rfl⟩
          cases here with
          | none =>
              dsimp only
              rw [same.isEmpty_eq]
              refine follows_ite (fun _ => follows_fail _) fun _ => follows_pure ⟨same, ?_⟩
              exact settled.cut_eq isHere.symm
          | some value =>
              refine (follows_readIdent (steady_level 0) settled.paired).bind ?_
              rintro _ _ keyword _ ⟨rfl, paired⟩
              refine follows_ite (fun _ => ?_) fun _ => ?_
              · refine (follows_parseOperation _ paired).bind ?_
                rintro operation _ operation' _ ⟨sameOperation, paired⟩
                refine (follows_skipWS paired).bind ?_
                intro _ _ _ _ settled
                exact inductionHypothesis fuel' ⟨List.rel_append same.operations
                  (.cons sameOperation .nil), same.fragments⟩ settled
              refine follows_ite (fun _ => follows_fail _) fun _ => ?_
              refine follows_ite (fun _ => ?_) fun _ => ?_
              · refine (follows_parseFragment paired).bind ?_
                rintro fragment _ fragment' _ ⟨sameFragment, paired⟩
                refine (follows_skipWS paired).bind ?_
                intro _ _ _ _ settled
                have entries := forall₂_setEntry fragment.name same.fragments sameFragment
                rw [sameFragment.1] at entries ⊢
                exact inductionHypothesis fuel' ⟨same.operations, entries⟩ settled
              refine follows_ite (fun _ => follows_fail _) fun _ => follows_fail _

theorem follows_parseDocument
    (paired : Paired cut source source' (.level 0 .nothing) position position') :
    Follows source source' position position' parseDocument parseDocument
      fun document _ document' _ => SameDocument document document' ∧ cut = false := by
  unfold parseDocument
  refine (follows_skipWS paired).bind ?_
  intro _ _ _ _ settled
  refine (follows_peek settled).bind ?_
  rintro _ _ here _ ⟨rfl, -, rfl, rfl⟩
  refine follows_bind_of_ok rfl rfl ?_
  refine follows_ite (fun _ => ?_) fun _ => ?_
  · refine (follows_parseSelectionSet _ _ settled.paired).bind ?_
    rintro sels _ sels' _ ⟨sameSels, paired⟩
    refine (follows_skipWS paired).bind ?_
    intro _ _ _ _ settled
    refine (follows_current settled).bind ?_
    rintro _ _ after _ ⟨rfl, isAfter, rfl, rfl⟩
    cases after with
    | none =>
        refine follows_pure ⟨⟨.cons ⟨rfl, rfl, sameSels⟩ .nil, .nil⟩, ?_⟩
        exact settled.cut_eq isAfter.symm
    | some value => exact follows_fail _
  · exact follows_parseDefinitions _ _ ⟨.nil, .nil⟩ settled

end Two

/-! ## One more comment -/

/-- The query with a comment between some of its elements and the others. -/
def withComment (left : List Element) (text : Text) (right : List Element) : Text :=
  elementsText left ++ (byte '#' :: (text ++ 10 :: elementsText right))

/-- The query with the comment is accepted and is the same document. -/
def CommentIgnored (left : List Element) (text : Text) (right : List Element)
    (document : Document) : Prop :=
  ∃ document' next, parseQuery (withComment left text right) = .ok document' next ∧
    SameDocument document document'

section Insertion

variable {left right elements : List Element} {text : Text} {place : Place} {cut : Bool}

theorem elementsText_comment (oneLine : text.all (!isLineEnd ·) = true) :
    elementsText (left ++ .comment text oneLine .newline :: right) =
      withComment left text right := by
  rw [elementsText_append, elementsText_cons, withComment, Element.text, LineEnd.text,
    List.cons_append, List.append_assoc]
  rfl

theorem tokensOf_comment (oneLine : text.all (!isLineEnd ·) = true) :
    tokensOf (left ++ .comment text oneLine .newline :: right) = tokensOf (left ++ right) := by
  unfold tokensOf
  rw [List.filter_append, List.filter_append, List.filter_cons_of_neg (by simp [Element.isIgnored])]

/-- A comment may follow whatever some element may follow. -/
theorem Element.apart_comment {element next : Element} (apart : element.apart next = true)
    (oneLine : text.all (!isLineEnd ·) = true) :
    element.apart (.comment text oneLine .newline) = true := by
  cases element with
  | comment _ _ ending =>
      cases ending with
      | endOfText => cases apart
      | newline | carriageReturn | both => rfl
  | string body isBody => cases body <;> rfl
  | blank | name | number | dots | block | single => rfl

theorem apart_comment (apart : Apart (left ++ right)) (more : right ≠ [])
    (oneLine : text.all (!isLineEnd ·) = true) :
    Apart (left ++ .comment text oneLine .newline :: right) := by
  obtain ⟨apartLeft, apartRight, between⟩ := List.isChain_append.mp apart
  obtain ⟨next, others, rfl⟩ := List.exists_cons_of_ne_nil more
  refine List.isChain_append.mpr ⟨apartLeft, List.isChain_cons_cons.mpr ⟨rfl, apartRight⟩, ?_⟩
  rintro element last _ ⟨⟩
  exact Element.apart_comment (between element last next rfl) oneLine

theorem Place.agreesAll_append (place : Place) (left right : List Element) :
    place.AgreesAll (left ++ right) ↔
      place.AgreesAll left ∧ (place.after left).AgreesAll right := by
  induction left generalizing place with
  | nil => exact (and_iff_right trivial).symm
  | cons element left inductionHypothesis =>
      have later := inductionHypothesis (place.next element)
      exact (and_congr_right fun _ => later).trans and_assoc.symm

/-- The elements before a comment as in `Place.Overflows` are read as GraphQL does. -/
theorem Place.agreesUntil_overflow (agrees : place.AgreesAll left)
    (overflows : (place.after left).Overflows elements) :
    place.AgreesUntil true (left ++ elements) := by
  induction left generalizing place with
  | nil =>
      cases elements with
      | nil => cases place <;> cases overflows
      | cons element rest => exact Or.inl ⟨rfl, overflows⟩
  | cons element left inductionHypothesis =>
      exact Or.inr ⟨agrees.1, inductionHypothesis agrees.2 overflows⟩

theorem facing_start (apart : Apart elements)
    (agrees : (Place.level 0 .nothing).AgreesUntil cut elements) :
    Facing cut (elementsText elements) 0 (.level 0 .nothing) elements :=
  ⟨⟨⟨Nat.zero_le _, rfl⟩, apart⟩, rfl, agrees⟩

/-- The parts that are skipped are in brackets. -/
def Place.Bracketed : Place → Prop
  | .skipped opening closing _ outer => IsBrackets opening closing ∧ outer.Bracketed
  | _ => True

theorem Place.Bracketed.next (bracketed : place.Bracketed) (element : Element) :
    (place.next element).Bracketed := by
  cases element with
  | single value alone =>
      cases place with
      | level depth mark =>
          simp only [Place.next, levelNext]
          split
          next => trivial
          next =>
            split
            next =>
              split
              next => exact ⟨isBrackets_parentheses, trivial⟩
              next => trivial
            next =>
              split
              next => trivial
              next => split <;> trivial
      | arguments depth =>
          simp only [Place.next, argumentsNext]
          split
          next => trivial
          next =>
            split
            next => exact ⟨isBrackets_list, trivial⟩
            next =>
              split
              next => exact ⟨isBrackets_object, trivial⟩
              next => trivial
      | skipped opening closing count outer =>
          simp only [Place.next, skippedNext]
          split
          next => exact bracketed
          next =>
            split
            next =>
              split
              next => exact bracketed.2
              next => exact bracketed
            next => exact bracketed
  | blank | comment | name | number | dots | string | block =>
      cases place with
      | level | arguments => trivial
      | skipped => exact bracketed

theorem Place.Bracketed.after (bracketed : place.Bracketed) (elements : List Element) :
    (place.after elements).Bracketed := by
  induction elements generalizing place with
  | nil => exact bracketed
  | cons element rest inductionHypothesis => exact inductionHypothesis (bracketed.next element)

/-- A comment that is tolerated where it stands is ignored. -/
theorem commentIgnored_of_tolerates {document : Document} {next : Nat}
    (apart : Apart (left ++ right)) (more : right ≠ [])
    (agrees : (Place.level 0 .nothing).AgreesAll (left ++ right))
    (accepted : parseQuery (elementsText (left ++ right)) = .ok document next)
    (oneLine : text.all (!isLineEnd ·) = true)
    (tolerated : ((Place.level 0 .nothing).after left).tolerates text = true) :
    CommentIgnored left text right document := by
  obtain ⟨agreesLeft, agreesRight⟩ := (Place.agreesAll_append _ left right).mp agrees
  have agrees' : (Place.level 0 .nothing).AgreesAll
      (left ++ .comment text oneLine .newline :: right) := by
    refine (Place.agreesAll_append _ left _).mpr ⟨agreesLeft, ⟨by simp, tolerated⟩, ?_⟩
    rw [Place.next_of_isIgnored rfl]
    exact agreesRight
  have paired : Paired false (elementsText (left ++ right))
      (elementsText (left ++ .comment text oneLine .newline :: right)) (.level 0 .nothing) 0 0 :=
    ⟨_, _, facing_start apart ((Place.agreesUntil_end _ _).mpr agrees),
      facing_start (apart_comment apart more oneLine) ((Place.agreesUntil_end _ _).mpr agrees'),
      (tokensOf_comment oneLine).symm⟩
  have accepts := follows_parseDocument paired document next accepted
  obtain ⟨document', next', returns, same, -⟩ := accepts.ok_of_reads (reads_parseDocument _)
  rw [elementsText_comment] at returns
  exact ⟨document', next', returns, same⟩

/-- In a part that is skipped there may be too many brackets. -/
theorem exists_comment_rejected (apart : Apart (left ++ right)) (more : right ≠ [])
    (agrees : (Place.level 0 .nothing).AgreesAll (left ++ right))
    (inside : ((Place.level 0 .nothing).after left).isSkipped = true) :
    ∃ text : Text, text.all (!isLineEnd ·) = true ∧
      ∀ document next, parseQuery (withComment left text right) ≠ .ok document next := by
  have starts : (Place.level 0 .nothing).Bracketed := trivial
  have bracketed := starts.after left
  cases isPlace : (Place.level 0 .nothing).after left with
  | level | arguments =>
      rw [isPlace] at inside
      cases inside
  | skipped opening closing count outer =>
      rw [isPlace] at bracketed
      have table : ∀ value, isSingle value = true → (!isLineEnd value) = true :=
        forall_byte (by decide)
      have oneLine : (List.replicate (10 :: elementsText right).length opening).all (!isLineEnd ·) =
          true := by
        rw [List.all_replicate, table opening bracketed.1.opens]
        exact ite_self _
      refine ⟨_, oneLine, ?_⟩
      intro document next accepted
      obtain ⟨agreesLeft, -⟩ := (Place.agreesAll_append _ left right).mp agrees
      have overflows : ((Place.level 0 .nothing).after left).Overflows
          (.comment _ oneLine .newline :: right) := by
        rw [isPlace]
        refine ⟨fun value member => List.eq_of_mem_replicate member, ?_⟩
        rw [List.length_replicate]
        exact Nat.le_refl _
      have paired : Paired true (elementsText (left ++ .comment _ oneLine .newline :: right))
          (elementsText (left ++ right)) (.level 0 .nothing) 0 0 :=
        ⟨_, _, facing_start (apart_comment apart more oneLine)
            (Place.agreesUntil_overflow agreesLeft overflows),
          facing_start apart ((Place.agreesUntil_end _ _).mpr agrees), tokensOf_comment oneLine⟩
      rw [← elementsText_comment oneLine] at accepted
      have accepts := follows_parseDocument paired document next accepted
      obtain ⟨_, _, -, -, cuts⟩ := accepts.ok_of_reads (reads_parseDocument _)
      cases cuts

/-- Where the elements of a query are read as GraphQL does, any comment is ignored exactly
outside the parts that are skipped; inside them a comment is ignored that has no quotes and none
of the brackets around it. -/
theorem commentIgnored_iff {document : Document} {next : Nat}
    (apart : Apart (left ++ right)) (more : right ≠ [])
    (agrees : (Place.level 0 .nothing).AgreesAll (left ++ right))
    (accepted : parseQuery (elementsText (left ++ right)) = .ok document next) :
    ((∀ text : Text, text.all (!isLineEnd ·) = true → CommentIgnored left text right document) ↔
        ((Place.level 0 .nothing).after left).isSkipped = false) ∧
      ∀ text : Text, text.all (!isLineEnd ·) = true →
        ((Place.level 0 .nothing).after left).tolerates text = true →
          CommentIgnored left text right document := by
  refine ⟨⟨?_, ?_⟩, fun text oneLine => commentIgnored_of_tolerates apart more agrees accepted oneLine⟩
  · intro ignored
    cases inside : ((Place.level 0 .nothing).after left).isSkipped with
    | false => rfl
    | true =>
        obtain ⟨text, oneLine, rejected⟩ := exists_comment_rejected apart more agrees inside
        obtain ⟨document', next', returns, -⟩ := ignored text oneLine
        exact absurd returns (rejected document' next')
  · intro outside text oneLine
    refine commentIgnored_of_tolerates apart more agrees accepted oneLine ?_
    cases isPlace : (Place.level 0 .nothing).after left with
    | level | arguments => rfl
    | skipped =>
        rw [isPlace] at outside
        cases outside

end Insertion

/-! A query with variable definitions, before and after their opening parenthesis. -/

def beforeVariables : List Element := [.name ⟨utf8 "query", rfl⟩, .single (byte '(') rfl]

def fromVariables : List Element :=
  [.single (byte '$') rfl, .name ⟨utf8 "a", rfl⟩, .single (byte ':') rfl, .name ⟨utf8 "Int", rfl⟩,
    .single (byte ')') rfl, .single (byte '\x7b') rfl, .name ⟨utf8 "f", rfl⟩,
    .single (byte '\x7d') rfl]

/-- The document of the query. -/
def oneField : Document := ⟨[⟨.query, "", [.field (.mk "f" "" [] [] [])]⟩], []⟩

theorem apart_variables : Apart (beforeVariables ++ fromVariables) := by
  simp only [Apart, beforeVariables, fromVariables, List.cons_append, List.nil_append,
    List.isChain_cons_cons, List.IsChain.singleton]
  decide

theorem parseQuery_variables :
    parseQuery (elementsText (beforeVariables ++ fromVariables)) = .ok oneField 16 := by
  decide +kernel

theorem commentIgnored_variables :
    (¬ ∀ text : Text, text.all (!isLineEnd ·) = true →
        CommentIgnored beforeVariables text fromVariables oneField) ∧
      CommentIgnored beforeVariables (utf8 " the number of rows") fromVariables oneField := by
  have agrees : (Place.level 0 .nothing).AgreesAll (beforeVariables ++ fromVariables) :=
    ⟨trivial, trivial, trivial, trivial, trivial, trivial, trivial, trivial, trivial, trivial, trivial⟩
  have both := commentIgnored_iff apart_variables (List.cons_ne_nil _ _) agrees parseQuery_variables
  refine ⟨?_, both.2 _ (by decide) (by decide)⟩
  intro ignored
  have outside := both.1.mp ignored
  exact absurd outside (by decide)

theorem comment_not_ignored :
    parseQuery (utf8 "query($a:Int)\x7bf\x7d") = .ok oneField 16 ∧
      parseQuery (utf8 "query(#(\n$a:Int)\x7bf\x7d") =
        .failed "cost: parse error: unbalanced '('…')' at offset 19" ∧
      ¬ ∀ (left right : List Element) (text : Text) (document : Document) (next : Nat),
        Apart (left ++ right) → tokensOf left ≠ [] → tokensOf right ≠ [] →
          text.all (!isLineEnd ·) = true →
            parseQuery (elementsText (left ++ right)) = .ok document next →
              CommentIgnored left text right document := by
  refine ⟨by decide +kernel, by decide +kernel, ?_⟩
  intro ignored
  obtain ⟨document, next, returns, -⟩ := ignored beforeVariables fromVariables (utf8 "(") oneField 16
    apart_variables (List.cons_ne_nil _ _) (List.cons_ne_nil _ _) (by decide)
    parseQuery_variables
  have fails : parseQuery (withComment beforeVariables (utf8 "(") fromVariables) =
      .failed "cost: parse error: unbalanced '('…')' at offset 19" := by decide +kernel
  rw [fails] at returns
  cases returns

end GitScale.GraphQL
