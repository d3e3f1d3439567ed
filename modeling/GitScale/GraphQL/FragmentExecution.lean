import GitScale.GraphQL.Cost
import GitScale.GraphQL.QueryRoot
import Mathlib.Data.List.Forall2

/-!
# Execution and fragments

At the root of an operation `Execute` goes into fragments, one level deep; the projections of the
query resolvers look at the fields that stand directly in a selection set.  The data is that of
the operation without fragments exactly when no fragment hides a field from them.
-/

namespace GitScale.GraphQL

open Go
open Identity (Principal)

/-! ## Operations without fragments -/

/-- `Flattens document sels fields`: the selections with every fragment, here and in nested
selection sets, replaced by the fields it contains.  A spread of an unknown fragment contains
none. -/
inductive Flattens (document : Document) : List Selection → List Field → Prop where
  | nil : Flattens document [] []
  | field {name aliasName : String} {args : List (String × ArgValue)} {directives : List String}
      {nested rest : List Selection} {inner fields : List Field}
      (within : Flattens document nested inner) (others : Flattens document rest fields) :
      Flattens document (.field (.mk name aliasName args directives nested) :: rest)
        (.mk name aliasName args directives (inner.map .field) :: fields)
  | inline {onType : String} {sels rest : List Selection} {inner fields : List Field}
      (within : Flattens document sels inner) (others : Flattens document rest fields) :
      Flattens document (.inlineFragment onType sels :: rest) (inner ++ fields)
  | spread {name : String} {fragment : Fragment} {rest : List Selection}
      {inner fields : List Field} (defined : document.fragments.lookup name = some fragment)
      (within : Flattens document fragment.sels inner)
      (others : Flattens document rest fields) :
      Flattens document (.fragmentSpread name :: rest) (inner ++ fields)
  | unknown {name : String} {rest : List Selection} {fields : List Field}
      (absent : document.fragments.lookup name = none)
      (others : Flattens document rest fields) :
      Flattens document (.fragmentSpread name :: rest) fields

/-- The operation with other selections, all of them fields. -/
def Operation.flat (operation : Operation) (fields : List Field) : Operation :=
  { operation with sels := fields.map .field }

theorem rootFields_flat (document : Document) (operation : Operation) (fields : List Field) :
    rootFields document (operation.flat fields) = fields := by
  unfold rootFields Operation.flat
  induction fields with
  | nil => rfl
  | cons field rest inductionHypothesis =>
      rw [List.map_cons, List.flatMap_cons, inductionHypothesis]
      rfl

section Flattening

variable {document : Document}

/-- The document and the selections determine the fields. -/
theorem Flattens.unique {sels : List Selection} {fields others : List Field}
    (first : Flattens document sels fields) (second : Flattens document sels others) :
    fields = others := by
  induction first generalizing others with
  | nil =>
      cases second
      rfl
  | field within rest nestedHypothesis inductionHypothesis =>
      cases second with
      | field within rest => rw [nestedHypothesis within, inductionHypothesis rest]
  | inline within rest nestedHypothesis inductionHypothesis =>
      cases second with
      | inline within rest => rw [nestedHypothesis within, inductionHypothesis rest]
  | spread defined within rest nestedHypothesis inductionHypothesis =>
      cases second with
      | spread found within rest =>
          rw [defined] at found
          cases found
          rw [nestedHypothesis within, inductionHypothesis rest]
      | unknown absent rest =>
          rw [defined] at absent
          cases absent
  | unknown absent rest inductionHypothesis =>
      cases second with
      | spread found within rest =>
          rw [absent] at found
          cases found
      | unknown _ rest => exact inductionHypothesis rest

/-- The field in the operation without fragments. -/
structure FlatOf (document : Document) (field flat : Field) : Prop where
  name : flat.name = field.name
  aliasName : flat.aliasName = field.aliasName
  args : flat.args = field.args
  sels : ∃ inner, Flattens document field.sels inner ∧ flat.sels = inner.map .field

theorem FlatOf.keyOf_eq {field flat : Field} (flatOf : FlatOf document field flat) :
    keyOf flat = keyOf field := by
  unfold keyOf
  rw [flatOf.name, flatOf.aliasName]

def Selection.isFragment : Selection → Bool
  | .field _ => false
  | _ => true

/-- The fragments that stand in the selections contain no field. -/
def FragmentsEmpty (document : Document) (sels : List Selection) : Prop :=
  ∀ nested ∈ sels, nested.isFragment = true → Flattens document [nested] []

/-- The selections of a fragment. -/
def contents (document : Document) : Selection → List Selection
  | .field _ => []
  | .inlineFragment _ sels => sels
  | .fragmentSpread name => ((document.fragments.lookup name).map Fragment.sels).getD []

theorem fragmentsEmpty_cons (selection : Selection) (rest : List Selection) :
    FragmentsEmpty document (selection :: rest) ↔
      (selection.isFragment = true → Flattens document [selection] []) ∧
        FragmentsEmpty document rest := by
  simp [FragmentsEmpty]

/-- Of the fields without fragments, those that stand directly in a selection set. -/
structure Direct (document : Document) (sels : List Selection) (fields reached : List Field) :
    Prop where
  flat : List.Forall₂ (FlatOf document) (fieldsOf sels) reached
  sublist : reached.Sublist fields
  all : reached = fields ↔ FragmentsEmpty document sels

/-- Fields from a fragment stand before the others. -/
theorem append_eq_right_iff {reached inner fields : List Field}
    (sublist : reached.Sublist fields) :
    reached = inner ++ fields ↔ inner = [] ∧ reached = fields := by
  constructor
  · intro same
    have shorter := sublist.length_le
    rw [same, List.length_append] at shorter
    have empty : inner = [] := List.eq_nil_of_length_eq_zero (by omega)
    rw [empty] at same
    exact ⟨empty, same⟩
  · rintro ⟨rfl, rfl⟩
    rfl

/-- A fragment adds nothing to the direct fields. -/
theorem Direct.fragment {selection : Selection} {rest : List Selection}
    {inner fields reached : List Field} (isFragment : selection.isFragment = true)
    (alone : Flattens document [selection] inner)
    (direct : Direct document rest fields reached) :
    Direct document (selection :: rest) (inner ++ fields) reached := by
  have skipped : fieldsOf (selection :: rest) = fieldsOf rest := by
    cases selection with
    | field field => cases isFragment
    | fragmentSpread name => rfl
    | inlineFragment onType sels => rfl
  refine ⟨skipped ▸ direct.flat, direct.sublist.trans (List.sublist_append_right _ _), ?_⟩
  rw [append_eq_right_iff direct.sublist, fragmentsEmpty_cons, direct.all]
  constructor
  · rintro ⟨rfl, others⟩
    exact ⟨fun _ => alone, others⟩
  · rintro ⟨empty, others⟩
    exact ⟨alone.unique (empty isFragment), others⟩

theorem Flattens.direct {sels : List Selection} {fields : List Field}
    (flattens : Flattens document sels fields) :
    ∃ reached, Direct document sels fields reached := by
  induction flattens with
  | nil => exact ⟨[], .nil, List.Sublist.refl _, by simp [FragmentsEmpty]⟩
  | @field name aliasName args directives nested rest inner fields within others _
      inductionHypothesis =>
      obtain ⟨reached, direct⟩ := inductionHypothesis
      refine ⟨.mk name aliasName args directives (inner.map .field) :: reached, ?_, ?_, ?_⟩
      · exact .cons ⟨rfl, rfl, rfl, inner, within, rfl⟩ direct.flat
      · exact direct.sublist.cons_cons _
      · rw [fragmentsEmpty_cons, ← direct.all]
        simp [Selection.isFragment]
  | @inline onType sels rest inner fields within others _ inductionHypothesis =>
      obtain ⟨reached, direct⟩ := inductionHypothesis
      refine ⟨reached, direct.fragment rfl ?_⟩
      rw [← List.append_nil inner]
      exact .inline within .nil
  | @spread name fragment rest inner fields defined within others _ inductionHypothesis =>
      obtain ⟨reached, direct⟩ := inductionHypothesis
      refine ⟨reached, direct.fragment rfl ?_⟩
      rw [← List.append_nil inner]
      exact .spread defined within .nil
  | @unknown name rest fields absent others inductionHypothesis =>
      obtain ⟨reached, direct⟩ := inductionHypothesis
      have alone : Flattens document [.fragmentSpread name] [] := .unknown absent .nil
      exact ⟨reached, direct.fragment rfl alone⟩

/-- The fragments of an operation have no fragments with fields directly in them. -/
def RootsDirect (document : Document) (sels : List Selection) : Prop :=
  ∀ selection ∈ sels, FragmentsEmpty document (contents document selection)

/-- Of the fields without fragments, those that `Execute` dispatches. -/
structure Reached (document : Document) (sels : List Selection) (fields reached : List Field) :
    Prop where
  flat : List.Forall₂ (FlatOf document) (sels.flatMap (rootFieldsOf document)) reached
  sublist : reached.Sublist fields
  all : reached = fields ↔ RootsDirect document sels

/-- What is reached of the first selection, then of the others. -/
theorem Reached.cons {selection : Selection} {rest : List Selection}
    {inner fields here reached : List Field}
    (flat : List.Forall₂ (FlatOf document) (rootFieldsOf document selection) here)
    (sublist : here.Sublist inner)
    (all : here = inner ↔ FragmentsEmpty document (contents document selection))
    (others : Reached document rest fields reached) :
    Reached document (selection :: rest) (inner ++ fields) (here ++ reached) := by
  refine ⟨?_, sublist.append others.sublist, ?_⟩
  · rw [List.flatMap_cons]
    exact List.rel_append flat others.flat
  · have both : here ++ reached = inner ++ fields ↔ here = inner ∧ reached = fields := by
      constructor
      · intro same
        have hereShorter := sublist.length_le
        have othersShorter := others.sublist.length_le
        have lengths := congrArg List.length same
        rw [List.length_append, List.length_append] at lengths
        exact List.append_inj same (by omega)
      · rintro ⟨rfl, rfl⟩
        rfl
    rw [both, all, others.all]
    simp [RootsDirect]

theorem Flattens.roots {sels : List Selection} {fields : List Field}
    (flattens : Flattens document sels fields) :
    ∃ reached, Reached document sels fields reached := by
  induction flattens with
  | nil => exact ⟨[], .nil, List.Sublist.refl _, by simp [RootsDirect]⟩
  | @field name aliasName args directives nested rest inner fields within others _
      inductionHypothesis =>
      obtain ⟨reached, othersReached⟩ := inductionHypothesis
      have here : FlatOf document (.mk name aliasName args directives nested)
          (.mk name aliasName args directives (inner.map .field)) :=
        ⟨rfl, rfl, rfl, inner, within, rfl⟩
      have all (field : Field) : [field] = [field] ↔
          FragmentsEmpty document
            (contents document (.field (.mk name aliasName args directives nested))) := by
        simp [FragmentsEmpty, contents]
      exact ⟨_, othersReached.cons (.cons here .nil) (List.Sublist.refl _) (all _)⟩
  | inline within others _ inductionHypothesis =>
      obtain ⟨reached, othersReached⟩ := inductionHypothesis
      obtain ⟨here, direct⟩ := within.direct
      exact ⟨_, othersReached.cons direct.flat direct.sublist direct.all⟩
  | @spread name fragment rest inner fields defined within others _ inductionHypothesis =>
      obtain ⟨reached, othersReached⟩ := inductionHypothesis
      obtain ⟨here, direct⟩ := within.direct
      have flat : List.Forall₂ (FlatOf document)
          (rootFieldsOf document (.fragmentSpread name)) here := by
        simpa [rootFieldsOf, expandFragment, defined] using direct.flat
      have all : here = inner ↔
          FragmentsEmpty document (contents document (.fragmentSpread name)) := by
        simpa [contents, defined] using direct.all
      exact ⟨_, othersReached.cons flat direct.sublist all⟩
  | @unknown name rest fields absent others inductionHypothesis =>
      obtain ⟨reached, othersReached⟩ := inductionHypothesis
      have flat : List.Forall₂ (FlatOf document)
          (rootFieldsOf document (.fragmentSpread name)) [] := by
        simp [rootFieldsOf, expandFragment, absent]
      have all : ([] : List Field) = [] ↔
          FragmentsEmpty document (contents document (.fragmentSpread name)) := by
        simp [FragmentsEmpty, contents, absent]
      exact ⟨_, othersReached.cons flat (List.Sublist.refl _) all⟩

end Flattening

/-! ## What a projection finds -/

/-- Two selection sets show the same of some keys. -/
def ShowsAlike (keys : List String) (direct flat : List Selection) : Prop :=
  ∀ key ∈ keys, (selected direct key).isSome = (selected flat key).isSome

/-- An entry of a projection is there when its key is selected. -/
theorem mem_project_iff {entries : List (String × (Field → Value))}
    (distinct : (entries.map Prod.fst).Nodup) {entry : String × (Field → Value)}
    (membership : entry ∈ entries) (sels : List Selection) (value : Value) :
    (entry.1, value) ∈ (entries.filterMap fun entry =>
        (selected sels entry.1).map fun field => (entry.1, entry.2 field)) ↔
      (selected sels entry.1).map entry.2 = some value := by
  rw [List.mem_filterMap]
  constructor
  · rintro ⟨other, otherMembership, found⟩
    obtain ⟨field, isSelected, pair⟩ := Option.map_eq_some_iff.mp found
    obtain ⟨sameKey, sameValue⟩ := Prod.ext_iff.mp pair
    have same : other = entry :=
      List.inj_on_of_nodup_map distinct otherMembership membership sameKey
    subst same
    rw [isSelected]
    exact congrArg some sameValue
  · intro found
    obtain ⟨field, isSelected, sameValue⟩ := Option.map_eq_some_iff.mp found
    exact ⟨entry, membership, by rw [isSelected]; exact congrArg some (Prod.ext rfl sameValue)⟩

/-- Two projections are the same when they are at every key. -/
theorem project_eq_iff {entries : List (String × (Field → Value))}
    (distinct : (entries.map Prod.fst).Nodup) (direct flat : List Selection) :
    project entries direct = project entries flat ↔
      ∀ entry ∈ entries,
        (selected direct entry.1).map entry.2 = (selected flat entry.1).map entry.2 := by
  unfold project
  constructor
  · intro same entry membership
    have lists := Value.object.inj same
    apply Option.ext
    intro value
    rw [← mem_project_iff distinct membership, ← mem_project_iff distinct membership, lists]
  · intro alike
    congr 1
    apply List.filterMap_congr
    intro entry membership
    have values := alike entry membership
    have paired (sels : List Selection) :
        ((selected sels entry.1).map fun field => (entry.1, entry.2 field)) =
          ((selected sels entry.1).map entry.2).map fun value => (entry.1, value) := by
      rw [Option.map_map]
      rfl
    rw [paired, paired, values]

/-- A projection of plain values shows its keys. -/
theorem project_plain_eq_iff {entries : List (String × Value)}
    (distinct : (entries.map Prod.fst).Nodup) (direct flat : List Selection) :
    project (plain entries) direct = project (plain entries) flat ↔
      ShowsAlike (entries.map Prod.fst) direct flat := by
  have keys : (plain entries).map Prod.fst = entries.map Prod.fst := by
    simp [plain, Function.comp_def]
  rw [project_eq_iff (keys ▸ distinct)]
  simp only [plain, ShowsAlike, List.forall_mem_map]
  apply forall₂_congr
  intro entry _
  cases selected direct entry.1 <;> cases selected flat entry.1 <;> simp

/-- Two selection sets of `__schema` show the same, also of the two root types. -/
structure SchemaAlike (direct flat : List Selection) : Prop where
  shows : ShowsAlike ["queryType", "mutationType", "types"] direct flat
  types : ∀ key ∈ ["queryType", "mutationType"], ∀ directField flatField,
    selected direct key = some directField → selected flat key = some flatField →
      ShowsAlike ["name", "kind", "fields"] directField.sels flatField.sels

/-- A root type is shown alike. -/
theorem map_project_eq_iff {entries : List (String × Value)}
    (distinct : (entries.map Prod.fst).Nodup) (direct flat : Option Field) :
    (direct.map fun field => project (plain entries) field.sels) =
        (flat.map fun field => project (plain entries) field.sels) ↔
      direct.isSome = flat.isSome ∧
        ∀ directField flatField, direct = some directField → flat = some flatField →
          ShowsAlike (entries.map Prod.fst) directField.sels flatField.sels := by
  cases direct <;> cases flat <;> simp [project_plain_eq_iff distinct]

theorem resolveSchemaIntrospection_eq_iff (direct flat : Field) :
    resolveSchemaIntrospection direct = resolveSchemaIntrospection flat ↔
      SchemaAlike direct.sels flat.sels := by
  have typeKeys (typeName : String) (fields : List String) :
      ((typeEntries typeName fields).map Prod.fst).Nodup := by
    simp [typeEntries]
  have constant (directField flatField : Option Field) :
      (directField.map fun _ => named allTypes) = (flatField.map fun _ => named allTypes) ↔
        directField.isSome = flatField.isSome := by
    cases directField <;> cases flatField <;> simp
  unfold resolveSchemaIntrospection
  rw [project_eq_iff (by simp [schemaEntries])]
  simp only [schemaEntries, List.forall_mem_cons, List.not_mem_nil, false_implies, implies_true,
    and_true, map_project_eq_iff (typeKeys _ _), constant]
  constructor
  · rintro ⟨⟨queryShown, queryTypes⟩, ⟨mutationShown, mutationTypes⟩, typesShown⟩
    refine ⟨?_, ?_⟩
    · simp [ShowsAlike, queryShown, mutationShown, typesShown]
    · simp only [List.forall_mem_cons, List.not_mem_nil, false_implies, implies_true, and_true]
      exact ⟨queryTypes, mutationTypes⟩
  · rintro ⟨shows, types⟩
    simp only [ShowsAlike, List.forall_mem_cons, List.not_mem_nil, false_implies, implies_true,
      and_true] at shows
    simp only [List.forall_mem_cons, List.not_mem_nil, false_implies, implies_true, and_true]
      at types
    exact ⟨⟨shows.1, types.1⟩, ⟨shows.2.1, types.2⟩, shows.2.2⟩

/-- What the response has for the outcome of a resolver. -/
def answer : Except ResolverError Value → Value
  | .error _ => .null
  | .ok value => value

/-- An object that is found is shown alike. -/
theorem map_project_alike {Found : Type} {resolved : Except ResolverError Found}
    {entries : Found → List (String × Value)} {direct flat : List Selection}
    (alike : ∀ found, resolved = .ok found →
      ShowsAlike ((entries found).map Prod.fst) direct flat)
    (distinct : ∀ found, ((entries found).map Prod.fst).Nodup) :
    (resolved.map fun found => project (plain (entries found)) direct) =
      resolved.map fun found => project (plain (entries found)) flat := by
  cases resolved with
  | error error => rfl
  | ok found =>
      exact congrArg Except.ok ((project_plain_eq_iff (distinct found) _ _).mpr (alike found rfl))

theorem alike_of_answer {Found : Type} {resolved : Except ResolverError Found}
    {entries : Found → List (String × Value)} {direct flat : List Selection}
    (same : answer (resolved.map fun found => project (plain (entries found)) direct) =
      answer (resolved.map fun found => project (plain (entries found)) flat))
    (distinct : ∀ found, ((entries found).map Prod.fst).Nodup) :
    ∀ found, resolved = .ok found →
      ShowsAlike ((entries found).map Prod.fst) direct flat := by
  rintro found rfl
  exact (project_plain_eq_iff (distinct found) _ _).mp same

section Dispatch

variable (platform : Platform) (readers : Readers) (executor : Executor)

/-- The projection of a root field finds directly in its selection set what there is without
fragments.  Only `__schema` and the objects of queries that are found are projected. -/
structure SelectsDirectly (kind : OperationKind) (store : Identity.Store) (field : Field)
    (flat : List Selection) : Prop where
  schema : field.name = "__schema" → SchemaAlike field.sels flat
  user : kind = .query → field.name = "user" → ∀ user,
    resolveUser platform (argString readers executor field.args "login") store = .ok user →
      ShowsAlike ((userEntries readers user).map Prod.fst) field.sels flat
  agent : kind = .query → field.name = "agent" → ∀ agent,
    resolveAgent platform (argString readers executor field.args "id") store = .ok agent →
      ShowsAlike ((agentEntries readers agent).map Prod.fst) field.sels flat
  repository : kind = .query → field.name = "repository" → ∀ repository,
    resolveRepository readers (argString readers executor field.args "owner")
        (argString readers executor field.args "name") = .ok repository →
      ShowsAlike ((repositoryEntries readers repository).map Prod.fst) field.sels flat

variable {platform readers executor} {document : Document} {field flat : Field}

theorem userEntries_distinct (user : Identity.HumanUser) :
    ((userEntries readers user).map Prod.fst).Nodup := by
  simp [userEntries]

theorem agentEntries_distinct (agent : Identity.AgentIdentity) :
    ((agentEntries readers agent).map Prod.fst).Nodup := by
  simp [agentEntries]

theorem repositoryEntries_distinct (repository : Repository) :
    ((repositoryEntries readers repository).map Prod.fst).Nodup := by
  simp [repositoryEntries]

/-- A mutation does not look at its selection set. -/
theorem FlatOf.resolveMutationRoot_eq (flatOf : FlatOf document field flat)
    (platform : Platform) (executor : Executor) (caller : Option Principal)
    (circumstance : Circumstance) (store : Identity.Store) :
    resolveMutationRoot platform executor caller flat circumstance store =
      resolveMutationRoot platform executor caller field circumstance store := by
  simp only [resolveMutationRoot, resolveCreateAgent, resolveUpdateAgentPermissions,
    resolveCreatePullRequest, updateAgentPermissionsInput, flatOf.name, flatOf.args]

theorem SelectsDirectly.resolveQueryRoot_eq {store : Identity.Store}
    (selects : SelectsDirectly platform readers executor .query store field flat.sels)
    (flatOf : FlatOf document field flat) :
    resolveQueryRoot platform readers executor field store =
      resolveQueryRoot platform readers executor flat store := by
  simp only [resolveQueryRoot, flatOf.name, flatOf.args]
  split
  · next isUser => exact map_project_alike (selects.user rfl isUser) userEntries_distinct
  · split
    · next isAgent => exact map_project_alike (selects.agent rfl isAgent) agentEntries_distinct
    · split
      · next isRepository =>
          exact map_project_alike (selects.repository rfl isRepository)
            repositoryEntries_distinct
      · rfl

/-- A root field is dispatched as it is without fragments. -/
theorem SelectsDirectly.dispatchRoot_eq {kind : OperationKind} {store reached : Identity.Store}
    (selects : SelectsDirectly platform readers executor kind store field flat.sels)
    (flatOf : FlatOf document field flat) (unchanged : kind = .query → reached = store)
    (caller : Option Principal) (circumstance : Circumstance) :
    dispatchRoot (readingPlatform platform readers executor) executor caller kind field
        circumstance reached =
      dispatchRoot (readingPlatform platform readers executor) executor caller kind flat
        circumstance reached := by
  simp only [dispatchRoot, flatOf.name]
  split
  · next isSchema =>
      have schema := (resolveSchemaIntrospection_eq_iff field flat).mpr (selects.schema isSchema)
      exact congrArg (fun value => (Except.ok value, reached)) schema
  · split
    · simp only [readingPlatform, resolveTypeIntrospection, flatOf.args]
    · cases kind with
      | query =>
          cases unchanged rfl
          dsimp only [readingPlatform]
          rw [selects.resolveQueryRoot_eq flatOf]
      | mutation => rw [flatOf.resolveMutationRoot_eq]

/-- When a root field is answered as it is without fragments, its projection finds directly
what there is. -/
theorem selectsDirectly_of_answer {kind : OperationKind} {store first second : Identity.Store}
    (flatOf : FlatOf document field flat) (firstUnchanged : kind = .query → first = store)
    (secondUnchanged : kind = .query → second = store) (caller : Option Principal)
    {firstCircumstance secondCircumstance : Circumstance}
    (same : answer (dispatchRoot (readingPlatform platform readers executor) executor caller
        kind field firstCircumstance first).1 =
      answer (dispatchRoot (readingPlatform platform readers executor) executor caller kind
        flat secondCircumstance second).1) :
    SelectsDirectly platform readers executor kind store field flat.sels := by
  have query (isQuery : kind = .query) (dispatched : field.name ∈ ["user", "agent", "repository"]) :
      answer (resolveQueryRoot platform readers executor field store) =
        answer (resolveQueryRoot platform readers executor flat store) := by
    cases isQuery
    cases firstUnchanged rfl
    cases secondUnchanged rfl
    simp only [dispatchRoot, flatOf.name] at same
    simp only [List.mem_cons, List.not_mem_nil, or_false] at dispatched
    rcases dispatched with named | named | named
    all_goals
      simp only [named] at same
      exact same
  constructor
  · intro isSchema
    apply (resolveSchemaIntrospection_eq_iff field flat).mp
    simp only [dispatchRoot, flatOf.name, isSchema, if_true] at same
    exact same
  · intro isQuery isUser
    have same := query isQuery (by simp [isUser])
    simp only [resolveQueryRoot, flatOf.name, flatOf.args, isUser, if_true] at same
    exact alike_of_answer same userEntries_distinct
  · intro isQuery isAgent
    have same := query isQuery (by simp [isAgent])
    simp only [resolveQueryRoot, flatOf.name, flatOf.args, isAgent] at same
    exact alike_of_answer same agentEntries_distinct
  · intro isQuery isRepository
    have same := query isQuery (by simp [isRepository])
    simp only [resolveQueryRoot, flatOf.name, flatOf.args, isRepository] at same
    exact alike_of_answer same repositoryEntries_distinct

end Dispatch

/-! ## What a run answers -/

theorem lookup_set_self (object : Object) (key : String) (value : Value) :
    (object.set key value).lookup key = some value := by
  have absent : (object.filter fun entry => entry.1 ≠ key).lookup key = none := by
    rw [List.lookup_eq_none_iff]
    intro entry membership
    have differs : entry.1 ≠ key := of_decide_eq_true (List.mem_filter.mp membership).2
    simpa using fun same => differs same.symm
  rw [Object.set, List.lookup_append, absent]
  simp

theorem lookup_set_of_ne (object : Object) {key other : String} (differs : other ≠ key)
    (value : Value) : (object.set key value).lookup other = object.lookup other := by
  have kept : (object.filter fun entry => entry.1 ≠ key).lookup other = object.lookup other := by
    induction object with
    | nil => rfl
    | cons entry rest inductionHypothesis =>
        rcases entry with ⟨name, held⟩
        by_cases removed : name = key
        · rw [List.filter_cons_of_neg (by simpa using removed), inductionHypothesis,
            List.lookup_cons, beq_false_of_ne (removed ▸ differs)]
        · rw [List.filter_cons_of_pos (by simpa using removed), List.lookup_cons,
            List.lookup_cons, inductionHypothesis]
  rw [Object.set, List.lookup_append, kept, List.lookup_cons, beq_false_of_ne differs]
  simp

section Run

variable {platform : Platform} {executor : Executor} {caller : Option Principal}
  {circumstances : Nat → Circumstance} {kind : OperationKind}

/-- A visit sets the key of its field to the answer. -/
theorem visit_data (progress : Progress) (field : Field) :
    (visit platform executor caller circumstances kind progress field).data =
      progress.data.set (keyOf field)
        (answer (dispatchRoot platform executor caller kind field
          (circumstances progress.dispatched) progress.store).1) := by
  unfold visit
  split <;> next dispatched => rw [dispatched]; rfl

/-- A query leaves the tables alone. -/
theorem visit_store_query (isQuery : kind = .query) (progress : Progress) (field : Field) :
    (visit platform executor caller circumstances kind progress field).store =
      progress.store := by
  subst isQuery
  have kept : (dispatchRoot platform executor caller .query field
      (circumstances progress.dispatched) progress.store).2 = progress.store := by
    unfold dispatchRoot
    split
    · rfl
    · split
      · rfl
      · dsimp only
        split <;> rfl
  unfold visit
  split <;> next dispatched => rw [dispatched] at kept; exact kept

theorem lookup_of_not_mem {fields : List Field} {key : String}
    (absent : key ∉ fields.map keyOf) (progress : Progress) :
    (fields.foldl (visit platform executor caller circumstances kind)
      progress).data.lookup key = progress.data.lookup key := by
  induction fields generalizing progress with
  | nil => rfl
  | cons field rest inductionHypothesis =>
      rw [List.map_cons, List.mem_cons, not_or] at absent
      rw [List.foldl_cons, inductionHypothesis absent.2, visit_data,
        lookup_set_of_ne _ absent.1]

/-- Under the key of a field the response has the answer of that field, when no other field has
the key. -/
theorem lookup_of_mem {fields : List Field} (distinct : (fields.map keyOf).Nodup)
    {field : Field} (membership : field ∈ fields) (progress : Progress) :
    ∃ reached : Progress, (kind = .query → reached.store = progress.store) ∧
      (fields.foldl (visit platform executor caller circumstances kind)
          progress).data.lookup (keyOf field) =
        some (answer (dispatchRoot platform executor caller kind field
          (circumstances reached.dispatched) reached.store).1) := by
  induction fields generalizing progress with
  | nil => cases membership
  | cons first rest inductionHypothesis =>
      rw [List.map_cons, List.nodup_cons] at distinct
      rw [List.foldl_cons]
      rcases List.mem_cons.mp membership with rfl | later
      · refine ⟨progress, fun _ => rfl, ?_⟩
        rw [lookup_of_not_mem distinct.1, visit_data, lookup_set_self]
      · obtain ⟨reached, unchanged, looked⟩ :=
          inductionHypothesis distinct.2 later
            (visit platform executor caller circumstances kind progress first)
        refine ⟨reached, fun isQuery => ?_, looked⟩
        rw [unchanged isQuery, visit_store_query isQuery]

end Run

section Fragments

variable {platform : Platform} {readers : Readers} {executor : Executor}
  {caller : Option Principal} {circumstances : Nat → Circumstance} {document : Document}

/-- Two executions answer the same data. -/
def SameData (first second : Progress) : Prop :=
  ∀ key, first.data.lookup key = second.data.lookup key

variable (platform readers executor document) in
/-- No fragment hides a field: `Execute` reaches every root field, and the projection of a root
field finds directly what there is without fragments. -/
structure FragmentsFound (operation : Operation) (store : Identity.Store) : Prop where
  roots : RootsDirect document operation.sels
  nested : ∀ field ∈ rootFields document operation, ∀ inner,
    Flattens document field.sels inner →
      SelectsDirectly platform readers executor operation.kind store field (inner.map .field)

/-- Fields that are dispatched alike one by one are executed alike. -/
theorem foldl_visit_flat {kind : OperationKind} {store : Identity.Store}
    {direct flat : List Field} (flatOf : List.Forall₂ (FlatOf document) direct flat)
    (nested : ∀ field ∈ direct, ∀ inner, Flattens document field.sels inner →
      SelectsDirectly platform readers executor kind store field (inner.map .field))
    (progress : Progress) (unchanged : kind = .query → progress.store = store) :
    direct.foldl (visit (readingPlatform platform readers executor) executor caller
        circumstances kind) progress =
      flat.foldl (visit (readingPlatform platform readers executor) executor caller
        circumstances kind) progress := by
  induction flatOf generalizing progress with
  | nil => rfl
  | @cons field flat fields flats here _ inductionHypothesis =>
      obtain ⟨inner, flattens, selsEq⟩ := here.sels
      have selects := nested field List.mem_cons_self inner flattens
      rw [← selsEq] at selects
      have visited : visit (readingPlatform platform readers executor) executor caller
          circumstances kind progress field =
            visit (readingPlatform platform readers executor) executor caller circumstances
              kind progress flat := by
        unfold visit
        rw [selects.dispatchRoot_eq here unchanged, here.keyOf_eq]
      rw [List.foldl_cons, List.foldl_cons, visited]
      refine inductionHypothesis
        (fun field membership => nested field (List.mem_cons_of_mem _ membership)) _ ?_
      intro isQuery
      rw [visit_store_query isQuery, unchanged isQuery]

theorem map_keyOf_flat {direct flat : List Field}
    (flatOf : List.Forall₂ (FlatOf document) direct flat) :
    flat.map keyOf = direct.map keyOf := by
  induction flatOf with
  | nil => rfl
  | cons here _ inductionHypothesis =>
      rw [List.map_cons, List.map_cons, here.keyOf_eq, inductionHypothesis]

/-- Without fragments `Execute` visits the fields one after another. -/
theorem execute_flat (platform : Platform) (executor : Executor) (operation : Operation)
    (fields : List Field) (store : Identity.Store) :
    execute platform executor caller circumstances document (operation.flat fields) store =
      fields.foldl (visit platform executor caller circumstances operation.kind)
        ⟨[], [], store, 0⟩ := by
  rw [execute_eq_foldl, rootFields_flat]
  rfl

theorem exists_flat_of_mem {direct flat : List Field}
    (flatOf : List.Forall₂ (FlatOf document) direct flat) {field : Field}
    (membership : field ∈ direct) : ∃ other ∈ flat, FlatOf document field other := by
  induction flatOf with
  | nil => cases membership
  | @cons first other _ _ here _ inductionHypothesis =>
      rcases List.mem_cons.mp membership with rfl | later
      · exact ⟨other, List.mem_cons_self, here⟩
      · obtain ⟨found, foundMem, isFlat⟩ := inductionHypothesis later
        exact ⟨found, List.mem_cons_of_mem _ foundMem, isFlat⟩

/-- Execution respects fragments when none of them hides a field, and, as long as no two root
fields have the same key, only then. -/
theorem execute_flat_sameData (platform : Platform) (readers : Readers) (executor : Executor)
    (caller : Option Principal) (circumstances : Nat → Circumstance) (document : Document)
    (operation : Operation) (store : Identity.Store) (fields : List Field)
    (flattens : Flattens document operation.sels fields) :
    let run := fun operation => execute (readingPlatform platform readers executor) executor
      caller circumstances document operation store
    (FragmentsFound platform readers executor document operation store →
        SameData (run operation) (run (operation.flat fields))) ∧
      ((fields.map keyOf).Nodup → SameData (run operation) (run (operation.flat fields)) →
        FragmentsFound platform readers executor document operation store) := by
  intro run
  obtain ⟨reached, reaches⟩ := flattens.roots
  have runDirect (key : String) : (run operation).data.lookup key = _ :=
    congrArg (fun progress : Progress => progress.data.lookup key) (execute_eq_foldl ..)
  have runFlat (key : String) : (run (operation.flat fields)).data.lookup key = _ :=
    congrArg (fun progress : Progress => progress.data.lookup key) (execute_flat ..)
  have keys : reached.map keyOf = (rootFields document operation).map keyOf :=
    map_keyOf_flat reaches.flat
  constructor
  · intro found key
    have all := reaches.all.mpr found.roots
    subst all
    rw [runDirect, runFlat]
    exact congrArg (fun progress : Progress => progress.data.lookup key)
      (foldl_visit_flat reaches.flat found.nested ⟨[], [], store, 0⟩ fun _ => rfl)
  · intro distinct same
    -- A field that is not reached has a key of its own, which the data then lacks.
    have covered : fields.map keyOf ⊆ reached.map keyOf := by
      intro key membership
      obtain ⟨field, fieldMem, rfl⟩ := List.mem_map.mp membership
      obtain ⟨_, _, looked⟩ := lookup_of_mem distinct fieldMem ⟨[], [], store, 0⟩
      rw [← runFlat, ← same, runDirect] at looked
      by_contra absent
      rw [keys] at absent
      rw [lookup_of_not_mem absent] at looked
      cases looked
    have all : reached = fields := by
      apply reaches.sublist.eq_of_length_le
      simpa using (distinct.subperm covered).length_le
    subst all
    refine ⟨reaches.all.mp rfl, ?_⟩
    intro field membership inner inside
    obtain ⟨flat, flatMem, flatOf⟩ := exists_flat_of_mem reaches.flat membership
    obtain ⟨other, flattensOther, selsEq⟩ := flatOf.sels
    cases inside.unique flattensOther
    have directDistinct : ((rootFields document operation).map keyOf).Nodup :=
      (congrArg List.Nodup keys).mp distinct
    obtain ⟨first, firstStore, firstLooked⟩ :=
      lookup_of_mem directDistinct membership ⟨[], [], store, 0⟩
    obtain ⟨second, secondStore, secondLooked⟩ :=
      lookup_of_mem distinct flatMem ⟨[], [], store, 0⟩
    rw [← runDirect, same, ← flatOf.keyOf_eq, runFlat, secondLooked] at firstLooked
    rw [← selsEq]
    exact selectsDirectly_of_answer flatOf firstStore secondStore caller
      (Option.some.inj firstLooked).symm

end Fragments

/-! A store with one user, who is asked for through a fragment at the root and through one in
the selection set. -/

def oneUser : Identity.Store where
  humanUsers := [{
    id := 7
    email := "a@x"
    credentialHash := ""
    rateBucket := ""
    quotaAccountID := none
    createdAt := 0
    updatedAt := 0
    disabledAt := none
    disableReason := none }]
  organisations := []
  orgMemberships := []
  agentIdentities := []
  cloneTokens := []
  outbox := []

def userPlatform : Platform where
  parseUUID := fun _ => .error "invalid UUID length: 3"
  formatUUID := formatUUID
  decodeLiteral := fun _ => .error "unexpected end of JSON input"
  toLower := fun text => text
  resolveSchemaIntrospection := resolveSchemaIntrospection
  resolveTypeIntrospection := resolveTypeIntrospection
  resolveQueryRoot := fun _ _ => .error (.text "login is required")

def userReaders : Readers where
  repositories := ⟨[], by simp, .nil⟩
  formatTime := fun _ => "1970-01-01T00:00:00Z"
  unmarshalString := fun raw => some (String.ofList (raw.toList.drop 1).dropLast)

def userExecutor : Executor := ⟨false, none, []⟩

/-- The answer to a query of that user. -/
def userRun (document : Document) (operation : Operation) : Progress :=
  execute (readingPlatform userPlatform userReaders userExecutor) userExecutor none
    (fun _ => ⟨.ok (), Identity.quietEnvironment 0 0⟩) document operation oneUser

/-- `user(login: "a@x")` with a selection set. -/
def userField (sels : List Selection) : Field :=
  .mk "user" "" [("login", ⟨none, "\"a@x\""⟩)] [] sels

def idField : Field := .mk "id" "" [] [] []

theorem flattens_userField {document : Document} {sels : List Selection}
    (within : Flattens document sels [idField]) :
    Flattens document [.field (userField sels)] [userField [.field idField]] :=
  .field within .nil

theorem execute_flat_sameData_rootFragment :
    SameData
      (userRun ⟨[], []⟩ ⟨.query, "", [.inlineFragment "Query"
        [.field (userField [.field idField])]]⟩)
      (userRun ⟨[], []⟩ ⟨.query, "", [.field (userField [.field idField])]⟩) := by
  let operation : Operation :=
    ⟨.query, "", [.inlineFragment "Query" [.field (userField [.field idField])]]⟩
  have idFlat : Flattens ⟨[], []⟩ [.field idField] [idField] := .field .nil .nil
  have flattens : Flattens ⟨[], []⟩ operation.sels [userField [.field idField]] :=
    .inline (flattens_userField idFlat) .nil
  have same := execute_flat_sameData userPlatform userReaders userExecutor none
    (fun _ => ⟨.ok (), Identity.quietEnvironment 0 0⟩) ⟨[], []⟩ operation oneUser _ flattens
  apply same.1
  constructor
  · simp [operation, RootsDirect, FragmentsEmpty, contents, Selection.isFragment]
  · intro field membership inner inside
    have only : field = userField [.field idField] := by
      simpa [operation, rootFields, rootFieldsOf, expandFragment, fieldsOf] using membership
    subst only
    cases inside.unique idFlat
    constructor
    · intro isSchema
      exact absurd isSchema (by decide)
    · intro _ _ user _ key _
      rfl
    · intro _ isAgent
      exact absurd isAgent (by decide)
    · intro _ isRepository
      exact absurd isRepository (by decide)

/-- The projection of the user does not look into the fragment. -/
def hiddenField : Text :=
  utf8 "query\x7buser(login:\"a@x\")\x7b...F\x7d\x7dfragment F on User\x7bid\x7d"

theorem hiddenField_lost :
    (Cost.Analyzer.standard.analyze [] hiddenField "" .human false).error = none ∧
      ∃ document position operation fields, parseQuery hiddenField = .ok document position ∧
        operation ∈ document.operations ∧ Flattens document operation.sels fields ∧
        ¬ SameData (userRun document operation) (userRun document (operation.flat fields)) := by
  refine ⟨by decide +kernel, ?_⟩
  let fragment : Fragment := ⟨"F", "User", [.field idField]⟩
  let operation : Operation := ⟨.query, "", [.field (userField [.fragmentSpread "F"])]⟩
  refine ⟨⟨[operation], [("F", fragment)]⟩, hiddenField.length, operation,
    [userField [.field idField]], by decide +kernel, List.mem_cons_self, ?_, ?_⟩
  · have defined : List.lookup "F" [("F", fragment)] = some fragment := rfl
    have spread : Flattens ⟨[operation], [("F", fragment)]⟩ [.fragmentSpread "F"]
        ([idField] ++ []) :=
      .spread defined (.field .nil .nil) .nil
    exact flattens_userField spread
  · intro same
    have value := same "user"
    have direct : (userRun ⟨[operation], [("F", fragment)]⟩ operation).data.lookup "user" =
        some (.object []) := rfl
    rw [direct] at value
    cases value

end GitScale.GraphQL
