import GitScale.GraphQL.QueryRoot
import Mathlib.Data.List.Pairwise

/-!
# Looking up a repository by owner and name

`Query.repository(owner, name)` asks for an owner and finds the earliest repository with the
slug, whoever owns it.  It answers for the owner exactly when that repository is the owner's.
-/

namespace GitScale.GraphQL

open Go

/-! ## The query -/

theorem mem_of_earliest {rows : List Repository} {row : Repository}
    (found : earliest rows = some row) : row ∈ rows := by
  induction rows generalizing row with
  | nil => cases found
  | cons first rest inductionHypothesis =>
      rw [earliest] at found
      cases later : earliest rest with
      | none =>
          rw [later] at found
          cases found
          exact List.mem_cons_self
      | some other =>
          simp only [later] at found
          split at found
          · cases found
            exact List.mem_cons_of_mem _ (inductionHypothesis later)
          · cases found
            exact List.mem_cons_self

theorem earliest_isSome {rows : List Repository} {row : Repository} (membership : row ∈ rows) :
    ∃ other, earliest rows = some other := by
  cases rows with
  | nil => cases membership
  | cons first rest =>
      rw [earliest]
      cases earliest rest with
      | none => exact ⟨first, rfl⟩
      | some other =>
          dsimp only
          split
          · exact ⟨other, rfl⟩
          · exact ⟨first, rfl⟩

theorem mem_of_getBySlug {slug : String} {table : RepositoryTable} {row : Repository}
    (found : getBySlug slug table = some row) : row ∈ table.rows ∧ row.slug = slug := by
  obtain ⟨membership, same⟩ := List.mem_filter.mp (mem_of_earliest found)
  exact ⟨membership, of_decide_eq_true same⟩

theorem getBySlug_isSome {slug : String} {table : RepositoryTable} {row : Repository}
    (membership : row ∈ table.rows) (same : row.slug = slug) :
    ∃ other, getBySlug slug table = some other :=
  earliest_isSome (List.mem_filter.mpr ⟨membership, decide_eq_true same⟩)

/-- The organisation and the slug determine a row. -/
theorem RepositoryTable.eq_of_mem (table : RepositoryTable) {first second : Repository}
    (firstMem : first ∈ table.rows) (secondMem : second ∈ table.rows)
    (organisation : first.orgID = second.orgID) (slug : first.slug = second.slug) :
    first = second := by
  by_contra different
  have symmetric : Std.Symm fun first second : Repository =>
      ¬ (first.orgID = second.orgID ∧ first.slug = second.slug) :=
    ⟨fun _ _ apart same => apart ⟨same.1.symm, same.2.symm⟩⟩
  exact table.unique.forall firstMem secondMem different ⟨organisation, slug⟩

/-! ## The answer -/

/-- A filter that looks at the keys keeps or drops all that is under a key. -/
theorem lookup_filter_key (entries : List (String × Value)) (keep : String → Bool)
    (key : String) (kept : keep key = true) :
    (entries.filter fun entry => keep entry.1).lookup key = entries.lookup key := by
  induction entries with
  | nil => rfl
  | cons entry rest inductionHypothesis =>
      rcases entry with ⟨name, value⟩
      by_cases same : key = name
      · subst same
        simp [kept]
      · have differs : (key == name) = false := beq_false_of_ne same
        rw [List.filter_cons]
        split
        · rw [List.lookup_cons, List.lookup_cons, differs]
          exact inductionHypothesis
        · rw [List.lookup_cons, differs]
          exact inductionHypothesis

section Owner

variable (platform : Platform) (readers : Readers) (executor : Executor)

/-- A repository field answers for its owner: the name it shows is the one that was asked for,
and a repository that the owner has under the name is the one that is found. -/
structure HonoursOwner (field : Field) (store : Identity.Store) (owner name : String) : Prop where
  shows : ∀ object text, resolveQueryRoot platform readers executor field store =
      .ok (.object object) →
    object.lookup "nameWithOwner" = some (.string text) → text = owner ++ "/" ++ name
  finds : ∀ repository ∈ readers.repositories.rows,
    formatUUID repository.orgID = owner → repository.slug = name →
      resolveQueryRoot platform readers executor field store =
        .ok (project (plain (repositoryEntries readers repository)) field.sels)

variable {platform readers executor}

/-- The answer of a repository field. -/
theorem resolveQueryRoot_repository {field : Field} (isRepository : field.name = "repository")
    (store : Identity.Store) :
    resolveQueryRoot platform readers executor field store =
      (resolveRepository readers (argString readers executor field.args "owner")
        (argString readers executor field.args "name")).map fun repository =>
          project (plain (repositoryEntries readers repository)) field.sels := by
  simp [resolveQueryRoot, isRepository]

theorem resolveRepository_of_found {owner name : String} {repository : Repository}
    (ownerGiven : owner ≠ "") (nameGiven : name ≠ "")
    (found : getBySlug name readers.repositories = some repository) :
    resolveRepository readers owner name = .ok repository := by
  simp [resolveRepository, ownerGiven, nameGiven, found]

/-- A repository shows the organisation it belongs to. -/
theorem lookup_nameWithOwner {sels : List Selection}
    (shown : (selected sels "nameWithOwner").isSome) (repository : Repository) :
    ((repositoryEntries readers repository).filter fun entry =>
        (selected sels entry.1).isSome).lookup "nameWithOwner" =
      some (.string (formatUUID repository.orgID ++ "/" ++ repository.slug)) := by
  rw [lookup_filter_key _ (fun name => (selected sels name).isSome) _ shown]
  rfl

/-- What a repository field answers, and with which row. -/
theorem resolveQueryRoot_eq_ok {field : Field} {store : Identity.Store} {value : Value}
    (isRepository : field.name = "repository")
    (answered : resolveQueryRoot platform readers executor field store = .ok value) :
    argString readers executor field.args "owner" ≠ "" ∧
      ∃ repository,
        getBySlug (argString readers executor field.args "name") readers.repositories =
            some repository ∧
          value = .object ((repositoryEntries readers repository).filter fun entry =>
            (selected field.sels entry.1).isSome) := by
  rw [resolveQueryRoot_repository isRepository] at answered
  unfold resolveRepository at answered
  split at answered
  · cases answered
  · next given =>
      cases found : getBySlug (argString readers executor field.args "name")
          readers.repositories with
      | none =>
          rw [found] at answered
          cases answered
      | some repository =>
          rw [found] at answered
          cases answered
          exact ⟨fun empty => given (Or.inl empty), repository, rfl, project_plain _ _⟩

/-- `Query.repository` answers for the owner exactly when the earliest repository with the slug,
if there is one, is the owner's. -/
theorem honoursOwner_iff (platform : Platform) (readers : Readers) (executor : Executor)
    (field : Field) (store : Identity.Store) (isRepository : field.name = "repository")
    (shown : (selected field.sels "nameWithOwner").isSome) :
    let owner := argString readers executor field.args "owner"
    let name := argString readers executor field.args "name"
    HonoursOwner platform readers executor field store owner name ↔
      (owner ≠ "" → ∀ repository, getBySlug name readers.repositories = some repository →
        formatUUID repository.orgID = owner) := by
  intro owner name
  have named {repository : Repository}
      (found : getBySlug name readers.repositories = some repository) : name ≠ "" := by
    obtain ⟨membership, slug⟩ := mem_of_getBySlug found
    rw [← slug]
    exact readers.repositories.slugs repository membership
  constructor
  · intro honours ownerGiven repository found
    obtain ⟨-, slug⟩ := mem_of_getBySlug found
    have resolved := resolveRepository_of_found ownerGiven (named found) found
    have answered : resolveQueryRoot platform readers executor field store =
        .ok (.object ((repositoryEntries readers repository).filter fun entry =>
          (selected field.sels entry.1).isSome)) := by
      rw [resolveQueryRoot_repository isRepository, resolved, ← project_plain]
      rfl
    have text := honours.shows _ _ answered (lookup_nameWithOwner shown repository)
    rw [slug, String.append_assoc, String.append_assoc] at text
    exact String.append_left_inj _ |>.mp text
  · intro ownerOf
    constructor
    · intro object text answered looked
      obtain ⟨ownerGiven, repository, found, projected⟩ :=
        resolveQueryRoot_eq_ok isRepository answered
      cases projected
      rw [lookup_nameWithOwner shown repository] at looked
      cases looked
      rw [ownerOf ownerGiven repository found, (mem_of_getBySlug found).2]
    · intro repository membership organisation slug
      have ownerGiven : owner ≠ "" := organisation ▸ formatUUID_ne_empty _
      obtain ⟨other, found⟩ := getBySlug_isSome membership slug
      obtain ⟨otherMem, otherSlug⟩ := mem_of_getBySlug found
      have same : other = repository :=
        readers.repositories.eq_of_mem otherMem membership
          (formatUUID_injective ((ownerOf ownerGiven other found).trans organisation.symm))
          (otherSlug.trans slug.symm)
      subst same
      rw [resolveQueryRoot_repository isRepository,
        resolveRepository_of_found ownerGiven (named found) found]
      rfl

/-! Two organisations have a repository with the slug `demo`; that of the first is older. -/

/-- A repository `demo` of an organisation. -/
def demoOf (organisation : UUID) (createdAt : Time) : Repository where
  id := organisation
  orgID := organisation
  name := "Demo"
  slug := "demo"
  ownerID := organisation
  defaultBranch := "main"
  visibility := "private"
  replicaSetID := ""
  homeRegion := ""
  createdAt := createdAt
  updatedAt := createdAt

def demoReaders : Readers where
  repositories :=
    { rows := [demoOf 1 10, demoOf 2 20]
      slugs := by decide
      unique := by decide }
  formatTime := fun _ => "1970-01-01T00:00:00Z"
  unmarshalString := fun raw => some (String.ofList (raw.toList.drop 1).dropLast)

def demoPlatform : Platform where
  parseUUID := fun _ => .error "invalid UUID length: 0"
  formatUUID := formatUUID
  decodeLiteral := fun _ => .error "unexpected end of JSON input"
  toLower := fun text => text
  resolveSchemaIntrospection := resolveSchemaIntrospection
  resolveTypeIntrospection := resolveTypeIntrospection
  resolveQueryRoot := fun _ _ => .error (.text "login is required")

/-- An executor without variables. -/
def plainExecutor : Executor where
  svid := false
  pullRequests := none
  vars := []

/-- The store has no rows that a repository field reads. -/
def noIdentities : Identity.Store := ⟨[], [], [], [], [], []⟩

/-- `repository(owner: "…", name: "demo") { nameWithOwner }`. -/
def demoField (owner : String) : Field :=
  .mk "repository" "" [("owner", ⟨none, "\"" ++ owner ++ "\""⟩), ("name", ⟨none, "\"demo\""⟩)] []
    [.field (.mk "nameWithOwner" "" [] [] [])]

theorem honoursOwner_olderDemo :
    HonoursOwner demoPlatform demoReaders plainExecutor
      (demoField "00000000-0000-0000-0000-000000000001") noIdentities
      "00000000-0000-0000-0000-000000000001" "demo" := by
  refine (honoursOwner_iff demoPlatform demoReaders plainExecutor
    (demoField "00000000-0000-0000-0000-000000000001") noIdentities rfl rfl).mpr ?_
  intro _ repository found
  cases found
  decide

/-- The owner of the younger repository gets the older one. -/
theorem youngerDemo_not_honoured :
    ¬ HonoursOwner demoPlatform demoReaders plainExecutor
      (demoField "00000000-0000-0000-0000-000000000002") noIdentities
      "00000000-0000-0000-0000-000000000002" "demo" := by
  intro honours
  have same := honours.shows
    [("nameWithOwner", .string "00000000-0000-0000-0000-000000000001/demo")] _ rfl rfl
  revert same
  decide

end Owner

end GitScale.GraphQL
