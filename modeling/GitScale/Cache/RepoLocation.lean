import GitScale.Cache.Stores
import GitScale.Go.JsonFields

/-!
# The payload of a cached repository location

`GetRepoLocation` keeps a location as versioned JSON, and an unknown repository as a sentinel.
Whatever it writes it reads back, and no location is mistaken for the sentinel.
-/

namespace GitScale.Cache

open Go Approval

/-- `RepoLocation`. -/
structure RepoLocation where
  version : Int
  replicaSetID : String
  homeRegion : String
  aclFingerprint : String
  deriving DecidableEq, Repr

/-- `repoLocationVersion`. -/
def repoLocationVersion : Int := 1

/-- `RepoLocationTTL`. -/
def repoLocationTTL : Time := 600 * 1000000000

/-- `RepoLocationNotFoundTTL`. -/
def repoLocationNotFoundTTL : Time := 30 * 1000000000

/-- `RepoLocationKey` for a repository. -/
def repoLocationKey (repoID : UUID) : String := "repo:loc:" ++ formatUUID repoID

/-- `repoLocationMissBytes`. -/
def repoLocationMissBytes : Text := utf8 "\x7b\"v\":1,\"_miss\":true\x7d"

/-- `json.Marshal` of a location. -/
def marshalRepoLocation (location : RepoLocation) : Text :=
  compact (jsonObject
    [("v", jsonInt location.version), ("replica_set_id", jsonString location.replicaSetID),
      ("home_region", jsonString location.homeRegion),
      ("acl_fingerprint", jsonString location.aclFingerprint)])

/-- `decodeRepoLocation`: nothing for an error, which the caller treats as a miss, and no location
for the sentinel. -/
def decodeRepoLocation (bytes : Text) : Option (Option RepoLocation) := do
  let members ← (readJson bytes).bind objectMembers
  let version ← decodeField "v" readInt 0 members
  let miss ← decodeField "_miss" readBool false members
  if version ≠ repoLocationVersion then none
  else if miss then some none
  else
    let version ← decodeField "v" readInt 0 members
    let replicaSetID ← decodeField "replica_set_id" readString "" members
    let homeRegion ← decodeField "home_region" readString "" members
    let aclFingerprint ← decodeField "acl_fingerprint" readString "" members
    return some ⟨version, replicaSetID, homeRegion, aclFingerprint⟩

/-- What `GetRepoLocation` writes for an answer of the loader, which sets the version. -/
def payloadBytes : Option RepoLocation → Text
  | none => repoLocationMissBytes
  | some location => marshalRepoLocation { location with version := repoLocationVersion }

/-- How long `GetRepoLocation` keeps an answer. -/
def payloadTTL : Option RepoLocation → Time
  | none => repoLocationNotFoundTTL
  | some _ => repoLocationTTL

theorem repoLocationKey_injective : Function.Injective repoLocationKey := by
  intro first second same
  have lists := congrArg String.toList same
  simp only [repoLocationKey, String.toList_append, List.append_cancel_left_eq] at lists
  exact formatUUID_injective (String.toList_inj.mp lists)

theorem repoLocationMissBytes_eq :
    repoLocationMissBytes = compact (jsonObject [("v", jsonInt 1), ("_miss", .bool true)]) := by
  decide

theorem decodeRepoLocation_miss : decodeRepoLocation repoLocationMissBytes = some none := by
  have read : readJson repoLocationMissBytes =
      some (jsonObject [("v", jsonInt 1), ("_miss", .bool true)]) := by
    rw [repoLocationMissBytes_eq]
    apply readJson_compact
    apply marshals_jsonObject
    simp [marshals_jsonInt, marshals_bool]
  have version : decodeField "v" readInt 0
      ([("v", jsonInt 1), ("_miss", JsonTree.bool true)].map fun member =>
        (bodyOf member.1, member.2)) = some 1 := by
    rw [decodeField_of_once rfl (by decide) List.mem_cons_self rfl]
    exact readInt_jsonInt (by decide) 0
  have miss : decodeField "_miss" readBool false
      ([("v", jsonInt 1), ("_miss", JsonTree.bool true)].map fun member =>
        (bodyOf member.1, member.2)) = some true :=
    decodeField_of_once rfl (by decide) (.tail _ List.mem_cons_self) rfl false
  rw [decodeRepoLocation, read]
  simp only [Option.bind_some, jsonObject, objectMembers, bind, version, miss]
  rfl

theorem decodeRepoLocation_marshal (replicaSetID homeRegion aclFingerprint : String) :
    decodeRepoLocation (marshalRepoLocation
      ⟨repoLocationVersion, replicaSetID, homeRegion, aclFingerprint⟩) =
      some (some ⟨repoLocationVersion, replicaSetID, homeRegion, aclFingerprint⟩) := by
  let members : List (String × JsonTree) :=
    [("v", jsonInt repoLocationVersion), ("replica_set_id", jsonString replicaSetID),
      ("home_region", jsonString homeRegion), ("acl_fingerprint", jsonString aclFingerprint)]
  have listed : members.map Prod.fst =
      ["v", "replica_set_id", "home_region", "acl_fingerprint"] := rfl
  let written := members.map fun member => (bodyOf member.1, member.2)
  have read : readJson (marshalRepoLocation
      ⟨repoLocationVersion, replicaSetID, homeRegion, aclFingerprint⟩) =
        some (.object written) := by
    apply readJson_compact
    apply marshals_jsonObject
    simp [marshals_jsonInt, marshals_jsonString]
  have version : decodeField "v" readInt 0 written = some repoLocationVersion := by
    rw [decodeField_of_once listed (by decide) List.mem_cons_self rfl]
    exact readInt_jsonInt (by decide) 0
  have miss : decodeField "_miss" readBool false written = some false :=
    decodeField_of_absent listed (by decide) false
  have replicas : decodeField "replica_set_id" readString "" written = some replicaSetID := by
    rw [decodeField_of_once listed (by decide) (.tail _ List.mem_cons_self) rfl]
    exact readString_jsonString "" replicaSetID
  have region : decodeField "home_region" readString "" written = some homeRegion := by
    rw [decodeField_of_once listed (by decide) (.tail _ (.tail _ List.mem_cons_self)) rfl]
    exact readString_jsonString "" homeRegion
  have fingerprint : decodeField "acl_fingerprint" readString "" written =
      some aclFingerprint := by
    rw [decodeField_of_once listed (by decide) (.tail _ (.tail _ (.tail _ List.mem_cons_self))) rfl]
    exact readString_jsonString "" aclFingerprint
  rw [decodeRepoLocation, read]
  simp only [Option.bind_some, objectMembers, bind, version, miss, replicas, region, fingerprint]
  rfl

/-- Every answer is read back from what is written for it. -/
theorem decodeRepoLocation_payloadBytes (answer : Option RepoLocation) :
    decodeRepoLocation (payloadBytes answer) =
      some (answer.map fun location => { location with version := repoLocationVersion }) := by
  cases answer with
  | none => exact decodeRepoLocation_miss
  | some location =>
      exact decodeRepoLocation_marshal location.replicaSetID location.homeRegion
        location.aclFingerprint

end GitScale.Cache
