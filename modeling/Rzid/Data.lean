import Mathlib.Data.String.Basic
import Rzid.Lib.HashMap

/-!
# The data of the directory

The records, derived indexes and versions that `AppState` owns
(`src/state.rs`), with the operations on a single record.

* The authoritative records: `Components` (routers, bridges and nodes, each with
  its place and the clock reading of its last heartbeat) and `SegmentStore` (the
  segments every shard owns).
* The derived `Indexes`, which answer the queries.
* The versions, one for each dataset under its key, and the global version.

Machine integers are natural numbers. Reference counts (`u32`) are only ever
counted up from zero, or down from a positive count; clock readings (`u64`) are
only compared, with the saturating subtraction of `ℕ`. Versions (`u64`) are counted
up one by one, from zero or from what the state file holds. That a version
overflows is left out: it takes `2 ^ 64` changes, or a state file that the service
has not written.
-/

namespace Rzid

abbrev RouterId := String
abbrev BridgeId := String
abbrev NodeId := String
abbrev ZoneId := String
abbrev ShardId := String
abbrev Segment := String

/-- A `u64` of the source, as long as it stays below `2 ^ 64`. -/
abbrev Version := ℕ

/-! ## Version keys -/

def zoneRoutersKey (zoneId : ZoneId) : String := "zones/" ++ zoneId ++ "/routers"

def zoneShardsKey (zoneId : ZoneId) : String := "zones/" ++ zoneId ++ "/shards"

def zoneSegmentsKey (zoneId : ZoneId) : String := "zones/" ++ zoneId ++ "/segments"

def shardSegmentsKey (shardId : ShardId) : String := "shards/" ++ shardId ++ "/segments"

def shardNodesKey (shardId : ShardId) : String := "shards/" ++ shardId ++ "/nodes"

/-! ## Component records -/

/-- The registration of a router. -/
structure RouterInfo where
  zoneId : ZoneId
  /-- The clock reading of the last heartbeat, reset after loading a state file. -/
  lastSeenMs : ℕ
  deriving DecidableEq

/-- The registration of a bridge. -/
structure BridgeInfo where
  shardId : ShardId
  zoneId : ZoneId
  lastSeenMs : ℕ
  deriving DecidableEq

/-- The registration of a node. -/
structure NodeInfo where
  shardId : ShardId
  zoneId : ZoneId
  lastSeenMs : ℕ
  deriving DecidableEq

/-- All component registrations. -/
structure Components where
  routers : HashMap RouterId RouterInfo
  bridges : HashMap BridgeId BridgeInfo
  nodes : HashMap NodeId NodeInfo
  deriving DecidableEq

def Components.default : Components := ⟨.empty, .empty, .empty⟩

/-! ## Segment storage -/

/-- The segments of a shard, both as a set and as a sorted vector. -/
structure SegmentSet where
  set : HashSet Segment
  sorted : List Segment
  deriving DecidableEq

/-- Normalises a list of segments: `sort`, then `dedup`, then collect into a set. -/
def SegmentSet.new (segments : List Segment) : SegmentSet :=
  let segments := segments.sort.destutter (· ≠ ·)
  { set := HashMap.ofList segments, sorted := segments }

/-- The sorted vector lists the segments once each. -/
theorem SegmentSet.sortedLT_new (segments : List Segment) :
    (SegmentSet.new segments).sorted.SortedLT :=
  List.sortedLT_destutter_ne (List.sortedLE_sort segments)

theorem SegmentSet.mem_sorted_new {segments : List Segment} {segment : Segment} :
    segment ∈ (SegmentSet.new segments).sorted ↔ segment ∈ segments :=
  List.mem_destutter_ne.trans List.mem_sort

/-- The set has the elements of the sorted vector. -/
theorem SegmentSet.keys_set_new (segments : List Segment) :
    (SegmentSet.new segments).set.keys = (SegmentSet.new segments).sorted :=
  (HashMap.sortedLT_keys _).eq_of_mem_iff (sortedLT_new segments)
    fun _ => HashMap.mem_keys_ofList

/-- Whether two segment sets contain exactly the same segments. -/
def SegmentSet.sameContents (self other : SegmentSet) : Bool := self.set = other.set

/-- The segment ownership of a shard. -/
structure ShardSegments where
  zoneId : ZoneId
  segments : SegmentSet
  deriving DecidableEq

/-- The segment ownership of all shards. -/
structure SegmentStore where
  byShard : HashMap ShardId ShardSegments
  deriving DecidableEq

def SegmentStore.default : SegmentStore := ⟨.empty⟩

/-! ## Derived indexes -/

/-- The indexes the queries read, maintained on writes. -/
structure Indexes where
  /-- zone -> sorted router IDs -/
  routersByZone : HashMap ZoneId (List RouterId)
  /-- zone -> shard -> sorted bridge IDs -/
  bridgesByZoneShard : HashMap ZoneId (HashMap ShardId (List BridgeId))
  /-- shard -> sorted node IDs -/
  nodesByShard : HashMap ShardId (List NodeId)
  /-- zone -> segment -> number of shards owning the segment -/
  segmentRefsByZone : HashMap ZoneId (HashMap Segment ℕ)
  /-- zone -> sorted unique segments -/
  segmentsByZone : HashMap ZoneId (List Segment)
  deriving DecidableEq

def Indexes.default : Indexes := ⟨.empty, .empty, .empty, .empty, .empty⟩

/-! ## States -/

/-- The part of the state that the state file holds. -/
structure PersistedState where
  components : Components
  segments : SegmentStore
  /-- Dataset key -> monotonically increasing version. -/
  versions : HashMap String Version
  globalVersion : Version
  deriving DecidableEq

def PersistedState.default : PersistedState := ⟨.default, .default, .empty, 0⟩

/-- The state protected by the data lock. -/
structure AppData where
  components : Components
  segments : SegmentStore
  indexes : Indexes
  versions : HashMap String Version
  globalVersion : Version
  deriving DecidableEq

/-- The hash tables that the program loops over: those of its state, and those
    local to an operation. -/
inductive Table
  | routers
  | bridges
  | nodes
  | byShard
  | removedSegments
  | addedSegments
  | loadedSegments (shardId : ShardId)
  | segmentRefs (zoneId : ZoneId)
  | segmentRefZones
  | changedZones
  | changedRouterZones
  | changedBridgeZones
  | changedNodeShards

/-- The order in which an operation iterates over the hash tables. -/
abbrev Order := Visit Table

/-! ## Version helpers -/

/-- Increments one dataset version and the global revision. -/
def bumpVersion (data : AppData) (key : String) : AppData :=
  { data with
    versions := data.versions.upsert key 0 (· + 1)
    globalVersion := data.globalVersion + 1 }

/-- A dataset version, or zero when the dataset has never existed. -/
def getVersion (data : AppData) (key : String) : Version := (data.versions.get key).getD 0

end Rzid
