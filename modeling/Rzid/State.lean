import Rzid.Index

/-!
# The operations of the directory

The public operations of `AppState` (`src/state.rs`), function by function.

* A mutator has a part that runs under the data lock, a function on `AppData`
  that also returns whether the state has to be marked dirty
  (`AppData.registerRouter` and so on), and a part that runs after it, which
  marks the state dirty (`AppState.registerRouter` and so on).
* The queries only read `AppData`.
* The state file is written by `AppState.persist` and read by `AppState.new`.
  What is known of `serde_json` is that it reads back what it wrote (`Json`).

Clock readings and iteration orders are parameters. The gauges that hold
timestamps are left out.
-/

namespace Rzid

/-! ## Registration -/

/-- The locked part of `AppState::register_router`: registers or refreshes a
    router and updates affected zone indexes; whether the topology changed. -/
def AppData.registerRouter (ord : Order) (now : ℕ) (id : RouterId) (zoneId : ZoneId)
    (data : AppData) : AppData × Bool :=
  let oldZone := (data.components.routers.get id).map RouterInfo.zoneId
  let topologyChanged : Bool := oldZone ≠ some zoneId
  let data := { data with
    components.routers :=
      data.components.routers.insert id { zoneId := zoneId, lastSeenMs := now } }
  if topologyChanged then
    -- The zone that the router leaves, and the one it comes to.
    let data := match oldZone with
      | some oldZone => bumpVersion (rebuildZoneRouters ord data oldZone) (zoneRoutersKey oldZone)
      | none => data
    (bumpVersion (rebuildZoneRouters ord data zoneId) (zoneRoutersKey zoneId), true)
  else (data, false)

/-- The locked part of `AppState::register_bridge`. -/
def AppData.registerBridge (ord : Order) (now : ℕ) (id : BridgeId) (shardId : ShardId)
    (zoneId : ZoneId) (data : AppData) : AppData × Bool :=
  let old := data.components.bridges.get id
  -- Both fields of the place are compared, unlike for a node.
  let topologyChanged : Bool := match old with
    | some old => old.shardId ≠ shardId || old.zoneId ≠ zoneId
    | none => true
  let data := { data with
    components.bridges := data.components.bridges.insert id
      { shardId := shardId, zoneId := zoneId, lastSeenMs := now } }
  if topologyChanged then
    let data := match old with
      | some old => bumpVersion (rebuildZoneShards ord data old.zoneId) (zoneShardsKey old.zoneId)
      | none => data
    -- A change of shard within the zone comes here for the zone a second time.
    (bumpVersion (rebuildZoneShards ord data zoneId) (zoneShardsKey zoneId), true)
  else (data, false)

/-- The locked part of `AppState::register_node`. Only a change of shard counts
    as a change of topology. -/
def AppData.registerNode (ord : Order) (now : ℕ) (id : NodeId) (shardId : ShardId)
    (zoneId : ZoneId) (data : AppData) : AppData × Bool :=
  let old := data.components.nodes.get id
  -- The zone is stored, but not compared.
  let topologyChanged : Bool := match old with
    | some old => old.shardId ≠ shardId
    | none => true
  let data := { data with
    components.nodes := data.components.nodes.insert id
      { shardId := shardId, zoneId := zoneId, lastSeenMs := now } }
  if topologyChanged then
    let data := match old with
      | some old => bumpVersion (rebuildShardNodes ord data old.shardId) (shardNodesKey old.shardId)
      | none => data
    (bumpVersion (rebuildShardNodes ord data shardId) (shardNodesKey shardId), true)
  else (data, false)

/-! ## Segment ownership -/

/-- The test of `AppState::update_segments` for an identical update. -/
def identicalUpdate (old : Option ShardSegments) (zoneId : ZoneId) (newSegments : SegmentSet) :
    Bool :=
  match old with
  | some old => old.zoneId = zoneId && old.segments.sameContents newSegments
  | none => false

/-- The removal of the old shard ownership in `AppState::update_segments`, with
    the zones whose segment datasets changed by it. -/
def removeOldOwnership (ord : Order) (data : AppData) (old : Option ShardSegments) :
    AppData × HashSet ZoneId :=
  match old with
  | some old =>
    let (data, changed) := removeShardSegmentsFromZone ord data old.zoneId old.segments
    (data, if changed then HashMap.empty.insert old.zoneId () else .empty)
  | none => (data, .empty)

/-- The locked part of `AppState::update_segments`: replaces a shard's segment
    ownership and updates only affected zone segment reference counts. -/
def AppData.updateSegments (ord : Order) (shardId : ShardId) (zoneId : ZoneId)
    (segments : List Segment) (data : AppData) : AppData × Bool :=
  let newSegments := SegmentSet.new segments
  let old := data.segments.byShard.get shardId
  if identicalUpdate old zoneId newSegments then (data, false)
  else
    -- Both changes are relative to the other shards: a segment that the shard keeps
    -- alone in its zone goes away here and comes back below.
    let (data, changedZones) := removeOldOwnership ord data old
    let (data, changed) := addShardSegmentsToZone ord data zoneId newSegments
    let changedZones := if changed then changedZones.insert zoneId () else changedZones
    let data := { data with
      segments.byShard := data.segments.byShard.insert shardId
        { zoneId := zoneId, segments := newSegments } }
    let data := bumpVersion data (shardSegmentsKey shardId)
    ((ord.order .changedZones changedZones.keys).foldl
      (fun data changedZone => bumpVersion data (zoneSegmentsKey changedZone)) data, true)

/-! ## Queries -/

/-- Every dataset version in one response. -/
structure VersionManifest where
  globalVersion : Version
  versions : HashMap String Version
  deriving DecidableEq

/-- Returns every dataset version in one cheap read. -/
def AppData.versionManifest (data : AppData) : VersionManifest :=
  { globalVersion := data.globalVersion, versions := data.versions }

/-- Returns the routers belonging to a zone. -/
def AppData.zoneRouters (data : AppData) (zoneId : ZoneId) : Version × List RouterId :=
  (getVersion data (zoneRoutersKey zoneId), (data.indexes.routersByZone.get zoneId).getD [])

/-- Returns the unique segments currently owned anywhere in a zone. -/
def AppData.zoneSegments (data : AppData) (zoneId : ZoneId) : Version × List Segment :=
  (getVersion data (zoneSegmentsKey zoneId), (data.indexes.segmentsByZone.get zoneId).getD [])

/-- Returns every shard in a zone and all bridge instances serving it. -/
def AppData.zoneShards (data : AppData) (zoneId : ZoneId) :
    Version × HashMap ShardId (List BridgeId) :=
  (getVersion data (zoneShardsKey zoneId),
    (data.indexes.bridgesByZoneShard.get zoneId).getD .empty)

/-- Returns the authoritative segment list for one shard. -/
def AppData.shardSegments (data : AppData) (shardId : ShardId) :
    Option (Version × ZoneId × List Segment) :=
  (data.segments.byShard.get shardId).map fun shard =>
    (getVersion data (shardSegmentsKey shardId), shard.zoneId, shard.segments.sorted)

/-- Returns all currently registered nodes for a shard. -/
def AppData.shardNodes (data : AppData) (shardId : ShardId) : Option (Version × List NodeId) :=
  (data.indexes.nodesByShard.get shardId).map fun nodes =>
    (getVersion data (shardNodesKey shardId), nodes)

/-! ## Heartbeat sweeping -/

/-- Whether a component last seen at `lastSeenMs` has expired at `now`. -/
def expired (now timeoutMs lastSeenMs : ℕ) : Bool := now - lastSeenMs > timeoutMs

/-- Removes the expired entries of a component map, met in the order `visited`,
    and collects their places (zones or shards). -/
def removeExpired {V : Type} (isExpired : V → Bool) (place : V → String)
    (visited : List (String × V)) (m : HashMap String V) : HashMap String V × HashSet String :=
  ((visited.filter fun e => isExpired e.2).map fun e => (e.1, place e.2)).foldl
    (fun acc e => (acc.1.remove e.1, acc.2.insert e.2 ())) (m, .empty)

/-- The locked part of `AppState::sweep_expired_components`: removes expired
    routers, bridges, and nodes and updates only affected indexes and versions;
    the number of affected zones and shards. -/
def AppData.sweepExpiredComponents (ord : Order) (now timeoutMs : ℕ) (data : AppData) :
    AppData × ℕ :=
  let (routers, changedRouterZones) :=
    removeExpired (fun info => expired now timeoutMs info.lastSeenMs) RouterInfo.zoneId
      (ord.order .routers data.components.routers.entries) data.components.routers
  let (bridges, changedBridgeZones) :=
    removeExpired (fun info => expired now timeoutMs info.lastSeenMs) BridgeInfo.zoneId
      (ord.order .bridges data.components.bridges.entries) data.components.bridges
  let (nodes, changedNodeShards) :=
    removeExpired (fun info => expired now timeoutMs info.lastSeenMs) NodeInfo.shardId
      (ord.order .nodes data.components.nodes.entries) data.components.nodes
  let data := { data with
    components := { routers := routers, bridges := bridges, nodes := nodes } }
  -- Every affected zone and shard is refreshed once, however many components it lost.
  let data := (ord.order .changedRouterZones changedRouterZones.keys).foldl
    (fun data zoneId => bumpVersion (rebuildZoneRouters ord data zoneId) (zoneRoutersKey zoneId))
    data
  let data := (ord.order .changedBridgeZones changedBridgeZones.keys).foldl
    (fun data zoneId => bumpVersion (rebuildZoneShards ord data zoneId) (zoneShardsKey zoneId))
    data
  let data := (ord.order .changedNodeShards changedNodeShards.keys).foldl
    (fun data shardId => bumpVersion (rebuildShardNodes ord data shardId) (shardNodesKey shardId))
    data
  (data, changedRouterZones.len + changedBridgeZones.len + changedNodeShards.len)

/-! ## Loading and saving -/

/-- The snapshot of the state that goes to the state file. -/
def AppData.snapshot (data : AppData) : PersistedState :=
  { components := data.components
    segments := data.segments
    versions := data.versions
    globalVersion := data.globalVersion }

/-- Marks all loaded components as freshly seen after process startup. -/
def resetHeartbeatTimes (now : ℕ) (components : Components) : Components :=
  { routers := components.routers.mapVal fun router => { router with lastSeenMs := now }
    bridges := components.bridges.mapVal fun bridge => { bridge with lastSeenMs := now }
    nodes := components.nodes.mapVal fun node => { node with lastSeenMs := now } }

/-- The data that `AppState::new` builds from a loaded snapshot: heartbeat
    timestamps are reset, and the indexes reconstructed. -/
def AppData.load (ord : Order) (now : ℕ) (persisted : PersistedState) : AppData :=
  rebuildIndexes ord
    { -- Loaded components are considered alive when the service starts.
      components := resetHeartbeatTimes now persisted.components
      segments := persisted.segments
      indexes := .default
      versions := persisted.versions
      globalVersion := persisted.globalVersion }

/-- What is known of `serde_json` on files of bytes `Bytes`: it reads back the
    state it wrote. -/
structure Json (Bytes : Type) where
  toVecPretty : PersistedState → Bytes
  fromSlice : Bytes → Option PersistedState
  fromSlice_toVecPretty : ∀ state, fromSlice (toVecPretty state) = some state

/-- Files identified with the state they hold. -/
def Json.verbatim : Json PersistedState := ⟨id, some, fun _ => rfl⟩

/-- Loads authoritative state from disk; the file may be missing or unreadable,
    and the service then starts empty. -/
def Json.loadFromDisk {Bytes : Type} (json : Json Bytes) (file : Option Bytes) : PersistedState :=
  (file.bind json.fromSlice).getD .default

/-- The data of `AppState::new` on a state file. -/
def AppData.new {Bytes : Type} (json : Json Bytes) (ord : Order) (now : ℕ)
    (file : Option Bytes) : AppData :=
  .load ord now (json.loadFromDisk file)

end Rzid
