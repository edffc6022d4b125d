import Rzid.Data

/-!
# Index maintenance

The functions of `src/state.rs` that maintain the derived indexes: by rebuilding
one zone or shard from the records, by reference counting for segments, and all
at once after loading a state file (`rebuildIndexes`). All loops over hash
tables take the order of the iteration as a parameter (`Order`).
-/

namespace Rzid

/-! ## Components -/

/-- Rebuilds the router index for one zone. -/
def rebuildZoneRouters (ord : Order) (data : AppData) (zoneId : ZoneId) : AppData :=
  let routers := (((ord.order .routers data.components.routers.entries).filter
    fun e => e.2.zoneId = zoneId).map Prod.fst).sort
  { data with
    indexes.routersByZone :=
      if routers.isEmpty then data.indexes.routersByZone.remove zoneId
      else data.indexes.routersByZone.insert zoneId routers }

/-- Rebuilds the bridge index for one zone. -/
def rebuildZoneShards (ord : Order) (data : AppData) (zoneId : ZoneId) : AppData :=
  let shards : HashMap ShardId (List BridgeId) :=
    (ord.order .bridges data.components.bridges.entries).foldl
      (fun shards e =>
        if e.2.zoneId = zoneId then shards.upsert e.2.shardId [] (· ++ [e.1]) else shards)
      .empty
  let shards := shards.mapVal List.sort
  { data with
    indexes.bridgesByZoneShard :=
      if shards.isEmpty then data.indexes.bridgesByZoneShard.remove zoneId
      else data.indexes.bridgesByZoneShard.insert zoneId shards }

/-- Rebuilds the node index for one shard. -/
def rebuildShardNodes (ord : Order) (data : AppData) (shardId : ShardId) : AppData :=
  let nodes := (((ord.order .nodes data.components.nodes.entries).filter
    fun e => e.2.shardId = shardId).map Prod.fst).sort
  { data with
    indexes.nodesByShard :=
      if nodes.isEmpty then data.indexes.nodesByShard.remove shardId
      else data.indexes.nodesByShard.insert shardId nodes }

/-! ## Segment reference counts -/

/-- Rebuilds only the sorted API representation of one zone's segment set. -/
def rebuildZoneSegmentVector (ord : Order) (data : AppData) (zoneId : ZoneId) : AppData :=
  match data.indexes.segmentRefsByZone.get zoneId with
  | none => { data with indexes.segmentsByZone := data.indexes.segmentsByZone.remove zoneId }
  | some refs =>
    { data with
      indexes.segmentsByZone :=
        data.indexes.segmentsByZone.insert zoneId
          (ord.order (.segmentRefs zoneId) refs.keys).sort }

/-- One turn of the loop of `addShardSegmentsToZone`: counts an owner of
    `segment`, and records whether it is the first one. -/
def addSegment (acc : HashMap Segment ℕ × Bool) (segment : Segment) : HashMap Segment ℕ × Bool :=
  let (refs, observableChange) := acc
  (refs.upsert segment 0 (· + 1), observableChange || (refs.get segment).getD 0 == 0)

/-- Adds a shard's segments to a zone and returns whether the zone's unique
    segment set changed. -/
def addShardSegmentsToZone (ord : Order) (data : AppData) (zoneId : ZoneId)
    (segments : SegmentSet) : AppData × Bool :=
  let refs := (data.indexes.segmentRefsByZone.get zoneId).getD .empty
  let (refs, observableChange) :=
    (ord.order .addedSegments segments.set.keys).foldl addSegment (refs, false)
  let data := { data with
    indexes.segmentRefsByZone := data.indexes.segmentRefsByZone.insert zoneId refs }
  let data := if observableChange then rebuildZoneSegmentVector ord data zoneId else data
  (data, observableChange)

/-- One turn of the loop of `removeShardSegmentsFromZone`: discounts an owner of
    `segment`, if it is counted, and drops it with its last owner. -/
def removeSegment (acc : HashMap Segment ℕ × Bool) (segment : Segment) :
    HashMap Segment ℕ × Bool :=
  let (refs, observableChange) := acc
  match refs.get segment with
  | none => (refs, observableChange)
  | some count =>
    -- The map has no zero counts, so this does not saturate.
    let count := count - 1
    if count = 0 then (refs.remove segment, true)
    else (refs.insert segment count, observableChange)

/-- Removes a shard's segments from a zone and returns whether the zone's
    unique segment set changed. -/
def removeShardSegmentsFromZone (ord : Order) (data : AppData) (zoneId : ZoneId)
    (segments : SegmentSet) : AppData × Bool :=
  match data.indexes.segmentRefsByZone.get zoneId with
  | none => (data, false)
  | some refs =>
    let (refs, observableChange) :=
      (ord.order .removedSegments segments.set.keys).foldl removeSegment (refs, false)
    if refs.isEmpty then
      -- The zone has no segments left: its entries go away, without a rebuild.
      ({ data with
        indexes.segmentRefsByZone := data.indexes.segmentRefsByZone.remove zoneId
        indexes.segmentsByZone := data.indexes.segmentsByZone.remove zoneId }, observableChange)
    else
      let data := { data with
        indexes.segmentRefsByZone := data.indexes.segmentRefsByZone.insert zoneId refs }
      let data := if observableChange then rebuildZoneSegmentVector ord data zoneId else data
      (data, observableChange)

/-! ## Index reconstruction -/

/-- The router index of `rebuildIndexes`. -/
def routersByZoneOf (ord : Order) (components : Components) : HashMap ZoneId (List RouterId) :=
  let routersByZone : HashMap ZoneId (List RouterId) :=
    (ord.order .routers components.routers.entries).foldl
      (fun m e => m.upsert e.2.zoneId [] (· ++ [e.1])) .empty
  routersByZone.mapVal List.sort

/-- The bridge index of `rebuildIndexes`. -/
def bridgesByZoneShardOf (ord : Order) (components : Components) :
    HashMap ZoneId (HashMap ShardId (List BridgeId)) :=
  let bridgesByZoneShard : HashMap ZoneId (HashMap ShardId (List BridgeId)) :=
    (ord.order .bridges components.bridges.entries).foldl
      (fun m e => m.upsert e.2.zoneId .empty fun shards =>
        shards.upsert e.2.shardId [] (· ++ [e.1])) .empty
  bridgesByZoneShard.mapVal fun shards => shards.mapVal List.sort

/-- The node index of `rebuildIndexes`. -/
def nodesByShardOf (ord : Order) (components : Components) : HashMap ShardId (List NodeId) :=
  let nodesByShard : HashMap ShardId (List NodeId) :=
    (ord.order .nodes components.nodes.entries).foldl
      (fun m e => m.upsert e.2.shardId [] (· ++ [e.1])) .empty
  nodesByShard.mapVal List.sort

/-- The zone segment reference counts of `rebuildIndexes`. -/
def segmentRefsByZoneOf (ord : Order) (segments : SegmentStore) :
    HashMap ZoneId (HashMap Segment ℕ) :=
  (ord.order .byShard segments.byShard.entries).foldl
    (fun (m : HashMap ZoneId (HashMap Segment ℕ)) e => m.upsert e.2.zoneId .empty fun refs =>
      (ord.order (.loadedSegments e.1) e.2.segments.set.keys).foldl
        (fun refs segment => refs.upsert segment 0 (· + 1)) refs) .empty

/-- Rebuilds every derived index from authoritative state after startup. -/
def rebuildIndexes (ord : Order) (data : AppData) : AppData :=
  let data := { data with
    indexes := {
      routersByZone := routersByZoneOf ord data.components
      bridgesByZoneShard := bridgesByZoneShardOf ord data.components
      nodesByShard := nodesByShardOf ord data.components
      segmentRefsByZone := segmentRefsByZoneOf ord data.segments
      segmentsByZone := .empty } }
  (ord.order .segmentRefZones data.indexes.segmentRefsByZone.keys).foldl
    (rebuildZoneSegmentVector ord) data

end Rzid
