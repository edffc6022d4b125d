import Rzid.State

/-!
# The service

`AppState` with its data, dirty flag and metrics, and the operations run one
after the other: every mutator changes the data under the data lock and then
marks the state dirty, and `AppState.persist` writes the state file and clears
the flag. The interleavings of their steps are the subject of
`Rzid.Concurrent`.
-/

namespace Rzid

/-- The metrics the operations maintain (gauges and counters as exact numbers). -/
structure Metrics where
  registeredRouters : ℕ
  registeredBridges : ℕ
  registeredNodes : ℕ
  registeredZones : ℕ
  heartbeatTimeoutTotal : ℕ
  segmentUpdatesTotal : HashMap ShardId ℕ
  jsonWriteTotal : ℕ
  jsonWriteErrorsTotal : ℕ
  deriving DecidableEq

def Metrics.new : Metrics := ⟨0, 0, 0, 0, 0, .empty, 0, 0⟩

/-- Sets the component gauges. -/
def Metrics.updateComponentGauges (metrics : Metrics) (routers bridges nodes zones : ℕ) :
    Metrics :=
  { metrics with
    registeredRouters := routers
    registeredBridges := bridges
    registeredNodes := nodes
    registeredZones := zones }

/-- The component gauges as every operation computes them from the data. -/
def Metrics.refreshGauges (metrics : Metrics) (data : AppData) : Metrics :=
  metrics.updateComponentGauges data.components.routers.len data.components.bridges.len
    data.components.nodes.len data.indexes.routersByZone.len

/-- The source of truth: the locked data, the dirty flag, and the metrics of the
    process. -/
structure AppState where
  data : AppData
  /-- Components older than this are removed by the background sweep. -/
  heartbeatTimeoutSecs : ℕ
  dirty : Bool
  metrics : Metrics
  deriving DecidableEq

/-- `heartbeat_timeout.as_millis() as u64`. -/
def timeoutMs (heartbeatTimeoutSecs : ℕ) : ℕ := heartbeatTimeoutSecs * 1000 % 2 ^ 64

namespace AppState

/-- Loads persisted authoritative state and rebuilds all derived indexes. -/
def new {Bytes : Type} (json : Json Bytes) (ord : Order) (now : ℕ) (file : Option Bytes)
    (heartbeatTimeoutSecs : ℕ) : AppState :=
  let data := AppData.new json ord now file
  { data := data
    heartbeatTimeoutSecs := heartbeatTimeoutSecs
    dirty := false
    metrics := Metrics.new.refreshGauges data }

/-- Marks state dirty so the background persistence task will flush it. -/
def markDirty (state : AppState) : AppState := { state with dirty := true }

/-- Returns whether persistence is currently required. -/
def isDirty (state : AppState) : Bool := state.dirty

/-- The tail shared by the registrations: after a change of topology, the gauges
    are refreshed and the state is marked dirty. -/
def registered (state : AppState) : AppData × Bool → AppState
  | (data, true) =>
    { state with data := data, metrics := state.metrics.refreshGauges data }.markDirty
  | (data, false) => { state with data := data }

def registerRouter (ord : Order) (now : ℕ) (id : RouterId) (zoneId : ZoneId)
    (state : AppState) : AppState :=
  state.registered (state.data.registerRouter ord now id zoneId)

def registerBridge (ord : Order) (now : ℕ) (id : BridgeId) (shardId : ShardId)
    (zoneId : ZoneId) (state : AppState) : AppState :=
  state.registered (state.data.registerBridge ord now id shardId zoneId)

def registerNode (ord : Order) (now : ℕ) (id : NodeId) (shardId : ShardId)
    (zoneId : ZoneId) (state : AppState) : AppState :=
  state.registered (state.data.registerNode ord now id shardId zoneId)

/-- Replaces a shard's segment ownership; whether it changed. -/
def updateSegments (ord : Order) (shardId : ShardId) (zoneId : ZoneId)
    (segments : List Segment) (state : AppState) : AppState × Bool :=
  match state.data.updateSegments ord shardId zoneId segments with
  | (data, false) => ({ state with data := data }, false)
  | (data, true) =>
    let state :=
      { state with data := data, metrics := state.metrics.refreshGauges data }.markDirty
    ({ state with
      metrics.segmentUpdatesTotal :=
        state.metrics.segmentUpdatesTotal.upsert shardId 0 (· + 1) }, true)

/-- Removes expired components, counting the affected zones and shards. -/
def sweepExpiredComponents (ord : Order) (now : ℕ) (state : AppState) : AppState :=
  let (data, removed) :=
    state.data.sweepExpiredComponents ord now (timeoutMs state.heartbeatTimeoutSecs)
  let state := { state with data := data, metrics := state.metrics.refreshGauges data }
  -- What is counted are zones and shards, not components.
  if removed > 0 then
    { state.markDirty with
      metrics.heartbeatTimeoutTotal := state.metrics.heartbeatTimeoutTotal + removed }
  else state

/-- Persists authoritative state and clears dirty state only after a successful
    write: the new state, the new content of the state file, and whether the persist
    succeeded. The atomic write succeeds if `io` holds. -/
def persist {Bytes : Type} (json : Json Bytes) (io : Bool) (state : AppState)
    (file : Option Bytes) : AppState × Option Bytes × Bool :=
  if state.dirty then
    if io then
      ({ state with
        dirty := false
        metrics.jsonWriteTotal := state.metrics.jsonWriteTotal + 1 },
        some (json.toVecPretty state.data.snapshot), true)
    -- The flag stays set, for the next persist to try again.
    else (state, file, false)
  else (state, file, true)

/-- A tick of the background flusher: it persists a dirty state, and counts a
    failure. -/
def flushTick {Bytes : Type} (json : Json Bytes) (io : Bool) (state : AppState)
    (file : Option Bytes) : AppState × Option Bytes :=
  if state.isDirty then
    match state.persist json io file with
    | (state, file, true) => (state, file)
    | (state, file, false) =>
      ({ state with metrics.jsonWriteErrorsTotal := state.metrics.jsonWriteErrorsTotal + 1 },
        file)
  else (state, file)

end AppState

end Rzid
