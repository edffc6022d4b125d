import Rzid.Codecs
import Rzid.Lib.Sections
import Rzid.Sequential

/-!
# The HTTP API

The handlers of `src/api.rs`, on requests as the router has matched them and the
extractors decoded them (`HttpRequest`), and with responses before they are encoded
(`Response`).

* `HttpRequest.handle` is what a handler makes of the service when nothing interferes, and
  its response. A registration is rejected by its kind or for want of a shard; a query
  is answered from the data; nothing else changes the service.
* `HttpRequest.code` is the section of a handler under the data lock, access by access: a
  query reads the version of a dataset and its content one after the other. On its own, it
  does what `handle` does (`eval_code`).

The counters that `track_metrics` maintains are the subject of `Rzid.Server`. The durations of
requests, the texts of the metrics and the responses that the web framework makes by itself,
other than their statuses, are left out.
-/

namespace Rzid

/-! ## Requests and responses -/

/-- Describes a component registration or heartbeat. -/
structure RegisterRequest where
  /-- "router", "bridge", or "node". -/
  kind : String
  id : String
  zone : String
  /-- Required for bridges and nodes. -/
  shard : Option String
  deriving DecidableEq

/-- Describes a shard's segment update. -/
structure UpdateSegmentsRequest where
  zone : String
  /-- Complete authoritative segment set for the shard. -/
  segments : List String
  deriving DecidableEq

/-- A request, with the route that it matches. -/
inductive HttpRequest
  | health
  | metrics
  | codecs
  | register (req : RegisterRequest)
  | versions
  | updateSegments (shardId : ShardId) (req : UpdateSegmentsRequest)
  | zoneRouters (zoneId : ZoneId)
  | zoneSegments (zoneId : ZoneId)
  | zoneShards (zoneId : ZoneId)
  | shardSegments (shardId : ShardId)
  | shardNodes (shardId : ShardId)
  /-- A request that reaches no handler: no route matches it, or its body is refused. -/
  | refused (path : String) (status : ℕ)
  deriving DecidableEq

structure ZoneRoutersResponse where
  version : Version
  routers : List String
  deriving DecidableEq

structure ZoneSegmentsResponse where
  version : Version
  segments : List String
  deriving DecidableEq

/-- Describes all bridges serving one shard. -/
structure ShardBridges where
  bridges : List String
  deriving DecidableEq

structure ZoneShardsResponse where
  version : Version
  shards : HashMap String ShardBridges
  deriving DecidableEq

structure ShardSegmentsResponse where
  version : Version
  zone : String
  segments : List String
  deriving DecidableEq

structure NodesResponse where
  version : Version
  nodes : List String
  deriving DecidableEq

structure CodecsResponse where
  rateFeatures : List String
  hash : ℕ
  deriving DecidableEq

/-- The body of a response. -/
inductive Body
  | empty
  | text (text : String)
  | metrics
  /-- `{"error": message}` -/
  | error (message : String)
  | codecs (response : CodecsResponse)
  | versions (manifest : VersionManifest)
  | zoneRouters (response : ZoneRoutersResponse)
  | zoneSegments (response : ZoneSegmentsResponse)
  | zoneShards (response : ZoneShardsResponse)
  | shardSegments (response : ShardSegmentsResponse)
  | shardNodes (response : NodesResponse)
  deriving DecidableEq

structure Response where
  status : ℕ
  body : Body
  deriving DecidableEq

namespace Response

/-- `StatusCode::OK` -/
def ok (body : Body) : Response := ⟨200, body⟩

/-- `StatusCode::BAD_REQUEST` -/
def badRequest (message : String) : Response := ⟨400, .error message⟩

/-- `StatusCode::NOT_FOUND` -/
def notFound (message : String) : Response := ⟨404, .error message⟩

end Response

/-! ## Responses to queries -/

/-- The response of `zone_shards_handler`, with every list of bridges wrapped. -/
def ZoneShardsResponse.new (version : Version) (shards : HashMap ShardId (List BridgeId)) :
    ZoneShardsResponse :=
  { version := version, shards := shards.mapVal fun bridges => { bridges := bridges } }

def shardSegmentsResponse : Option (Version × ZoneId × List Segment) → Response
  | some (version, zone, segments) =>
    .ok (.shardSegments { version := version, zone := zone, segments := segments })
  | none => .notFound "unknown shard"

def shardNodesResponse : Option (Version × List NodeId) → Response
  | some (version, nodes) => .ok (.shardNodes { version := version, nodes := nodes })
  | none => .notFound "unknown shard"

/-! ## Handlers -/

/-- The call that `register_handler` makes, or the message that it rejects the request
    with. -/
def RegisterRequest.call (req : RegisterRequest) : Except String Call :=
  match req.kind with
  | "router" => .ok (.registerRouter req.id req.zone)
  | "bridge" =>
    match req.shard with
    | none => .error "shard is required for bridge"
    | some shard => .ok (.registerBridge req.id shard req.zone)
  | "node" =>
    match req.shard with
    | none => .error "shard is required for node"
    | some shard => .ok (.registerNode req.id shard req.zone)
  | other => .error ("unknown registration kind: " ++ other)

/-- Registers a router, bridge, or node. -/
def registerHandler (ord : Order) (now : ℕ) (req : RegisterRequest) (state : AppState) :
    AppState × Response :=
  match req.call with
  | .ok call => (call.apply ord now state, .ok .empty)
  | .error message => (state, .badRequest message)

/-- Replaces the complete segment ownership of a shard. The response does not tell whether
    it has changed. -/
def updateSegmentsHandler (ord : Order) (now : ℕ) (shardId : ShardId)
    (req : UpdateSegmentsRequest) (state : AppState) : AppState × Response :=
  ((Call.updateSegments shardId req.zone req.segments).apply ord now state, .ok .empty)

/-- Returns every dataset version in one request. -/
def versionsHandler (data : AppData) : Response := .ok (.versions data.versionManifest)

/-- Returns the routers used by an edge router for a zone. -/
def zoneRoutersHandler (zoneId : ZoneId) (data : AppData) : Response :=
  let (version, routers) := data.zoneRouters zoneId
  .ok (.zoneRouters { version := version, routers := routers })

/-- Returns the complete zone segment set. -/
def zoneSegmentsHandler (zoneId : ZoneId) (data : AppData) : Response :=
  let (version, segments) := data.zoneSegments zoneId
  .ok (.zoneSegments { version := version, segments := segments })

/-- Returns the shard/bridge topology for a zone. -/
def zoneShardsHandler (zoneId : ZoneId) (data : AppData) : Response :=
  let (version, shards) := data.zoneShards zoneId
  .ok (.zoneShards (.new version shards))

/-- Returns one shard's authoritative segments. -/
def shardSegmentsHandler (shardId : ShardId) (data : AppData) : Response :=
  shardSegmentsResponse (data.shardSegments shardId)

/-- Returns the node membership for a shard. -/
def shardNodesHandler (shardId : ShardId) (data : AppData) : Response :=
  shardNodesResponse (data.shardNodes shardId)

def codecsHandler (codecs : Codecs) : Response :=
  .ok (.codecs { rateFeatures := codecs.rateFeatures, hash := codecs.hash })

namespace HttpRequest

/-- What a handler makes of the service, and its response. -/
def handle (codecs : Codecs) (ord : Order) (now : ℕ) (req : HttpRequest) (state : AppState) :
    AppState × Response :=
  match req with
  | health => (state, .ok (.text "OK"))
  | metrics => (state, .ok .metrics)
  | .codecs => (state, codecsHandler codecs)
  | register req => registerHandler ord now req state
  | versions => (state, versionsHandler state.data)
  | updateSegments shardId req => updateSegmentsHandler ord now shardId req state
  | zoneRouters zoneId => (state, zoneRoutersHandler zoneId state.data)
  | zoneSegments zoneId => (state, zoneSegmentsHandler zoneId state.data)
  | zoneShards zoneId => (state, zoneShardsHandler zoneId state.data)
  | shardSegments shardId => (state, shardSegmentsHandler shardId state.data)
  | shardNodes shardId => (state, shardNodesHandler shardId state.data)
  | refused _ status => (state, ⟨status, .empty⟩)

/-- The call that a request makes, if it makes one. -/
def call : HttpRequest → Option Call
  | register req => req.call.toOption
  | updateSegments shardId req => some (.updateSegments shardId req.zone req.segments)
  | _ => none

/-- The route of a request, as it is registered. -/
def endpoint : HttpRequest → String
  | health => "/health"
  | metrics => "/metrics"
  | codecs => "/codecs"
  | register _ => "/register"
  | versions => "/versions"
  | updateSegments _ _ => "/shards/{shard_id}/segments"
  | zoneRouters _ => "/zones/{zone_id}/routers"
  | zoneSegments _ => "/zones/{zone_id}/segments"
  | zoneShards _ => "/zones/{zone_id}/shards"
  | shardSegments _ => "/shards/{shard_id}/segments"
  | shardNodes _ => "/shards/{shard_id}/nodes"
  | refused path _ => path

/-- A request that makes a call has its effect, and any other has none. -/
theorem handle_fst (codecs : Codecs) (ord : Order) (now : ℕ) (req : HttpRequest)
    (state : AppState) :
    (req.handle codecs ord now state).1 =
      match req.call with
      | some call => call.apply ord now state
      | none => state := by
  cases req with
  | register req =>
    rw [handle, registerHandler, call]
    cases req.call <;> rfl
  | _ => rfl

end HttpRequest

/-! ## Sections -/

/-- The section of a handler that calls `call`: it changes the data. -/
def Call.code (ord : Order) (now : ℕ) (call : Call) : Sections.Code AppData Response :=
  .access (fun data => (call.exec ord now data).1) fun _ => .answer (.ok .empty)

/-- The section of a query: it reads the version under the key, and then the content. -/
def queryCode {α : Type} (key : String) (read : AppData → α) (response : Version → α → Response) :
    Sections.Code AppData Response :=
  .access id fun data => .access id fun data' =>
    .answer (response (getVersion data key) (read data'))

/-- The section of a query about a shard: it reads the content, and then, if there is some,
    the version under the key. -/
def shardCode {α : Type} (key : String) (read : AppData → Option α)
    (response : Option (Version × α) → Response) : Sections.Code AppData Response :=
  .access id fun data =>
    match read data with
    | none => .answer (response none)
    | some content =>
      .access id fun data' => .answer (response (some (getVersion data' key, content)))

namespace HttpRequest

/-- The section of a handler. A handler that does not take the data lock makes no access
    under it. -/
def code (codecs : Codecs) (ord : Order) (now : ℕ) : HttpRequest → Sections.Code AppData Response
  | health => .answer (.ok (.text "OK"))
  | metrics => .answer (.ok .metrics)
  | .codecs => .answer (codecsHandler codecs)
  | register req =>
    match req.call with
    | .ok call => call.code ord now
    | .error message => .answer (.badRequest message)
  | versions =>
    .access id fun data => .access id fun data' =>
      .answer (.ok (.versions
        { globalVersion := data.globalVersion, versions := data'.versions }))
  | updateSegments shardId req =>
    (Call.updateSegments shardId req.zone req.segments).code ord now
  | zoneRouters zoneId =>
    queryCode (zoneRoutersKey zoneId) (fun data => (data.indexes.routersByZone.get zoneId).getD [])
      fun version routers => .ok (.zoneRouters { version := version, routers := routers })
  | zoneSegments zoneId =>
    queryCode (zoneSegmentsKey zoneId)
      (fun data => (data.indexes.segmentsByZone.get zoneId).getD [])
      fun version segments => .ok (.zoneSegments { version := version, segments := segments })
  | zoneShards zoneId =>
    queryCode (zoneShardsKey zoneId)
      (fun data => (data.indexes.bridgesByZoneShard.get zoneId).getD .empty)
      fun version shards => .ok (.zoneShards (.new version shards))
  | shardSegments shardId =>
    shardCode (shardSegmentsKey shardId)
      (fun data => (data.segments.byShard.get shardId).map fun shard =>
        (shard.zoneId, shard.segments.sorted))
      shardSegmentsResponse
  | shardNodes shardId =>
    shardCode (shardNodesKey shardId) (fun data => data.indexes.nodesByShard.get shardId)
      shardNodesResponse
  | refused _ status => .answer ⟨status, .empty⟩

/-- The section of a request that makes no call changes nothing. -/
theorem reads_code (codecs : Codecs) (ord : Order) (now : ℕ) {req : HttpRequest}
    (h : req.call = none) : (req.code codecs ord now).Reads := by
  have hshard : ∀ {α : Type} (key : String) (read : AppData → Option α)
      (response : Option (Version × α) → Response), (shardCode key read response).Reads := by
    intro α key read response
    refine ⟨fun _ => rfl, fun data => ?_⟩
    dsimp only
    cases read data with
    | none => trivial
    | some content => exact ⟨fun _ => rfl, fun _ => trivial⟩
  cases req with
  | register req =>
    rw [code]
    cases hcall : req.call with
    | ok call =>
      rw [HttpRequest.call, hcall] at h
      cases h
    | error message => trivial
  | updateSegments shardId req => cases h
  | shardSegments shardId => exact hshard _ _ _
  | shardNodes shardId => exact hshard _ _ _
  | versions => exact ⟨fun _ => rfl, fun _ => ⟨fun _ => rfl, fun _ => trivial⟩⟩
  | zoneRouters zoneId => exact ⟨fun _ => rfl, fun _ => ⟨fun _ => rfl, fun _ => trivial⟩⟩
  | zoneSegments zoneId => exact ⟨fun _ => rfl, fun _ => ⟨fun _ => rfl, fun _ => trivial⟩⟩
  | zoneShards zoneId => exact ⟨fun _ => rfl, fun _ => ⟨fun _ => rfl, fun _ => trivial⟩⟩
  | _ => trivial

/-- On its own, the section of a handler makes of the data what the handler makes of it,
    and ends with its response. -/
theorem eval_code (codecs : Codecs) (ord : Order) (now : ℕ) (req : HttpRequest)
    (state : AppState) :
    (req.code codecs ord now).eval state.data =
      ((req.handle codecs ord now state).1.data, (req.handle codecs ord now state).2) := by
  cases req with
  | register req =>
    rw [code, handle, registerHandler]
    cases req.call with
    | ok call => exact Prod.ext (call_apply_spec ord now call state).1.symm rfl
    | error message => rfl
  | updateSegments shardId req => exact Prod.ext (call_apply_spec ord now _ state).1.symm rfl
  | shardSegments shardId =>
    simp only [code, shardCode, handle, shardSegmentsHandler, AppData.shardSegments,
      Sections.Code.eval]
    cases state.data.segments.byShard.get shardId <;> rfl
  | shardNodes shardId =>
    simp only [code, shardCode, handle, shardNodesHandler, AppData.shardNodes,
      Sections.Code.eval]
    cases state.data.indexes.nodesByShard.get shardId <;> rfl
  | _ => rfl

end HttpRequest

end Rzid
