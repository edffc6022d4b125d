import Mathlib.Data.Prod.Lex
import Rzid.Api

/-!
# Monitoring

The counters of `src/metrics.rs` over the life of a process (`Server`): those that the
service maintains, and those that `track_metrics` maintains around the handlers.

* The status of a response can be read off the records (`status_handle`): an error tells of a
  malformed registration, of a shard that the records do not know, or of a request that
  reaches no handler.
* After any run, every counter is the number of the events that it stands for, and what is
  counted for a shard, with the handlers dropped before they could count, is what its version
  has gone up by; and the state file is not written more often than the global version goes up
  (`metrics_exact`).

The gauges and the counter of expired components have their own modules.
-/

namespace Rzid

/-! ## Statuses -/

/-- The status that a request is answered with, read off the records. -/
def HttpRequest.status (data : AppData) : HttpRequest → ℕ
  | register req =>
    match req.call with
    | .ok _ => 200
    | .error _ => 400
  | shardSegments shardId => if shardId ∈ data.segments.byShard.keys then 200 else 404
  | shardNodes shardId =>
    if data.components.nodes.keysWhere (fun node => node.shardId = shardId) = [] then 404 else 200
  | refused _ status => status
  | _ => 200

theorem status_handle (codecs : Codecs) (ord : Order) (now : ℕ) (req : HttpRequest)
    {state : AppState} (hd : Indexed state.data) :
    (req.handle codecs ord now state).2.status = req.status state.data := by
  cases req with
  | register req =>
    rw [HttpRequest.handle, registerHandler, HttpRequest.status]
    cases req.call <;> rfl
  | shardSegments shardId =>
    rw [HttpRequest.handle, shardSegmentsHandler, AppData.shardSegments, HttpRequest.status]
    cases hget : state.data.segments.byShard.get shardId with
    | none =>
      rw [if_neg (HashMap.get_eq_none_iff.1 hget)]
      rfl
    | some shard =>
      rw [if_pos (HashMap.mem_keys_iff.2 ⟨shard, hget⟩)]
      rfl
  | shardNodes shardId =>
    -- A shard without nodes has no entry in the index.
    rw [HttpRequest.handle, shardNodesHandler, AppData.shardNodes, HttpRequest.status,
      hd.nodes shardId]
    split_ifs with h
    · rw [h]
      rfl
    · rw [List.nonEmpty_of_ne_nil h]
      rfl
  | _ => rfl

/-! ## Requests -/

/-- The counters of requests. -/
structure RequestMetrics where
  /-- By endpoint. -/
  requestsTotal : HashMap String ℕ
  /-- By endpoint and error. -/
  requestErrorsTotal : HashMap (String ×ₗ String) ℕ

def RequestMetrics.new : RequestMetrics := ⟨.empty, .empty⟩

/-- The error that a status is counted as, if it is one. -/
def errorType (status : ℕ) : Option String :=
  if status ≥ 400 then some (if status ≥ 500 then "server_error" else "client_error") else none

/-- Counts a request on the endpoint that is answered with the status. -/
def RequestMetrics.trackMetrics (path : String) (status : ℕ) (metrics : RequestMetrics) :
    RequestMetrics :=
  let metrics := { metrics with requestsTotal := metrics.requestsTotal.upsert path 0 (· + 1) }
  match errorType status with
  | some error =>
    { metrics with
      requestErrorsTotal := metrics.requestErrorsTotal.upsert (toLex (path, error)) 0 (· + 1) }
  | none => metrics

/-! ## The server -/

/-- A call whose handler is dropped where it last awaits a lock. If the call changes
    something, this is where it would set the dirty flag: the change is made, and neither
    flagged nor counted. Otherwise, the call has not begun. -/
def Call.drop (ord : Order) (now : ℕ) (call : Call) (state : AppState) : AppState :=
  match call.exec ord now state.data with
  | (data, true) => { state with data := data, metrics := state.metrics.refreshGauges data }
  | (_, false) => state

/-- The service with its state file, and the counters of requests. -/
structure Server (Bytes : Type) where
  process : Process Bytes
  requests : RequestMetrics

/-- Something that happens to the server. -/
inductive ServerEvent
  | request (env : Env) (req : HttpRequest)
  /-- The handler of a call is dropped, and so is what would count its request. -/
  | dropped (env : Env) (call : Call)
  | sweep (env : Env)
  /-- A tick of the background flusher. -/
  | flushTick (io : Bool)
  /-- The persist of the shutdown task. -/
  | shutdown (io : Bool)

variable {Bytes : Type} (codecs : Codecs) (json : Json Bytes)

namespace Server

/-- A start on a state file. -/
def start (ord : Order) (now : ℕ) (file : Option Bytes) (heartbeatTimeoutSecs : ℕ) :
    Server Bytes :=
  { process := .start json ord now file heartbeatTimeoutSecs, requests := .new }

/-- The effect of an event. -/
def apply (server : Server Bytes) : ServerEvent → Server Bytes
  | .request env req =>
    let (state, response) := req.handle codecs env.ord env.now server.process.state
    { process.state := state
      process.file := server.process.file
      requests := server.requests.trackMetrics req.endpoint response.status }
  | .dropped env call =>
    { server with process.state := call.drop env.ord env.now server.process.state }
  | .sweep env =>
    { server with
      process.state := server.process.state.sweepExpiredComponents env.ord env.now }
  | .flushTick io =>
    let (state, file) := server.process.state.flushTick json io server.process.file
    { server with process := { state := state, file := file } }
  | .shutdown io =>
    -- A failure is logged, but not counted.
    let (state, file, _) := server.process.state.persist json io server.process.file
    { server with process := { state := state, file := file } }

/-- The server after the given events, the latest one first. -/
def run (server : Server Bytes) : List ServerEvent → Server Bytes
  | [] => server
  | event :: events => (server.run events).apply codecs json event

/-- The number of events of a run that are such, in the server that they meet. -/
def count (server : Server Bytes) (p : Server Bytes → ServerEvent → Bool) :
    List ServerEvent → ℕ
  | [] => 0
  | event :: events =>
    server.count p events + if p (server.run codecs json events) event then 1 else 0

end Server

/-! ## What is counted -/

/-- The shard whose segments a call changes, if it changes some. -/
def Call.updates (data : AppData) : Call → Option ShardId
  | updateSegments shardId zoneId segments =>
    if data.segments.Identical shardId ⟨zoneId, .new segments⟩ then none else some shardId
  | _ => none

namespace ServerEvent

/-- The endpoint of a request. -/
def endpoint : ServerEvent → Option String
  | request _ req => some req.endpoint
  | _ => none

/-- The endpoint of a request that is answered with an error, and the error. -/
def error (data : AppData) : ServerEvent → Option (String ×ₗ String)
  | request _ req => (errorType (req.status data)).map fun error => toLex (req.endpoint, error)
  | _ => none

/-- The shard whose segments a request changes. -/
def updates (data : AppData) : ServerEvent → Option ShardId
  | request _ req => req.call.bind (Call.updates data)
  | _ => none

/-- The shard whose segments a handler changes before it is dropped. -/
def droppedUpdates (data : AppData) : ServerEvent → Option ShardId
  | dropped _ call => call.updates data
  | _ => none

/-- The event writes a state that is dirty or not. -/
def writes (dirty : Bool) : ServerEvent → Bool
  | flushTick io => dirty && io
  | shutdown io => dirty && io
  | _ => false

/-- The event is a tick of the flusher that fails to write. -/
def failsToWrite (dirty : Bool) : ServerEvent → Bool
  | flushTick io => dirty && !io
  | _ => false

/-- The operation of an event on a service with the timeout, if it makes one. -/
def op (data : AppData) (heartbeatTimeoutSecs : ℕ) : ServerEvent → Option (Op × Env)
  | request env req => req.call.map fun call => (.call call, env)
  | dropped env call =>
    if (call.exec env.ord env.now data).2 then some (.call call, env) else none
  | sweep env => some (.sweepExpiredComponents (timeoutMs heartbeatTimeoutSecs), env)
  | _ => none

/-- An operation of the event that reports a change comes to set the dirty flag. -/
def flags : ServerEvent → Bool
  | dropped _ _ => false
  | _ => true

end ServerEvent

/-- An event raises the global version of the data. -/
def Server.raises (server : Server Bytes) (event : ServerEvent) : Bool :=
  server.process.state.data.globalVersion <
    (server.apply codecs json event).process.state.data.globalVersion

/-! ## Counting -/

section Count

variable {codecs json} {server : Server Bytes}

/-- A number that goes up by one with certain events counts them. -/
theorem count_run {f : Server Bytes → ℕ} {p : Server Bytes → ServerEvent → Bool}
    {events : List ServerEvent}
    (h : ∀ events event, f ((server.run codecs json events).apply codecs json event) =
      f (server.run codecs json events) +
        if p (server.run codecs json events) event then 1 else 0) :
    f (server.run codecs json events) = f server + server.count codecs json p events := by
  induction events with
  | nil => rfl
  | cons event events ih => rw [Server.run, h, ih, Server.count, Nat.add_assoc]

/-- Counters that go up with the events of their keys count them. -/
theorem counts_run {K : Type} [LinearOrder K] {f : Server Bytes → HashMap K ℕ}
    {g : Server Bytes → ServerEvent → Option K} {events : List ServerEvent}
    (h : ∀ events event, f ((server.run codecs json events).apply codecs json event) =
      (g (server.run codecs json events) event).elim (f (server.run codecs json events))
        ((f (server.run codecs json events)).upsert · 0 (· + 1)))
    (hstart : f server = .empty) :
    (f (server.run codecs json events)).Counts fun k =>
      server.count codecs json (fun server event => g server event = some k) events := by
  induction events with
  | nil =>
    rw [Server.run, hstart]
    exact HashMap.counts_empty
  | cons event events ih =>
    rw [Server.run, h]
    cases hkey : g (server.run codecs json events) event with
    | none => exact ih.congr fun k => by simp [Server.count, hkey]
    | some k' => exact (ih.upsert k').congr fun k => by simp [Server.count, hkey, eq_comm]

end Count

/-! ## The counters after an event -/

section Apply

theorem segmentUpdatesTotal_call (ord : Order) (now : ℕ) (call : Call) (state : AppState) :
    (call.apply ord now state).metrics.segmentUpdatesTotal =
      (call.updates state.data).elim state.metrics.segmentUpdatesTotal
        (state.metrics.segmentUpdatesTotal.upsert · 0 (· + 1)) := by
  have hregistered : ∀ result : AppData × Bool,
      (state.registered result).metrics.segmentUpdatesTotal =
        state.metrics.segmentUpdatesTotal := by
    rintro ⟨data, _ | _⟩ <;> rfl
  cases call with
  | updateSegments shardId zoneId segments =>
    have hchanged := @updateSegments_changed state.data ord shardId zoneId segments
    rw [Call.apply, AppState.updateSegments, Call.updates]
    generalize state.data.updateSegments ord shardId zoneId segments = result at hchanged
    obtain ⟨data, _ | _⟩ := result
    · rw [if_pos (not_not.1 (mt hchanged.2 Bool.false_ne_true))]
      rfl
    · rw [if_neg (hchanged.1 rfl)]
      rfl
  | _ => exact hregistered _

/-- Calls and sweeps write nothing. -/
theorem jsonWrites_call (ord : Order) (now : ℕ) (call : Call) (state : AppState) :
    (call.apply ord now state).metrics.jsonWriteTotal = state.metrics.jsonWriteTotal ∧
      (call.apply ord now state).metrics.jsonWriteErrorsTotal =
        state.metrics.jsonWriteErrorsTotal := by
  have hregistered : ∀ result : AppData × Bool,
      (state.registered result).metrics.jsonWriteTotal = state.metrics.jsonWriteTotal ∧
        (state.registered result).metrics.jsonWriteErrorsTotal =
          state.metrics.jsonWriteErrorsTotal := by
    rintro ⟨data, _ | _⟩ <;> exact ⟨rfl, rfl⟩
  cases call with
  | updateSegments shardId zoneId segments =>
    rw [Call.apply, AppState.updateSegments]
    obtain ⟨data, _ | _⟩ := state.data.updateSegments ord shardId zoneId segments <;>
      exact ⟨rfl, rfl⟩
  | _ => exact hregistered _

theorem counters_drop (ord : Order) (now : ℕ) (call : Call) (state : AppState) :
    (call.drop ord now state).metrics.segmentUpdatesTotal = state.metrics.segmentUpdatesTotal ∧
      (call.drop ord now state).metrics.jsonWriteTotal = state.metrics.jsonWriteTotal ∧
      (call.drop ord now state).metrics.jsonWriteErrorsTotal =
        state.metrics.jsonWriteErrorsTotal := by
  rw [Call.drop]
  obtain ⟨data, _ | _⟩ := call.exec ord now state.data <;> exact ⟨rfl, rfl, rfl⟩

/-- A dropped handler makes of the data what its call would, if that changes something, and
    leaves the dirty flag alone. -/
theorem drop_spec (ord : Order) (now : ℕ) (call : Call) (state : AppState) :
    (call.drop ord now state).data =
        (if (call.exec ord now state.data).2 then (call.exec ord now state.data).1
          else state.data) ∧
      (call.drop ord now state).dirty = state.dirty := by
  rw [Call.drop]
  obtain ⟨data, _ | _⟩ := call.exec ord now state.data <;> exact ⟨rfl, rfl⟩

theorem counters_sweep (ord : Order) (now : ℕ) (state : AppState) :
    (state.sweepExpiredComponents ord now).metrics.segmentUpdatesTotal =
        state.metrics.segmentUpdatesTotal ∧
      (state.sweepExpiredComponents ord now).metrics.jsonWriteTotal =
        state.metrics.jsonWriteTotal ∧
      (state.sweepExpiredComponents ord now).metrics.jsonWriteErrorsTotal =
        state.metrics.jsonWriteErrorsTotal := by
  rw [AppState.sweepExpiredComponents]
  dsimp only
  split_ifs <;> exact ⟨rfl, rfl, rfl⟩

/-- A persist that succeeds on a dirty state is counted, and no other. -/
theorem persist_state (io : Bool) (state : AppState) (file : Option Bytes) :
    (state.persist json io file).1 =
      if state.dirty && io then
        { state with
          dirty := false
          metrics.jsonWriteTotal := state.metrics.jsonWriteTotal + 1 }
      else state := by
  rw [AppState.persist]
  cases state.dirty <;> cases io <;> rfl

/-- A tick of the flusher counts a failure as well. -/
theorem flushTick_state (io : Bool) (state : AppState) (file : Option Bytes) :
    (state.flushTick json io file).1 =
      if state.dirty && !io then
        { state with metrics.jsonWriteErrorsTotal := state.metrics.jsonWriteErrorsTotal + 1 }
      else (state.persist json io file).1 := by
  obtain ⟨data, secs, dirty, metrics⟩ := state
  cases dirty <;> cases io <;> rfl

variable {codecs json} (server : Server Bytes)

/-- A request makes of the service what its call makes of it. -/
theorem state_request (env : Env) (req : HttpRequest) :
    (server.apply codecs json (.request env req)).process.state =
      match req.call with
      | some call => call.apply env.ord env.now server.process.state
      | none => server.process.state := req.handle_fst codecs env.ord env.now _

theorem segmentUpdatesTotal_apply (event : ServerEvent) :
    (server.apply codecs json event).process.state.metrics.segmentUpdatesTotal =
      (event.updates server.process.state.data).elim
        server.process.state.metrics.segmentUpdatesTotal
        (server.process.state.metrics.segmentUpdatesTotal.upsert · 0 (· + 1)) := by
  cases event with
  | request env req =>
    rw [state_request, ServerEvent.updates]
    cases req.call with
    | none => rfl
    | some call => exact segmentUpdatesTotal_call env.ord env.now call server.process.state
  | dropped env call => exact (counters_drop env.ord env.now call server.process.state).1
  | sweep env => exact (counters_sweep env.ord env.now server.process.state).1
  | flushTick io =>
    dsimp only [Server.apply, ServerEvent.updates]
    rw [flushTick_state, persist_state]
    split_ifs <;> rfl
  | shutdown io =>
    dsimp only [Server.apply, ServerEvent.updates]
    rw [persist_state]
    split_ifs <;> rfl

theorem jsonWrites_apply (event : ServerEvent) :
    (server.apply codecs json event).process.state.metrics.jsonWriteTotal =
        server.process.state.metrics.jsonWriteTotal +
          (if event.writes server.process.state.dirty then 1 else 0) ∧
      (server.apply codecs json event).process.state.metrics.jsonWriteErrorsTotal =
        server.process.state.metrics.jsonWriteErrorsTotal +
          (if event.failsToWrite server.process.state.dirty then 1 else 0) := by
  cases event with
  | request env req =>
    rw [state_request]
    cases req.call with
    | none => exact ⟨rfl, rfl⟩
    | some call => exact jsonWrites_call env.ord env.now call server.process.state
  | dropped env call => exact (counters_drop env.ord env.now call server.process.state).2
  | sweep env => exact (counters_sweep env.ord env.now server.process.state).2
  | flushTick io =>
    dsimp only [Server.apply, ServerEvent.writes, ServerEvent.failsToWrite]
    rw [flushTick_state, persist_state]
    cases server.process.state.dirty <;> cases io <;> exact ⟨rfl, rfl⟩
  | shutdown io =>
    dsimp only [Server.apply, ServerEvent.writes, ServerEvent.failsToWrite]
    rw [persist_state]
    cases server.process.state.dirty <;> cases io <;> exact ⟨rfl, rfl⟩

variable (codecs json) in
/-- An event changes the data by its operation, if it makes one. A change sets the dirty
    flag, unless its handler is dropped, and a write clears it. -/
theorem data_apply (event : ServerEvent) :
    match event.op server.process.state.data server.process.state.heartbeatTimeoutSecs with
    | some (op, env) =>
      (server.apply codecs json event).process.state.data =
          (op.exec env.ord env.now server.process.state.data).1 ∧
        (server.apply codecs json event).process.state.dirty =
          (server.process.state.dirty ||
            event.flags && (op.exec env.ord env.now server.process.state.data).2)
    | none =>
      (server.apply codecs json event).process.state.data = server.process.state.data ∧
        (server.apply codecs json event).process.state.dirty =
          (server.process.state.dirty && !event.writes server.process.state.dirty) := by
  cases event with
  | request env req =>
    rw [state_request, ServerEvent.op]
    cases req.call with
    | none => exact ⟨rfl, (Bool.and_true _).symm⟩
    | some call =>
      obtain ⟨hdata, hdirty, _⟩ := call_apply_spec env.ord env.now call server.process.state
      exact ⟨hdata, hdirty⟩
  | dropped env call =>
    rw [ServerEvent.op]
    obtain ⟨hdata, hdirty⟩ := drop_spec env.ord env.now call server.process.state
    dsimp only [Server.apply, ServerEvent.flags, ServerEvent.writes]
    rw [hdata, hdirty]
    split_ifs with hchanged
    · exact ⟨rfl, (Bool.or_false _).symm⟩
    · exact ⟨rfl, (Bool.and_true _).symm⟩
  | sweep env =>
    obtain ⟨hdata, hdirty, _⟩ := sweep_apply_spec env.ord env.now server.process.state
    exact ⟨hdata, hdirty⟩
  | flushTick io =>
    obtain ⟨⟨⟨data, secs, dirty, metrics⟩, file⟩, requests⟩ := server
    cases dirty <;> cases io <;> exact ⟨rfl, rfl⟩
  | shutdown io =>
    obtain ⟨⟨⟨data, secs, dirty, metrics⟩, file⟩, requests⟩ := server
    cases dirty <;> cases io <;> exact ⟨rfl, rfl⟩

theorem indexed_server (hd : Indexed server.process.state.data) (event : ServerEvent) :
    Indexed (server.apply codecs json event).process.state.data := by
  have hdata := data_apply codecs json server event
  cases hop : event.op server.process.state.data server.process.state.heartbeatTimeoutSecs with
  | none =>
    rw [hop] at hdata
    exact hdata.1.symm ▸ hd
  | some o =>
    rw [hop] at hdata
    exact hdata.1.symm ▸ indexed_exec o.2.ord o.2.now o.1 hd

/-! ## Versions and writes -/

/-- Among the versions of the segments of shards, a call raises that of the shard whose
    segments it changes. -/
theorem count_bumps_call (call : Call) (data : AppData) (shardId : ShardId) :
    (call.bumps data).count (.shardSegments shardId) =
      if call.updates data = some shardId then 1 else 0 := by
  have hmap : ∀ {f : String → Dataset} {l : List String},
      (∀ x, f x ≠ .shardSegments shardId) → (l.map f).count (.shardSegments shardId) = 0 := by
    intro f l hf
    refine List.count_eq_zero.2 fun hmem => ?_
    obtain ⟨x, _, hx⟩ := List.mem_map.1 hmem
    exact hf x hx
  cases call with
  | updateSegments s zoneId segments =>
    rw [Call.bumps, Call.updates, updateBumps]
    split_ifs with hid h h
    · cases h
    · rfl
    · rw [Option.some.inj h, List.count_cons_self, hmap (by simp)]
    · rw [List.count_cons_of_ne (by simpa using h), hmap (by simp)]
  | registerRouter id zoneId =>
    refine List.count_eq_zero.2 fun hmem => ?_
    dsimp only [Call.bumps, routerBumps] at hmem
    split_ifs at hmem <;> simp at hmem
  | registerBridge id s zoneId =>
    refine List.count_eq_zero.2 fun hmem => ?_
    dsimp only [Call.bumps, bridgeBumps] at hmem
    split_ifs at hmem <;> simp at hmem
  | registerNode id s zoneId =>
    refine List.count_eq_zero.2 fun hmem => ?_
    dsimp only [Call.bumps, nodeBumps] at hmem
    split_ifs at hmem <;> simp at hmem

/-- A call that reports no change changes no segments. -/
theorem updates_eq_none {call : Call} {data : AppData} {ord : Order} {now : ℕ}
    (h : (call.exec ord now data).2 = false) : call.updates data = none := by
  cases call with
  | updateSegments shardId zoneId segments =>
    have hchanged := @updateSegments_changed data ord shardId zoneId segments
    rw [Call.updates, if_pos (not_not.1 (mt hchanged.2 (Bool.eq_false_iff.1 h)))]
  | _ => rfl

/-- The version of a shard's segments goes up by a request that changes them, and by a dropped
    handler that has. -/
theorem version_apply (hd : Indexed server.process.state.data) (event : ServerEvent)
    (shardId : ShardId) :
    (server.apply codecs json event).process.state.data.version (.shardSegments shardId) =
      server.process.state.data.version (.shardSegments shardId) +
        (if event.updates server.process.state.data = some shardId then 1 else 0) +
          if event.droppedUpdates server.process.state.data = some shardId then 1 else 0 := by
  have hdata := data_apply codecs json server event
  cases event with
  | request env req =>
    rw [ServerEvent.op] at hdata
    rw [ServerEvent.updates]
    cases hcall : req.call with
    | none =>
      rw [hcall] at hdata
      rw [hdata.1]
      rfl
    | some call =>
      rw [hcall] at hdata
      rw [hdata.1, version_exec env.ord env.now (.call call) hd]
      exact congrArg _ (count_bumps_call call _ shardId)
  | dropped env call =>
    rw [ServerEvent.op] at hdata
    rw [ServerEvent.droppedUpdates]
    split_ifs at hdata with hchanged
    · rw [hdata.1, version_exec env.ord env.now (.call call) hd]
      exact congrArg _ (count_bumps_call call _ shardId)
    · rw [hdata.1, updates_eq_none (Bool.eq_false_iff.2 hchanged)]
      rfl
  | sweep env =>
    rw [hdata.1, version_exec env.ord env.now _ hd]
    refine congrArg _ (List.count_eq_zero.2 ?_)
    simp [Op.bumps, sweepBumps]
  | flushTick io =>
    rw [hdata.1]
    rfl
  | shutdown io =>
    rw [hdata.1]
    rfl

/-- What makes an operation writes nothing. -/
theorem writes_eq_false {event : ServerEvent} {data : AppData} {secs : ℕ}
    (h : event.op data secs ≠ none) (dirty : Bool) : event.writes dirty = false := by
  cases event with
  | flushTick io => exact absurd rfl h
  | shutdown io => exact absurd rfl h
  | _ => rfl

theorem dirty_of_writes {event : ServerEvent} {dirty : Bool} (h : event.writes dirty = true) :
    dirty = true := by
  cases event with
  | flushTick io => exact (Bool.and_eq_true_iff.1 h).1
  | shutdown io => exact (Bool.and_eq_true_iff.1 h).1
  | _ => cases h

/-- A reported change raises the global version. -/
theorem globalVersion_lt_of_reported {data : AppData} (hd : Indexed data) {ord : Order} {now : ℕ}
    {op : Op} (h : (op.exec ord now data).2 = true) :
    data.globalVersion < (op.exec ord now data).1.globalVersion := by
  rw [(exec_effect ord now op hd).bumped.globalVersion]
  exact Nat.lt_add_of_pos_right (List.length_pos_iff.2 ((exec_changed ord now op).1 h))

/-- A dirty state counts for a write that is still to come. Only an event that raises the
    global version makes this sum grow. -/
theorem writes_apply (hd : Indexed server.process.state.data) (event : ServerEvent) :
    (server.apply codecs json event).process.state.metrics.jsonWriteTotal +
        (server.apply codecs json event).process.state.dirty.toNat ≤
      server.process.state.metrics.jsonWriteTotal + server.process.state.dirty.toNat +
        if server.raises codecs json event then 1 else 0 := by
  have hdata := data_apply codecs json server event
  rw [(jsonWrites_apply server event).1, Server.raises]
  cases hop : event.op server.process.state.data server.process.state.heartbeatTimeoutSecs with
  | none =>
    rw [hop] at hdata
    rw [hdata.2]
    refine le_trans (le_of_eq ?_) (Nat.le_add_right _ _)
    cases hwrites : event.writes server.process.state.dirty with
    | false => simp
    | true => simp [dirty_of_writes hwrites]
  | some o =>
    rw [hop] at hdata
    rw [hdata.1, hdata.2, writes_eq_false (hop ▸ Option.some_ne_none o)]
    cases hchanged : (o.1.exec o.2.ord o.2.now server.process.state.data).2 with
    | false => simp
    | true =>
      rw [decide_eq_true (globalVersion_lt_of_reported hd hchanged)]
      cases event.flags <;> simp

/-! ### Requests -/

theorem requestsTotal_apply (event : ServerEvent) :
    (server.apply codecs json event).requests.requestsTotal =
      event.endpoint.elim server.requests.requestsTotal
        (server.requests.requestsTotal.upsert · 0 (· + 1)) := by
  cases event with
  | request env req =>
    dsimp only [Server.apply, RequestMetrics.trackMetrics, ServerEvent.endpoint]
    cases errorType (req.handle codecs env.ord env.now server.process.state).2.status <;> rfl
  | _ => rfl

theorem requestErrorsTotal_apply (hd : Indexed server.process.state.data) (event : ServerEvent) :
    (server.apply codecs json event).requests.requestErrorsTotal =
      (event.error server.process.state.data).elim server.requests.requestErrorsTotal
        (server.requests.requestErrorsTotal.upsert · 0 (· + 1)) := by
  cases event with
  | request env req =>
    dsimp only [Server.apply, RequestMetrics.trackMetrics, ServerEvent.error]
    rw [status_handle codecs env.ord env.now req hd]
    cases errorType (req.status server.process.state.data) <;> rfl
  | _ => rfl

end Apply

/-! ## Runs -/

theorem indexed_server_run (ord : Order) (now : ℕ) (file : Option Bytes) (secs : ℕ)
    (events : List ServerEvent) :
    Indexed ((Server.start json ord now file secs).run codecs json events).process.state.data := by
  induction events with
  | nil => exact indexed_load ord now _
  | cons event events ih => exact indexed_server _ ih event

theorem writes_run (ord : Order) (now : ℕ) (file : Option Bytes) (secs : ℕ)
    (events : List ServerEvent) :
    let start := Server.start json ord now file secs
    let state := (start.run codecs json events).process.state
    state.metrics.jsonWriteTotal + state.dirty.toNat ≤
      start.count codecs json (Server.raises codecs json) events := by
  intro start state
  induction events with
  | nil => exact le_rfl
  | cons event events ih =>
    have hd := indexed_server_run codecs json ord now file secs events
    exact (writes_apply _ hd event).trans (Nat.add_le_add_right ih _)

/-- The version of a shard's segments counts the requests that change them, and the dropped
    handlers that have. -/
theorem version_run (ord : Order) (now : ℕ) (file : Option Bytes) (secs : ℕ)
    (events : List ServerEvent) (shardId : ShardId) :
    let start := Server.start json ord now file secs
    let count := fun p => start.count codecs json p events
    (start.run codecs json events).process.state.data.version (.shardSegments shardId) =
      start.process.state.data.version (.shardSegments shardId) +
        (count fun server event => event.updates server.process.state.data = some shardId) +
          count fun server event =>
            event.droppedUpdates server.process.state.data = some shardId := by
  dsimp only
  induction events with
  | nil => rfl
  | cons event events ih =>
    have hd := indexed_server_run codecs json ord now file secs events
    rw [Server.run, version_apply _ hd event shardId, ih]
    simp only [Server.count, decide_eq_true_eq]
    ac_rfl

/-- After any run of a process, the counters of requests, of errors and of segment updates
    hold, for every label, the number of events of the run that they stand for. The version
    of a shard's segments has gone up by what is counted for the shard, and once more for every
    handler that has changed them and was dropped. The counters of writes hold the number of
    successful ones, and of ticks of the flusher that have failed; and the state file is
    written at most as often as the global version goes up. -/
theorem metrics_exact (ord : Order) (now : ℕ) (file : Option Bytes) (secs : ℕ)
    (events : List ServerEvent) :
    let start := Server.start json ord now file secs
    let server := start.run codecs json events
    let count := fun p => start.count codecs json p events
    let metrics := server.process.state.metrics
    (server.requests.requestsTotal.Counts fun path =>
        count fun _ event => event.endpoint = some path) ∧
      (server.requests.requestErrorsTotal.Counts fun label =>
        count fun server event => event.error server.process.state.data = some label) ∧
      (metrics.segmentUpdatesTotal.Counts fun shardId =>
        count fun server event => event.updates server.process.state.data = some shardId) ∧
      (∀ shardId, server.process.state.data.version (.shardSegments shardId) =
        start.process.state.data.version (.shardSegments shardId) +
          (metrics.segmentUpdatesTotal.get shardId).getD 0 +
            count fun server event =>
              event.droppedUpdates server.process.state.data = some shardId) ∧
      metrics.jsonWriteTotal =
        count (fun server event => event.writes server.process.state.dirty) ∧
      metrics.jsonWriteErrorsTotal =
        count (fun server event => event.failsToWrite server.process.state.dirty) ∧
      metrics.jsonWriteTotal ≤ count (Server.raises codecs json) := by
  intro start server count metrics
  have hindexed := indexed_server_run codecs json ord now file secs
  have hupdates : metrics.segmentUpdatesTotal.Counts fun shardId =>
      count fun server event => event.updates server.process.state.data = some shardId :=
    counts_run (f := fun server => server.process.state.metrics.segmentUpdatesTotal)
      (fun _ => segmentUpdatesTotal_apply _) rfl
  refine ⟨?_, ?_, hupdates, fun shardId => ?_, ?_, ?_, ?_⟩
  · exact counts_run (f := fun server => server.requests.requestsTotal)
      (fun _ => requestsTotal_apply _) rfl
  · exact counts_run (f := fun server => server.requests.requestErrorsTotal)
      (fun events => requestErrorsTotal_apply _ (hindexed events)) rfl
  · rw [hupdates shardId, getD_nonZero]
    exact version_run codecs json ord now file secs events shardId
  · exact (count_run (f := fun server => server.process.state.metrics.jsonWriteTotal)
      fun _ event => (jsonWrites_apply _ event).1).trans (Nat.zero_add _)
  · exact (count_run (f := fun server => server.process.state.metrics.jsonWriteErrorsTotal)
      fun _ event => (jsonWrites_apply _ event).2).trans (Nat.zero_add _)
  · exact (Nat.le_add_right _ _).trans (writes_run codecs json ord now file secs events)

end Rzid
