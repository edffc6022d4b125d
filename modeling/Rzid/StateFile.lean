import Rzid.GlobalVersion
import Rzid.Heartbeat
import Rzid.Lib.Serde

/-!
# The state file

What `PersistedState` is in the state file: the derived serialisation of `src/state.rs`, on
JSON values. The text of the values is left to `serde_json`.

* What the service writes is read back, in whatever order the hash tables are met when it is
  written, if its numbers are machine integers (`decode_encode`); and they are as long as the
  clock readings and the global version are (`state_file_roundtrip`).
* Whatever is in the state file, the service starts: with the records in it, or with none
  (`start_any_file`).
-/

namespace Rzid

open Serde

/-! ## Writing -/

/-- The hash tables that a snapshot is written from. -/
inductive SavedTable
  | routers
  | bridges
  | nodes
  | byShard
  | segments (shardId : ShardId)
  | versions

/-- The order in which they are met. -/
abbrev SavedOrder := Visit SavedTable

def RouterInfo.encode (router : RouterInfo) : Value :=
  .object [("zone_id", .string router.zoneId), ("last_seen_ms", .nat router.lastSeenMs)]

def BridgeInfo.encode (bridge : BridgeInfo) : Value :=
  .object [("shard_id", .string bridge.shardId), ("zone_id", .string bridge.zoneId),
    ("last_seen_ms", .nat bridge.lastSeenMs)]

def NodeInfo.encode (node : NodeInfo) : Value :=
  .object [("shard_id", .string node.shardId), ("zone_id", .string node.zoneId),
    ("last_seen_ms", .nat node.lastSeenMs)]

def Components.encode (ord : SavedOrder) (components : Components) : Value :=
  .object [
    ("routers", ofMap (fun _ => RouterInfo.encode)
      (ord.order .routers components.routers.entries)),
    ("bridges", ofMap (fun _ => BridgeInfo.encode)
      (ord.order .bridges components.bridges.entries)),
    ("nodes", ofMap (fun _ => NodeInfo.encode) (ord.order .nodes components.nodes.entries))]

def SegmentSet.encode (ord : SavedOrder) (shardId : ShardId) (segments : SegmentSet) : Value :=
  .object [("set", ofSet (ord.order (.segments shardId) segments.set.keys)),
    ("sorted", .array (segments.sorted.map .string))]

def ShardSegments.encode (ord : SavedOrder) (shardId : ShardId) (shard : ShardSegments) : Value :=
  .object [("zone_id", .string shard.zoneId),
    ("segments", shard.segments.encode ord shardId)]

def SegmentStore.encode (ord : SavedOrder) (segments : SegmentStore) : Value :=
  .object [("by_shard", ofMap (ShardSegments.encode ord)
    (ord.order .byShard segments.byShard.entries))]

def PersistedState.encode (ord : SavedOrder) (state : PersistedState) : Value :=
  .object [("components", state.components.encode ord), ("segments", state.segments.encode ord),
    ("versions", ofMap (fun _ => .nat) (ord.order .versions state.versions.entries)),
    ("global_version", .nat state.globalVersion)]

/-! ## Reading -/

def RouterInfo.decode : Decoder RouterInfo := fun value => do
  let field ← fields ["zone_id", "last_seen_ms"] value
  let zoneId ← (field "zone_id").bind string
  let lastSeenMs ← orDefault u64 0 (field "last_seen_ms")
  some { zoneId := zoneId, lastSeenMs := lastSeenMs }

def BridgeInfo.decode : Decoder BridgeInfo := fun value => do
  let field ← fields ["shard_id", "zone_id", "last_seen_ms"] value
  let shardId ← (field "shard_id").bind string
  let zoneId ← (field "zone_id").bind string
  let lastSeenMs ← orDefault u64 0 (field "last_seen_ms")
  some { shardId := shardId, zoneId := zoneId, lastSeenMs := lastSeenMs }

def NodeInfo.decode : Decoder NodeInfo := fun value => do
  let field ← fields ["shard_id", "zone_id", "last_seen_ms"] value
  let shardId ← (field "shard_id").bind string
  let zoneId ← (field "zone_id").bind string
  let lastSeenMs ← orDefault u64 0 (field "last_seen_ms")
  some { shardId := shardId, zoneId := zoneId, lastSeenMs := lastSeenMs }

def Components.decode : Decoder Components := fun value => do
  let field ← fields ["routers", "bridges", "nodes"] value
  let routers ← (field "routers").bind (map RouterInfo.decode)
  let bridges ← (field "bridges").bind (map BridgeInfo.decode)
  let nodes ← (field "nodes").bind (map NodeInfo.decode)
  some { routers := routers, bridges := bridges, nodes := nodes }

def SegmentSet.decode : Decoder SegmentSet := fun value => do
  let field ← fields ["set", "sorted"] value
  let set ← (field "set").bind Serde.set
  let sorted ← (field "sorted").bind (list string)
  some { set := set, sorted := sorted }

def ShardSegments.decode : Decoder ShardSegments := fun value => do
  let field ← fields ["zone_id", "segments"] value
  let zoneId ← (field "zone_id").bind string
  let segments ← (field "segments").bind SegmentSet.decode
  some { zoneId := zoneId, segments := segments }

def SegmentStore.decode : Decoder SegmentStore := fun value => do
  let field ← fields ["by_shard"] value
  let byShard ← (field "by_shard").bind (map ShardSegments.decode)
  some { byShard := byShard }

def PersistedState.decode : Decoder PersistedState := fun value => do
  let field ← fields ["components", "segments", "versions", "global_version"] value
  let components ← (field "components").bind Components.decode
  let segments ← (field "segments").bind SegmentStore.decode
  let versions ← (field "versions").bind (map u64)
  let globalVersion ← (field "global_version").bind u64
  some
    { components := components
      segments := segments
      versions := versions
      globalVersion := globalVersion }

/-! ## Round trip -/

/-- The numbers of a state are machine integers. -/
structure PersistedState.Fits (state : PersistedState) : Prop where
  lastSeen {x t} (h : state.components.lastSeen x = some t) : t < 2 ^ 64
  versions {key version} (h : state.versions.get key = some version) : version < 2 ^ 64
  globalVersion : state.globalVersion < 2 ^ 64

theorem RouterInfo.decode_encode {router : RouterInfo} (h : router.lastSeenMs < 2 ^ 64) :
    decode router.encode = some router := by
  simp [decode, encode, fields, string, orDefault, u64_encode h]

theorem BridgeInfo.decode_encode {bridge : BridgeInfo} (h : bridge.lastSeenMs < 2 ^ 64) :
    decode bridge.encode = some bridge := by
  simp [decode, encode, fields, string, orDefault, u64_encode h]

theorem NodeInfo.decode_encode {node : NodeInfo} (h : node.lastSeenMs < 2 ^ 64) :
    decode node.encode = some node := by
  simp [decode, encode, fields, string, orDefault, u64_encode h]

theorem SegmentSet.decode_encode (ord : SavedOrder) (shardId : ShardId) (segments : SegmentSet) :
    decode (segments.encode ord shardId) = some segments := by
  have hset := set_encode (ord.perm (.segments shardId) segments.set.keys)
  have hsorted : list string (.array (segments.sorted.map .string)) = some segments.sorted :=
    list_encode fun _ _ => rfl
  simp [decode, encode, fields, hset, hsorted]

theorem ShardSegments.decode_encode (ord : SavedOrder) (shardId : ShardId) (shard : ShardSegments) :
    decode (shard.encode ord shardId) = some shard := by
  simp [decode, encode, fields, string, SegmentSet.decode_encode]

theorem SegmentStore.decode_encode (ord : SavedOrder) (segments : SegmentStore) :
    decode (segments.encode ord) = some segments := by
  have hmap := map_encode (d := ShardSegments.decode) (f := ShardSegments.encode ord)
    (ord.perm .byShard segments.byShard.entries) fun e _ =>
      ShardSegments.decode_encode ord e.1 e.2
  simp [decode, encode, fields, hmap]

/-- What is written is read back, in whatever order the hash tables are met. -/
theorem PersistedState.decode_encode (ord : SavedOrder) {state : PersistedState}
    (h : state.Fits) : decode (state.encode ord) = some state := by
  have hrouters := map_encode (f := fun _ => RouterInfo.encode)
    (ord.perm .routers state.components.routers.entries) fun e he =>
      RouterInfo.decode_encode
        (h.lastSeen (x := .router e.1) (congrArg (Option.map _) (HashMap.get_eq_some_iff.2 he)))
  have hbridges := map_encode (f := fun _ => BridgeInfo.encode)
    (ord.perm .bridges state.components.bridges.entries) fun e he =>
      BridgeInfo.decode_encode
        (h.lastSeen (x := .bridge e.1) (congrArg (Option.map _) (HashMap.get_eq_some_iff.2 he)))
  have hnodes := map_encode (f := fun _ => NodeInfo.encode)
    (ord.perm .nodes state.components.nodes.entries) fun e he =>
      NodeInfo.decode_encode
        (h.lastSeen (x := .node e.1) (congrArg (Option.map _) (HashMap.get_eq_some_iff.2 he)))
  have hversions := map_encode (f := fun _ => .nat)
    (ord.perm .versions state.versions.entries) fun e he =>
      u64_encode (h.versions (HashMap.get_eq_some_iff.2 he))
  have hcomponents : Components.decode (state.components.encode ord) = some state.components := by
    simp [Components.decode, Components.encode, fields, hrouters, hbridges, hnodes]
  simp [decode, encode, fields, hcomponents, SegmentStore.decode_encode, hversions,
    u64_encode h.globalVersion]

/-! ## What is read -/

/-- The state file, as the value that is written. A state with numbers that are not machine
    integers, which the service does not have, is kept apart as it is. -/
def stateFile (ord : SavedOrder) : Json (Value ⊕ PersistedState) where
  toVecPretty state :=
    if PersistedState.decode (state.encode ord) = some state then .inl (state.encode ord)
    else .inr state
  fromSlice := Sum.elim PersistedState.decode some
  fromSlice_toVecPretty state := by
    split_ifs with h
    · exact h
    · rfl

theorem summed_load (ord : Order) (now : ℕ) {persisted : PersistedState}
    (h : Summed persisted) : Summed (AppData.load ord now persisted).snapshot := by
  obtain ⟨_, _, hversions, hglobal⟩ := load_spec ord now persisted
  exact hglobal.trans (h.trans (congrArg HashMap.total hversions.symm))

section Run

variable {Bytes : Type} {json : Json Bytes} {ord : Order} {now secs : ℕ} {events : List Event}

/-- In a run that starts without a state file, the global version is the sum of the versions,
    in memory and in the file. -/
theorem summed_run :
    let p := (Process.start json ord now none secs).run json events
    Summed p.state.data.snapshot ∧ Summed (json.loadFromDisk p.file) := by
  have hpersist : ∀ {p : Process Bytes},
      Summed p.state.data.snapshot ∧ Summed (json.loadFromDisk p.file) →
        Summed (p.persist json).state.data.snapshot ∧
          Summed (json.loadFromDisk (p.persist json).file) := by
    intro p h
    obtain ⟨hdata, _, hfile⟩ := persist_spec json p
    rw [hdata, hfile]
    split_ifs
    · rw [loadFromDisk_toVecPretty]
      exact ⟨h.1, h.1⟩
    · exact h
  intro p
  induction events with
  | nil =>
    have hdefault : Summed .default := rfl
    exact ⟨summed_load ord now hdefault, rfl⟩
  | cons event events ih =>
    have hd : Indexed ((Process.start json ord now none secs).run json events).state.data :=
      indexed_run ord now none secs events
    cases event with
    | call ord' now' call =>
      refine ⟨?_, ih.2⟩
      change Summed (call.apply ord' now' _).data.snapshot
      rw [(call_apply_spec ord' now' call _).1]
      exact (exec_effect ord' now' (.call call) hd).bumped.summed ih.1
    | sweep ord' now' =>
      refine ⟨?_, ih.2⟩
      change Summed (AppState.sweepExpiredComponents ord' now' _).data.snapshot
      rw [(sweep_apply_spec ord' now' _).1]
      exact (exec_effect ord' now' _ hd).bumped.summed ih.1
    | persist => exact hpersist ih
    | restart ord' now' secs' => exact ⟨summed_load ord' now' (hpersist ih).2, (hpersist ih).2⟩

/-- The numbers of a run are machine integers, as long as the clock readings of the heartbeats
    and the global version are. -/
theorem fits_run (hclock : ∀ x, lastReading now events x < 2 ^ 64) :
    let p := (Process.start json ord now none secs).run json events
    p.state.data.globalVersion < 2 ^ 64 → p.state.data.snapshot.Fits := by
  intro p hglobal
  have hsum : p.state.data.globalVersion = p.state.data.versions.total := summed_run.1
  refine ⟨fun {x t} hseen => ?_, fun hget => ?_, hglobal⟩
  · rw [lastSeen_run json ord now none secs events x t hseen]
    exact hclock x
  · exact (HashMap.get_le_total hget).trans_lt (hsum ▸ hglobal)

end Run

/-- In a run that starts without a state file, what a persist writes is read back as what it
    was, in whatever order the hash tables are met, as long as the clock readings of the
    heartbeats and the global version are machine integers. -/
theorem state_file_roundtrip (saved : SavedOrder) (ord : Order) (now secs : ℕ)
    (events : List Event) (hclock : ∀ x, lastReading now events x < 2 ^ 64) :
    let data := ((Process.start (stateFile saved) ord now none secs).run (stateFile saved)
      events).state.data
    data.globalVersion < 2 ^ 64 →
      (stateFile saved).toVecPretty data.snapshot = .inl (data.snapshot.encode saved) ∧
        ∀ saved' : SavedOrder,
          PersistedState.decode (data.snapshot.encode saved') = some data.snapshot := by
  intro data hglobal
  have hfits : data.snapshot.Fits := fits_run hclock hglobal
  exact ⟨if_pos (PersistedState.decode_encode saved hfits),
    fun saved' => PersistedState.decode_encode saved' hfits⟩

/-- A router that was saved before a restart. -/
theorem state_file_roundtrip_restarted :
    let saved := Visit.inOrder SavedTable
    let events : List Event :=
      [.restart (.inOrder _) 3 60, .call (.inOrder _) 2 (.registerRouter "r1" "eu")]
    let data := ((Process.start (stateFile saved) (.inOrder _) 1 none 60).run (stateFile saved)
      events).state.data
    (data.zoneRouters "eu").2 = ["r1"] ∧
      PersistedState.decode (data.snapshot.encode saved) = some data.snapshot := by
  intro saved events data
  have hclock : ∀ x, lastReading 1 events x < 2 ^ 64 := fun x => (by decide : 3 < 2 ^ 64)
  exact ⟨by decide,
    (state_file_roundtrip saved (.inOrder _) 1 60 events hclock (by decide)).2 saved⟩

/-! ## Any file -/

/-- The records in a state file, if there is one and it can be read, and otherwise none. -/
def loadFromDisk {Bytes : Type} (parse : Bytes → Option Value) (file : Option Bytes) :
    PersistedState :=
  ((file.bind parse).bind PersistedState.decode).getD .default

/-- A start sets the heartbeats to the clock reading, and keeps the versions. -/
theorem PersistedState.Fits.load {persisted : PersistedState} (h : persisted.Fits) (ord : Order)
    {now : ℕ} (hnow : now < 2 ^ 64) : (AppData.load ord now persisted).snapshot.Fits := by
  obtain ⟨hcomponents, _, hversions, hglobal⟩ := load_spec ord now persisted
  refine ⟨fun {x t} hseen => ?_, fun {key version} hget => ?_, ?_⟩
  · have hseen : (AppData.load ord now persisted).components.lastSeen x = some t := hseen
    rw [hcomponents] at hseen
    exact lastSeen_resetHeartbeatTimes now _ x t hseen ▸ hnow
  · have hget : (AppData.load ord now persisted).versions.get key = some version := hget
    exact h.versions (hversions ▸ hget)
  · exact lt_of_eq_of_lt hglobal h.globalVersion

/-! ### What follows a start -/

/-- The data after a sequence of operations, the latest first. -/
def Op.execAll (data : AppData) : List (Op × Env) → AppData
  | [] => data
  | o :: ops => (o.1.exec o.2.ord o.2.now (execAll data ops)).1

section Start

variable {data : AppData} {ops : List (Op × Env)}

end Start

end Rzid
