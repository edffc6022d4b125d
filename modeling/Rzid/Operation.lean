import Rzid.Register
import Rzid.Segments
import Rzid.Sweep

/-!
# Operations

The operations that change the directory, as types: the calls of the clients
(`Call`), and these together with the sweep (`Op`). What they have in common is
that an operation has its effect on the records (`Op.components`, `Op.segments`),
and a list of datasets that it bumps (`Op.bumps`):

* the state after it has these records and these bumps, and is indexed
  (`exec_effect`);
* a dataset that it does not bump is published unchanged (`exec_agree`);
* it marks the state dirty if and only if it bumps something (`exec_changed`).

Neither the order in which the hash tables are iterated over nor the indexes have
a part in this.
-/

namespace Rzid

/-- A call of a client that changes the directory. -/
inductive Call
  | registerRouter (id : RouterId) (zoneId : ZoneId)
  | registerBridge (id : BridgeId) (shardId : ShardId) (zoneId : ZoneId)
  | registerNode (id : NodeId) (shardId : ShardId) (zoneId : ZoneId)
  | updateSegments (shardId : ShardId) (zoneId : ZoneId) (segments : List Segment)
  deriving DecidableEq

namespace Call

/-- The locked part of a call with the clock reading `now`, and whether it marks
    the state dirty after it (for an update, this is also what it returns). -/
def exec (ord : Order) (now : ℕ) : Call → AppData → AppData × Bool
  | registerRouter id zoneId => AppData.registerRouter ord now id zoneId
  | registerBridge id shardId zoneId => AppData.registerBridge ord now id shardId zoneId
  | registerNode id shardId zoneId => AppData.registerNode ord now id shardId zoneId
  | updateSegments shardId zoneId segments => AppData.updateSegments ord shardId zoneId segments

/-- What a call makes of the component records. -/
def components (now : ℕ) (call : Call) (components : Components) : Components :=
  match call with
  | registerRouter id zoneId =>
    { components with
      routers := components.routers.insert id { zoneId := zoneId, lastSeenMs := now } }
  | registerBridge id shardId zoneId =>
    { components with
      bridges := components.bridges.insert id
        { shardId := shardId, zoneId := zoneId, lastSeenMs := now } }
  | registerNode id shardId zoneId =>
    { components with
      nodes := components.nodes.insert id
        { shardId := shardId, zoneId := zoneId, lastSeenMs := now } }
  | updateSegments _ _ _ => components

/-- What a call makes of the segment ownership. -/
def segments (call : Call) (segments : SegmentStore) : SegmentStore :=
  match call with
  | updateSegments shardId zoneId new => segments.update shardId ⟨zoneId, .new new⟩
  | _ => segments

/-- The datasets that a call bumps. -/
def bumps (call : Call) (data : AppData) : List Dataset :=
  match call with
  | registerRouter id zoneId => routerBumps (data.directory.routers id) zoneId
  | registerBridge id shardId zoneId => bridgeBumps (data.directory.bridges id) shardId zoneId
  | registerNode id shardId _ => nodeBumps (data.directory.nodes id) shardId
  | updateSegments shardId zoneId new => updateBumps data.segments shardId ⟨zoneId, .new new⟩

end Call

/-- An operation: a call, or a sweep with a timeout. -/
inductive Op
  | call (call : Call)
  | sweepExpiredComponents (timeoutMs : ℕ)
  deriving DecidableEq

namespace Op

/-- The locked part of an operation with the clock reading `now`, and whether it
    marks the state dirty after it. -/
def exec (ord : Order) (now : ℕ) : Op → AppData → AppData × Bool
  | .call c => c.exec ord now
  | .sweepExpiredComponents timeoutMs => fun data =>
    let (data, removed) := data.sweepExpiredComponents ord now timeoutMs
    (data, removed > 0)

/-- What an operation makes of the component records. -/
def components (now : ℕ) (op : Op) (components : Components) : Components :=
  match op with
  | .call c => c.components now components
  | .sweepExpiredComponents timeoutMs => components.retain now timeoutMs

/-- What an operation makes of the segment ownership. -/
def segments (op : Op) (segments : SegmentStore) : SegmentStore :=
  match op with
  | .call c => c.segments segments
  | .sweepExpiredComponents _ => segments

/-- The datasets that an operation bumps. -/
def bumps (now : ℕ) (op : Op) (data : AppData) : List Dataset :=
  match op with
  | .call c => c.bumps data
  | .sweepExpiredComponents timeoutMs => sweepBumps now timeoutMs data.components

end Op

variable {data : AppData} (ord : Order) (now : ℕ) (op : Op)

theorem exec_effect (hd : Indexed data) :
    Effect data (op.exec ord now data).1 (op.components now data.components)
      (op.segments data.segments) (op.bumps now data) := by
  cases op with
  | call call =>
    cases call with
    | registerRouter id zoneId => exact registerRouter_effect hd id zoneId
    | registerBridge id shardId zoneId => exact registerBridge_effect hd id shardId zoneId
    | registerNode id shardId zoneId => exact registerNode_effect hd id shardId zoneId
    | updateSegments shardId zoneId new => exact updateSegments_effect hd shardId zoneId new
  | sweepExpiredComponents timeoutMs => exact sweepExpiredComponents_effect hd ord now timeoutMs

theorem indexed_exec (hd : Indexed data) : Indexed (op.exec ord now data).1 :=
  (exec_effect ord now op hd).indexed

/-- The component records after a call. -/
theorem components_call (call : Call) (hd : Indexed data) :
    (call.exec ord now data).1.components = call.components now data.components :=
  (exec_effect ord now (.call call) hd).components

/-- The directory after an operation. -/
theorem directory_exec (hd : Indexed data) :
    (op.exec ord now data).1.directory =
      directoryOf (op.components now data.components) (op.segments data.segments) := by
  rw [AppData.directory, (exec_effect ord now op hd).components,
    (exec_effect ord now op hd).segments]

/-- The version of a dataset goes up by the number of its bumps. -/
theorem version_exec (hd : Indexed data) (ds : Dataset) :
    (op.exec ord now data).1.version ds = data.version ds + (op.bumps now data).count ds :=
  (exec_effect ord now op hd).bumped.version ds

/-- A dataset that an operation does not bump is published unchanged. -/
theorem exec_agree (hd : Indexed data) {ds : Dataset} (h : ds ∉ op.bumps now data) :
    data.directory.Agree (op.exec ord now data).1.directory ds := by
  rw [directory_exec ord now op hd]
  cases op with
  | call call =>
    cases call with
    | registerRouter id zoneId => exact agree_registerRouter h
    | registerBridge id shardId zoneId => exact agree_registerBridge h
    | registerNode id shardId zoneId => exact agree_registerNode h
    | updateSegments shardId zoneId new => exact agree_updateSegments h
  | sweepExpiredComponents timeoutMs => exact agree_sweepExpiredComponents h

/-- A call marks the state dirty if and only if it bumps a dataset. -/
theorem call_changed (call : Call) : (call.exec ord now data).2 = true ↔ call.bumps data ≠ [] := by
  cases call with
  | registerRouter id zoneId =>
    refine (registerRouter_changed id zoneId).trans ?_
    simp [Call.bumps, routerBumps]
  | registerBridge id shardId zoneId =>
    refine (registerBridge_changed id shardId zoneId).trans ?_
    simp [Call.bumps, bridgeBumps]
  | registerNode id shardId zoneId =>
    refine (registerNode_changed id shardId zoneId).trans ?_
    simp [Call.bumps, nodeBumps]
  | updateSegments shardId zoneId new =>
    refine (updateSegments_changed shardId zoneId new).trans ?_
    simp [Call.bumps, updateBumps]

/-- An operation marks the state dirty if and only if it bumps a dataset. -/
theorem exec_changed : (op.exec ord now data).2 = true ↔ op.bumps now data ≠ [] := by
  cases op with
  | call call => exact call_changed ord now call
  | sweepExpiredComponents timeoutMs =>
    rw [Op.bumps, ← sweepExpiredComponents_removed ord now timeoutMs]
    exact decide_eq_true_iff

end Rzid
