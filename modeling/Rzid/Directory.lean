import Rzid.Lib.Counter
import Rzid.State

/-!
# The directory

What the service is for, apart from how it stores it: a directory of who is
registered where (`Directory`), published as independently fetchable datasets
(`Dataset`).

* `AppData.directory` is the directory the authoritative records stand for. It
  forgets heartbeats, versions and indexes.
* `Directory.Agree` says that two directories publish the same dataset.
* `AppData.content` and `AppData.version` are the dataset as the queries answer
  it: its content (everything but the version), and its version, under its key
  in the manifest. Keys of different datasets are different (`key_injective`).
-/

namespace Rzid

/-- A directory: the place of every registered component, and the segment
    ownership of every shard. -/
@[ext] structure Directory where
  routers : RouterId → Option ZoneId
  bridges : BridgeId → Option (ShardId × ZoneId)
  nodes : NodeId → Option (ShardId × ZoneId)
  segments : ShardId → Option ShardSegments

/-- An independently fetchable dataset. -/
inductive Dataset
  | zoneRouters (zoneId : ZoneId)
  | zoneShards (zoneId : ZoneId)
  | zoneSegments (zoneId : ZoneId)
  | shardSegments (shardId : ShardId)
  | shardNodes (shardId : ShardId)
  deriving DecidableEq

/-- The key of a dataset in the version manifest. -/
def Dataset.key : Dataset → String
  | .zoneRouters zoneId => zoneRoutersKey zoneId
  | .zoneShards zoneId => zoneShardsKey zoneId
  | .zoneSegments zoneId => zoneSegmentsKey zoneId
  | .shardSegments shardId => shardSegmentsKey shardId
  | .shardNodes shardId => shardNodesKey shardId

/-- Different datasets have different keys, whatever their ids contain: the
    prefix tells zones from shards, and the end of the suffix the kinds. -/
theorem Dataset.key_injective : Function.Injective Dataset.key := by
  intro a b h
  have hprefix := congrArg String.toList h
  have hsuffix := congrArg (fun s : String => s.toList.reverse) h
  cases a <;> cases b <;>
    simp [key, zoneRoutersKey, zoneShardsKey, zoneSegmentsKey, shardSegmentsKey, shardNodesKey,
      String.toList_append, String.toList_inj] at hprefix hsuffix ⊢ <;>
    exact hprefix

namespace Directory

variable (dir dir' dir'' : Directory)

/-- The routers of a zone. -/
def zoneRouters (zoneId : ZoneId) : Set RouterId := {id | dir.routers id = some zoneId}

/-- The bridges of a shard in a zone. -/
def zoneBridges (zoneId : ZoneId) (shardId : ShardId) : Set BridgeId :=
  {id | dir.bridges id = some (shardId, zoneId)}

/-- The segments owned anywhere in a zone. -/
def zoneSegments (zoneId : ZoneId) : Set Segment :=
  {segment | ∃ shardId shard, dir.segments shardId = some shard ∧ shard.zoneId = zoneId ∧
    segment ∈ shard.segments.set.keys}

/-- The nodes of a shard. -/
def shardNodes (shardId : ShardId) : Set NodeId :=
  {id | ∃ zoneId, dir.nodes id = some (shardId, zoneId)}

/-- The two directories publish the same dataset. -/
def Agree : Dataset → Prop
  | .zoneRouters zoneId => dir.zoneRouters zoneId = dir'.zoneRouters zoneId
  | .zoneShards zoneId =>
    ∀ shardId, dir.zoneBridges zoneId shardId = dir'.zoneBridges zoneId shardId
  | .zoneSegments zoneId => dir.zoneSegments zoneId = dir'.zoneSegments zoneId
  | .shardSegments shardId => dir.segments shardId = dir'.segments shardId
  | .shardNodes shardId => dir.shardNodes shardId = dir'.shardNodes shardId

variable {dir dir' dir''}

theorem Agree.refl (ds : Dataset) : dir.Agree dir ds := by
  cases ds <;> simp [Agree]

theorem Agree.trans {ds : Dataset} (h : dir.Agree dir' ds) (h' : dir'.Agree dir'' ds) :
    dir.Agree dir'' ds := by
  cases ds with
  | zoneShards zoneId => exact fun s => (h s).trans (h' s)
  | _ => exact Eq.trans h h'

/-- The datasets determine the directory, apart from the zones of nodes. -/
theorem ext_agree (h : ∀ ds, dir.Agree dir' ds)
    (hzone : ∀ id, (dir.nodes id).map Prod.snd = (dir'.nodes id).map Prod.snd) : dir = dir' := by
  refine Directory.ext (funext fun id => Option.ext fun z => ?_)
    (funext fun id => Option.ext fun p => ?_) (funext fun id => ?_)
    (funext fun s => h (.shardSegments s))
  · exact Set.ext_iff.1 (h (.zoneRouters z)) id
  · exact Set.ext_iff.1 (h (.zoneShards p.2) p.1) id
  · have hshard : ∀ s, (∃ z, dir.nodes id = some (s, z)) ↔ ∃ z, dir'.nodes id = some (s, z) :=
      fun s => Set.ext_iff.1 (h (.shardNodes s)) id
    have hz := hzone id
    cases hn : dir.nodes id with
    | none =>
      rw [hn] at hz
      exact (Option.map_eq_none_iff.1 hz.symm).symm
    | some p =>
      obtain ⟨z, hz'⟩ := (hshard p.1).1 ⟨p.2, hn⟩
      rw [hn, hz', Option.map_some, Option.map_some, Option.some_inj] at hz
      have hz : p.2 = z := hz
      rw [hz', ← hz]

end Directory

/-- The directory that records stand for. -/
def directoryOf (components : Components) (segments : SegmentStore) : Directory where
  routers id := (components.routers.get id).map fun r => r.zoneId
  bridges id := (components.bridges.get id).map fun b => (b.shardId, b.zoneId)
  nodes id := (components.nodes.get id).map fun n => (n.shardId, n.zoneId)
  segments id := segments.byShard.get id

theorem mem_shardNodes {components : Components} {segments : SegmentStore} {shardId : ShardId}
    {id : NodeId} :
    id ∈ (directoryOf components segments).shardNodes shardId ↔
      (components.nodes.get id).map NodeInfo.shardId = some shardId := by
  simp [Directory.shardNodes, directoryOf]

/-- The directory that a state stands for. -/
def AppData.directory (data : AppData) : Directory := directoryOf data.components data.segments

/-- The directory that a snapshot stands for. -/
def PersistedState.directory (persisted : PersistedState) : Directory :=
  directoryOf persisted.components persisted.segments

/-- `l` lists the elements of `ids` in strictly ascending order. -/
def Lists (l : List String) (ids : Set String) : Prop := l.SortedLT ∧ ∀ id, id ∈ l ↔ id ∈ ids

/-- `l?` lists the elements of `ids`, and is `none` if there are none. -/
def ListsAny (l? : Option (List String)) (ids : Set String) : Prop :=
  (l? = none ↔ ids = ∅) ∧ ∀ l, l? = some l → Lists l ids

theorem Lists.nonEmpty {l : List String} {ids : Set String} (h : Lists l ids) :
    ListsAny l.nonEmpty ids := by
  refine ⟨?_, fun l' hl' => (List.nonEmpty_eq_some_iff.1 hl').1 ▸ h⟩
  rw [List.nonEmpty_eq_none_iff, List.eq_nil_iff_forall_not_mem, Set.eq_empty_iff_forall_notMem]
  exact forall_congr' fun id => not_congr (h.2 id)

/-- There is one list of the elements of `ids`. -/
theorem Lists.unique {l l' : List String} {ids : Set String} (h : Lists l ids)
    (h' : Lists l' ids) : l = l' :=
  h.1.eq_of_mem_iff h'.1 fun id => (h.2 id).trans (h'.2 id).symm

theorem ListsAny.unique {l? l'? : Option (List String)} {ids : Set String}
    (h : ListsAny l? ids) (h' : ListsAny l'? ids) : l? = l'? := by
  cases hl : l? with
  | none => exact (h'.1.2 (h.1.1 hl)).symm
  | some l =>
    cases hl' : l'? with
    | none => rw [h.1.2 (h'.1.1 hl')] at hl; cases hl
    | some l' => rw [(h.2 l hl).unique (h'.2 l' hl')]

/-! ## Datasets as the queries answer them -/

/-- What a query answers, apart from the version. -/
inductive Content
  | routers (routers : List RouterId)
  | shards (shards : HashMap ShardId (List BridgeId))
  | segments (segments : List Segment)
  | ownership (ownership : Option (ZoneId × List Segment))
  | nodes (nodes : Option (List NodeId))
  deriving DecidableEq

/-- The content of a dataset, as its query answers it. -/
def AppData.content (data : AppData) : Dataset → Content
  | .zoneRouters zoneId => .routers (data.zoneRouters zoneId).2
  | .zoneShards zoneId => .shards (data.zoneShards zoneId).2
  | .zoneSegments zoneId => .segments (data.zoneSegments zoneId).2
  | .shardSegments shardId => .ownership ((data.shardSegments shardId).map Prod.snd)
  | .shardNodes shardId => .nodes ((data.shardNodes shardId).map Prod.snd)

/-- The version of a dataset: `0` if it is absent from the manifest. -/
def AppData.version (data : AppData) (ds : Dataset) : Version := getVersion data ds.key

end Rzid
