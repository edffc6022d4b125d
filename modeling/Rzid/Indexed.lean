import Rzid.Directory

/-!
# The indexes of a state

A state is indexed (`Indexed`) if its derived indexes are those of its records:
every list of components is the ascending list of those registered there, with
no entry for an empty list; the reference count of a segment in a zone is the
number of shards of the zone that own it; and the segment vector of a zone lists
the counted segments.

The reference-count map and the segment vectors may or may not have an entry for
a zone whose shards own no segment: `Indexed` does not tell, as the queries do
not. This is where a state and its reloaded copy can differ.

* The functions that rebuild one entry of an index set it right and touch
  nothing else (`rebuildZoneRouters_spec` and so on).
* Whatever records are loaded, the state built from them is indexed
  (`indexed_load`).
* The queries of indexed states agree as soon as the directories do
  (`content_eq_of_agree`).
-/

namespace Rzid

/-- The shards of a zone that own a segment. -/
def SegmentStore.owners (segments : SegmentStore) (zoneId : ZoneId) (segment : Segment) :
    List ShardId :=
  segments.byShard.keysWhere fun shard =>
    shard.zoneId = zoneId ∧ segment ∈ shard.segments.set.keys

/-- A segment of a zone is owned by a shard of the zone. -/
theorem SegmentStore.owners_ne_nil_iff {segments : SegmentStore} {zoneId : ZoneId}
    {segment : Segment} :
    segments.owners zoneId segment ≠ [] ↔
      ∃ shardId shard, segments.byShard.get shardId = some shard ∧ shard.zoneId = zoneId ∧
        segment ∈ shard.segments.set.keys := by
  rw [owners, ne_eq, HashMap.keysWhere_eq_nil_iff]
  push Not
  simp

/-- The router index is that of `routers`. -/
def RoutersIndexed (routers : HashMap RouterId RouterInfo)
    (routersByZone : HashMap ZoneId (List RouterId)) : Prop :=
  ∀ zoneId, routersByZone.get zoneId = (routers.keysWhere fun r => r.zoneId = zoneId).nonEmpty

/-- The bridge index is that of `bridges`. -/
def BridgesIndexed (bridges : HashMap BridgeId BridgeInfo)
    (bridgesByZoneShard : HashMap ZoneId (HashMap ShardId (List BridgeId))) : Prop :=
  ∀ zoneId shardId, ((bridgesByZoneShard.get zoneId).getD .empty).get shardId =
    (bridges.keysWhere fun b => b.zoneId = zoneId ∧ b.shardId = shardId).nonEmpty

/-- The node index is that of `nodes`. -/
def NodesIndexed (nodes : HashMap NodeId NodeInfo)
    (nodesByShard : HashMap ShardId (List NodeId)) : Prop :=
  ∀ shardId, nodesByShard.get shardId = (nodes.keysWhere fun n => n.shardId = shardId).nonEmpty

/-- The reference counts and segment vectors are those of `segments`. -/
structure SegmentsIndexed (segments : SegmentStore)
    (segmentRefsByZone : HashMap ZoneId (HashMap Segment ℕ))
    (segmentsByZone : HashMap ZoneId (List Segment)) : Prop where
  refs (zoneId : ZoneId) : ((segmentRefsByZone.get zoneId).getD .empty).Counts
    fun segment => (segments.owners zoneId segment).length
  vectors (zoneId : ZoneId) :
    (segmentsByZone.get zoneId).getD [] = ((segmentRefsByZone.get zoneId).getD .empty).keys

/-- The derived indexes of the state are those of its records. -/
structure Indexed (data : AppData) : Prop where
  routers : RoutersIndexed data.components.routers data.indexes.routersByZone
  bridges : BridgesIndexed data.components.bridges data.indexes.bridgesByZoneShard
  nodes : NodesIndexed data.components.nodes data.indexes.nodesByShard
  segments : SegmentsIndexed data.segments data.indexes.segmentRefsByZone
    data.indexes.segmentsByZone

/-! ## Rebuilding one entry -/

theorem get_setList {K α : Type} [LinearOrder K] (m : HashMap K (List α)) (k a : K)
    (l : List α) :
    (if l.isEmpty then m.remove k else m.insert k l).get a =
      if a = k then l.nonEmpty else m.get a := by
  cases l with
  | nil => simp [HashMap.get_remove]
  | cons b l => simp [HashMap.get_insert]

theorem rebuildZoneRouters_spec (ord : Order) (data : AppData) (zoneId : ZoneId) :
    ∃ routersByZone : HashMap ZoneId (List RouterId),
      rebuildZoneRouters ord data zoneId =
        { data with indexes.routersByZone := routersByZone } ∧
      ∀ z, routersByZone.get z =
        if z = zoneId then (data.components.routers.keysWhere fun r => r.zoneId = z).nonEmpty
        else data.indexes.routersByZone.get z := by
  refine ⟨_, rfl, fun z => ?_⟩
  rw [get_setList,
    HashMap.sort_visit_keysWhere ord .routers fun r : RouterInfo => r.zoneId = zoneId]
  split_ifs with h
  · rw [h]
  · rfl

theorem rebuildShardNodes_spec (ord : Order) (data : AppData) (shardId : ShardId) :
    ∃ nodesByShard : HashMap ShardId (List NodeId),
      rebuildShardNodes ord data shardId = { data with indexes.nodesByShard := nodesByShard } ∧
      ∀ s, nodesByShard.get s =
        if s = shardId then (data.components.nodes.keysWhere fun n => n.shardId = s).nonEmpty
        else data.indexes.nodesByShard.get s := by
  refine ⟨_, rfl, fun s => ?_⟩
  rw [get_setList, HashMap.sort_visit_keysWhere ord .nodes fun n : NodeInfo => n.shardId = shardId]
  split_ifs with h
  · rw [h]
  · rfl

theorem map_sort_nonEmpty {α : Type} [LinearOrder α] (l : List α) :
    l.nonEmpty.map List.sort = l.sort.nonEmpty := by
  cases h : l with
  | nil => rfl
  | cons a l' => rw [← h, List.nonEmpty_of_ne_nil, List.nonEmpty_of_ne_nil] <;> simp [h]

/-- The lists of keys of a table, filed under a property of their values by a
    loop of pushes and then sorted. -/
theorem get_filed {V : Type} (ord : Order) (table : Table) (m : HashMap String V)
    (p : V → Bool) (place : V → String) (k : String) :
    ((((ord.order table m.entries).filter fun e => p e.2).foldl
      (fun (lists : HashMap String (List String)) e =>
        lists.upsert (place e.2) [] (· ++ [e.1])) .empty).mapVal List.sort).get k =
      (m.keysWhere fun v => p v ∧ place v = k).nonEmpty := by
  rw [HashMap.get_mapVal, HashMap.get_foldl_push, map_sort_nonEmpty, List.filter_filter,
    ← HashMap.sort_visit_keysWhere ord table]
  simp only [Bool.and_comm, Bool.decide_and, Bool.decide_eq_true]

theorem rebuildZoneShards_spec (ord : Order) (data : AppData) (zoneId : ZoneId) :
    ∃ bridgesByZoneShard : HashMap ZoneId (HashMap ShardId (List BridgeId)),
      rebuildZoneShards ord data zoneId =
        { data with indexes.bridgesByZoneShard := bridgesByZoneShard } ∧
      ∀ z s, ((bridgesByZoneShard.get z).getD .empty).get s =
        if z = zoneId then
          (data.components.bridges.keysWhere fun b => b.zoneId = z ∧ b.shardId = s).nonEmpty
        else ((data.indexes.bridgesByZoneShard.get z).getD .empty).get s := by
  refine ⟨_, rfl, fun z s => ?_⟩
  have hget := get_filed ord .bridges data.components.bridges (fun b => b.zoneId = zoneId)
    (fun b => b.shardId)
  simp only [HashMap.foldl_ite, decide_eq_true_eq] at hget ⊢
  split_ifs with he hz hz
  · rw [HashMap.isEmpty_iff] at he
    rw [HashMap.get_remove, if_pos hz, hz, ← hget, he]
    rfl
  · rw [HashMap.get_remove, if_neg hz]
  · rw [HashMap.get_insert, if_pos hz, hz, ← hget]
    rfl
  · rw [HashMap.get_insert, if_neg hz]

theorem sort_visit_keys {V : Type} (ord : Order) (table : Table) (m : HashMap String V) :
    (ord.order table m.keys).sort = m.keys :=
  List.sort_eq_of_perm (ord.perm _ _) m.sortedLT_keys

theorem rebuildZoneSegmentVector_spec (ord : Order) (data : AppData) (zoneId : ZoneId) :
    ∃ segmentsByZone : HashMap ZoneId (List Segment),
      rebuildZoneSegmentVector ord data zoneId =
        { data with indexes.segmentsByZone := segmentsByZone } ∧
      ∀ z, (segmentsByZone.get z).getD [] =
        if z = zoneId then ((data.indexes.segmentRefsByZone.get z).getD .empty).keys
        else (data.indexes.segmentsByZone.get z).getD [] := by
  rw [rebuildZoneSegmentVector]
  cases hrefs : data.indexes.segmentRefsByZone.get zoneId with
  | none =>
    refine ⟨_, rfl, fun z => ?_⟩
    rw [HashMap.get_remove]
    split_ifs with h
    · rw [h, hrefs]
      rfl
    · rfl
  | some refs =>
    refine ⟨_, rfl, fun z => ?_⟩
    rw [HashMap.get_insert, sort_visit_keys]
    split_ifs with h
    · rw [h, hrefs]
      rfl
    · rfl

/-! ## Rebuilding everything -/

theorem routersIndexed_routersByZoneOf (ord : Order) (components : Components) :
    RoutersIndexed components.routers (routersByZoneOf ord components) := by
  intro zoneId
  simpa [routersByZoneOf] using
    get_filed ord .routers components.routers (fun _ => true) RouterInfo.zoneId zoneId

theorem nodesIndexed_nodesByShardOf (ord : Order) (components : Components) :
    NodesIndexed components.nodes (nodesByShardOf ord components) := by
  intro shardId
  simpa [nodesByShardOf] using
    get_filed ord .nodes components.nodes (fun _ => true) NodeInfo.shardId shardId

theorem bridgesIndexed_bridgesByZoneShardOf (ord : Order) (components : Components) :
    BridgesIndexed components.bridges (bridgesByZoneShardOf ord components) := by
  intro zoneId shardId
  have hget := get_filed ord .bridges components.bridges (fun b => b.zoneId = zoneId)
    BridgeInfo.shardId shardId
  simp only [decide_eq_true_eq] at hget
  rw [bridgesByZoneShardOf, HashMap.get_mapVal, HashMap.get_foldl_upsert, ← hget]
  split_ifs with h
  · rw [h]
    rfl
  · rfl

/-- Counting up the segments of a list of shards. -/
theorem counts_foldl_shards (ord : Order) (shards : List (ShardId × ShardSegments))
    {m : HashMap Segment ℕ} {f : Segment → ℕ} (h : m.Counts f) :
    (shards.foldl (fun refs e =>
      (ord.order (.loadedSegments e.1) e.2.segments.set.keys).foldl
        (fun refs segment => refs.upsert segment 0 (· + 1)) refs) m).Counts fun segment =>
      f segment + (shards.filter fun e => segment ∈ e.2.segments.set.keys).length := by
  induction shards generalizing m f with
  | nil => exact h
  | cons e shards ih =>
    refine (ih (h.foldl_upsert _)).congr fun segment => ?_
    rw [(ord.perm _ _).count_eq, (HashMap.sortedLT_keys _).nodup.count, List.filter_cons]
    by_cases hs : segment ∈ e.2.segments.set.keys
    · simp only [hs, decide_true, if_true, List.length_cons]
      omega
    · simp only [hs, decide_false, if_false, Bool.false_eq_true, Nat.add_zero]

theorem counts_segmentRefsByZoneOf (ord : Order) (segments : SegmentStore) (zoneId : ZoneId) :
    (((segmentRefsByZoneOf ord segments).get zoneId).getD .empty).Counts
      fun segment => (segments.owners zoneId segment).length := by
  rw [segmentRefsByZoneOf, HashMap.get_foldl_upsert]
  have hcounts := counts_foldl_shards ord
    ((ord.order .byShard segments.byShard.entries).filter fun e => e.2.zoneId = zoneId)
    HashMap.counts_empty
  have howners : ∀ segment, (segments.owners zoneId segment).length =
      (((ord.order .byShard segments.byShard.entries).filter
        fun e => e.2.zoneId = zoneId).filter
          fun e => segment ∈ e.2.segments.set.keys).length := by
    intro segment
    have hperm := (ord.perm .byShard segments.byShard.entries).filter
      fun e => e.2.zoneId = zoneId ∧ segment ∈ e.2.segments.set.keys
    rw [List.filter_filter, SegmentStore.owners, HashMap.keysWhere, List.length_map]
    simp only [← Bool.decide_and, and_comm] at hperm ⊢
    rw [hperm.length_eq]
  split_ifs with h
  · refine HashMap.counts_empty.congr fun segment => ?_
    rw [howners, h]
    rfl
  · exact hcounts.congr fun segment => by rw [howners, Nat.zero_add]

theorem foldl_rebuildZoneSegmentVector_spec (ord : Order) (zones : List ZoneId)
    (data : AppData) :
    ∃ segmentsByZone : HashMap ZoneId (List Segment),
      zones.foldl (rebuildZoneSegmentVector ord) data =
        { data with indexes.segmentsByZone := segmentsByZone } ∧
      ∀ z, (segmentsByZone.get z).getD [] =
        if z ∈ zones then ((data.indexes.segmentRefsByZone.get z).getD .empty).keys
        else (data.indexes.segmentsByZone.get z).getD [] := by
  induction zones generalizing data with
  | nil => exact ⟨_, rfl, fun z => by simp⟩
  | cons zoneId zones ih =>
    obtain ⟨v, hv, hget⟩ := rebuildZoneSegmentVector_spec ord data zoneId
    obtain ⟨w, hw, hget'⟩ := ih (rebuildZoneSegmentVector ord data zoneId)
    rw [hv] at hw hget'
    refine ⟨w, by rw [List.foldl_cons, hv, hw], fun z => ?_⟩
    rw [hget' z, hget z]
    by_cases h : z = zoneId <;> by_cases h' : z ∈ zones <;> simp [h, h']

theorem rebuildIndexes_spec (ord : Order) (data : AppData) :
    ∃ segmentsByZone : HashMap ZoneId (List Segment),
      rebuildIndexes ord data = { data with
        indexes := {
          routersByZone := routersByZoneOf ord data.components
          bridgesByZoneShard := bridgesByZoneShardOf ord data.components
          nodesByShard := nodesByShardOf ord data.components
          segmentRefsByZone := segmentRefsByZoneOf ord data.segments
          segmentsByZone := segmentsByZone } } ∧
      ∀ z, (segmentsByZone.get z).getD [] =
        (((segmentRefsByZoneOf ord data.segments).get z).getD .empty).keys := by
  obtain ⟨v, hv, hget⟩ := foldl_rebuildZoneSegmentVector_spec ord
    (ord.order .segmentRefZones (segmentRefsByZoneOf ord data.segments).keys)
    { data with
      indexes := {
        routersByZone := routersByZoneOf ord data.components
        bridgesByZoneShard := bridgesByZoneShardOf ord data.components
        nodesByShard := nodesByShardOf ord data.components
        segmentRefsByZone := segmentRefsByZoneOf ord data.segments
        segmentsByZone := .empty } }
  refine ⟨v, hv, fun z => (hget z).trans ?_⟩
  split_ifs with h
  · rfl
  · rw [(ord.perm _ _).mem_iff, ← HashMap.get_eq_none_iff] at h
    rw [h]
    rfl

/-- Whatever the indexes were, the rebuilt ones are those of the records. -/
theorem indexed_rebuildIndexes (ord : Order) (data : AppData) :
    Indexed (rebuildIndexes ord data) := by
  obtain ⟨v, hv, hget⟩ := rebuildIndexes_spec ord data
  rw [hv]
  exact ⟨routersIndexed_routersByZoneOf ord _, bridgesIndexed_bridgesByZoneShardOf ord _,
    nodesIndexed_nodesByShardOf ord _, counts_segmentRefsByZoneOf ord _, hget⟩

/-- Whatever records are loaded, the rebuilt indexes are theirs. -/
theorem indexed_load (ord : Order) (now : ℕ) (persisted : PersistedState) :
    Indexed (.load ord now persisted) :=
  indexed_rebuildIndexes ord _

/-! ## Answers -/

section Answers

variable {data data' : AppData}

theorem Indexed.zoneRouters (hd : Indexed data) (zoneId : ZoneId) :
    Lists (data.zoneRouters zoneId).2 (data.directory.zoneRouters zoneId) := by
  change Lists ((data.indexes.routersByZone.get zoneId).getD []) _
  rw [hd.routers, List.getD_nonEmpty]
  refine ⟨HashMap.sortedLT_keysWhere _ _, fun id => HashMap.mem_keysWhere.trans ?_⟩
  simp [Directory.zoneRouters, AppData.directory, directoryOf]

theorem Indexed.zoneShards (hd : Indexed data) (zoneId : ZoneId) (shardId : ShardId) :
    ListsAny ((data.zoneShards zoneId).2.get shardId)
      (data.directory.zoneBridges zoneId shardId) := by
  rw [AppData.zoneShards, hd.bridges]
  refine Lists.nonEmpty
    ⟨HashMap.sortedLT_keysWhere _ _, fun id => HashMap.mem_keysWhere.trans ?_⟩
  simp [Directory.zoneBridges, AppData.directory, directoryOf, and_comm]

theorem Indexed.zoneSegments (hd : Indexed data) (zoneId : ZoneId) :
    Lists (data.zoneSegments zoneId).2 (data.directory.zoneSegments zoneId) := by
  rw [AppData.zoneSegments, hd.segments.vectors]
  refine ⟨HashMap.sortedLT_keys _, fun g => ?_⟩
  rw [(hd.segments.refs zoneId).mem_keys, List.length_pos_iff, SegmentStore.owners_ne_nil_iff]
  rfl

theorem Indexed.shardNodes (hd : Indexed data) (shardId : ShardId) :
    ListsAny ((data.shardNodes shardId).map Prod.snd) (data.directory.shardNodes shardId) := by
  have hnodes : (data.shardNodes shardId).map Prod.snd = data.indexes.nodesByShard.get shardId := by
    rw [AppData.shardNodes, Option.map_map]
    exact Option.map_id'
  rw [hnodes, hd.nodes]
  refine Lists.nonEmpty
    ⟨HashMap.sortedLT_keysWhere _ _, fun id => HashMap.mem_keysWhere.trans ?_⟩
  simp [Directory.shardNodes, AppData.directory, directoryOf]

/-- Indexed states answer the query of a dataset alike if their directories
    publish the same dataset. -/
theorem content_eq_of_agree (hd : Indexed data) (hd' : Indexed data') {ds : Dataset}
    (h : data.directory.Agree data'.directory ds) : data.content ds = data'.content ds := by
  cases ds with
  | zoneRouters zoneId =>
    exact congrArg _ ((hd.zoneRouters zoneId).unique (h ▸ hd'.zoneRouters zoneId))
  | zoneShards zoneId =>
    exact congrArg _ (HashMap.ext_get fun s => (hd.zoneShards zoneId s).unique
      (h s ▸ hd'.zoneShards zoneId s))
  | zoneSegments zoneId =>
    exact congrArg _ ((hd.zoneSegments zoneId).unique (h ▸ hd'.zoneSegments zoneId))
  | shardSegments shardId =>
    have h : data.segments.byShard.get shardId = data'.segments.byShard.get shardId := h
    simp only [AppData.content, AppData.shardSegments, h, Option.map_map]
    rfl
  | shardNodes shardId =>
    exact congrArg _ ((hd.shardNodes shardId).unique (h ▸ hd'.shardNodes shardId))

end Answers

end Rzid
