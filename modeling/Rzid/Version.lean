import Rzid.Indexed

/-!
# Versions and effects

Every operation bumps the versions of a list of datasets (`Bumped`): each by the
number of times it is in the list, and the global version by the length of the
list. `Effect` says everything an operation does: what becomes of the records,
which datasets are bumped, and that the state stays indexed. As keys do not
collide, a bump of one dataset is a bump of no other (`versions_separate`).
-/

namespace Rzid

/-- The versions after bumping a list of datasets. -/
def bumpVersions (versions : HashMap String Version) (bumps : List Dataset) :
    HashMap String Version :=
  bumps.foldl (fun versions ds => versions.upsert ds.key 0 (· + 1)) versions

/-- From `data` to `data'`, the datasets `bumps` are bumped. -/
structure Bumped (bumps : List Dataset) (data data' : AppData) : Prop where
  versions : data'.versions = bumpVersions data.versions bumps
  globalVersion : data'.globalVersion = data.globalVersion + bumps.length

theorem length_filter_key (bumps : List Dataset) (ds : Dataset) :
    (bumps.filter fun b => b.key = ds.key).length = bumps.count ds := by
  rw [List.count_eq_length_filter]
  congr 2
  funext b
  rw [Bool.eq_iff_iff]
  simp [Dataset.key_injective.eq_iff]

/-- Bumping adds, to the version under a key, the number of times it is bumped. -/
theorem get_bumpVersions (versions : HashMap String Version) (bumps : List Dataset)
    (key : String) :
    (bumpVersions versions bumps).get key =
      if (bumps.filter fun ds => ds.key = key) = [] then versions.get key
      else some ((versions.get key).getD 0 + (bumps.filter fun ds => ds.key = key).length) :=
  HashMap.get_foldl_count Dataset.key bumps versions key

theorem bumpVersions_perm {versions : HashMap String Version} {bumps bumps' : List Dataset}
    (h : bumps.Perm bumps') : bumpVersions versions bumps = bumpVersions versions bumps' := by
  refine HashMap.ext_get fun key => ?_
  have hf := h.filter fun ds => ds.key = key
  rw [get_bumpVersions, get_bumpVersions, hf.length_eq]
  congr 1
  rw [← List.length_eq_zero_iff, ← List.length_eq_zero_iff, hf.length_eq]

theorem bumpVersions_append (versions : HashMap String Version) (bumps bumps' : List Dataset) :
    bumpVersions versions (bumps ++ bumps') = bumpVersions (bumpVersions versions bumps) bumps' :=
  List.foldl_append

namespace Bumped

variable {bumps bumps' : List Dataset} {data data' data'' : AppData}

theorem nil (h : data'.versions = data.versions)
    (hg : data'.globalVersion = data.globalVersion) : Bumped [] data data' := ⟨h, hg⟩

theorem trans (h : Bumped bumps data data') (h' : Bumped bumps' data' data'') :
    Bumped (bumps ++ bumps') data data'' := by
  refine ⟨?_, ?_⟩
  · rw [h'.versions, h.versions, bumpVersions_append]
  · rw [h'.globalVersion, h.globalVersion, List.length_append, Nat.add_assoc]

/-- The version of a dataset goes up by the number of its bumps. -/
theorem version (h : Bumped bumps data data') (ds : Dataset) :
    data'.version ds = data.version ds + bumps.count ds := by
  rw [AppData.version, getVersion, h.versions, get_bumpVersions, ← length_filter_key]
  split_ifs with hf
  · rw [hf]
    rfl
  · rfl

end Bumped

/-- Everything an operation does: the records and the bumped datasets. -/
structure Effect (data data' : AppData) (components : Components) (segments : SegmentStore)
    (bumps : List Dataset) : Prop where
  components : data'.components = components
  segments : data'.segments = segments
  bumped : Bumped bumps data data'
  indexed : Indexed data'

/-! ## One bump -/

theorem getVersion_bumpVersion (data : AppData) (key key' : String) :
    getVersion (bumpVersion data key) key' =
      if key' = key then getVersion data key' + 1 else getVersion data key' := by
  rw [getVersion, bumpVersion, HashMap.get_upsert]
  split_ifs with h
  · rw [h]
    rfl
  · rfl

/-- Two datasets have the same key only if they are of the same kind and id, and
    bumping a dataset raises its version by one and keeps every other version. -/
theorem versions_separate (ds ds' : Dataset) :
    (ds.key = ds'.key ↔ ds = ds') ∧
      ∀ data : AppData, getVersion (bumpVersion data ds.key) ds'.key =
        if ds' = ds then getVersion data ds'.key + 1 else getVersion data ds'.key := by
  refine ⟨Dataset.key_injective.eq_iff, fun data => ?_⟩
  rw [getVersion_bumpVersion]
  exact if_congr Dataset.key_injective.eq_iff rfl rfl

/-! ## Refreshing lists of zones and shards -/

variable (ord : Order)

/-- Refreshes the router datasets of a list of zones: the index of each is
    rebuilt, and its version bumped. -/
def refreshRouters (zones : List ZoneId) (data : AppData) : AppData :=
  zones.foldl (fun data zoneId =>
    bumpVersion (rebuildZoneRouters ord data zoneId) (zoneRoutersKey zoneId)) data

/-- Refreshes the bridge datasets of a list of zones. -/
def refreshBridges (zones : List ZoneId) (data : AppData) : AppData :=
  zones.foldl (fun data zoneId =>
    bumpVersion (rebuildZoneShards ord data zoneId) (zoneShardsKey zoneId)) data

/-- Refreshes the node datasets of a list of shards. -/
def refreshNodes (shards : List ShardId) (data : AppData) : AppData :=
  shards.foldl (fun data shardId =>
    bumpVersion (rebuildShardNodes ord data shardId) (shardNodesKey shardId)) data

/-- A field of the derived indexes. -/
structure IndexField (I : Type) where
  get : Indexes → I
  set : Indexes → I → Indexes
  get_set (indexes : Indexes) (i : I) : get (set indexes i) = i
  set_get (indexes : Indexes) : set indexes (get indexes) = indexes
  set_set (indexes : Indexes) (i j : I) : set (set indexes i) j = set indexes j

def IndexField.routersByZone : IndexField (HashMap ZoneId (List RouterId)) where
  get := Indexes.routersByZone
  set indexes i := { indexes with routersByZone := i }
  get_set _ _ := rfl
  set_get _ := rfl
  set_set _ _ _ := rfl

def IndexField.bridgesByZoneShard :
    IndexField (HashMap ZoneId (HashMap ShardId (List BridgeId))) where
  get := Indexes.bridgesByZoneShard
  set indexes i := { indexes with bridgesByZoneShard := i }
  get_set _ _ := rfl
  set_get _ := rfl
  set_set _ _ _ := rfl

def IndexField.nodesByShard : IndexField (HashMap ShardId (List NodeId)) where
  get := Indexes.nodesByShard
  set indexes i := { indexes with nodesByShard := i }
  get_set _ _ := rfl
  set_get _ := rfl
  set_set _ _ _ := rfl

/-- If `rebuild` sets the entry of a place in one field of the indexes to its `value`,
    refreshing a list of places sets their entries, and bumps their datasets. -/
theorem refresh_spec {I E : Type} (field : IndexField I) (lookup : I → String → E)
    (value : Components → String → E) {rebuild : AppData → String → AppData}
    (hrebuild : ∀ data place, ∃ i,
      rebuild data place = { data with indexes := field.set data.indexes i } ∧
      ∀ p, lookup i p =
        if p = place then value data.components p else lookup (field.get data.indexes) p)
    (ds : String → Dataset) (places : List String) (data : AppData) :
    ∃ i, places.foldl (fun data place => bumpVersion (rebuild data place) (ds place).key) data =
        { data with
          indexes := field.set data.indexes i
          versions := bumpVersions data.versions (places.map ds)
          globalVersion := data.globalVersion + places.length } ∧
      ∀ p, lookup i p =
        if p ∈ places then value data.components p else lookup (field.get data.indexes) p := by
  induction places generalizing data with
  | nil => exact ⟨field.get data.indexes, by rw [field.set_get]; rfl, fun p => by simp⟩
  | cons place places ih =>
    obtain ⟨i, hi, hget⟩ := hrebuild data place
    obtain ⟨j, hj, hget'⟩ := ih (bumpVersion (rebuild data place) (ds place).key)
    rw [hi] at hj hget'
    refine ⟨j, ?_, fun p => (hget' p).trans ?_⟩
    · rw [List.foldl_cons, hi]
      refine hj.trans ?_
      rw [bumpVersion, field.set_set, List.length_cons, Nat.add_right_comm]
      rfl
    · change (if p ∈ places then value data.components p
        else lookup (field.get (field.set data.indexes i)) p) = _
      rw [field.get_set, hget p]
      by_cases h : p ∈ places <;> simp [h]

theorem refreshRouters_spec (zones : List ZoneId) (data : AppData) :
    ∃ routersByZone : HashMap ZoneId (List RouterId),
      refreshRouters ord zones data =
        { data with
          indexes.routersByZone := routersByZone
          versions := bumpVersions data.versions (zones.map .zoneRouters)
          globalVersion := data.globalVersion + zones.length } ∧
      ∀ z, routersByZone.get z =
        if z ∈ zones then (data.components.routers.keysWhere fun r => r.zoneId = z).nonEmpty
        else data.indexes.routersByZone.get z :=
  refresh_spec .routersByZone HashMap.get
    (fun components z => (components.routers.keysWhere fun r : RouterInfo => r.zoneId = z).nonEmpty)
    (rebuildZoneRouters_spec ord) .zoneRouters zones data

theorem refreshBridges_spec (zones : List ZoneId) (data : AppData) :
    ∃ bridgesByZoneShard : HashMap ZoneId (HashMap ShardId (List BridgeId)),
      refreshBridges ord zones data =
        { data with
          indexes.bridgesByZoneShard := bridgesByZoneShard
          versions := bumpVersions data.versions (zones.map .zoneShards)
          globalVersion := data.globalVersion + zones.length } ∧
      ∀ z s, ((bridgesByZoneShard.get z).getD .empty).get s =
        if z ∈ zones then
          (data.components.bridges.keysWhere fun b => b.zoneId = z ∧ b.shardId = s).nonEmpty
        else ((data.indexes.bridgesByZoneShard.get z).getD .empty).get s := by
  -- The entries of a zone, for all shards at once.
  obtain ⟨index, hindex, hget⟩ := refresh_spec .bridgesByZoneShard
    (fun index z s => ((index.get z).getD .empty).get s)
    (fun components z s =>
      (components.bridges.keysWhere fun b => b.zoneId = z ∧ b.shardId = s).nonEmpty)
    (fun data zoneId => by
      obtain ⟨index, hindex, hget⟩ := rebuildZoneShards_spec ord data zoneId
      exact ⟨index, hindex, fun z => funext fun s => (hget z s).trans (by split_ifs <;> rfl)⟩)
    .zoneShards zones data
  exact ⟨index, hindex, fun z s => (congrFun (hget z) s).trans (by split_ifs <;> rfl)⟩

theorem refreshNodes_spec (shards : List ShardId) (data : AppData) :
    ∃ nodesByShard : HashMap ShardId (List NodeId),
      refreshNodes ord shards data =
        { data with
          indexes.nodesByShard := nodesByShard
          versions := bumpVersions data.versions (shards.map .shardNodes)
          globalVersion := data.globalVersion + shards.length } ∧
      ∀ s, nodesByShard.get s =
        if s ∈ shards then (data.components.nodes.keysWhere fun n => n.shardId = s).nonEmpty
        else data.indexes.nodesByShard.get s :=
  refresh_spec .nodesByShard HashMap.get
    (fun components s => (components.nodes.keysWhere fun n : NodeInfo => n.shardId = s).nonEmpty)
    (rebuildShardNodes_spec ord) .shardNodes shards data

/-- Bumping the segment datasets of a list of zones. -/
theorem bumpSegments_spec (zones : List ZoneId) (data : AppData) :
    zones.foldl (fun data zoneId => bumpVersion data (zoneSegmentsKey zoneId)) data =
      { data with
        versions := bumpVersions data.versions (zones.map .zoneSegments)
        globalVersion := data.globalVersion + zones.length } := by
  induction zones generalizing data with
  | nil => rfl
  | cons zoneId zones ih =>
    rw [List.foldl_cons, ih, bumpVersion, List.length_cons, Nat.add_right_comm]
    rfl

end Rzid
