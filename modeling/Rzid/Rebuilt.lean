import Rzid.Restart

/-!
# Maintained and rebuilt indexes

The operations maintain the indexes entry by entry, and count the owners of segments up
and down; a start rebuilds them from the records. In every reachable state, a rebuild would
give the indexes that are there (`indexes_eq_rebuilt`), in whatever order it iterates. The
only difference is in entries of zones whose shards own no segment, which either side may
have, and no query shows: see `Indexes.trim`.

The lists determine the maps that hold them only up to empty maps. That the bridge index
never has one is an invariant of its own (`Filled`).
-/

namespace Rzid

/-- The indexes without the entries of zones that have no segments. -/
def Indexes.trim (indexes : Indexes) : Indexes :=
  { indexes with
    segmentRefsByZone := indexes.segmentRefsByZone.retain fun refs => !refs.isEmpty
    segmentsByZone := indexes.segmentsByZone.retain fun segments => !segments.isEmpty }

/-- Every zone of the bridge index has a shard. -/
def Filled (bridgesByZoneShard : HashMap ZoneId (HashMap ShardId (List BridgeId))) : Prop :=
  ∀ zoneId shards, bridgesByZoneShard.get zoneId = some shards → shards.isEmpty = false

/-! ## Indexes from what they list -/

section Unique

theorem RoutersIndexed.unique {routers : HashMap RouterId RouterInfo}
    {index index' : HashMap ZoneId (List RouterId)} (h : RoutersIndexed routers index)
    (h' : RoutersIndexed routers index') : index = index' :=
  HashMap.ext_get fun z => (h z).trans (h' z).symm

theorem NodesIndexed.unique {nodes : HashMap NodeId NodeInfo}
    {index index' : HashMap ShardId (List NodeId)} (h : NodesIndexed nodes index)
    (h' : NodesIndexed nodes index') : index = index' :=
  HashMap.ext_get fun s => (h s).trans (h' s).symm

/-- Maps of maps without empty ones are determined by the inner entries. -/
theorem Filled.ext {index index' : HashMap ZoneId (HashMap ShardId (List BridgeId))}
    (h : Filled index) (h' : Filled index')
    (hget : ∀ z s, ((index.get z).getD .empty).get s = ((index'.get z).getD .empty).get s) :
    index = index' := by
  have hsub : ∀ {i i' : HashMap ZoneId (HashMap ShardId (List BridgeId))} {z m}, Filled i →
      (∀ s, ((i.get z).getD .empty).get s = ((i'.get z).getD .empty).get s) →
      i.get z = some m → i'.get z = some m := by
    intro i i' z m hi hs hm
    rw [hm, Option.getD_some] at hs
    cases hm' : i'.get z with
    | none =>
      rw [hm', Option.getD_none] at hs
      have hempty := HashMap.isEmpty_iff.2 hs
      rw [hi z m hm] at hempty
      cases hempty
    | some m' =>
      rw [hm', Option.getD_some] at hs
      rw [HashMap.ext_get hs]
  refine HashMap.ext_get fun z => Option.ext fun m => ⟨fun hm => ?_, fun hm => ?_⟩
  · exact hsub h (hget z) hm
  · exact hsub h' (fun s => (hget z s).symm) hm

/-- What is kept of an optional value does not tell `none` from a default that is dropped. -/
theorem filter_eq_of_getD_eq {α : Type} {p : α → Bool} {d : α} (hd : p d = false) {o o' : Option α}
    (h : o.getD d = o'.getD d) : o.filter p = o'.filter p := by
  have hfilter : ∀ o : Option α, o.filter p = if p (o.getD d) then some (o.getD d) else none := by
    rintro (_ | a)
    · rw [Option.getD_none, hd]
      rfl
    · rfl
  rw [hfilter, hfilter, h]

end Unique

/-! ## The bridge index -/

section Filled

variable {ord : Order} {data : AppData}

theorem filled_rebuildZoneShards (h : Filled data.indexes.bridgesByZoneShard) (zoneId : ZoneId) :
    Filled (rebuildZoneShards ord data zoneId).indexes.bridgesByZoneShard := by
  intro z shards hget
  rw [rebuildZoneShards] at hget
  dsimp only at hget
  split_ifs at hget with hempty
  · rw [HashMap.get_remove] at hget
    split_ifs at hget
    exact h z shards hget
  · rw [HashMap.get_insert] at hget
    split_ifs at hget
    · exact Option.some_inj.1 hget ▸ Bool.eq_false_iff.2 hempty
    · exact h z shards hget

theorem filled_refreshBridges (h : Filled data.indexes.bridgesByZoneShard) (zones : List ZoneId) :
    Filled (refreshBridges ord zones data).indexes.bridgesByZoneShard := by
  induction zones generalizing data with
  | nil => exact h
  | cons zoneId zones ih => exact ih (filled_rebuildZoneShards h zoneId)

/-- A rebuild makes an entry only for the zone of a bridge. -/
theorem filled_bridgesByZoneShardOf (components : Components) :
    Filled (bridgesByZoneShardOf ord components) := by
  intro z shards hget
  have hindex := bridgesIndexed_bridgesByZoneShardOf ord components
  have hzone : ∃ id bridge, components.bridges.get id = some bridge ∧ bridge.zoneId = z := by
    rw [bridgesByZoneShardOf, HashMap.get_mapVal, HashMap.get_foldl_upsert] at hget
    split_ifs at hget with hnil
    · cases hget
    obtain ⟨e, he⟩ := List.exists_mem_of_ne_nil _ hnil
    obtain ⟨he, hz⟩ := List.mem_filter.1 he
    exact ⟨e.1, e.2, HashMap.get_eq_some_iff.2 ((ord.perm _ _).mem_iff.1 he), of_decide_eq_true hz⟩
  obtain ⟨id, bridge, hbridge, rfl⟩ := hzone
  -- The shard of the bridge is there.
  refine Bool.eq_false_iff.2 fun hempty => ?_
  have hnone := HashMap.isEmpty_iff.1 hempty bridge.shardId
  have hlist := hindex bridge.zoneId bridge.shardId
  rw [hget, Option.getD_some, hnone, eq_comm, List.nonEmpty_eq_none_iff,
    HashMap.keysWhere_eq_nil_iff] at hlist
  simpa using hlist id bridge hbridge

/-- An update of segments does not touch the indexes of components. -/
theorem updateSegments_indexes (ord : Order) (hd : Indexed data) (shardId : ShardId)
    (zoneId : ZoneId) (new : List Segment) :
    ∃ refs vectors, (data.updateSegments ord shardId zoneId new).1.indexes =
      { data.indexes with segmentRefsByZone := refs, segmentsByZone := vectors } := by
  rw [AppData.updateSegments]
  split_ifs with hid
  · exact ⟨_, _, rfl⟩
  · obtain ⟨refs₁, vectors₁, hremove, hind₁⟩ := removeOldOwnership_spec ord hd shardId
    rw [hremove]
    have hnone : (data.segments.drop shardId).byShard.get shardId = none :=
      (HashMap.get_remove _ _ _).trans (if_pos rfl)
    obtain ⟨refs₂, vectors₂, hadd, _, _⟩ := @addShardSegmentsToZone_spec ord
      { data with
        indexes.segmentRefsByZone := refs₁
        indexes.segmentsByZone := vectors₁ } _ hind₁ _ hnone ⟨zoneId, .new new⟩
    simp only [hadd, bumpSegments_spec]
    exact ⟨refs₂, vectors₂, rfl⟩

theorem bridgesByZoneShard_refreshRouters (zones : List ZoneId) (data : AppData) :
    (refreshRouters ord zones data).indexes.bridgesByZoneShard =
      data.indexes.bridgesByZoneShard := by
  obtain ⟨index, hindex, _⟩ := refreshRouters_spec ord zones data
  rw [hindex]

theorem bridgesByZoneShard_refreshNodes (shards : List ShardId) (data : AppData) :
    (refreshNodes ord shards data).indexes.bridgesByZoneShard =
      data.indexes.bridgesByZoneShard := by
  obtain ⟨index, hindex, _⟩ := refreshNodes_spec ord shards data
  rw [hindex]

theorem filled_exec (h : Filled data.indexes.bridgesByZoneShard) (hd : Indexed data) (now : ℕ)
    (op : Op) : Filled (op.exec ord now data).1.indexes.bridgesByZoneShard := by
  cases op with
  | call call =>
    cases call with
    | registerRouter id zoneId =>
      rw [Op.exec, Call.exec, registerRouter_eq]
      dsimp only
      split_ifs
      · exact h
      · exact (bridgesByZoneShard_refreshRouters ..).symm ▸ h
    | registerBridge id shardId zoneId =>
      rw [Op.exec, Call.exec, registerBridge_eq]
      dsimp only
      split_ifs
      · exact h
      · refine filled_refreshBridges ?_ _
        exact h
    | registerNode id shardId zoneId =>
      rw [Op.exec, Call.exec, registerNode_eq]
      dsimp only
      split_ifs
      · exact h
      · exact (bridgesByZoneShard_refreshNodes ..).symm ▸ h
    | updateSegments shardId zoneId new =>
      obtain ⟨refs, vectors, hindexes⟩ :=
        updateSegments_indexes ord hd shardId zoneId new
      rw [Op.exec, Call.exec, hindexes]
      exact h
  | sweepExpiredComponents timeoutMs =>
    change Filled (data.sweepExpiredComponents ord now timeoutMs).1.indexes.bridgesByZoneShard
    rw [sweepExpiredComponents_eq, bridgesByZoneShard_refreshNodes]
    refine filled_refreshBridges ?_ _
    rw [bridgesByZoneShard_refreshRouters]
    exact h

theorem filled_load (now : ℕ) (persisted : PersistedState) :
    Filled (AppData.load ord now persisted).indexes.bridgesByZoneShard := by
  rw [AppData.load]
  obtain ⟨v, hv, _⟩ := rebuildIndexes_spec ord
    { components := resetHeartbeatTimes now persisted.components
      segments := persisted.segments
      indexes := .default
      versions := persisted.versions
      globalVersion := persisted.globalVersion }
  rw [hv]
  exact filled_bridgesByZoneShardOf _

theorem Reachable.filled {Bytes : Type} {json : Json Bytes} (h : Reachable json data) :
    Filled data.indexes.bridgesByZoneShard := by
  induction h with
  | start ord now => exact filled_load now _
  | restart ord now => exact filled_load now _
  | step h hstep ih =>
    obtain ⟨ord, now, op⟩ := hstep
    exact filled_exec ih h.indexed now op

end Filled

/-! ## Rebuilding in a reachable state -/

section Rebuilt

variable {Bytes : Type} {json : Json Bytes} {data : AppData}

/-- A rebuild in a reachable state changes nothing but the indexes, and there only entries
    of zones that have no segments. Every query is answered as before. -/
theorem indexes_eq_rebuilt (h : Reachable json data) (ord : Order) :
    rebuildIndexes ord data = { data with indexes := (rebuildIndexes ord data).indexes } ∧
      (rebuildIndexes ord data).indexes.trim = data.indexes.trim ∧
      SameAnswers (rebuildIndexes ord data) data := by
  have hd := h.indexed
  obtain ⟨vectors, hrebuilt, hvectors⟩ := rebuildIndexes_spec ord data
  have hanswers : SameAnswers (rebuildIndexes ord data) data := by
    have hindexed := indexed_rebuildIndexes ord data
    rw [hrebuilt] at hindexed ⊢
    exact Twin.sameAnswers ⟨hindexed, hd, rfl, rfl, rfl⟩
  refine ⟨by rw [hrebuilt], ?_, hanswers⟩
  rw [hrebuilt]
  have hrefs : ∀ z, ((segmentRefsByZoneOf ord data.segments).get z).getD .empty =
      (data.indexes.segmentRefsByZone.get z).getD .empty := fun z =>
    (counts_segmentRefsByZoneOf ord data.segments z).unique (hd.segments.refs z)
  refine (Indexes.mk.injEq ..).mpr ⟨?_, ?_, ?_, ?_, ?_⟩
  · exact (routersIndexed_routersByZoneOf ord data.components).unique hd.routers
  · exact (filled_bridgesByZoneShardOf data.components).ext h.filled fun z s =>
      (bridgesIndexed_bridgesByZoneShardOf ord data.components z s).trans (hd.bridges z s).symm
  · exact (nodesIndexed_nodesByShardOf ord data.components).unique hd.nodes
  · refine HashMap.ext_get fun z => ?_
    rw [HashMap.get_retain, HashMap.get_retain]
    exact filter_eq_of_getD_eq rfl (hrefs z)
  · refine HashMap.ext_get fun z => ?_
    rw [HashMap.get_retain, HashMap.get_retain]
    exact filter_eq_of_getD_eq rfl (by rw [hvectors, hrefs, hd.segments.vectors])

/-- A shard that owns no segment: a rebuild makes an entry for its zone. -/
theorem indexes_eq_rebuilt_no_segments :
    let data := (Op.exec (.inOrder _) 1 (.call (.updateSegments "s1" "eu" []))
      (.new Json.verbatim (.inOrder _) 0 none)).1
    (rebuildIndexes (.inOrder _) data).indexes ≠ data.indexes ∧
      (rebuildIndexes (.inOrder _) data).indexes.trim = data.indexes.trim ∧
      SameAnswers (rebuildIndexes (.inOrder _) data) data :=
  ⟨by decide, (indexes_eq_rebuilt (.step (.start (.inOrder _) 0) (.exec _ _ _)) _).2⟩

end Rebuilt

end Rzid
