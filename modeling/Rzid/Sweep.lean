import Rzid.Version

/-!
# Heartbeat sweeping

The effect of a sweep on an indexed state. It removes the expired entries of the
three component maps, and then refreshes, once for each, the datasets of the
zones and shards that lost a component (`sweepBumps`).
-/

namespace Rzid

/-- Whatever the order of the loops, the expired entries are removed, and their
    places collected. -/
theorem removeExpired_eq {V : Type} {isExpired : V → Bool} {place : V → String}
    {m : HashMap String V} {visited : List (String × V)} (hv : visited.Perm m.entries) :
    removeExpired isExpired place visited m =
      (m.retain fun v => !isExpired v, m.imageWhere isExpired place) := by
  have hloop : ∀ (l : List (String × String)) (m : HashMap String V) (s : HashSet String),
      l.foldl (fun acc e => (acc.1.remove e.1, acc.2.insert e.2 ())) (m, s) =
        ((l.map Prod.fst).foldl HashMap.remove m,
          (l.map Prod.snd).foldl (fun s k => s.insert k ()) s) := by
    intro l
    induction l with
    | nil => exact fun _ _ => rfl
    | cons e l ih => exact fun m s => ih _ _
  rw [removeExpired, hloop, List.map_map, List.map_map]
  refine Prod.ext (HashMap.foldl_remove_eq_retain fun k => ?_) ?_
  · simp [hv.mem_iff, HashMap.get_eq_some_iff]
  · exact HashMap.foldl_insert_perm ((hv.filter _).map _)

/-- The components that a sweep keeps. -/
def Components.retain (now timeoutMs : ℕ) (components : Components) : Components where
  routers := components.routers.retain fun info => !expired now timeoutMs info.lastSeenMs
  bridges := components.bridges.retain fun info => !expired now timeoutMs info.lastSeenMs
  nodes := components.nodes.retain fun info => !expired now timeoutMs info.lastSeenMs

/-- The zones that lose a router to a sweep. -/
def Components.routerLosses (now timeoutMs : ℕ) (components : Components) : HashSet ZoneId :=
  components.routers.imageWhere (fun info => expired now timeoutMs info.lastSeenMs)
    RouterInfo.zoneId

/-- The zones that lose a bridge to a sweep. -/
def Components.bridgeLosses (now timeoutMs : ℕ) (components : Components) : HashSet ZoneId :=
  components.bridges.imageWhere (fun info => expired now timeoutMs info.lastSeenMs)
    BridgeInfo.zoneId

/-- The shards that lose a node to a sweep. -/
def Components.nodeLosses (now timeoutMs : ℕ) (components : Components) : HashSet ShardId :=
  components.nodes.imageWhere (fun info => expired now timeoutMs info.lastSeenMs)
    NodeInfo.shardId

/-- The datasets bumped by a sweep. -/
def sweepBumps (now timeoutMs : ℕ) (components : Components) : List Dataset :=
  (components.routerLosses now timeoutMs).keys.map .zoneRouters ++
    ((components.bridgeLosses now timeoutMs).keys.map .zoneShards ++
      (components.nodeLosses now timeoutMs).keys.map .shardNodes)

/-- A sweep bumps every dataset at most once. -/
theorem nodup_sweepBumps (now timeoutMs : ℕ) (components : Components) :
    (sweepBumps now timeoutMs components).Nodup := by
  refine List.nodup_append'.2 ⟨?_, List.nodup_append'.2 ⟨?_, ?_, ?_⟩, ?_⟩
  · exact (HashMap.sortedLT_keys _).nodup.map fun _ _ => Dataset.zoneRouters.inj
  · exact (HashMap.sortedLT_keys _).nodup.map fun _ _ => Dataset.zoneShards.inj
  · exact (HashMap.sortedLT_keys _).nodup.map fun _ _ => Dataset.shardNodes.inj
  · simp [List.disjoint_left]
  · simp [List.disjoint_left]

/-- A sweep that bumps nothing removes nothing. -/
theorem Components.retain_of_sweepBumps {now timeoutMs : ℕ} {components : Components}
    (h : sweepBumps now timeoutMs components = []) :
    components.retain now timeoutMs = components := by
  simp only [sweepBumps, List.append_eq_nil_iff, List.map_eq_nil_iff] at h
  rw [retain, HashMap.retain_eq_self h.1, HashMap.retain_eq_self h.2.1,
    HashMap.retain_eq_self h.2.2]

theorem sweepExpiredComponents_eq {data : AppData} (ord : Order) (now timeoutMs : ℕ) :
    data.sweepExpiredComponents ord now timeoutMs =
      (refreshNodes ord
        (ord.order .changedNodeShards (data.components.nodeLosses now timeoutMs).keys)
        (refreshBridges ord
          (ord.order .changedBridgeZones (data.components.bridgeLosses now timeoutMs).keys)
          (refreshRouters ord
            (ord.order .changedRouterZones (data.components.routerLosses now timeoutMs).keys)
            { data with components := data.components.retain now timeoutMs })),
        (sweepBumps now timeoutMs data.components).length) := by
  rw [AppData.sweepExpiredComponents, removeExpired_eq (ord.perm _ _),
    removeExpired_eq (ord.perm _ _), removeExpired_eq (ord.perm _ _), sweepBumps,
    List.length_append, List.length_append, List.length_map, List.length_map, List.length_map,
    ← Nat.add_assoc]
  simp only [HashMap.keys, List.length_map]
  rfl

/-- A sweep keeps the components that have not expired, sets the entries of the zones and
    shards that lost a component, and bumps their datasets. -/
theorem sweepExpiredComponents_spec (data : AppData) (ord : Order) (now timeoutMs : ℕ) :
    ∃ indexes : Indexes,
      (data.sweepExpiredComponents ord now timeoutMs).1 =
        { components := data.components.retain now timeoutMs
          segments := data.segments
          indexes := indexes
          versions := bumpVersions data.versions (sweepBumps now timeoutMs data.components)
          globalVersion :=
            data.globalVersion + (sweepBumps now timeoutMs data.components).length } ∧
      (∀ z, indexes.routersByZone.get z =
        if z ∈ (data.components.routerLosses now timeoutMs).keys then
          ((data.components.retain now timeoutMs).routers.keysWhere
            fun r => r.zoneId = z).nonEmpty
        else data.indexes.routersByZone.get z) ∧
      (∀ z s, ((indexes.bridgesByZoneShard.get z).getD .empty).get s =
        if z ∈ (data.components.bridgeLosses now timeoutMs).keys then
          ((data.components.retain now timeoutMs).bridges.keysWhere
            fun b => b.zoneId = z ∧ b.shardId = s).nonEmpty
        else ((data.indexes.bridgesByZoneShard.get z).getD .empty).get s) ∧
      (∀ s, indexes.nodesByShard.get s =
        if s ∈ (data.components.nodeLosses now timeoutMs).keys then
          ((data.components.retain now timeoutMs).nodes.keysWhere
            fun n => n.shardId = s).nonEmpty
        else data.indexes.nodesByShard.get s) ∧
      indexes.segmentRefsByZone = data.indexes.segmentRefsByZone ∧
      indexes.segmentsByZone = data.indexes.segmentsByZone := by
  rw [sweepExpiredComponents_eq]
  obtain ⟨routers, hrouters, hgetRouters⟩ := refreshRouters_spec ord
    (ord.order .changedRouterZones (data.components.routerLosses now timeoutMs).keys)
    { data with components := data.components.retain now timeoutMs }
  rw [hrouters]
  obtain ⟨bridges, hbridges, hgetBridges⟩ := refreshBridges_spec ord
    (ord.order .changedBridgeZones (data.components.bridgeLosses now timeoutMs).keys) _
  rw [hbridges]
  obtain ⟨nodes, hnodes, hgetNodes⟩ := refreshNodes_spec ord
    (ord.order .changedNodeShards (data.components.nodeLosses now timeoutMs).keys) _
  rw [hnodes]
  simp only [(ord.perm _ _).mem_iff] at hgetRouters hgetBridges hgetNodes
  refine ⟨{ data.indexes with
    routersByZone := routers
    bridgesByZoneShard := bridges
    nodesByShard := nodes }, ?_, hgetRouters, hgetBridges, hgetNodes, rfl, rfl⟩
  refine (AppData.mk.injEq ..).mpr ⟨rfl, rfl, rfl, ?_, ?_⟩
  -- The datasets are bumped in the order of the loops.
  · rw [sweepBumps, ← bumpVersions_append, ← bumpVersions_append]
    exact bumpVersions_perm (((ord.perm _ _).map _).append
      (((ord.perm _ _).map _).append ((ord.perm _ _).map _)))
  · rw [sweepBumps, List.length_append, List.length_append, List.length_map, List.length_map,
      List.length_map, (ord.perm _ _).length_eq, (ord.perm _ _).length_eq,
      (ord.perm _ _).length_eq, Nat.add_assoc, Nat.add_assoc]

theorem components_sweepExpiredComponents (data : AppData) (ord : Order) (now timeoutMs : ℕ) :
    (data.sweepExpiredComponents ord now timeoutMs).1.components =
      data.components.retain now timeoutMs := by
  obtain ⟨indexes, hdata, _⟩ := sweepExpiredComponents_spec data ord now timeoutMs
  rw [hdata]

/-- The sweep reports a removal if it bumps a dataset. -/
theorem sweepExpiredComponents_removed {data : AppData} (ord : Order) (now timeoutMs : ℕ) :
    0 < (data.sweepExpiredComponents ord now timeoutMs).2 ↔
      sweepBumps now timeoutMs data.components ≠ [] := by
  rw [sweepExpiredComponents_eq]
  exact List.length_pos_iff

theorem sweepExpiredComponents_effect {data : AppData} (hd : Indexed data) (ord : Order)
    (now timeoutMs : ℕ) :
    Effect data (data.sweepExpiredComponents ord now timeoutMs).1
      (data.components.retain now timeoutMs) data.segments
      (sweepBumps now timeoutMs data.components) := by
  obtain ⟨indexes, hdata, hgetRouters, hgetBridges, hgetNodes, hrefs, hvectors⟩ :=
    sweepExpiredComponents_spec data ord now timeoutMs
  rw [hdata]
  refine ⟨rfl, rfl, ⟨rfl, rfl⟩, fun z => ?_, fun z s => ?_, fun s => ?_, ?_⟩
  -- A zone or shard that is not refreshed has lost no component.
  · refine (hgetRouters z).trans ?_
    split_ifs with hz
    · rfl
    · exact (hd.routers z).trans (congrArg _ (HashMap.keysWhere_retain hz (by simp)).symm)
  · refine (hgetBridges z s).trans ?_
    split_ifs with hz
    · rfl
    · refine (hd.bridges z s).trans (congrArg _ (HashMap.keysWhere_retain hz ?_).symm)
      simp +contextual
  · refine (hgetNodes s).trans ?_
    split_ifs with hs
    · rfl
    · exact (hd.nodes s).trans (congrArg _ (HashMap.keysWhere_retain hs (by simp)).symm)
  · dsimp only
    rw [hrefs, hvectors]
    exact hd.segments

/-- A sweep publishes the datasets of the zones and shards that lost no component
    unchanged. -/
theorem agree_sweepExpiredComponents {components : Components} {segments : SegmentStore}
    {now timeoutMs : ℕ} {ds : Dataset} (h : ds ∉ sweepBumps now timeoutMs components) :
    (directoryOf components segments).Agree
      (directoryOf (components.retain now timeoutMs) segments) ds := by
  rw [sweepBumps, List.mem_append, List.mem_append, not_or, not_or] at h
  cases ds with
  | zoneRouters z =>
    refine Set.ext fun a => Iff.symm (HashMap.map_get_retain_eq_some_iff ?_ a)
    rintro k v hv hq rfl
    exact h.1 (List.mem_map_of_mem (HashMap.mem_imageWhere.2 ⟨k, v, hv, hq, rfl⟩))
  | zoneShards z =>
    refine fun s => Set.ext fun a => Iff.symm (HashMap.map_get_retain_eq_some_iff ?_ a)
    intro k v hv hq hp
    exact h.2.1 (List.mem_map_of_mem (HashMap.mem_imageWhere.2
      ⟨k, v, hv, hq, (Prod.mk.inj hp).2⟩))
  | shardNodes s =>
    refine Set.ext fun a => ?_
    rw [mem_shardNodes, mem_shardNodes]
    refine Iff.symm (HashMap.map_get_retain_eq_some_iff ?_ a)
    rintro k v hv hq rfl
    exact h.2.2 (List.mem_map_of_mem (HashMap.mem_imageWhere.2 ⟨k, v, hv, hq, rfl⟩))
  | _ => rfl

end Rzid
