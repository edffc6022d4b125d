import Rzid.Version

/-!
# Registrations

The effect of the three registrations on an indexed state. A registration that
changes the place of its component refreshes the datasets of the place it leaves,
if any, and of the place it comes to; a registration that repeats the place
refreshes nothing. For a node the place is only its shard.
-/

namespace Rzid

variable {data : AppData} {ord : Order} {now : ℕ}

/-! ## Routers -/

/-- The datasets refreshed when a router registered in `old` registers in `zoneId`. -/
def routerBumps (old : Option ZoneId) (zoneId : ZoneId) : List Dataset :=
  if old = some zoneId then [] else (old.toList ++ [zoneId]).map .zoneRouters

theorem registerRouter_eq (id : RouterId) (zoneId : ZoneId) :
    data.registerRouter ord now id zoneId =
      (let data' := { data with
        components.routers :=
          data.components.routers.insert id { zoneId := zoneId, lastSeenMs := now } }
      if data.directory.routers id = some zoneId then (data', false)
      else (refreshRouters ord ((data.directory.routers id).toList ++ [zoneId]) data', true)) := by
  have hold : data.directory.routers id =
    (data.components.routers.get id).map RouterInfo.zoneId := rfl
  rw [AppData.registerRouter, ← hold]
  by_cases h : data.directory.routers id = some zoneId
  · simp [h]
  · simp only [h, ne_eq, not_false_eq_true, decide_true, if_true, if_false]
    cases data.directory.routers id <;> rfl

theorem registerRouter_effect (hd : Indexed data) (id : RouterId) (zoneId : ZoneId) :
    Effect data (data.registerRouter ord now id zoneId).1
      { data.components with
        routers := data.components.routers.insert id { zoneId := zoneId, lastSeenMs := now } }
      data.segments (routerBumps (data.directory.routers id) zoneId) := by
  rw [registerRouter_eq, routerBumps]
  split_ifs with h
  · refine ⟨rfl, rfl, .nil rfl rfl, fun z => ?_, hd.bridges, hd.nodes, hd.segments⟩
    obtain ⟨r, hr, hz⟩ := Option.map_eq_some_iff.1 h
    rw [hd.routers z, HashMap.keysWhere_insert_of_eq (by simp [hr, hz])]
  · obtain ⟨index, hindex, hget⟩ := refreshRouters_spec ord
      ((data.directory.routers id).toList ++ [zoneId]) { data with
        components.routers := data.components.routers.insert id ⟨zoneId, now⟩ }
    simp only [hindex]
    refine ⟨rfl, rfl, ⟨rfl, by rw [List.length_map]⟩, fun z => (hget z).trans ?_, hd.bridges,
      hd.nodes, hd.segments⟩
    -- A zone that the router neither leaves nor comes to keeps its routers.
    split_ifs with hz
    · rfl
    · rw [List.mem_append, Option.mem_toList, List.mem_singleton, not_or] at hz
      rw [hd.routers z, HashMap.keysWhere_insert_of_eq]
      cases hget : data.components.routers.get id with
      | none => simp [Ne.symm hz.2]
      | some r =>
        have : r.zoneId ≠ z := fun hr => hz.1 (Option.map_eq_some_iff.2 ⟨r, hget, hr⟩)
        simp [this, Ne.symm hz.2]

/-- A registration of a router marks the state dirty if it changes its zone. -/
theorem registerRouter_changed (id : RouterId) (zoneId : ZoneId) :
    (data.registerRouter ord now id zoneId).2 = true ↔
      data.directory.routers id ≠ some zoneId := by
  rw [registerRouter_eq]
  split_ifs with h <;> simp [h]

/-- A registration of a router publishes the datasets that it does not refresh
    unchanged. -/
theorem agree_registerRouter {components : Components} {segments : SegmentStore}
    {id : RouterId} {info : RouterInfo} {ds : Dataset}
    (h : ds ∉ routerBumps ((directoryOf components segments).routers id) info.zoneId) :
    (directoryOf components segments).Agree
      (directoryOf { components with routers := components.routers.insert id info } segments)
      ds := by
  cases ds with
  | zoneRouters z =>
    refine Set.ext fun a => Iff.symm (HashMap.map_get_insert_eq_some_iff ?_ a)
    change (directoryOf components segments).routers id = some z ↔ _
    rw [routerBumps] at h
    split_ifs at h with hold
    · rw [hold, Option.some_inj]
    · simp only [List.map_append, List.mem_append, List.mem_map, Option.mem_toList,
        Dataset.zoneRouters.injEq, exists_eq_right, List.map_singleton, List.mem_singleton,
        not_or] at h
      exact iff_of_false h.1 (Ne.symm h.2)
  | zoneShards z => exact fun _ => rfl
  | _ => rfl

/-! ## Bridges -/

/-- The datasets refreshed when a bridge registered in `old` registers for
    `shardId` in `zoneId`: a change of shard within the zone refreshes it twice. -/
def bridgeBumps (old : Option (ShardId × ZoneId)) (shardId : ShardId) (zoneId : ZoneId) :
    List Dataset :=
  if old = some (shardId, zoneId) then []
  else (old.toList.map Prod.snd ++ [zoneId]).map .zoneShards

theorem registerBridge_eq (id : BridgeId) (shardId : ShardId) (zoneId : ZoneId) :
    data.registerBridge ord now id shardId zoneId =
      (let data' := { data with
        components.bridges := data.components.bridges.insert id
          { shardId := shardId, zoneId := zoneId, lastSeenMs := now } }
      if data.directory.bridges id = some (shardId, zoneId) then (data', false)
      else (refreshBridges ord ((data.directory.bridges id).toList.map Prod.snd ++ [zoneId]) data',
        true)) := by
  have hold : data.directory.bridges id =
    (data.components.bridges.get id).map fun b => (b.shardId, b.zoneId) := rfl
  rw [AppData.registerBridge, hold]
  cases data.components.bridges.get id with
  | none => rfl
  | some old =>
    by_cases hs : old.shardId = shardId <;> by_cases hz : old.zoneId = zoneId <;>
      simp [hs, hz, refreshBridges]

theorem registerBridge_effect (hd : Indexed data) (id : BridgeId) (shardId : ShardId)
    (zoneId : ZoneId) :
    Effect data (data.registerBridge ord now id shardId zoneId).1
      { data.components with
        bridges := data.components.bridges.insert id
          { shardId := shardId, zoneId := zoneId, lastSeenMs := now } }
      data.segments (bridgeBumps (data.directory.bridges id) shardId zoneId) := by
  rw [registerBridge_eq, bridgeBumps]
  split_ifs with h
  · refine ⟨rfl, rfl, .nil rfl rfl, hd.routers, fun z s => ?_, hd.nodes, hd.segments⟩
    obtain ⟨b, hb, hz⟩ := Option.map_eq_some_iff.1 h
    obtain ⟨hs, hz⟩ := Prod.mk.inj hz
    rw [hd.bridges z s, HashMap.keysWhere_insert_of_eq (by simp [hb, hs, hz])]
  · obtain ⟨index, hindex, hget⟩ := refreshBridges_spec ord
      ((data.directory.bridges id).toList.map Prod.snd ++ [zoneId]) { data with
        components.bridges := data.components.bridges.insert id ⟨shardId, zoneId, now⟩ }
    simp only [hindex]
    refine ⟨rfl, rfl, ⟨rfl, by rw [List.length_map]⟩, hd.routers,
      fun z s => (hget z s).trans ?_, hd.nodes, hd.segments⟩
    split_ifs with hz
    · rfl
    · rw [List.mem_append, List.mem_map, List.mem_singleton, not_or] at hz
      rw [hd.bridges z s, HashMap.keysWhere_insert_of_eq]
      cases hget : data.components.bridges.get id with
      | none => simp [Ne.symm hz.2]
      | some b =>
        have : b.zoneId ≠ z := fun hb => hz.1 ⟨(b.shardId, b.zoneId),
          Option.mem_toList.2 (Option.map_eq_some_iff.2 ⟨b, hget, rfl⟩), hb⟩
        simp [this, Ne.symm hz.2]

/-- A registration of a bridge marks the state dirty if it changes its place. -/
theorem registerBridge_changed (id : BridgeId) (shardId : ShardId) (zoneId : ZoneId) :
    (data.registerBridge ord now id shardId zoneId).2 = true ↔
      data.directory.bridges id ≠ some (shardId, zoneId) := by
  rw [registerBridge_eq]
  split_ifs with h <;> simp [h]

theorem agree_registerBridge {components : Components} {segments : SegmentStore}
    {id : BridgeId} {info : BridgeInfo} {ds : Dataset}
    (h : ds ∉ bridgeBumps ((directoryOf components segments).bridges id) info.shardId
      info.zoneId) :
    (directoryOf components segments).Agree
      (directoryOf { components with bridges := components.bridges.insert id info } segments)
      ds := by
  cases ds with
  | zoneShards z =>
    refine fun s => Set.ext fun a => Iff.symm (HashMap.map_get_insert_eq_some_iff ?_ a)
    change (directoryOf components segments).bridges id = some (s, z) ↔ _
    rw [bridgeBumps] at h
    split_ifs at h with hold
    · rw [hold, Option.some_inj]
    · rw [List.map_append, List.mem_append, List.map_map, List.mem_map, not_or] at h
      refine iff_of_false (fun hs => h.1 ⟨(s, z), Option.mem_toList.2 hs, rfl⟩) fun hs => ?_
      simp [(Prod.mk.inj hs).2] at h
  | _ => rfl

/-! ## Nodes -/

/-- The datasets refreshed when a node registered in `old` registers for
    `shardId`: a change of zone alone refreshes nothing. -/
def nodeBumps (old : Option (ShardId × ZoneId)) (shardId : ShardId) : List Dataset :=
  if old.map Prod.fst = some shardId then []
  else (old.toList.map Prod.fst ++ [shardId]).map .shardNodes

theorem registerNode_eq (id : NodeId) (shardId : ShardId) (zoneId : ZoneId) :
    data.registerNode ord now id shardId zoneId =
      (let data' := { data with
        components.nodes := data.components.nodes.insert id
          { shardId := shardId, zoneId := zoneId, lastSeenMs := now } }
      if (data.directory.nodes id).map Prod.fst = some shardId then (data', false)
      else (refreshNodes ord ((data.directory.nodes id).toList.map Prod.fst ++ [shardId]) data',
        true)) := by
  have hold : data.directory.nodes id =
    (data.components.nodes.get id).map fun n => (n.shardId, n.zoneId) := rfl
  rw [AppData.registerNode, hold]
  cases data.components.nodes.get id with
  | none => rfl
  | some old => by_cases hs : old.shardId = shardId <;> simp [hs, refreshNodes]

theorem registerNode_effect (hd : Indexed data) (id : NodeId) (shardId : ShardId)
    (zoneId : ZoneId) :
    Effect data (data.registerNode ord now id shardId zoneId).1
      { data.components with
        nodes := data.components.nodes.insert id
          { shardId := shardId, zoneId := zoneId, lastSeenMs := now } }
      data.segments (nodeBumps (data.directory.nodes id) shardId) := by
  rw [registerNode_eq, nodeBumps]
  split_ifs with h
  · refine ⟨rfl, rfl, .nil rfl rfl, hd.routers, hd.bridges, fun s => ?_, hd.segments⟩
    obtain ⟨p, hp, hs⟩ := Option.map_eq_some_iff.1 h
    obtain ⟨n, hn, rfl⟩ := Option.map_eq_some_iff.1 hp
    have hs : n.shardId = shardId := hs
    rw [hd.nodes s, HashMap.keysWhere_insert_of_eq (by simp [hn, hs])]
  · obtain ⟨index, hindex, hget⟩ := refreshNodes_spec ord
      ((data.directory.nodes id).toList.map Prod.fst ++ [shardId]) { data with
        components.nodes := data.components.nodes.insert id ⟨shardId, zoneId, now⟩ }
    simp only [hindex]
    refine ⟨rfl, rfl, ⟨rfl, by rw [List.length_map]⟩, hd.routers, hd.bridges,
      fun s => (hget s).trans ?_, hd.segments⟩
    split_ifs with hs
    · rfl
    · rw [List.mem_append, List.mem_map, List.mem_singleton, not_or] at hs
      rw [hd.nodes s, HashMap.keysWhere_insert_of_eq]
      cases hget : data.components.nodes.get id with
      | none => simp [Ne.symm hs.2]
      | some n =>
        have : n.shardId ≠ s := fun hn => hs.1 ⟨(n.shardId, n.zoneId),
          Option.mem_toList.2 (Option.map_eq_some_iff.2 ⟨n, hget, rfl⟩), hn⟩
        simp [this, Ne.symm hs.2]

/-- A registration of a node marks the state dirty if it changes its shard. -/
theorem registerNode_changed (id : NodeId) (shardId : ShardId) (zoneId : ZoneId) :
    (data.registerNode ord now id shardId zoneId).2 = true ↔
      (data.directory.nodes id).map Prod.fst ≠ some shardId := by
  rw [registerNode_eq]
  split_ifs with h <;> simp [h]

theorem agree_registerNode {components : Components} {segments : SegmentStore}
    {id : NodeId} {info : NodeInfo} {ds : Dataset}
    (h : ds ∉ nodeBumps ((directoryOf components segments).nodes id) info.shardId) :
    (directoryOf components segments).Agree
      (directoryOf { components with nodes := components.nodes.insert id info } segments)
      ds := by
  have hold : ((directoryOf components segments).nodes id).map Prod.fst =
      (components.nodes.get id).map NodeInfo.shardId := by
    rw [directoryOf, Option.map_map]
    rfl
  cases ds with
  | shardNodes s =>
    refine Set.ext fun a => ?_
    rw [mem_shardNodes, mem_shardNodes]
    refine Iff.symm (HashMap.map_get_insert_eq_some_iff ?_ a)
    rw [← hold]
    rw [nodeBumps] at h
    split_ifs at h with hold
    · rw [hold, Option.some_inj]
    · rw [List.map_append, List.mem_append, List.map_map, List.mem_map, not_or] at h
      refine iff_of_false (fun hs => ?_) fun hs => by simp [hs] at h
      obtain ⟨p, hp, rfl⟩ := Option.map_eq_some_iff.1 hs
      exact h.1 ⟨p, Option.mem_toList.2 hp, rfl⟩
  | zoneShards z => exact fun _ => rfl
  | _ => rfl

end Rzid
