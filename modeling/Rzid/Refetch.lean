import Rzid.Normalized

/-!
# No spurious refetches

A client fetches a dataset again when its version has changed. For the registration
datasets and the shard segments it is never in vain: an operation that bumps one of
them changes its content (`no_spurious_refetch`). Every dataset that an operation
bumps belongs to a component or shard whose old or new place it is, and has lost or
gained it (`mem_routerBumps` and so on).

The segments of a zone are bumped in vain at times: see `Rzid.ZoneSegments`.
-/

namespace Rzid

/-! ## What is bumped has changed -/

/-- The zones that a registration of a router bumps are those that lose or gain it. -/
theorem mem_routerBumps {old : Option ZoneId} {zoneId : ZoneId} {ds : Dataset}
    (h : ds ∈ routerBumps old zoneId) :
    ∃ z, ds = .zoneRouters z ∧ ¬(old = some z ↔ zoneId = z) := by
  rw [routerBumps] at h
  split_ifs at h with hold
  · cases h
  · obtain ⟨z, hz, rfl⟩ := List.mem_map.1 h
    refine ⟨z, rfl, fun hiff => hold ?_⟩
    rw [List.mem_append, Option.mem_toList, List.mem_singleton] at hz
    rcases hz with hz | hz
    · rw [hz, hiff.1 hz]
    · rw [hiff.2 hz.symm, hz]

/-- The zones that a registration of a bridge bumps are those where a shard loses or
    gains it. -/
theorem mem_bridgeBumps {old : Option (ShardId × ZoneId)} {shardId : ShardId} {zoneId : ZoneId}
    {ds : Dataset} (h : ds ∈ bridgeBumps old shardId zoneId) :
    ∃ s z, ds = .zoneShards z ∧ ¬(old = some (s, z) ↔ (shardId, zoneId) = (s, z)) := by
  rw [bridgeBumps] at h
  split_ifs at h with hold
  · cases h
  · obtain ⟨z, hz, rfl⟩ := List.mem_map.1 h
    rw [List.mem_append, List.mem_map, List.mem_singleton] at hz
    rcases hz with ⟨⟨s, z⟩, hz, rfl⟩ | rfl
    · rw [Option.mem_toList] at hz
      refine ⟨s, z, rfl, fun hiff => hold ?_⟩
      rw [hz, hiff.1 hz]
    · exact ⟨shardId, z, rfl, fun hiff => hold (hiff.2 rfl)⟩

/-- The shards that a registration of a node bumps are those that lose or gain it. -/
theorem mem_nodeBumps {old : Option (ShardId × ZoneId)} {shardId : ShardId} {ds : Dataset}
    (h : ds ∈ nodeBumps old shardId) :
    ∃ s, ds = .shardNodes s ∧ ¬(old.map Prod.fst = some s ↔ shardId = s) := by
  rw [nodeBumps] at h
  split_ifs at h with hold
  · cases h
  · obtain ⟨s, hs, rfl⟩ := List.mem_map.1 h
    refine ⟨s, rfl, fun hiff => hold ?_⟩
    rw [List.mem_append, List.mem_map, List.mem_singleton] at hs
    rcases hs with ⟨p, hp, rfl⟩ | rfl
    · rw [Option.mem_toList] at hp
      have hold : old.map Prod.fst = some p.1 := by rw [hp, Option.map_some]
      rw [hold, hiff.1 hold]
    · exact hiff.2 rfl

section Agree

variable {components : Components} {segments : SegmentStore} {ds : Dataset}

theorem not_agree_registerRouter {id : RouterId} {info : RouterInfo}
    (h : ds ∈ routerBumps ((directoryOf components segments).routers id) info.zoneId) :
    ¬(directoryOf components segments).Agree
      (directoryOf { components with routers := components.routers.insert id info } segments)
      ds := by
  obtain ⟨z, rfl, hne⟩ := mem_routerBumps h
  intro hagree
  refine hne ((Set.ext_iff.1 hagree id).trans ?_)
  simp [Directory.zoneRouters, directoryOf]

theorem not_agree_registerBridge {id : BridgeId} {info : BridgeInfo}
    (h : ds ∈ bridgeBumps ((directoryOf components segments).bridges id) info.shardId
      info.zoneId) :
    ¬(directoryOf components segments).Agree
      (directoryOf { components with bridges := components.bridges.insert id info } segments)
      ds := by
  obtain ⟨s, z, rfl, hne⟩ := mem_bridgeBumps h
  intro hagree
  refine hne ((Set.ext_iff.1 (hagree s) id).trans ?_)
  simp [Directory.zoneBridges, directoryOf]

theorem not_agree_registerNode {id : NodeId} {info : NodeInfo}
    (h : ds ∈ nodeBumps ((directoryOf components segments).nodes id) info.shardId) :
    ¬(directoryOf components segments).Agree
      (directoryOf { components with nodes := components.nodes.insert id info } segments)
      ds := by
  obtain ⟨s, rfl, hne⟩ := mem_nodeBumps h
  intro hagree
  have hid := Set.ext_iff.1 hagree id
  rw [mem_shardNodes, mem_shardNodes, HashMap.get_insert_self, Option.map_some,
    Option.some_inj] at hid
  refine hne (Iff.trans ?_ hid)
  rw [directoryOf, Option.map_map]
  rfl

/-- The only dataset other than segments of zones that an update bumps is that of its
    shard, and it changes its record. -/
theorem not_agree_updateSegments {shardId : ShardId} {shard : ShardSegments}
    (h : ds ∈ updateBumps segments shardId shard) (hds : ∀ z, ds ≠ .zoneSegments z) :
    ¬(directoryOf components segments).Agree
      (directoryOf components (segments.update shardId shard)) ds := by
  rw [updateBumps] at h
  split_ifs at h with hid
  · cases h
  · rcases List.mem_cons.1 h with rfl | h
    · intro hagree
      have hget : segments.byShard.get shardId = some shard := by
        refine Eq.trans hagree ?_
        rw [SegmentStore.update, if_neg hid]
        exact HashMap.get_insert_self ..
      exact hid ⟨shard, hget, rfl, rfl⟩
    · obtain ⟨z, _, rfl⟩ := List.mem_map.1 h
      exact absurd rfl (hds z)

/-- An expired entry is dropped. -/
theorem get_retain_of_expired {V : Type} (lastSeenMs : V → ℕ) {now timeoutMs : ℕ}
    {m : HashMap String V} {id : String} {v : V} (hget : m.get id = some v)
    (hexpired : expired now timeoutMs (lastSeenMs v) = true) :
    (m.retain fun v => !expired now timeoutMs (lastSeenMs v)).get id = none := by
  rw [HashMap.get_retain, hget]
  simp [Option.filter, hexpired]

theorem not_agree_sweepExpiredComponents {now timeoutMs : ℕ}
    (h : ds ∈ sweepBumps now timeoutMs components) :
    ¬(directoryOf components segments).Agree
      (directoryOf (components.retain now timeoutMs) segments) ds := by
  rw [sweepBumps, List.mem_append, List.mem_append, List.mem_map, List.mem_map,
    List.mem_map] at h
  rcases h with ⟨z, hz, rfl⟩ | ⟨z, hz, rfl⟩ | ⟨s, hs, rfl⟩
  · obtain ⟨id, router, hget, hexpired, rfl⟩ := HashMap.mem_imageWhere.1 hz
    have hgone := get_retain_of_expired RouterInfo.lastSeenMs hget hexpired
    intro hagree
    have hid := Set.ext_iff.1 hagree id
    simp [Directory.zoneRouters, directoryOf, Components.retain, hget, hgone] at hid
  · obtain ⟨id, bridge, hget, hexpired, rfl⟩ := HashMap.mem_imageWhere.1 hz
    have hgone := get_retain_of_expired BridgeInfo.lastSeenMs hget hexpired
    intro hagree
    have hid := Set.ext_iff.1 (hagree bridge.shardId) id
    simp [Directory.zoneBridges, directoryOf, Components.retain, hget, hgone] at hid
  · obtain ⟨id, node, hget, hexpired, rfl⟩ := HashMap.mem_imageWhere.1 hs
    have hgone := get_retain_of_expired NodeInfo.lastSeenMs hget hexpired
    intro hagree
    have hid := Set.ext_iff.1 hagree id
    rw [mem_shardNodes, mem_shardNodes] at hid
    simp [Components.retain, hget, hgone] at hid

end Agree

section Exec

variable {data : AppData} (ord : Order) (now : ℕ) (op : Op)

/-- An operation that bumps a dataset other than segments of a zone changes it. -/
theorem exec_not_agree (hd : Indexed data) {ds : Dataset} (hds : ∀ z, ds ≠ .zoneSegments z)
    (h : ds ∈ op.bumps now data) :
    ¬data.directory.Agree (op.exec ord now data).1.directory ds := by
  rw [directory_exec ord now op hd]
  cases op with
  | call call =>
    cases call with
    | registerRouter id zoneId => exact not_agree_registerRouter h
    | registerBridge id shardId zoneId => exact not_agree_registerBridge h
    | registerNode id shardId zoneId => exact not_agree_registerNode h
    | updateSegments shardId zoneId new => exact not_agree_updateSegments h hds
  | sweepExpiredComponents timeoutMs => exact not_agree_sweepExpiredComponents h

/-- A version changes if and only if its dataset is bumped. -/
theorem version_exec_ne_iff (hd : Indexed data) {ds : Dataset} :
    (op.exec ord now data).1.version ds ≠ data.version ds ↔ ds ∈ op.bumps now data := by
  rw [version_exec ord now op hd, ne_eq, Nat.add_eq_left, List.count_eq_zero, not_not]

/-! ## What an operation is about -/

/-- A zone or a shard. -/
inductive Place
  | zone (zoneId : ZoneId)
  | shard (shardId : ShardId)
  deriving DecidableEq

/-- The zone or shard that a dataset describes. -/
def Dataset.place : Dataset → Place
  | .zoneRouters zoneId => .zone zoneId
  | .zoneShards zoneId => .zone zoneId
  | .zoneSegments zoneId => .zone zoneId
  | .shardSegments shardId => .shard shardId
  | .shardNodes shardId => .shard shardId

/-- The places of a bridge or node, if it is registered. -/
def placesOf (registration : Option (ShardId × ZoneId)) : Set Place :=
  {p | ∃ s z, registration = some (s, z) ∧ (p = .shard s ∨ p = .zone z)}

/-- The places that a call is about: those it names, and those of the component or
    shard before it. -/
def Call.places (data : AppData) : Call → Set Place
  | registerRouter id zoneId =>
    {p | ∃ z, (data.directory.routers id = some z ∨ zoneId = z) ∧ p = .zone z}
  | registerBridge id shardId zoneId =>
    placesOf (data.directory.bridges id) ∪ placesOf (some (shardId, zoneId))
  | registerNode id shardId zoneId =>
    placesOf (data.directory.nodes id) ∪ placesOf (some (shardId, zoneId))
  | updateSegments shardId zoneId _ =>
    placesOf ((data.directory.segments shardId).map fun old => (shardId, old.zoneId)) ∪
      placesOf (some (shardId, zoneId))

/-- The places that an operation is about; for a sweep, those of the expired
    components. -/
def Op.places (data : AppData) : Op → Set Place
  | .call c => c.places data
  | .sweepExpiredComponents timeoutMs =>
    {p | (∃ id router, data.components.routers.get id = some router ∧
        expired now timeoutMs router.lastSeenMs = true ∧ p = .zone router.zoneId) ∨
      (∃ id bridge, data.components.bridges.get id = some bridge ∧
        expired now timeoutMs bridge.lastSeenMs = true ∧
          p ∈ placesOf (some (bridge.shardId, bridge.zoneId))) ∨
      ∃ id node, data.components.nodes.get id = some node ∧
        expired now timeoutMs node.lastSeenMs = true ∧
          p ∈ placesOf (some (node.shardId, node.zoneId))}

/-- The call is a heartbeat that repeats the current placement of its component, or
    an update that repeats the zone and the segments of its shard. -/
def Call.Repeats (data : AppData) : Call → Prop
  | registerRouter id zoneId => data.directory.routers id = some zoneId
  | registerBridge id shardId zoneId => data.directory.bridges id = some (shardId, zoneId)
  | registerNode id shardId zoneId => data.directory.nodes id = some (shardId, zoneId)
  | updateSegments shardId zoneId new =>
    ∃ old, data.directory.segments shardId = some old ∧ old.zoneId = zoneId ∧
      ∀ g, g ∈ new ↔ g ∈ old.segments.set.keys

theorem bumps_of_repeats {call : Call} (h : call.Repeats data) : call.bumps data = [] := by
  cases call with
  | registerRouter id zoneId => exact if_pos h
  | registerBridge id shardId zoneId => exact if_pos h
  | registerNode id shardId zoneId => exact if_pos (congrArg (Option.map Prod.fst) h)
  | updateSegments shardId zoneId new =>
    obtain ⟨old, hget, hzone, hset⟩ := h
    refine if_pos ⟨old, hget, hzone, HashMap.ext_keys fun g => ?_⟩
    rw [SegmentSet.keys_set_new, SegmentSet.mem_sorted_new, hset g]

/-- An operation bumps only datasets of the places it is about. -/
theorem place_mem_places {ds : Dataset} (h : ds ∈ op.bumps now data) :
    ds.place ∈ op.places now data := by
  cases op with
  | call call =>
    cases call with
    | registerRouter id zoneId =>
      obtain ⟨z, rfl, hne⟩ := mem_routerBumps h
      exact ⟨z, or_iff_not_imp_left.2 fun hold => not_not.1 fun hz =>
        hne (iff_of_false hold hz), rfl⟩
    | registerBridge id shardId zoneId =>
      obtain ⟨s, z, rfl, hne⟩ := mem_bridgeBumps h
      by_cases hold : data.directory.bridges id = some (s, z)
      · exact .inl ⟨s, z, hold, .inr rfl⟩
      · exact .inr ⟨s, z, congrArg some (not_not.1 fun hz => hne (iff_of_false hold hz)), .inr rfl⟩
    | registerNode id shardId zoneId =>
      obtain ⟨s, rfl, hne⟩ := mem_nodeBumps h
      by_cases hold : (data.directory.nodes id).map Prod.fst = some s
      · obtain ⟨⟨_, z⟩, hp, rfl⟩ := Option.map_eq_some_iff.1 hold
        exact .inl ⟨_, z, hp, .inl rfl⟩
      · have hs : shardId = s := not_not.1 fun hs => hne (iff_of_false hold hs)
        exact .inr ⟨s, zoneId, by rw [hs], .inl rfl⟩
    | updateSegments shardId zoneId new =>
      have h : ds ∈ updateBumps data.segments shardId ⟨zoneId, .new new⟩ := h
      rw [updateBumps] at h
      split_ifs at h with hid
      · cases h
      · rcases List.mem_cons.1 h with rfl | h
        · exact .inr ⟨shardId, zoneId, rfl, .inl rfl⟩
        · obtain ⟨z, hz, rfl⟩ := List.mem_map.1 h
          rcases SegmentStore.mem_changedZones.1 hz with ⟨_, rfl⟩ | hz
          · exact .inr ⟨shardId, zoneId, rfl, .inr rfl⟩
          · obtain ⟨old, hget, _, rfl⟩ := SegmentStore.mem_lostZones.1 hz
            exact .inl ⟨shardId, old.zoneId, Option.map_eq_some_iff.2 ⟨old, hget, rfl⟩, .inr rfl⟩
  | sweepExpiredComponents timeoutMs =>
    have h : ds ∈ sweepBumps now timeoutMs data.components := h
    rw [sweepBumps, List.mem_append, List.mem_append, List.mem_map, List.mem_map,
      List.mem_map] at h
    rcases h with ⟨z, hz, rfl⟩ | ⟨z, hz, rfl⟩ | ⟨s, hs, rfl⟩
    · obtain ⟨id, router, hget, hexpired, rfl⟩ := HashMap.mem_imageWhere.1 hz
      exact .inl ⟨id, router, hget, hexpired, rfl⟩
    · obtain ⟨id, bridge, hget, hexpired, rfl⟩ := HashMap.mem_imageWhere.1 hz
      exact .inr (.inl ⟨id, bridge, hget, hexpired, _, _, rfl, .inr rfl⟩)
    · obtain ⟨id, node, hget, hexpired, rfl⟩ := HashMap.mem_imageWhere.1 hs
      exact .inr (.inr ⟨id, node, hget, hexpired, _, _, rfl, .inl rfl⟩)

end Exec

/-! ## No spurious refetch -/

/-- In every reachable state, an operation that changes the version of a dataset of
    zone routers, zone shards, shard nodes or shard segments changes its content. So a
    call that repeats what is registered changes no version, and no operation changes
    the version of a dataset about other zones and shards. -/
theorem no_spurious_refetch {Bytes : Type} {json : Json Bytes} {data : AppData}
    (h : Reachable json data) (ord : Order) (now : ℕ) (op : Op) :
    (∀ ds, (∀ zoneId, ds ≠ .zoneSegments zoneId) →
      (op.exec ord now data).1.version ds ≠ data.version ds →
        (op.exec ord now data).1.content ds ≠ data.content ds) ∧
    (∀ call, op = .call call → call.Repeats data →
      ∀ ds, (op.exec ord now data).1.version ds = data.version ds) ∧
    ∀ ds, ds.place ∉ op.places now data →
      (op.exec ord now data).1.version ds = data.version ds := by
  have hd := h.indexed
  refine ⟨fun ds hds hversion hcontent => ?_, fun call hcall hrep ds => ?_, fun ds hplace => ?_⟩
  · have hbump := (version_exec_ne_iff ord now op hd).1 hversion
    have h' := h.step (.exec ord now op)
    exact exec_not_agree ord now op hd hds hbump
      (agree_of_content_eq hd h'.indexed h.normalized h'.normalized hcontent.symm)
  · subst hcall
    refine not_not.1 fun hversion => ?_
    have hbump : ds ∈ call.bumps data := (version_exec_ne_iff ord now (.call call) hd).1 hversion
    rw [bumps_of_repeats hrep] at hbump
    cases hbump
  · exact not_not.1 fun hversion =>
      hplace (place_mem_places now op ((version_exec_ne_iff ord now op hd).1 hversion))

/-- A bridge that changes its shard within a zone bumps the zone twice, and changes
    its shards. -/
theorem no_spurious_refetch_bridge :
    let data := (Op.exec (.inOrder _) 1 (.call (.registerBridge "b1" "s1" "eu"))
      (.new Json.verbatim (.inOrder _) 0 none)).1
    let after := (Op.exec (.inOrder _) 2 (.call (.registerBridge "b1" "s2" "eu")) data).1
    after.version (.zoneShards "eu") = data.version (.zoneShards "eu") + 2 ∧
      after.content (.zoneShards "eu") ≠ data.content (.zoneShards "eu") :=
  ⟨by decide, (no_spurious_refetch (.step (.start (.inOrder _) 0)
    (.exec (.inOrder _) 1 (.call (.registerBridge "b1" "s1" "eu")))) (.inOrder _) 2
    (.call (.registerBridge "b1" "s2" "eu"))).1 _ nofun (by decide)⟩

end Rzid
