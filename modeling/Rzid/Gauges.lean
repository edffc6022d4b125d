import Mathlib.Data.Set.Card
import Rzid.Sequential

/-!
# The component gauges

The gauges of registered routers, bridges, nodes and zones. They are set from the sizes
of the component maps and of the router index, by a start and a sweep always, and by a
call only if it reports a change.

In an indexed state, the router index has an entry for every zone of a router and for no
other zone (`len_routersByZone`), so what is set is right (`gauges_of_refreshed`). And a
call that reports no change leaves the sizes and the zones as they are
(`len_call_unchanged`, `routerZones_call_unchanged`). So the gauges are right after every
sequence of operations (`gauges_run`).
-/

namespace Rzid

/-- The zones that some registered router has. -/
def Components.routerZones (components : Components) : Set ZoneId :=
  {zoneId | ∃ id router, components.routers.get id = some router ∧ router.zoneId = zoneId}

/-- The component gauges are those of the records. -/
structure Metrics.Gauges (metrics : Metrics) (components : Components) : Prop where
  routers : metrics.registeredRouters = components.routers.len
  bridges : metrics.registeredBridges = components.bridges.len
  nodes : metrics.registeredNodes = components.nodes.len
  zones : metrics.registeredZones = components.routerZones.ncard

/-! ## Refreshing the gauges -/

section Refresh

variable {data : AppData} {metrics : Metrics}

/-- The router index has as many entries as there are zones with routers. -/
theorem len_routersByZone {components : Components}
    {routersByZone : HashMap ZoneId (List RouterId)}
    (h : RoutersIndexed components.routers routersByZone) :
    routersByZone.len = components.routerZones.ncard := by
  have hzones : components.routerZones = (routersByZone.keys.toFinset : Set ZoneId) := by
    ext z
    rw [List.coe_toFinset]
    change (∃ id router, _) ↔ z ∈ routersByZone.keys
    rw [← not_iff_not, ← HashMap.get_eq_none_iff, h z, List.nonEmpty_eq_none_iff,
      HashMap.keysWhere_eq_nil_iff]
    push Not
    simp
  rw [hzones, Set.ncard_coe_finset, List.toFinset_card_of_nodup routersByZone.sortedLT_keys.nodup,
    HashMap.keys, List.length_map]
  rfl

/-- The gauges are right once they are set from an indexed state. -/
theorem gauges_of_refreshed (hd : Indexed data) (h : metrics.refreshGauges data = metrics) :
    metrics.Gauges data.components := by
  rw [← h]
  exact ⟨rfl, rfl, rfl, len_routersByZone hd.routers⟩

end Refresh

/-! ## Calls -/

section Call

variable (ord : Order) (now : ℕ) (call : Call)

/-- A registration sets the gauges if it reports a change, and otherwise keeps all
    metrics. -/
theorem metrics_registered (state : AppState) (result : AppData × Bool) :
    if result.2 then
      (state.registered result).metrics.refreshGauges (state.registered result).data =
        (state.registered result).metrics
    else (state.registered result).metrics = state.metrics := by
  obtain ⟨data, _ | _⟩ := result <;> rfl

theorem metrics_call (state : AppState) :
    if (call.exec ord now state.data).2 then
      (call.apply ord now state).metrics.refreshGauges (call.apply ord now state).data =
        (call.apply ord now state).metrics
    else (call.apply ord now state).metrics = state.metrics := by
  cases call with
  | updateSegments shardId zoneId segments =>
    rw [Call.apply, AppState.updateSegments, Call.exec]
    obtain ⟨data, _ | _⟩ := state.data.updateSegments ord shardId zoneId segments <;> rfl
  | _ => exact metrics_registered state _

variable {data : AppData} {call}

/-- A call that reports no change registers nothing new. -/
theorem len_call_unchanged (h : ¬(call.exec ord now data).2 = true) :
    (call.components now data.components).routers.len = data.components.routers.len ∧
      (call.components now data.components).bridges.len = data.components.bridges.len ∧
      (call.components now data.components).nodes.len = data.components.nodes.len := by
  cases call with
  | registerRouter id zoneId =>
    obtain ⟨r, hr, _⟩ := Option.map_eq_some_iff.1
      (not_not.1 (mt (registerRouter_changed id zoneId).2 h))
    exact ⟨HashMap.len_insert_of_get hr _, rfl, rfl⟩
  | registerBridge id shardId zoneId =>
    obtain ⟨b, hb, _⟩ := Option.map_eq_some_iff.1
      (not_not.1 (mt (registerBridge_changed id shardId zoneId).2 h))
    exact ⟨rfl, HashMap.len_insert_of_get hb _, rfl⟩
  | registerNode id shardId zoneId =>
    -- The node may be registered in another zone.
    obtain ⟨p, hp, _⟩ := Option.map_eq_some_iff.1
      (not_not.1 (mt (registerNode_changed id shardId zoneId).2 h))
    obtain ⟨n, hn, _⟩ := Option.map_eq_some_iff.1 hp
    exact ⟨rfl, rfl, HashMap.len_insert_of_get hn _⟩
  | updateSegments shardId zoneId segments => exact ⟨rfl, rfl, rfl⟩

/-- A call that reports no change bumps nothing, so that every zone keeps its routers. -/
theorem routerZones_call_unchanged (hd : Indexed data) (h : ¬(call.exec ord now data).2 = true) :
    (call.components now data.components).routerZones = data.components.routerZones := by
  have hbumps : (Op.call call).bumps now data = [] :=
    not_not.1 (mt (call_changed ord now call).2 h)
  have hzones : ∀ (data : AppData) (z : ZoneId),
      z ∈ data.components.routerZones ↔ (data.directory.zoneRouters z).Nonempty := fun data z =>
    exists_congr fun id => Option.map_eq_some_iff.symm
  rw [← components_call ord now call hd]
  ext z
  have hagree : data.directory.Agree (call.exec ord now data).1.directory (.zoneRouters z) :=
    exec_agree ord now (.call call) hd (hbumps ▸ List.not_mem_nil)
  rw [hzones, hzones]
  exact iff_of_eq (congrArg Set.Nonempty hagree.symm)

theorem gauges_call {state : AppState} (hd : Indexed state.data)
    (h : state.metrics.Gauges state.data.components) :
    (call.apply ord now state).metrics.Gauges (call.apply ord now state).data.components := by
  have hmetrics := metrics_call ord now call state
  have hdata := (call_apply_spec ord now call state).1
  split_ifs at hmetrics with hchanged
  · exact gauges_of_refreshed (hdata ▸ indexed_exec ord now (.call call) hd) hmetrics
  · obtain ⟨hrouters, hbridges, hnodes⟩ := len_call_unchanged ord now hchanged
    rw [hmetrics, hdata, components_call ord now call hd]
    constructor
    · rw [h.routers, hrouters]
    · rw [h.bridges, hbridges]
    · rw [h.nodes, hnodes]
    · rw [h.zones, routerZones_call_unchanged ord now hd hchanged]

end Call

/-! ## Runs -/

theorem gauges_sweep (ord : Order) (now : ℕ) {state : AppState} (hd : Indexed state.data) :
    (state.sweepExpiredComponents ord now).metrics.Gauges
      (state.sweepExpiredComponents ord now).data.components := by
  refine gauges_of_refreshed ?_ ?_
  · rw [(sweep_apply_spec ord now state).1]
    exact indexed_exec ord now _ hd
  · rw [AppState.sweepExpiredComponents]
    dsimp only
    split_ifs <;> rfl

variable {Bytes : Type} {json : Json Bytes}

theorem gauges_start (ord : Order) (now : ℕ) (file : Option Bytes) (secs : ℕ) :
    (Process.start json ord now file secs).state.metrics.Gauges
      (Process.start json ord now file secs).state.data.components :=
  gauges_of_refreshed (indexed_load ord now _) rfl

theorem gauges_persist {p : Process Bytes} (h : p.state.metrics.Gauges p.state.data.components) :
    (p.persist json).state.metrics.Gauges (p.persist json).state.data.components := by
  rw [Process.persist, AppState.persist]
  cases p.state.dirty
  · exact h
  · exact ⟨h.routers, h.bridges, h.nodes, h.zones⟩

/-- After a start and any operations, the gauges of routers, bridges and nodes are the
    sizes of the component maps, and the gauge of zones is the number of zones that some
    registered router has. -/
theorem gauges_run (json : Json Bytes) (ord : Order) (now : ℕ) (file : Option Bytes) (secs : ℕ)
    (events : List Event) :
    let state := ((Process.start json ord now file secs).run json events).state
    state.metrics.Gauges state.data.components := by
  intro state
  induction events with
  | nil => exact gauges_start ord now file secs
  | cons event events ih =>
    have hd : Indexed ((Process.start json ord now file secs).run json events).state.data :=
      indexed_run ord now file secs events
    cases event with
    | call ord' now' call => exact gauges_call ord' now' hd ih
    | sweep ord' now' => exact gauges_sweep ord' now' hd
    | persist => exact gauges_persist ih
    | restart ord' now' secs' => exact gauges_start ord' now' _ secs'

end Rzid
