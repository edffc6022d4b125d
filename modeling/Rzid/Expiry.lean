import Rzid.Sequential

/-!
# The expiry counter

The counter `rzid_heartbeat_timeout_total` is to count the components that sweeps
remove. A sweep raises it by the number of the zones and shards that it refreshes
(`timeoutTotal_sweep`), where components that it removes from the same zone or shard
count once. So the counter never exceeds the number of removed components, and equals
it exactly while no sweep removes two routers or two bridges of a zone, or two nodes
of a shard (`Components.Spread`, `timeoutTotal_iff`).
-/

namespace Rzid

/-! ## One sweep -/

/-- The number of component records. -/
def Components.size (components : Components) : ℕ :=
  components.routers.len + components.bridges.len + components.nodes.len

/-- The expired entries of a component map are in different places. -/
def SpreadBy {V : Type} (now timeoutMs : ℕ) (lastSeenMs : V → ℕ) (place : V → String)
    (m : HashMap String V) : Prop :=
  ∀ id id' v v', m.get id = some v → m.get id' = some v' →
    expired now timeoutMs (lastSeenMs v) = true → expired now timeoutMs (lastSeenMs v') = true →
      place v = place v' → id = id'

/-- No two expired routers or bridges are in the same zone, and no two expired nodes
    serve the same shard. -/
structure Components.Spread (now timeoutMs : ℕ) (components : Components) : Prop where
  routers : SpreadBy now timeoutMs RouterInfo.lastSeenMs RouterInfo.zoneId components.routers
  bridges : SpreadBy now timeoutMs BridgeInfo.lastSeenMs BridgeInfo.zoneId components.bridges
  nodes : SpreadBy now timeoutMs NodeInfo.lastSeenMs NodeInfo.shardId components.nodes

section Sweep

variable (now timeoutMs : ℕ)

/-- The number of components that a sweep removes. -/
def Components.expiredCount (components : Components) : ℕ :=
  (components.routers.keysWhere fun info => expired now timeoutMs info.lastSeenMs).length +
    (components.bridges.keysWhere fun info => expired now timeoutMs info.lastSeenMs).length +
      (components.nodes.keysWhere fun info => expired now timeoutMs info.lastSeenMs).length

/-- A sweep removes the expired components. -/
theorem Components.size_retain (components : Components) :
    (components.retain now timeoutMs).size + components.expiredCount now timeoutMs =
      components.size := by
  have hrouters := HashMap.len_retain_add
    (fun info : RouterInfo => expired now timeoutMs info.lastSeenMs) components.routers
  have hbridges := HashMap.len_retain_add
    (fun info : BridgeInfo => expired now timeoutMs info.lastSeenMs) components.bridges
  have hnodes := HashMap.len_retain_add
    (fun info : NodeInfo => expired now timeoutMs info.lastSeenMs) components.nodes
  simp only [size, expiredCount, retain]
  omega

theorem length_sweepBumps (components : Components) :
    (sweepBumps now timeoutMs components).length =
      (components.routerLosses now timeoutMs).keys.length +
        (components.bridgeLosses now timeoutMs).keys.length +
          (components.nodeLosses now timeoutMs).keys.length := by
  rw [sweepBumps, List.length_append, List.length_append, List.length_map, List.length_map,
    List.length_map, Nat.add_assoc]

/-- A sweep refreshes at most as many zones and shards as it removes components. -/
theorem length_sweepBumps_le (components : Components) :
    (sweepBumps now timeoutMs components).length ≤ components.expiredCount now timeoutMs := by
  rw [length_sweepBumps, Components.expiredCount]
  exact Nat.add_le_add (Nat.add_le_add (HashMap.length_keys_imageWhere_le ..)
    (HashMap.length_keys_imageWhere_le ..)) (HashMap.length_keys_imageWhere_le ..)

/-- A sweep refreshes as many zones and shards as it removes components if and only if
    these are spread. -/
theorem length_sweepBumps_eq_iff (components : Components) :
    (sweepBumps now timeoutMs components).length = components.expiredCount now timeoutMs ↔
      components.Spread now timeoutMs := by
  have hrouters := HashMap.length_keys_imageWhere_le
    (fun info : RouterInfo => expired now timeoutMs info.lastSeenMs) RouterInfo.zoneId
    components.routers
  have hbridges := HashMap.length_keys_imageWhere_le
    (fun info : BridgeInfo => expired now timeoutMs info.lastSeenMs) BridgeInfo.zoneId
    components.bridges
  have hnodes := HashMap.length_keys_imageWhere_le
    (fun info : NodeInfo => expired now timeoutMs info.lastSeenMs) NodeInfo.shardId
    components.nodes
  have hspread : components.Spread now timeoutMs ↔
      (components.routerLosses now timeoutMs).keys.length = (components.routers.keysWhere
        fun info => expired now timeoutMs info.lastSeenMs).length ∧
      (components.bridgeLosses now timeoutMs).keys.length = (components.bridges.keysWhere
        fun info => expired now timeoutMs info.lastSeenMs).length ∧
      (components.nodeLosses now timeoutMs).keys.length = (components.nodes.keysWhere
        fun info => expired now timeoutMs info.lastSeenMs).length := by
    rw [Components.routerLosses, Components.bridgeLosses, Components.nodeLosses,
      HashMap.length_keys_imageWhere_eq_iff, HashMap.length_keys_imageWhere_eq_iff,
      HashMap.length_keys_imageWhere_eq_iff]
    exact ⟨fun h => ⟨h.routers, h.bridges, h.nodes⟩, fun h => ⟨h.1, h.2.1, h.2.2⟩⟩
  rw [hspread, length_sweepBumps, Components.expiredCount]
  simp only [Components.routerLosses, Components.bridgeLosses, Components.nodeLosses]
  omega

end Sweep

/-- The number of components that a sweep of the service removes. -/
def AppState.removedBySweep (ord : Order) (now : ℕ) (state : AppState) : ℕ :=
  state.data.components.size - (state.sweepExpiredComponents ord now).data.components.size

theorem removedBySweep_eq (ord : Order) (now : ℕ) (state : AppState) :
    state.removedBySweep ord now =
      state.data.components.expiredCount now (timeoutMs state.heartbeatTimeoutSecs) := by
  have hsize := state.data.components.size_retain now (timeoutMs state.heartbeatTimeoutSecs)
  rw [AppState.removedBySweep, components_sweep]
  omega

/-- A sweep raises the counter by the number of datasets that it refreshes. -/
theorem timeoutTotal_sweep (ord : Order) (now : ℕ) (state : AppState) :
    (state.sweepExpiredComponents ord now).metrics.heartbeatTimeoutTotal =
      state.metrics.heartbeatTimeoutTotal +
        (sweepBumps now (timeoutMs state.heartbeatTimeoutSecs) state.data.components).length := by
  have hremoved := congrArg Prod.snd (@sweepExpiredComponents_eq state.data ord now
    (timeoutMs state.heartbeatTimeoutSecs))
  rw [AppState.sweepExpiredComponents]
  generalize state.data.sweepExpiredComponents ord now (timeoutMs state.heartbeatTimeoutSecs) =
    result at hremoved
  obtain ⟨data, removed⟩ := result
  obtain rfl : removed = _ := hremoved
  dsimp only
  split_ifs with h
  · rfl
  · rw [Nat.eq_zero_of_not_pos h]
    rfl

/-! ## Runs -/

/-- The other operations leave the counter as it is. -/
theorem timeoutTotal_call (ord : Order) (now : ℕ) (call : Call) (state : AppState) :
    (call.apply ord now state).metrics.heartbeatTimeoutTotal =
      state.metrics.heartbeatTimeoutTotal := by
  have hregistered : ∀ result : AppData × Bool,
      (state.registered result).metrics.heartbeatTimeoutTotal =
        state.metrics.heartbeatTimeoutTotal := by
    rintro ⟨data, _ | _⟩ <;> rfl
  cases call with
  | updateSegments shardId zoneId segments =>
    rw [Call.apply, AppState.updateSegments]
    obtain ⟨data, _ | _⟩ := state.data.updateSegments ord shardId zoneId segments <;> rfl
  | _ => exact hregistered _

variable {Bytes : Type} (json : Json Bytes)

theorem timeoutTotal_persist (p : Process Bytes) :
    (p.persist json).state.metrics.heartbeatTimeoutTotal =
      p.state.metrics.heartbeatTimeoutTotal := by
  rw [Process.persist, AppState.persist]
  cases p.state.dirty <;> rfl

namespace Process

/-- The number of components that the sweeps of a run have removed since the last
    start of the process, which resets its metrics. -/
def removed (p : Process Bytes) : List Event → ℕ
  | [] => 0
  | .sweep ord now :: events =>
    p.removed events + (p.run json events).state.removedBySweep ord now
  | .restart _ _ _ :: _ => 0
  | _ :: events => p.removed events

/-- Every sweep of a run, since the last start of the process, finds the expired
    components spread. -/
def SweepsSpread (p : Process Bytes) : List Event → Prop
  | [] => True
  | .sweep _ now :: events =>
    p.SweepsSpread events ∧ (p.run json events).state.data.components.Spread now
      (timeoutMs (p.run json events).state.heartbeatTimeoutSecs)
  | .restart _ _ _ :: _ => True
  | _ :: events => p.SweepsSpread events

end Process

/-- A sweep raises the counter by at most the number of components that it removes,
    and by that number if and only if they are spread. -/
theorem timeoutTotal_sweep_le (ord : Order) (now : ℕ) (state : AppState) :
    ∃ n, (state.sweepExpiredComponents ord now).metrics.heartbeatTimeoutTotal =
        state.metrics.heartbeatTimeoutTotal + n ∧ n ≤ state.removedBySweep ord now ∧
      (n = state.removedBySweep ord now ↔
        state.data.components.Spread now (timeoutMs state.heartbeatTimeoutSecs)) := by
  refine ⟨_, timeoutTotal_sweep ord now state, ?_, ?_⟩
  · rw [removedBySweep_eq]
    exact length_sweepBumps_le ..
  · rw [removedBySweep_eq]
    exact length_sweepBumps_eq_iff ..

/-- Along a run, the counter does not exceed the number of removed components, and it is
    equal to it as long as every sweep finds them spread. -/
theorem timeoutTotal_run (ord : Order) (now : ℕ) (file : Option Bytes) (secs : ℕ)
    (events : List Event) :
    let p := Process.start json ord now file secs
    (p.run json events).state.metrics.heartbeatTimeoutTotal ≤ p.removed json events ∧
      ((p.run json events).state.metrics.heartbeatTimeoutTotal = p.removed json events ↔
        p.SweepsSpread json events) := by
  intro p
  induction events with
  | nil => exact ⟨le_rfl, iff_of_true rfl trivial⟩
  | cons event events ih =>
    obtain ⟨hle, hiff⟩ := ih
    cases event with
    | call ord' now' call =>
      rw [Process.run, Process.apply, timeoutTotal_call]
      exact ⟨hle, hiff⟩
    | sweep ord' now' =>
      obtain ⟨n, hn, hnle, hspread⟩ :=
        timeoutTotal_sweep_le ord' now' (p.run json events).state
      rw [Process.run, Process.apply, Process.removed, Process.SweepsSpread, hn, ← hiff, ← hspread]
      exact ⟨Nat.add_le_add hle hnle, by omega⟩
    | persist =>
      rw [Process.run, Process.apply, timeoutTotal_persist]
      exact ⟨hle, hiff⟩
    | restart ord' now' secs' => exact ⟨le_rfl, iff_of_true rfl trivial⟩

/-- One sweep raises the counter by the number of components that it removes if and
    only if these are spread over zones and shards. And after any run, the counter is the
    number of components that the sweeps have removed if and only if every sweep has
    found them spread. -/
theorem timeoutTotal_iff (ord : Order) (now : ℕ) (file : Option Bytes) (secs : ℕ)
    (events : List Event) :
    let p := Process.start json ord now file secs
    (∀ (ord' : Order) (now' : ℕ),
      ((p.run json events).state.sweepExpiredComponents ord' now').metrics.heartbeatTimeoutTotal =
          (p.run json events).state.metrics.heartbeatTimeoutTotal +
            (p.run json events).state.removedBySweep ord' now' ↔
        (p.run json events).state.data.components.Spread now'
          (timeoutMs (p.run json events).state.heartbeatTimeoutSecs)) ∧
    ((p.run json events).state.metrics.heartbeatTimeoutTotal = p.removed json events ↔
      p.SweepsSpread json events) := by
  intro p
  refine ⟨fun ord' now' => ?_, (timeoutTotal_run json ord now file secs events).2⟩
  obtain ⟨n, hn, _, hspread⟩ := timeoutTotal_sweep_le ord' now' (p.run json events).state
  rw [hn, Nat.add_left_cancel_iff]
  exact hspread

/-- Two routers of a zone expire in one sweep: it removes two, and counts one. -/
theorem timeoutTotal_two_routers :
    let events : List Event := [.sweep (.inOrder _) 60002,
      .call (.inOrder _) 1 (.registerRouter "r2" "eu"),
      .call (.inOrder _) 1 (.registerRouter "r1" "eu")]
    let p := Process.start Json.verbatim (.inOrder _) 0 none 60
    p.removed Json.verbatim events = 2 ∧
      (p.run Json.verbatim events).state.metrics.heartbeatTimeoutTotal = 1 := by
  decide

end Rzid
