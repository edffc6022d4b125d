import Rzid.Sequential

/-!
# Heartbeats

What a sweep does in a sequential run, in terms of the history of the components
(`Swept`). The last heartbeat of a component is the clock reading of its latest
registration since the last start, or of that start if there is none
(`lastReading`); a registered component always carries it as its `last_seen_ms`
(`lastSeen_run`), so the sweep removes exactly the components whose last heartbeat
is too old (`swept_run`).

The timeout is configured in seconds, as any `u64`, and compared in milliseconds, cut
to a `u64`. So sweeps honour a timeout if and only if its milliseconds fit
(`honoursTimeout_iff`); a longer one can expire components at once.
-/

namespace Rzid

/-- A component, by its kind and id. -/
inductive Component
  | router (id : RouterId)
  | bridge (id : BridgeId)
  | node (id : NodeId)
  deriving DecidableEq

/-- The `last_seen_ms` of a component, if it is registered. -/
def Components.lastSeen (components : Components) : Component → Option ℕ
  | .router id => (components.routers.get id).map RouterInfo.lastSeenMs
  | .bridge id => (components.bridges.get id).map BridgeInfo.lastSeenMs
  | .node id => (components.nodes.get id).map NodeInfo.lastSeenMs

/-- The component that a call registers. -/
def Call.registers : Call → Option Component
  | registerRouter id _ => some (.router id)
  | registerBridge id _ _ => some (.bridge id)
  | registerNode id _ _ => some (.node id)
  | updateSegments _ _ _ => none

/-- The clock reading of the last heartbeat of a component: of its latest
    registration since the last start, or else of that start (`start` for the
    start of the run). -/
def lastReading (start : ℕ) : List Event → Component → ℕ
  | [], _ => start
  | .call _ now call :: events, x =>
    if call.registers = some x then now else lastReading start events x
  | .sweep _ _ :: events, x => lastReading start events x
  | .persist :: events, x => lastReading start events x
  | .restart _ now _ :: _, _ => now

/-! ## The last heartbeat of a registered component -/

theorem lastSeen_call (now : ℕ) (call : Call) (components : Components) (x : Component) :
    (call.components now components).lastSeen x =
      if call.registers = some x then some now else components.lastSeen x := by
  cases call <;> cases x <;>
    simp only [Call.components, Call.registers, Components.lastSeen, HashMap.get_insert,
      Option.some.injEq, Component.router.injEq, Component.bridge.injEq, Component.node.injEq,
      reduceCtorEq, if_false, eq_comm] <;>
    split_ifs <;> rfl

theorem lastSeen_retain (now timeoutMs : ℕ) (components : Components) (x : Component) :
    (components.retain now timeoutMs).lastSeen x =
      (components.lastSeen x).filter fun lastSeenMs => !expired now timeoutMs lastSeenMs := by
  cases x <;>
    simp only [Components.retain, Components.lastSeen, HashMap.get_retain, Option.filter_map] <;>
    rfl

/-- A call is a heartbeat of the component that it registers. -/
theorem lastSeen_exec {data : AppData} (hd : Indexed data) (ord : Order) (now : ℕ) (call : Call)
    (x : Component) :
    (call.exec ord now data).1.components.lastSeen x =
      if call.registers = some x then some now else data.components.lastSeen x := by
  rw [components_call ord now call hd, lastSeen_call]

theorem lastSeen_resetHeartbeatTimes (now : ℕ) (components : Components) (x : Component) (r : ℕ)
    (h : (resetHeartbeatTimes now components).lastSeen x = some r) : r = now := by
  cases x <;>
    simp only [resetHeartbeatTimes, Components.lastSeen, HashMap.get_mapVal, Option.map_map,
      Option.map_eq_some_iff] at h <;>
    exact h.elim fun _ h => h.2.symm

theorem lastSeen_start {Bytes : Type} (json : Json Bytes) (ord : Order) (now : ℕ)
    (file : Option Bytes) (secs : ℕ) (x : Component) (r : ℕ)
    (h : (Process.start json ord now file secs).state.data.components.lastSeen x = some r) :
    r = now :=
  lastSeen_resetHeartbeatTimes now (json.loadFromDisk file).components x r
    ((load_spec ord now (json.loadFromDisk file)).1 ▸ h)

/-- A registered component carries the clock reading of its last heartbeat. -/
theorem lastSeen_run {Bytes : Type} (json : Json Bytes) (ord : Order) (now : ℕ)
    (file : Option Bytes) (secs : ℕ) (events : List Event) (x : Component) (r : ℕ)
    (h : ((Process.start json ord now file secs).run json events).state.data.components.lastSeen x =
      some r) : r = lastReading now events x := by
  induction events with
  | nil => exact lastSeen_start json ord now file secs x r h
  | cons event events ih =>
    have hd : Indexed ((Process.start json ord now file secs).run json events).state.data :=
      indexed_run ord now file secs events
    cases event with
    | call ord' now' call =>
      rw [Process.run, Process.apply, (call_apply_spec _ _ _ _).1, lastSeen_exec hd] at h
      rw [lastReading]
      split_ifs at h ⊢ with hx
      · exact (Option.some_inj.1 h).symm
      · exact ih h
    | sweep ord' now' =>
      -- What a sweep keeps, it keeps as it was.
      rw [Process.run, Process.apply, components_sweep, lastSeen_retain] at h
      exact ih (Option.filter_eq_some_iff.1 h).1
    | persist => exact ih ((persist_spec json _).1 ▸ h)
    | restart ord' now' secs' => exact lastSeen_start json ord' now' _ secs' x r h

/-! ## Sweeps -/

/-- A component of the dataset is `dead`. -/
def LosesComponent (dead : Component → Prop) (components : Components) : Dataset → Prop
  | .zoneRouters zoneId => ∃ id router, components.routers.get id = some router ∧
    router.zoneId = zoneId ∧ dead (.router id)
  | .zoneShards zoneId => ∃ id bridge, components.bridges.get id = some bridge ∧
    bridge.zoneId = zoneId ∧ dead (.bridge id)
  | .shardNodes shardId => ∃ id node, components.nodes.get id = some node ∧
    node.shardId = shardId ∧ dead (.node id)
  | .zoneSegments _ => False
  | .shardSegments _ => False

/-- From `data` to `data'`, the `dead` components are removed, and nothing else
    changes: the datasets list exactly the survivors, and the versions of those
    that lost a component go up by one. -/
structure Swept (dead : Component → Prop) (data data' : AppData) : Prop where
  removed (x : Component) :
    data'.components.lastSeen x = none ↔ data.components.lastSeen x = none ∨ dead x
  router (id : RouterId) (hid : ¬dead (.router id)) :
    data'.components.routers.get id = data.components.routers.get id
  bridge (id : BridgeId) (hid : ¬dead (.bridge id)) :
    data'.components.bridges.get id = data.components.bridges.get id
  node (id : NodeId) (hid : ¬dead (.node id)) :
    data'.components.nodes.get id = data.components.nodes.get id
  segments : data'.segments = data.segments
  zoneSegments (zoneId : ZoneId) : data'.zoneSegments zoneId = data.zoneSegments zoneId
  shardSegments (shardId : ShardId) : data'.shardSegments shardId = data.shardSegments shardId
  zoneRouters (zoneId : ZoneId) : Lists (data'.zoneRouters zoneId).2
    {id | ∃ router, data.components.routers.get id = some router ∧ router.zoneId = zoneId ∧
      ¬dead (.router id)}
  zoneShards (zoneId : ZoneId) (shardId : ShardId) :
    ListsAny ((data'.zoneShards zoneId).2.get shardId)
      {id | ∃ bridge, data.components.bridges.get id = some bridge ∧ bridge.shardId = shardId ∧
        bridge.zoneId = zoneId ∧ ¬dead (.bridge id)}
  shardNodes (shardId : ShardId) : ListsAny ((data'.shardNodes shardId).map Prod.snd)
    {id | ∃ node, data.components.nodes.get id = some node ∧ node.shardId = shardId ∧
      ¬dead (.node id)}
  bumped (ds : Dataset) (hds : LosesComponent dead data.components ds) :
    data'.version ds = data.version ds + 1
  kept (ds : Dataset) (hds : ¬LosesComponent dead data.components ds) :
    data'.version ds = data.version ds

section Sweep

variable {data : AppData} {now timeoutMs : ℕ} {dead : Component → Prop}

theorem mem_sweepBumps_iff
    (hdead : ∀ x r, data.components.lastSeen x = some r → (expired now timeoutMs r = true ↔ dead x))
    (ds : Dataset) :
    ds ∈ sweepBumps now timeoutMs data.components ↔ LosesComponent dead data.components ds := by
  have himage : ∀ {V : Type} (m : HashMap String V) (seen : V → ℕ) (place : V → String)
      (c : String → Component) (p : String),
      (∀ id, data.components.lastSeen (c id) = (m.get id).map seen) →
      (p ∈ (m.imageWhere (fun v => expired now timeoutMs (seen v)) place).keys ↔
        ∃ id v, m.get id = some v ∧ place v = p ∧ dead (c id)) := by
    intro V m seen place c p hseen
    rw [HashMap.mem_imageWhere]
    refine exists_congr fun id => exists_congr fun v => and_congr_right fun hv => ?_
    rw [hdead (c id) (seen v) (by rw [hseen, hv]; rfl), and_comm]
  cases ds with
  | zoneRouters z =>
    refine Iff.trans ?_ (himage data.components.routers RouterInfo.lastSeenMs RouterInfo.zoneId
      .router z fun _ => rfl)
    simp [sweepBumps, Components.routerLosses]
  | zoneShards z =>
    refine Iff.trans ?_ (himage data.components.bridges BridgeInfo.lastSeenMs BridgeInfo.zoneId
      .bridge z fun _ => rfl)
    simp [sweepBumps, Components.bridgeLosses]
  | shardNodes s =>
    refine Iff.trans ?_ (himage data.components.nodes NodeInfo.lastSeenMs NodeInfo.shardId
      .node s fun _ => rfl)
    simp [sweepBumps, Components.nodeLosses]
  | _ => simp [sweepBumps, LosesComponent]

/-- Keeping the entries that have not expired keeps those that are not dead. -/
theorem get_retain_of_dead {V : Type} {m : HashMap String V} {seen : V → ℕ}
    {c : String → Component} (hseen : ∀ id, data.components.lastSeen (c id) = (m.get id).map seen)
    (hdead : ∀ x r, data.components.lastSeen x = some r → (expired now timeoutMs r = true ↔ dead x))
    (id : String) (v : V) :
    (m.retain fun v => !expired now timeoutMs (seen v)).get id = some v ↔
      m.get id = some v ∧ ¬dead (c id) := by
  rw [HashMap.get_retain, Option.filter_eq_some_iff]
  refine and_congr_right fun hv => ?_
  rw [← hdead (c id) (seen v) (by rw [hseen, hv]; rfl)]
  simp

/-- A sweep removes exactly the dead components, if these are the expired ones. -/
theorem swept_sweepExpiredComponents (hd : Indexed data) (ord : Order)
    (hdead : ∀ x r, data.components.lastSeen x = some r →
      (expired now timeoutMs r = true ↔ dead x)) :
    Swept dead data (data.sweepExpiredComponents ord now timeoutMs).1 := by
  have he := sweepExpiredComponents_effect hd ord now timeoutMs
  have hagree : ∀ ds, ¬LosesComponent dead data.components ds →
      data.directory.Agree (data.sweepExpiredComponents ord now timeoutMs).1.directory ds :=
    fun ds hds => exec_agree ord now (.sweepExpiredComponents timeoutMs) hd
      ((mem_sweepBumps_iff hdead ds).not.2 hds)
  have hversion : ∀ ds, (data.sweepExpiredComponents ord now timeoutMs).1.version ds =
      data.version ds + (sweepBumps now timeoutMs data.components).count ds := he.bumped.version
  have hkept : ∀ ds, ¬LosesComponent dead data.components ds →
      (data.sweepExpiredComponents ord now timeoutMs).1.version ds = data.version ds := by
    intro ds hds
    rw [hversion, List.count_eq_zero_of_not_mem ((mem_sweepBumps_iff hdead ds).not.2 hds),
      Nat.add_zero]
  have hrouter :=
    get_retain_of_dead (m := data.components.routers) (c := .router) (fun _ => rfl) hdead
  have hbridge :=
    get_retain_of_dead (m := data.components.bridges) (c := .bridge) (fun _ => rfl) hdead
  have hnode :=
    get_retain_of_dead (m := data.components.nodes) (c := .node) (fun _ => rfl) hdead
  have hd' := he.indexed
  generalize (data.sweepExpiredComponents ord now timeoutMs).1 = data' at *
  have hcomponents := he.components
  constructor
  case removed =>
    intro x
    rw [hcomponents, lastSeen_retain]
    cases hr : data.components.lastSeen x with
    | none => exact ⟨fun _ => .inl rfl, fun _ => rfl⟩
    | some r => simp [Option.filter, ← hdead x r hr]
  case router =>
    intro id hid
    refine Option.ext fun v => ?_
    rw [hcomponents]
    exact (hrouter id v).trans (and_iff_left hid)
  case bridge =>
    intro id hid
    refine Option.ext fun v => ?_
    rw [hcomponents]
    exact (hbridge id v).trans (and_iff_left hid)
  case node =>
    intro id hid
    refine Option.ext fun v => ?_
    rw [hcomponents]
    exact (hnode id v).trans (and_iff_left hid)
  case segments => exact he.segments
  case zoneSegments =>
    intro z
    exact Prod.ext (hkept (.zoneSegments z) id) (Content.segments.inj
      (content_eq_of_agree hd hd' (hagree (.zoneSegments z) id))).symm
  case shardSegments =>
    intro s
    have hs : getVersion data' (shardSegmentsKey s) = getVersion data (shardSegmentsKey s) :=
      hkept (.shardSegments s) id
    rw [AppData.shardSegments, AppData.shardSegments, he.segments, hs]
  case zoneRouters =>
    intro z
    have hset : data'.directory.zoneRouters z = {id | ∃ router,
        data.components.routers.get id = some router ∧ router.zoneId = z ∧
          ¬dead (.router id)} := by
      refine Set.ext fun id => Option.map_eq_some_iff.trans (exists_congr fun v => ?_)
      rw [hcomponents, Components.retain, hrouter id v]
      tauto
    exact hset ▸ hd'.zoneRouters z
  case zoneShards =>
    intro z s
    have hset : data'.directory.zoneBridges z s = {id | ∃ bridge,
        data.components.bridges.get id = some bridge ∧ bridge.shardId = s ∧ bridge.zoneId = z ∧
          ¬dead (.bridge id)} := by
      refine Set.ext fun id => Option.map_eq_some_iff.trans (exists_congr fun v => ?_)
      rw [hcomponents, Components.retain, hbridge id v, Prod.mk.injEq]
      tauto
    exact hset ▸ hd'.zoneShards z s
  case shardNodes =>
    intro s
    have hset : data'.directory.shardNodes s = {id | ∃ node,
        data.components.nodes.get id = some node ∧ node.shardId = s ∧ ¬dead (.node id)} := by
      refine Set.ext fun id => mem_shardNodes.trans
        (Option.map_eq_some_iff.trans (exists_congr fun v => ?_))
      rw [hcomponents, Components.retain, hnode id v]
      tauto
    exact hset ▸ hd'.shardNodes s
  case bumped =>
    intro ds hds
    rw [hversion, List.count_eq_one_of_mem (nodup_sweepBumps _ _ _)
      ((mem_sweepBumps_iff hdead ds).2 hds)]
  case kept => exact hkept

end Sweep

/-- In every sequential run, a sweep with the clock reading `now` removes exactly
    the components whose last heartbeat is longer ago than the timeout. -/
theorem swept_run {Bytes : Type} (json : Json Bytes) (ord₀ : Order) (now₀ : ℕ)
    (file : Option Bytes) (secs : ℕ) (events : List Event) (ord : Order) (now : ℕ) :
    let p := (Process.start json ord₀ now₀ file secs).run json events
    1000 * p.state.heartbeatTimeoutSecs < 2 ^ 64 →
      Swept (fun x => 1000 * p.state.heartbeatTimeoutSecs < now - lastReading now₀ events x)
        p.state.data (p.apply json (.sweep ord now)).state.data := by
  intro p hsecs
  have htimeout : timeoutMs p.state.heartbeatTimeoutSecs = 1000 * p.state.heartbeatTimeoutSecs := by
    rw [timeoutMs, Nat.mul_comm, Nat.mod_eq_of_lt hsecs]
  rw [Process.apply, (sweep_apply_spec ord now p.state).1, htimeout]
  refine swept_sweepExpiredComponents (indexed_run ord₀ now₀ file secs events) ord
    fun x r hr => ?_
  rw [lastSeen_run json ord₀ now₀ file secs events x r hr, expired, decide_eq_true_eq]

/-- A router that has been silent for longer than the timeout is removed. -/
theorem swept_run_silent :
    let p := (Process.start Json.verbatim (.inOrder _) 0 none 60).run Json.verbatim
      [.call (.inOrder _) 5000 (.registerRouter "r1" "eu")]
    (p.apply Json.verbatim (.sweep (.inOrder _) 70000)).state.data.components.lastSeen
      (.router "r1") = none :=
  ((swept_run Json.verbatim (.inOrder _) 0 none 60
    [.call (.inOrder _) 5000 (.registerRouter "r1" "eu")] (.inOrder _) 70000 (by decide)).removed
    (.router "r1")).2 (.inr (by decide))

/-! ## The configured timeout -/

/-- Comparing `d` with `n` cut to a remainder is comparing it with `n` if and only if
    nothing is cut, or the remainder is not exceeded. -/
theorem mod_lt_iff_lt_iff {n m d : ℕ} (hd : d ≤ m) :
    (n % m < d ↔ n < d) ↔ n < m ∨ d ≤ n % m := by
  rcases Nat.lt_or_ge n m with hn | hn
  · rw [Nat.mod_eq_of_lt hn]
    exact iff_of_true Iff.rfl (.inl hn)
  · -- What is cut off exceeds `d`.
    have hnd : ¬n < d := (hd.trans hn).not_gt
    rw [iff_false_right hnd, or_iff_right hn.not_gt, not_lt]

/-- A sweep removes the component. -/
def AppState.SweepRemoves (ord : Order) (now : ℕ) (x : Component) (state : AppState) : Prop :=
  (state.sweepExpiredComponents ord now).data.components.lastSeen x = none

instance (ord : Order) (now : ℕ) (x : Component) (state : AppState) :
    Decidable (state.SweepRemoves ord now x) :=
  inferInstanceAs (Decidable (_ = none))

/-- A sweep with the clock reading `now` removes a component last seen at `r` if and only
    if that is longer ago than the timeout, and it would have removed it with any shorter
    timeout. -/
def AppState.HonoursTimeout (ord : Order) (now : ℕ) (x : Component) (r : ℕ) (state : AppState) :
    Prop :=
  (state.SweepRemoves ord now x ↔ 1000 * state.heartbeatTimeoutSecs < now - r) ∧
    ∀ secs ≤ state.heartbeatTimeoutSecs, state.SweepRemoves ord now x →
      { state with heartbeatTimeoutSecs := secs }.SweepRemoves ord now x

section Timeout

variable {state : AppState} {ord : Order} {now r : ℕ} {x : Component}

theorem sweepRemoves_iff (hr : state.data.components.lastSeen x = some r) :
    state.SweepRemoves ord now x ↔ 1000 * state.heartbeatTimeoutSecs % 2 ^ 64 < now - r := by
  rw [AppState.SweepRemoves, components_sweep, lastSeen_retain, hr, Option.filter_some, timeoutMs,
    Nat.mul_comm]
  simp only [expired, gt_iff_lt, Bool.not_eq_true', decide_eq_false_iff_not, ite_eq_right_iff,
    reduceCtorEq, imp_false, not_not]

/-- A sweep honours the timeout for a component if and only if the timeout fits into 64
    bits, or the component is silent for no longer than what is left of it. -/
theorem honoursTimeout_iff_of_lastSeen (hr : state.data.components.lastSeen x = some r)
    (hnow : now < 2 ^ 64) :
    state.HonoursTimeout ord now x r ↔ 1000 * state.heartbeatTimeoutSecs < 2 ^ 64 ∨
      now - r ≤ 1000 * state.heartbeatTimeoutSecs % 2 ^ 64 := by
  have hd : now - r ≤ 2 ^ 64 := (Nat.sub_le now r).trans hnow.le
  have hexact : (state.SweepRemoves ord now x ↔ 1000 * state.heartbeatTimeoutSecs < now - r) ↔
      1000 * state.heartbeatTimeoutSecs < 2 ^ 64 ∨
        now - r ≤ 1000 * state.heartbeatTimeoutSecs % 2 ^ 64 := by
    rw [sweepRemoves_iff hr]
    exact mod_lt_iff_lt_iff hd
  refine ⟨fun h => hexact.1 h.1, fun h => ⟨hexact.2 h, fun secs hsecs hremoves => ?_⟩⟩
  -- The shorter timeout fits, as it is shorter than the silence.
  have hlt : 1000 * secs < now - r :=
    (Nat.mul_le_mul_left 1000 hsecs).trans_lt ((hexact.2 h).1 hremoves)
  have hr' : { state with heartbeatTimeoutSecs := secs }.data.components.lastSeen x = some r := hr
  rw [sweepRemoves_iff hr']
  rwa [Nat.mod_eq_of_lt (hlt.trans_le hd)]

end Timeout

/-- Sweeps honour a timeout, for all components and clock readings, if and only if its
    milliseconds fit into 64 bits. If not, they honour it for the components that are
    silent for no longer than what is left of it. -/
theorem honoursTimeout_iff (secs : ℕ) :
    ((∀ (state : AppState) (ord : Order) (now : ℕ) (x : Component) (r : ℕ),
      state.heartbeatTimeoutSecs = secs → now < 2 ^ 64 →
        state.data.components.lastSeen x = some r → state.HonoursTimeout ord now x r) ↔
      1000 * secs < 2 ^ 64) ∧
    ∀ (state : AppState) (ord : Order) (now : ℕ) (x : Component) (r : ℕ),
      state.heartbeatTimeoutSecs = secs → now < 2 ^ 64 →
        state.data.components.lastSeen x = some r →
          (state.HonoursTimeout ord now x r ↔
            1000 * secs < 2 ^ 64 ∨ now - r ≤ 1000 * secs % 2 ^ 64) := by
  refine ⟨⟨fun h => ?_, ?_⟩, ?_⟩
  · -- A router that never came back, when the clock stops.
    let state := (AppState.new Json.verbatim (.inOrder _) 0 none secs).registerRouter
      (.inOrder _) 0 "r1" "eu"
    have hr : state.data.components.lastSeen (.router "r1") = some 0 := rfl
    have hnow : 2 ^ 64 - 1 < 2 ^ 64 := by decide
    have hiff := (honoursTimeout_iff_of_lastSeen hr hnow).1
      (h state (.inOrder _) (2 ^ 64 - 1) (.router "r1") 0 rfl hnow hr)
    have hsecs : state.heartbeatTimeoutSecs = secs := rfl
    rw [hsecs] at hiff
    -- What is left of a timeout is a multiple of eight.
    omega
  · rintro hsecs state ord now x r rfl hnow hr
    exact (honoursTimeout_iff_of_lastSeen hr hnow).2 (.inl hsecs)
  · rintro state ord now x r rfl hnow hr
    exact honoursTimeout_iff_of_lastSeen hr hnow

/-- The shortest timeout that does not fit is cut to 384 milliseconds: a router that has
    been silent for a second is removed, which a timeout of a minute keeps. -/
theorem not_honoursTimeout_truncated :
    let p := (Process.start Json.verbatim (.inOrder _) 1000 none 18446744073709552).run
      Json.verbatim [.call (.inOrder _) 1000 (.registerRouter "r1" "eu")]
    p.state.data.components.lastSeen (.router "r1") = some 1000 ∧
      ¬1000 * p.state.heartbeatTimeoutSecs < 2000 - 1000 ∧
      p.state.SweepRemoves (.inOrder _) 2000 (.router "r1") ∧
      ¬{ p.state with heartbeatTimeoutSecs := 60 }.SweepRemoves (.inOrder _) 2000
        (.router "r1") := by
  decide

end Rzid
