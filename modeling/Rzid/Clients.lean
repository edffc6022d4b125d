import Rzid.LastCalls
import Rzid.Requests

/-!
# What clients can rely on

Guarantees about the answers of the concurrent service, whatever requests and sweeps run
at the same time.

* Of two requests for a dataset, one sent after the other was answered, the second is not
  answered an older version; and if it is answered the same version, the two answers are
  the same (`monotonic_reads`).
* A manifest is that of the data which the requests and sweeps before it leave; and a client
  that keeps the datasets whose versions are those of the manifest has them as they all were
  then (`manifest_snapshot`).
* A client that has been answered to a registration, or to an update, finds it in the
  dataset, unless someone else has registered the same component since, or it has expired
  (`read_your_writes`).
-/

namespace Rzid

open Sections (Before Legal Linearization)

/-! ## Fetching datasets -/

/-- The request that fetches a dataset. -/
def Dataset.request : Dataset → HttpRequest
  | zoneRouters zoneId => .zoneRouters zoneId
  | zoneShards zoneId => .zoneShards zoneId
  | zoneSegments zoneId => .zoneSegments zoneId
  | shardSegments shardId => .shardSegments shardId
  | shardNodes shardId => .shardNodes shardId

/-- The response to the request that fetches a dataset. -/
def AppData.response (data : AppData) : Dataset → Response
  | .zoneRouters zoneId => zoneRoutersHandler zoneId data
  | .zoneShards zoneId => zoneShardsHandler zoneId data
  | .zoneSegments zoneId => zoneSegmentsHandler zoneId data
  | .shardSegments shardId => shardSegmentsHandler shardId data
  | .shardNodes shardId => shardNodesHandler shardId data

/-- The version that a response carries, if it carries a dataset. -/
def Response.version (response : Response) : Option Version :=
  match response.body with
  | .zoneRouters r => some r.version
  | .zoneSegments r => some r.version
  | .zoneShards r => some r.version
  | .shardSegments r => some r.version
  | .shardNodes r => some r.version
  | _ => none

section Response

variable {codecs : Codecs} {env : Env} {data data' : AppData} {ds : Dataset} {v : Version}

theorem apply_fetch : (api codecs).apply (.request ds.request, env) data =
    (data, some (data.response ds)) := by
  refine (apply_request ds.request data.service).trans ?_
  cases ds <;> rfl

theorem apply_versions : (api codecs).apply (.request .versions, env) data =
    (data, some (.ok (.versions data.versionManifest))) :=
  apply_request .versions data.service

/-- The answers to the queries of shards are those without the version, with the version. -/
theorem shardSegments_eq (data : AppData) (shardId : ShardId) :
    data.shardSegments shardId = ((data.shardSegments shardId).map Prod.snd).map fun content =>
      (data.version (.shardSegments shardId), content) := by
  rw [AppData.shardSegments, Option.map_map, Option.map_map]
  rfl

theorem shardNodes_eq (data : AppData) (shardId : ShardId) :
    data.shardNodes shardId = ((data.shardNodes shardId).map Prod.snd).map fun nodes =>
      (data.version (.shardNodes shardId), nodes) := by
  rw [AppData.shardNodes, Option.map_map, Option.map_map]
  rfl

/-- The version in the response is that of the dataset. -/
theorem version_response (h : (data.response ds).version = some v) : data.version ds = v := by
  cases ds with
  | shardSegments shardId =>
    rw [AppData.response, shardSegmentsHandler, shardSegments_eq] at h
    cases hs : (data.shardSegments shardId).map Prod.snd with
    | none => rw [hs] at h; cases h
    | some content => rw [hs] at h; exact Option.some_inj.1 h
  | shardNodes shardId =>
    rw [AppData.response, shardNodesHandler, shardNodes_eq] at h
    cases hs : (data.shardNodes shardId).map Prod.snd with
    | none => rw [hs] at h; cases h
    | some nodes => rw [hs] at h; exact Option.some_inj.1 h
  | _ => exact Option.some_inj.1 h

/-- The version and the content of a dataset determine the response. -/
theorem response_eq (hversion : data.version ds = data'.version ds)
    (hcontent : data.content ds = data'.content ds) : data.response ds = data'.response ds := by
  cases ds with
  | zoneRouters z =>
    have hanswer : data.zoneRouters z = data'.zoneRouters z :=
      Prod.ext hversion (Content.routers.inj hcontent)
    rw [AppData.response, AppData.response, zoneRoutersHandler, zoneRoutersHandler, hanswer]
  | zoneShards z =>
    have hanswer : data.zoneShards z = data'.zoneShards z :=
      Prod.ext hversion (Content.shards.inj hcontent)
    rw [AppData.response, AppData.response, zoneShardsHandler, zoneShardsHandler, hanswer]
  | zoneSegments z =>
    have hanswer : data.zoneSegments z = data'.zoneSegments z :=
      Prod.ext hversion (Content.segments.inj hcontent)
    rw [AppData.response, AppData.response, zoneSegmentsHandler, zoneSegmentsHandler, hanswer]
  | shardSegments s =>
    rw [AppData.response, AppData.response, shardSegmentsHandler, shardSegmentsHandler,
      shardSegments_eq, shardSegments_eq data', hversion, Content.ownership.inj hcontent]
  | shardNodes s =>
    rw [AppData.response, AppData.response, shardNodesHandler, shardNodesHandler,
      shardNodes_eq, shardNodes_eq data', hversion, Content.nodes.inj hcontent]

end Response

section Clients

variable {Bytes : Type} {json : Json Bytes} {codecs : Codecs} {data : AppData}
  {c : Sections.Config AppData (Action × Env) (Option Response)} {id id' : ℕ} {env env' : Env}

/-- Actions lead from reachable data to reachable data. -/
theorem Reachable.of_legal (hdata : Reachable json data) {data' : AppData}
    {order : List (Sections.Entry (Action × Env) (Option Response))}
    (h : Legal (api codecs) data order data') : Reachable json data' :=
  (hdata.versionSound (run_of_legal h)).1

/-- From one instant to a later one, the version of a dataset does not decrease, and with the
    same version, the dataset is answered the same. -/
theorem response_sound (hdata : Reachable json data) {data' : AppData}
    (hrun : Relation.ReflTransGen Step data data') (ds : Dataset) :
    data.version ds ≤ data'.version ds ∧
      (data.version ds = data'.version ds → data.response ds = data'.response ds) := by
  obtain ⟨hdata', hsound⟩ := hdata.versionSound hrun
  exact ⟨hsound.le ds, fun heq => response_eq heq
    (content_eq_of_agree hdata.indexed hdata'.indexed (hsound.agree ds heq))⟩

/-- Of two fetches of a dataset, one sent after the other was answered, the second is not
    answered an older version; and if it is answered the same version, it is answered the
    same. -/
theorem monotonic_reads (hdata : Reachable json data)
    (h : Sections.Reachable (api codecs) data c) {ds : Dataset} {r r' : Response} {v v' : Version}
    (hne : id ≠ id') (hcall : .call id (.request ds.request, env) ∈ c.history)
    (hcall' : .call id' (.request ds.request, env') ∈ c.history)
    (ha : .answer id (some r) ∈ c.history) (ha' : .answer id' (some r') ∈ c.history)
    (hbefore : Before c.history id id') (hv : r.version = some v) (hv' : r'.version = some v') :
    v ≤ v' ∧ (v = v' → r = r') := by
  obtain ⟨order, _, hlinear, _⟩ := h.linearization
  obtain ⟨o, o', data₁, data₂, earlier, between, ho, ho', hearlier, hr, hbetween, hr', _⟩ :=
    hlinear.exists_between hne hbefore ha ha'
  obtain rfl := h.call_unique ho hcall
  obtain rfl := h.call_unique ho' hcall'
  rw [apply_fetch] at hr hr' hbetween
  obtain rfl := Option.some_inj.1 hr
  obtain rfl := Option.some_inj.1 hr'
  obtain ⟨hle, heq⟩ := response_sound (hdata.of_legal hearlier) (run_of_legal hbetween) ds
  rw [version_response hv, version_response hv'] at hle heq
  exact ⟨hle, heq⟩

/-- The requests and sweeps have run in an order in which every manifest that was answered is
    that of the data which the earlier ones leave. Whatever fetches are answered, before or
    after: those with the version of the manifest are answered as they would have been from
    these data. -/
theorem manifest_snapshot (hdata : Reachable json data)
    (h : Sections.Reachable (api codecs) data c) :
    ∃ order, Linearization (api codecs) data c.history order ∧
      ∀ id env m, .call id (.request .versions, env) ∈ c.history →
        .answer id (some (.ok (.versions m))) ∈ c.history →
          ∃ later earlier data',
            order = later ++ ⟨id, (.request .versions, env), some (.ok (.versions m))⟩ :: earlier ∧
              Legal (api codecs) data earlier data' ∧ m = data'.versionManifest ∧
                ∀ id' env' ds r v, .call id' (.request ds.request, env') ∈ c.history →
                  .answer id' (some r) ∈ c.history → r.version = some v →
                    (m.versions.get ds.key).getD 0 = v → r = data'.response ds := by
  obtain ⟨order, _, hlinear, hlegal, _⟩ := h.linearization
  refine ⟨order, hlinear, fun id env m hcall ha => ?_⟩
  obtain ⟨o, hmem⟩ := hlinear.answered ha
  obtain rfl := h.call_unique (hlinear.called hmem) hcall
  obtain ⟨later, earlier, data', horder, hearlier, hm, hothers⟩ := hlegal.exists_at hmem
  rw [apply_versions] at hm
  obtain ⟨rfl⟩ := hm
  refine ⟨later, earlier, data', horder, hearlier, rfl,
    fun id' env' ds r v hcall' ha' hv hversion => ?_⟩
  obtain ⟨o', hmem'⟩ := hlinear.answered ha'
  obtain rfl := h.call_unique (hlinear.called hmem') hcall'
  obtain ⟨data'', ⟨earlier', hearlier'⟩, hr, hbetween⟩ := hothers _ hmem'
  rw [apply_fetch] at hr
  obtain rfl := Option.some_inj.1 hr
  have hsame : data''.version ds = data'.version ds := (version_response hv).trans hversion.symm
  -- One of the two instants is the earlier one.
  rcases hbetween with ⟨between, hbetween⟩ | ⟨between, hbetween⟩
  · exact ((response_sound (hdata.of_legal hearlier) (run_of_legal hbetween) ds).2
      hsame.symm).symm
  · exact (response_sound (hdata.of_legal hearlier') (run_of_legal hbetween) ds).2 hsame

/-! ## Own writes -/

/-- The dataset in which a call shows. -/
def Call.dataset : Call → Dataset
  | registerRouter _ zoneId => .zoneRouters zoneId
  | registerBridge _ _ zoneId => .zoneShards zoneId
  | registerNode _ shardId _ => .shardNodes shardId
  | updateSegments shardId _ _ => .shardSegments shardId

/-- The response lists what the call registers. -/
def Call.ShownIn (call : Call) (response : Response) : Prop :=
  match call with
  | registerRouter id _ => ∃ v routers,
    response = .ok (.zoneRouters { version := v, routers := routers }) ∧ id ∈ routers
  | registerBridge id shardId _ => ∃ v shards bridges,
    response = .ok (.zoneShards { version := v, shards := shards }) ∧
      shards.get shardId = some bridges ∧ id ∈ bridges.bridges
  | registerNode id _ _ => ∃ v nodes,
    response = .ok (.shardNodes { version := v, nodes := nodes }) ∧ id ∈ nodes
  | updateSegments _ zoneId new => ∃ v segments,
    response = .ok (.shardSegments { version := v, zone := zoneId, segments := segments }) ∧
      segments.SortedLT ∧ ∀ segment, segment ∈ segments ↔ segment ∈ new

/-- The data have the record that the call has set with the clock reading `now`. -/
def Call.Kept (now : ℕ) (call : Call) (data : AppData) : Prop :=
  match call with
  | registerRouter id zoneId =>
    data.components.routers.get id = some { zoneId := zoneId, lastSeenMs := now }
  | registerBridge id shardId zoneId => data.components.bridges.get id =
    some { shardId := shardId, zoneId := zoneId, lastSeenMs := now }
  | registerNode id shardId zoneId => data.components.nodes.get id =
    some { shardId := shardId, zoneId := zoneId, lastSeenMs := now }
  | updateSegments shardId zoneId new =>
    data.segments.byShard.get shardId = some { zoneId := zoneId, segments := .new new }

/-- An operation keeps the record of a call, unless it sets it, or sweeps it away. -/
def Op.Spares (now : ℕ) (call : Call) (now' : ℕ) : Op → Prop
  | .call call' => call'.target ≠ call.target
  | .sweepExpiredComponents timeoutMs => now' - now ≤ timeoutMs

variable {call : Call} {now : ℕ}

/-- A call sets its record. -/
theorem kept_exec (hd : Indexed data) (hn : data.segments.Normalized) (ord : Order) :
    call.Kept now (call.exec ord now data).1 := by
  have hcomponents := components_call ord now call hd
  have hsegments : (call.exec ord now data).1.segments = call.segments data.segments :=
    (exec_effect ord now (.call call) hd).segments
  cases call with
  | updateSegments shardId zoneId new =>
    rw [Call.Kept, hsegments, Call.segments, hn.update_eq_put (SegmentSet.normal_new new)]
    exact HashMap.get_insert_self ..
  | _ =>
    rw [Call.Kept, hcomponents]
    exact HashMap.get_insert_self ..

/-- An operation that spares the record of a call keeps it. -/
theorem Call.Kept.exec (h : call.Kept now data) (hd : Indexed data)
    (hn : data.segments.Normalized) (ord : Order) {now' : ℕ} {op : Op}
    (hspares : op.Spares now call now') : call.Kept now (op.exec ord now' data).1 := by
  have he := exec_effect ord now' op hd
  have hcomponents := he.components
  have hsegments := he.segments
  cases op with
  | call call' =>
    have hne : call'.target ≠ call.target := hspares
    have hput : ∀ shardId zoneId new, data.segments.update shardId ⟨zoneId, .new new⟩ =
        data.segments.put shardId ⟨zoneId, .new new⟩ := fun _ _ _ =>
      hn.update_eq_put (SegmentSet.normal_new _)
    -- Only calls of the same kind set records in the same table.
    cases call <;> cases call' <;>
      simp only [Kept, hcomponents, hsegments, Op.components, Call.components, Op.segments,
        Call.segments, hput, SegmentStore.put] at h ⊢ <;>
      first | exact h | skip
    all_goals
      rw [HashMap.get_insert_of_ne]
      · exact h
      · rintro rfl
        exact hne rfl
  | sweepExpiredComponents timeoutMs =>
    have hage : now' - now ≤ timeoutMs := hspares
    have hexpired : expired now' timeoutMs now = false := decide_eq_false hage.not_gt
    cases call <;>
      simp only [Kept, hcomponents, hsegments, Op.components, Components.retain, Op.segments,
        HashMap.get_retain] at h ⊢ <;>
      rw [h] <;>
      simp [Option.filter, hexpired]

/-- A list of the elements of a set is there if the set has one. -/
theorem ListsAny.exists_of_mem {l? : Option (List String)} {ids : Set String}
    (h : ListsAny l? ids) {id : String} (hid : id ∈ ids) : ∃ l, l? = some l ∧ id ∈ l := by
  cases hl : l? with
  | none => exact absurd (h.1.1 hl ▸ hid) (Set.notMem_empty id)
  | some l => exact ⟨l, rfl, ((h.2 l hl).2 id).2 hid⟩

/-- The directory has the entry that the call sets. The zone of a node does not show. -/
def Call.Placed (call : Call) (dir : Directory) : Prop :=
  match call with
  | registerRouter id zoneId => id ∈ dir.zoneRouters zoneId
  | registerBridge id shardId zoneId => id ∈ dir.zoneBridges zoneId shardId
  | registerNode id shardId _ => id ∈ dir.shardNodes shardId
  | updateSegments shardId zoneId new => dir.segments shardId = some ⟨zoneId, .new new⟩

theorem Call.Kept.placed (h : call.Kept now data) : call.Placed data.directory := by
  cases call with
  | registerRouter id zoneId => exact congrArg (Option.map _) h
  | registerBridge id shardId zoneId => exact congrArg (Option.map _) h
  | registerNode id shardId zoneId => exact ⟨zoneId, congrArg (Option.map _) h⟩
  | updateSegments shardId zoneId new => exact h

/-- The entry of a call shows in the dataset. -/
theorem Call.Placed.shownIn (h : call.Placed data.directory) (hd : Indexed data) :
    call.ShownIn (data.response call.dataset) := by
  cases call with
  | registerRouter id zoneId => exact ⟨_, _, rfl, ((hd.zoneRouters zoneId).2 id).2 h⟩
  | registerBridge id shardId zoneId =>
    obtain ⟨bridges, hget, hmem⟩ := (hd.zoneShards zoneId shardId).exists_of_mem h
    refine ⟨_, _, { bridges := bridges }, rfl, ?_, hmem⟩
    rw [HashMap.get_mapVal]
    exact congrArg (Option.map _) hget
  | registerNode id shardId zoneId =>
    obtain ⟨nodes, hget, hmem⟩ := (hd.shardNodes shardId).exists_of_mem h
    refine ⟨data.version (.shardNodes shardId), nodes, ?_, hmem⟩
    rw [dataset, AppData.response, shardNodesHandler, shardNodes_eq, hget]
    rfl
  | updateSegments shardId zoneId new =>
    have h : data.segments.byShard.get shardId = some ⟨zoneId, .new new⟩ := h
    refine ⟨data.version (.shardSegments shardId), (SegmentSet.new new).sorted, ?_,
      SegmentSet.sortedLT_new new, fun _ => SegmentSet.mem_sorted_new⟩
    rw [dataset, AppData.response, shardSegmentsHandler, AppData.shardSegments, h]
    rfl

/-- Actions whose operations spare the record of a call keep it. -/
theorem Call.Kept.legal (hdata : Reachable json data) (h : call.Kept now data) {data' : AppData}
    {order : List (Sections.Entry (Action × Env) (Option Response))}
    (hlegal : Legal (api codecs) data order data')
    (hspares : ∀ e ∈ order, ∀ op, e.op.1.op = some op → op.Spares now call e.op.2.now) :
    call.Kept now data' := by
  induction hlegal with
  | nil => exact h
  | @cons order data' id o hlegal ih =>
    have hkept := ih fun e he => hspares e (List.mem_cons_of_mem _ he)
    have hreach := hdata.of_legal hlegal
    rw [apply_fst]
    cases hop : o.1.op with
    | none => exact hkept
    | some op =>
      exact hkept.exec hreach.indexed hreach.normalized _ (hspares _ List.mem_cons_self op hop)

/-- A request that makes a call is answered, and then the dataset in which the call shows is
    fetched. The answer shows it, unless among the requests and sweeps that run between the
    two, or overlap with them, there is another call for the same target, or a sweep so
    late that the registration has expired. -/
theorem read_your_writes (hdata : Reachable json data)
    (h : Sections.Reachable (api codecs) data c) {req : HttpRequest} {r r' : Response}
    (hne : id ≠ id') (hreq : req.call = some call)
    (hcall : .call id (.request req, env) ∈ c.history)
    (hcall' : .call id' (.request call.dataset.request, env') ∈ c.history)
    (ha : .answer id (some r) ∈ c.history) (ha' : .answer id' (some r') ∈ c.history)
    (hbefore : Before c.history id id')
    (hspares : ∀ i action env'', i ≠ id → .call i (action, env'') ∈ c.history →
      ¬Before c.history i id → ¬Before c.history id' i →
        ∀ op, action.op = some op → op.Spares env.now call env''.now) :
    call.ShownIn r' := by
  obtain ⟨order, _, hlinear, _⟩ := h.linearization
  obtain ⟨o, o', data₁, data₂, earlier, between, ho, ho', hearlier, _, hbetween, hr', hothers⟩ :=
    hlinear.exists_between hne hbefore ha ha'
  obtain rfl := h.call_unique ho hcall
  obtain rfl := h.call_unique ho' hcall'
  have hreach := hdata.of_legal hearlier
  have hafter := hreach.step (.exec env.ord env.now (.call call))
  have hset : call.Kept env.now (call.exec env.ord env.now data₁).1 :=
    kept_exec hreach.indexed hreach.normalized env.ord
  rw [apply_fst, Action.op, hreq] at hbetween
  have hkept : call.Kept env.now data₂ := by
    refine hset.legal hafter hbetween fun e he op hop => ?_
    obtain ⟨hmem, hid, hearly, hlate⟩ := hothers e he
    exact hspares e.id e.op.1 e.op.2 hid hmem hearly hlate op hop
  rw [apply_fetch] at hr'
  obtain rfl := Option.some_inj.1 hr'
  exact hkept.placed.shownIn (hafter.of_legal hbetween).indexed

end Clients

/-! ## A history -/

section Sample

def sampleEnv : Env := ⟨.inOrder _, 1⟩

def sampleRegistration : HttpRequest :=
  .register { kind := "router", id := "r1", zone := "eu", shard := none }

/-- The responses to the fetches. -/
def sampleRouters : Response := .ok (.zoneRouters { version := 1, routers := ["r1"] })

/-- The manifest after the registration. -/
def sampleManifest : VersionManifest :=
  { globalVersion := 1, versions := HashMap.empty.insert "zones/eu/routers" 1 }

/-- A router registers, and then its zone is fetched twice, with the manifest in between. -/
def sampleHistory : List (Sections.Event (Action × Env) (Option Response)) :=
  [.answer 3 (some sampleRouters),
    .call 3 (.request (Dataset.zoneRouters "eu").request, sampleEnv),
    .answer 2 (some (.ok (.versions sampleManifest))), .call 2 (.request .versions, sampleEnv),
    .answer 1 (some sampleRouters),
    .call 1 (.request (Dataset.zoneRouters "eu").request, sampleEnv),
    .answer 0 (some (.ok .empty)), .call 0 (.request sampleRegistration, sampleEnv)]

theorem exists_sample :
    ∃ c, Sections.Reachable (api ⟨[], 0⟩) (AppData.new Json.verbatim (.inOrder _) 0 none) c ∧
      c.history = sampleHistory := by
  obtain ⟨c, h, _, hhistory, _⟩ := Sections.exists_serial (api ⟨[], 0⟩)
    (AppData.new Json.verbatim (.inOrder _) 0 none)
    [(.request (.zoneRouters "eu"), sampleEnv), (.request .versions, sampleEnv),
      (.request (.zoneRouters "eu"), sampleEnv), (.request sampleRegistration, sampleEnv)]
  exact ⟨c, h, hhistory.trans rfl⟩

/-- The second fetch is answered as the first one, as its version is the same. -/
theorem monotonic_reads_sample :
    ∃ (c : Sections.Config AppData (Action × Env) (Option Response)) (r r' : Response),
      .answer 1 (some r) ∈ c.history ∧ .answer 3 (some r') ∈ c.history ∧ r.version = some 1 ∧
        r = r' := by
  obtain ⟨c, h, hhistory⟩ := exists_sample
  have hcall : .call 1 (.request (Dataset.zoneRouters "eu").request, sampleEnv) ∈ c.history := by
    simp [hhistory, sampleHistory]
  have hcall' : .call 3 (.request (Dataset.zoneRouters "eu").request, sampleEnv) ∈ c.history := by
    simp [hhistory, sampleHistory]
  have ha : .answer 1 (some sampleRouters) ∈ c.history := by simp [hhistory, sampleHistory]
  have ha' : .answer 3 (some sampleRouters) ∈ c.history := by simp [hhistory, sampleHistory]
  have hbefore : Before c.history 1 3 := ⟨[_], _, _, some sampleRouters, hhistory, by simp⟩
  exact ⟨c, sampleRouters, sampleRouters, ha, ha', rfl, (monotonic_reads (.start (.inOrder _) 0) h
    (by decide) hcall hcall' ha ha' hbefore rfl rfl).2 rfl⟩

/-- The manifest is that of the data which the earlier requests leave, and from which the zone
    was fetched. -/
theorem manifest_snapshot_sample :
    ∃ (c : Sections.Config AppData (Action × Env) (Option Response))
      (earlier : List (Sections.Entry (Action × Env) (Option Response))) (data : AppData),
      .answer 1 (some sampleRouters) ∈ c.history ∧
        Legal (api ⟨[], 0⟩) (AppData.new Json.verbatim (.inOrder _) 0 none) earlier data ∧
          sampleManifest = data.versionManifest ∧
            sampleRouters = data.response (.zoneRouters "eu") := by
  obtain ⟨c, h, hhistory⟩ := exists_sample
  have hcall : .call 2 (.request .versions, sampleEnv) ∈ c.history := by
    simp [hhistory, sampleHistory]
  have ha : .answer 2 (some (.ok (.versions sampleManifest))) ∈ c.history := by
    simp [hhistory, sampleHistory]
  have hcall' : .call 1 (.request (Dataset.zoneRouters "eu").request, sampleEnv) ∈ c.history := by
    simp [hhistory, sampleHistory]
  have ha' : .answer 1 (some sampleRouters) ∈ c.history := by simp [hhistory, sampleHistory]
  obtain ⟨_, _, hsnapshot⟩ := manifest_snapshot (.start (.inOrder _) 0) h
  obtain ⟨_, earlier, data, _, hlegal, hm, hdata⟩ := hsnapshot 2 sampleEnv _ hcall ha
  exact ⟨c, earlier, data, ha', hlegal, hm, hdata 1 sampleEnv _ _ 1 hcall' ha' rfl (by decide)⟩

/-- The router is listed after its registration: the others that run are fetches. -/
theorem read_your_writes_sample :
    ∃ (c : Sections.Config AppData (Action × Env) (Option Response)) (r : Response),
      .answer 3 (some r) ∈ c.history ∧ (Call.registerRouter "r1" "eu").ShownIn r := by
  obtain ⟨c, h, hhistory⟩ := exists_sample
  have hcall : .call 0 (.request sampleRegistration, sampleEnv) ∈ c.history := by
    simp [hhistory, sampleHistory]
  have ha : .answer 0 (some (.ok .empty)) ∈ c.history := by simp [hhistory, sampleHistory]
  have hcall' : .call 3 (.request (Call.registerRouter "r1" "eu").dataset.request, sampleEnv) ∈
      c.history := by
    simp [hhistory, sampleHistory, Call.dataset]
  have ha' : .answer 3 (some sampleRouters) ∈ c.history := by simp [hhistory, sampleHistory]
  have hbefore : Before c.history 0 3 := ⟨[_], _, _, some (.ok .empty), hhistory, by simp⟩
  refine ⟨c, sampleRouters, ha', read_your_writes (.start (.inOrder _) 0) h (by decide) rfl hcall
    hcall' ha ha' hbefore fun i action env hi hmem _ _ op hop => ?_⟩
  simp only [hhistory, sampleHistory, List.mem_cons, Sections.Event.call.injEq, Prod.mk.injEq,
    reduceCtorEq, List.not_mem_nil, false_or, or_false] at hmem
  -- The other requests make no operation.
  rcases hmem with ⟨_, rfl, _⟩ | ⟨_, rfl, _⟩ | ⟨_, rfl, _⟩ | ⟨rfl, _⟩
  · cases hop
  · cases hop
  · cases hop
  · exact absurd rfl hi

end Sample

end Rzid
