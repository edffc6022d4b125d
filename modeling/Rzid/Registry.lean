import Rzid.Lib.SectionsSpec
import Rzid.Manifest
import Rzid.ZoneSegments

/-!
# The registry

What the service is for, in terms of sets and functions: a registry of who is registered
where and who owns what, with a version for each dataset (`Registry`).

* `Records.after` is what an operation makes of the records.
* `Registry.Next` is what it may make of the versions: they go up where the records publish
  something new, and nowhere else, but for the segments of the zones of an updated shard.
* `Answers` is the response to a request. There is no other one (`Answers.unique`).

The data of the service stand for a registry (`AppData.registry`). Whatever requests and
sweeps overlap, the clients are answered as by the registry, one call after the other; and a
restart makes of the registry that all components have just been heard of
(`service_refines_registry`).
-/

namespace Rzid

open Sections (Entry Linearization Refines Spec)

/-! ## Records -/

/-- Where the components are and when they were last heard of, and which segments of which
    zone the shards own. -/
@[ext] structure Records where
  routers : RouterId → Option (ZoneId × ℕ)
  bridges : BridgeId → Option ((ShardId × ZoneId) × ℕ)
  nodes : NodeId → Option ((ShardId × ZoneId) × ℕ)
  owners : ShardId → Option (ZoneId × Set Segment)

/-- The components that were last heard of no longer than the timeout ago. -/
def live {P : Type} (now timeoutMs : ℕ) (members : String → Option (P × ℕ)) :
    String → Option (P × ℕ) :=
  fun id => (members id).filter fun member => now ≤ member.2 + timeoutMs

namespace Records

def empty : Records := ⟨fun _ => none, fun _ => none, fun _ => none, fun _ => none⟩

variable (records records' : Records)

/-- The routers of a zone. -/
def zoneRouters (zoneId : ZoneId) : Set RouterId :=
  {id | ∃ seen, records.routers id = some (zoneId, seen)}

/-- The bridges of a shard in a zone. -/
def zoneBridges (zoneId : ZoneId) (shardId : ShardId) : Set BridgeId :=
  {id | ∃ seen, records.bridges id = some ((shardId, zoneId), seen)}

/-- The shards of a zone, with their segments. -/
def zoneOwners (zoneId : ZoneId) : Set (ShardId × Set Segment) :=
  {owner | records.owners owner.1 = some (zoneId, owner.2)}

/-- The segments of a zone. -/
def zoneSegments (zoneId : ZoneId) : Set Segment :=
  {segment | ∃ owner ∈ records.zoneOwners zoneId, segment ∈ owner.2}

/-- The nodes of a shard. -/
def shardNodes (shardId : ShardId) : Set NodeId :=
  {id | ∃ zoneId seen, records.nodes id = some ((shardId, zoneId), seen)}

/-- The records publish the same dataset. -/
def Same : Dataset → Prop
  | .zoneRouters zoneId => records.zoneRouters zoneId = records'.zoneRouters zoneId
  | .zoneShards zoneId =>
    ∀ shardId, records.zoneBridges zoneId shardId = records'.zoneBridges zoneId shardId
  | .zoneSegments zoneId => records.zoneSegments zoneId = records'.zoneSegments zoneId
  | .shardSegments shardId => records.owners shardId = records'.owners shardId
  | .shardNodes shardId => records.shardNodes shardId = records'.shardNodes shardId

/-- The records after an operation. -/
def after (now : ℕ) : Op → Records
  | .call (.registerRouter id zoneId) =>
    { records with routers := Function.update records.routers id (some (zoneId, now)) }
  | .call (.registerBridge id shardId zoneId) =>
    { records with
      bridges := Function.update records.bridges id (some ((shardId, zoneId), now)) }
  | .call (.registerNode id shardId zoneId) =>
    { records with nodes := Function.update records.nodes id (some ((shardId, zoneId), now)) }
  | .call (.updateSegments shardId zoneId segments) =>
    { records with
      owners := Function.update records.owners shardId (some (zoneId, {g | g ∈ segments})) }
  | .sweepExpiredComponents timeoutMs =>
    { records with
      routers := live now timeoutMs records.routers
      bridges := live now timeoutMs records.bridges
      nodes := live now timeoutMs records.nodes }

/-- The records with every component just heard of. -/
def heard (now : ℕ) : Records :=
  { records with
    routers := fun id => (records.routers id).map fun member => (member.1, now)
    bridges := fun id => (records.bridges id).map fun member => (member.1, now)
    nodes := fun id => (records.nodes id).map fun member => (member.1, now) }

end Records

/-! ## The registry -/

/-- The records, with the versions of what they publish. -/
@[ext] structure Registry extends Records where
  version : Dataset → Version
  globalVersion : Version

namespace Registry

/-- The registry in which nothing has been recorded. -/
def empty : Registry := { Records.empty with version := fun _ => 0, globalVersion := 0 }

/-- A restart takes every component for one that it has just heard of. -/
def restart (now : ℕ) (reg : Registry) : Registry :=
  { reg with toRecords := reg.toRecords.heard now }

/-- `reg'` may come after an operation on `reg`. -/
structure Next (now : ℕ) (op : Op) (reg reg' : Registry) : Prop where
  records : reg'.toRecords = reg.toRecords.after now op
  /-- The global version counts the changes of versions. -/
  versions : ∃ changes : List Dataset, (∀ ds, reg'.version ds = reg.version ds + changes.count ds) ∧
    reg'.globalVersion = reg.globalVersion + changes.length
  changed (ds : Dataset) (h : ¬reg.Same reg'.toRecords ds) : reg.version ds < reg'.version ds
  unchanged (ds : Dataset) (hds : ∀ zoneId, ds ≠ .zoneSegments zoneId)
    (h : reg.Same reg'.toRecords ds) : reg'.version ds = reg.version ds
  /-- A zone keeps the version of its segments if its shards keep theirs. -/
  unmoved (zoneId : ZoneId) (h : reg.zoneOwners zoneId = reg'.zoneOwners zoneId) :
    reg'.version (.zoneSegments zoneId) = reg.version (.zoneSegments zoneId)

/-- The manifest has the version of every dataset that has one. -/
structure Describes (reg : Registry) (manifest : VersionManifest) : Prop where
  globalVersion : manifest.globalVersion = reg.globalVersion
  version (ds : Dataset) (v : Version) :
    manifest.versions.get ds.key = some v ↔ 0 < v ∧ reg.version ds = v
  keys (key : String) (hkey : key ∈ manifest.versions.keys) : ∃ ds, Dataset.key ds = key

/-- The response to a request, if the registry is `reg`. -/
def Answers (codecs : Codecs) (reg : Registry) : HttpRequest → Response → Prop
  | .health, response => response = .ok (.text "OK")
  | .metrics, response => response = .ok .metrics
  | .codecs, response => response = codecsHandler codecs
  | .register req, response =>
    response = match req.call with
      | .ok _ => .ok .empty
      | .error message => .badRequest message
  | .updateSegments _ _, response => response = .ok .empty
  | .refused _ status, response => response = ⟨status, .empty⟩
  | .versions, response =>
    ∃ manifest, reg.Describes manifest ∧ response = .ok (.versions manifest)
  | .zoneRouters zoneId, response =>
    ∃ l, Lists l (reg.zoneRouters zoneId) ∧
      response = .ok (.zoneRouters ⟨reg.version (.zoneRouters zoneId), l⟩)
  | .zoneSegments zoneId, response =>
    ∃ l, Lists l (reg.zoneSegments zoneId) ∧
      response = .ok (.zoneSegments ⟨reg.version (.zoneSegments zoneId), l⟩)
  | .zoneShards zoneId, response =>
    ∃ shards : HashMap String ShardBridges,
      (∀ shardId, ListsAny ((shards.get shardId).map ShardBridges.bridges)
        (reg.zoneBridges zoneId shardId)) ∧
      response = .ok (.zoneShards ⟨reg.version (.zoneShards zoneId), shards⟩)
  | .shardSegments shardId, response =>
    match reg.owners shardId with
    | some (zoneId, segments) =>
      ∃ l, Lists l segments ∧
        response = .ok (.shardSegments ⟨reg.version (.shardSegments shardId), zoneId, l⟩)
    | none => response = .notFound "unknown shard"
  | .shardNodes shardId, response =>
    ∃ l?, ListsAny l? (reg.shardNodes shardId) ∧
      response = match l? with
        | some l => .ok (.shardNodes ⟨reg.version (.shardNodes shardId), l⟩)
        | none => .notFound "unknown shard"

variable {reg : Registry}

theorem Describes.unique {manifest manifest' : VersionManifest} (h : reg.Describes manifest)
    (h' : reg.Describes manifest') : manifest = manifest' := by
  obtain ⟨globalVersion, versions⟩ := manifest
  obtain ⟨globalVersion', versions'⟩ := manifest'
  rw [VersionManifest.mk.injEq]
  refine ⟨h.globalVersion.trans h'.globalVersion.symm, HashMap.ext_get fun key => ?_⟩
  by_cases hkey : ∃ ds, Dataset.key ds = key
  · obtain ⟨ds, rfl⟩ := hkey
    exact Option.ext fun v => (h.version ds v).trans (h'.version ds v).symm
  · have hnone := fun hmem => hkey (h.keys key hmem)
    have hnone' := fun hmem => hkey (h'.keys key hmem)
    rw [HashMap.get_eq_none_iff.2 hnone, HashMap.get_eq_none_iff.2 hnone']

/-- The registry leaves no choice of the response. -/
theorem Answers.unique {codecs : Codecs} {req : HttpRequest} {response response' : Response}
    (h : reg.Answers codecs req response) (h' : reg.Answers codecs req response') :
    response = response' := by
  cases req with
  | versions =>
    obtain ⟨manifest, hmanifest, rfl⟩ := h
    obtain ⟨manifest', hmanifest', rfl⟩ := h'
    rw [hmanifest.unique hmanifest']
  | zoneRouters zoneId =>
    obtain ⟨l, hl, rfl⟩ := h
    obtain ⟨l', hl', rfl⟩ := h'
    rw [hl.unique hl']
  | zoneSegments zoneId =>
    obtain ⟨l, hl, rfl⟩ := h
    obtain ⟨l', hl', rfl⟩ := h'
    rw [hl.unique hl']
  | zoneShards zoneId =>
    obtain ⟨shards, hshards, rfl⟩ := h
    obtain ⟨shards', hshards', rfl⟩ := h'
    have hinj : Function.Injective ShardBridges.bridges := fun a b hab => by
      cases a
      cases b
      exact congrArg _ hab
    have heq : shards = shards' := HashMap.ext_get fun shardId =>
      Option.map_injective hinj ((hshards shardId).unique (hshards' shardId))
    rw [heq]
  | shardSegments shardId =>
    simp only [Answers] at h h'
    cases howner : reg.owners shardId with
    | none =>
      rw [howner] at h h'
      exact h.trans h'.symm
    | some owner =>
      rw [howner] at h h'
      obtain ⟨l, hl, rfl⟩ := h
      obtain ⟨l', hl', rfl⟩ := h'
      rw [hl.unique hl']
  | shardNodes shardId =>
    obtain ⟨l?, hl, rfl⟩ := h
    obtain ⟨l'?, hl', rfl⟩ := h'
    rw [hl.unique hl']
  | _ => exact Eq.trans h (Eq.symm h')

end Registry

/-- What an action may do to the registry, and its answer. A sweep has none. -/
def registry (codecs : Codecs) : Spec Registry (Action × Env) (Option Response) :=
  fun reg o answer reg' =>
    (match o.1.op with
      | some op => reg.Next o.2.now op reg'
      | none => reg' = reg) ∧
    match o.1 with
      | .request req => ∃ response, answer = some response ∧ reg.Answers codecs req response
      | .sweepExpiredComponents _ => answer = none

/-! ## What the data stand for -/

/-- What the registry has about a shard. -/
def ShardSegments.owner (shard : ShardSegments) : ZoneId × Set Segment :=
  (shard.zoneId, {g | g ∈ shard.segments.set.keys})

/-- The records that components and segments stand for. -/
def recordsOf (components : Components) (segments : SegmentStore) : Records where
  routers id := (components.routers.get id).map fun r => (r.zoneId, r.lastSeenMs)
  bridges id := (components.bridges.get id).map fun b => ((b.shardId, b.zoneId), b.lastSeenMs)
  nodes id := (components.nodes.get id).map fun n => ((n.shardId, n.zoneId), n.lastSeenMs)
  owners shardId := (segments.byShard.get shardId).map ShardSegments.owner

/-- The registry that the data stand for. -/
def AppData.registry (data : AppData) : Registry where
  toRecords := recordsOf data.components data.segments
  version := data.version
  globalVersion := data.globalVersion

section Records

variable {components components' : Components} {segments segments' : SegmentStore}

theorem zoneRouters_recordsOf (zoneId : ZoneId) :
    (recordsOf components segments).zoneRouters zoneId =
      (directoryOf components segments).zoneRouters zoneId := by
  ext id
  simp [Records.zoneRouters, Directory.zoneRouters, recordsOf, directoryOf]

theorem zoneBridges_recordsOf (zoneId : ZoneId) (shardId : ShardId) :
    (recordsOf components segments).zoneBridges zoneId shardId =
      (directoryOf components segments).zoneBridges zoneId shardId := by
  ext id
  simp [Records.zoneBridges, Directory.zoneBridges, recordsOf, directoryOf]

theorem zoneSegments_recordsOf (zoneId : ZoneId) :
    (recordsOf components segments).zoneSegments zoneId =
      (directoryOf components segments).zoneSegments zoneId := by
  ext g
  simp [Records.zoneSegments, Records.zoneOwners, Directory.zoneSegments, recordsOf, directoryOf,
    ShardSegments.owner, and_assoc]

theorem shardNodes_recordsOf (shardId : ShardId) :
    (recordsOf components segments).shardNodes shardId =
      (directoryOf components segments).shardNodes shardId := by
  ext id
  simp [Records.shardNodes, Directory.shardNodes, recordsOf, directoryOf]

/-- Records of shards with the same zone and segments are equal. -/
theorem owner_inj {shard shard' : ShardSegments} (hn : shard.segments.Normal)
    (hn' : shard'.segments.Normal) (h : shard.owner = shard'.owner) : shard = shard' := by
  obtain ⟨hzone, hset⟩ := Prod.mk.inj h
  exact ShardSegments.eq_of hzone (hn.eq hn' (HashMap.ext_keys fun g => Set.ext_iff.1 hset g))

theorem owners_eq_iff (hn : segments.Normalized) (hn' : segments'.Normalized) {shardId : ShardId} :
    (recordsOf components segments).owners shardId =
        (recordsOf components' segments').owners shardId ↔
      segments.byShard.get shardId = segments'.byShard.get shardId := by
  simp only [recordsOf]
  cases h : segments.byShard.get shardId with
  | none => simp [eq_comm]
  | some shard =>
    cases h' : segments'.byShard.get shardId with
    | none => simp
    | some shard' =>
      rw [Option.map_some, Option.map_some, Option.some_inj, Option.some_inj]
      exact ⟨owner_inj (hn _ _ h) (hn' _ _ h'), congrArg _⟩

/-- Records publish the same dataset if and only if the directories do. -/
theorem same_iff_agree (hn : segments.Normalized) (hn' : segments'.Normalized) {ds : Dataset} :
    (recordsOf components segments).Same (recordsOf components' segments') ds ↔
      (directoryOf components segments).Agree (directoryOf components' segments') ds := by
  cases ds with
  | zoneRouters zoneId => rw [Records.Same, zoneRouters_recordsOf, zoneRouters_recordsOf]; rfl
  | zoneShards zoneId => simp only [Records.Same, zoneBridges_recordsOf]; rfl
  | zoneSegments zoneId => rw [Records.Same, zoneSegments_recordsOf, zoneSegments_recordsOf]; rfl
  | shardSegments shardId => exact owners_eq_iff hn hn'
  | shardNodes shardId => rw [Records.Same, shardNodes_recordsOf, shardNodes_recordsOf]; rfl

/-- A sweep keeps the components that are live. -/
theorem map_get_retain {V P : Type} (place : V → P) (lastSeenMs : V → ℕ) (m : HashMap String V)
    (now timeoutMs : ℕ) :
    (fun id => ((m.retain fun v => !expired now timeoutMs (lastSeenMs v)).get id).map
        fun v => (place v, lastSeenMs v)) =
      live now timeoutMs fun id => (m.get id).map fun v => (place v, lastSeenMs v) := by
  funext id
  rw [HashMap.get_retain, live]
  cases m.get id with
  | none => rfl
  | some v =>
    have hlive : (!expired now timeoutMs (lastSeenMs v)) =
        decide (now ≤ lastSeenMs v + timeoutMs) := by
      rw [Bool.eq_iff_iff]
      simp [expired, Nat.add_comm]
    rw [Option.map_some, Option.filter_some, Option.filter_some, hlive]
    exact apply_ite (Option.map _) ..

/-- The records after an operation are those that it makes of them. -/
theorem recordsOf_op (hn : segments.Normalized) (now : ℕ) (op : Op) :
    recordsOf (op.components now components) (op.segments segments) =
      (recordsOf components segments).after now op := by
  cases op with
  | call call =>
    cases call with
    | registerRouter id zoneId => exact Records.ext (map_get_insert _ _ id _) rfl rfl rfl
    | registerBridge id shardId zoneId => exact Records.ext rfl (map_get_insert _ _ id _) rfl rfl
    | registerNode id shardId zoneId => exact Records.ext rfl rfl (map_get_insert _ _ id _) rfl
    | updateSegments shardId zoneId new =>
      refine Records.ext rfl rfl rfl ?_
      rw [Op.segments, Call.segments, hn.update_eq_put (SegmentSet.normal_new new)]
      refine (map_get_insert _ _ shardId _).trans ?_
      rw [ShardSegments.owner]
      simp only [SegmentSet.keys_set_new, SegmentSet.mem_sorted_new]
      rfl
  | sweepExpiredComponents timeoutMs =>
    exact Records.ext (map_get_retain _ RouterInfo.lastSeenMs ..)
      (map_get_retain _ BridgeInfo.lastSeenMs ..) (map_get_retain _ NodeInfo.lastSeenMs ..) rfl

/-- An update that bumps the segments of a zone gives the zone to a shard, takes it away from
    one, or changes the segments of a shard there. -/
theorem zoneOwners_ne {shardId : ShardId} {shard : ShardSegments} {zoneId : ZoneId}
    (hn : segments.Normalized) (hshard : shard.segments.Normal)
    (h : .zoneSegments zoneId ∈ updateBumps segments shardId shard) :
    (recordsOf components segments).zoneOwners zoneId ≠
      (recordsOf components' (segments.update shardId shard)).zoneOwners zoneId := by
  rw [updateBumps] at h
  split_ifs at h with hid
  · cases h
  have hz : zoneId ∈ (segments.changedZones shardId shard).keys := by
    simpa using h
  -- The records of the shard before and after are different.
  have hne : ∀ old, segments.byShard.get shardId = some old → old.owner ≠ shard.owner := by
    intro old hget howner
    obtain rfl := owner_inj (hn _ _ hget) hshard howner
    exact hid ⟨_, hget, rfl, rfl⟩
  have hnew : (recordsOf components' (segments.update shardId shard)).owners shardId =
      some shard.owner := by
    simp [recordsOf, SegmentStore.update, if_neg hid, SegmentStore.put]
  intro howners
  rcases SegmentStore.mem_changedZones.1 hz with ⟨_, rfl⟩ | hz
  · have hmem : (shardId, shard.owner.2) ∈
        (recordsOf components segments).zoneOwners shard.zoneId := by
      rw [howners]
      exact hnew
    obtain ⟨old, hget, hold⟩ := Option.map_eq_some_iff.1 hmem
    exact hne old hget hold
  · obtain ⟨old, hget, _, rfl⟩ := SegmentStore.mem_lostZones.1 hz
    have hmem : (shardId, old.owner.2) ∈
        (recordsOf components' (segments.update shardId shard)).zoneOwners old.zoneId := by
      rw [← howners]
      exact congrArg (Option.map _) hget
    exact hne old hget (Option.some_inj.1 (hnew.symm.trans hmem)).symm

end Records

/-! ## The service refines the registry -/

section Refinement

variable {data : AppData}

theorem registry_exec (hd : Indexed data) (ord : Order) (now : ℕ) (op : Op) :
    (op.exec ord now data).1.registry.toRecords =
      recordsOf (op.components now data.components) (op.segments data.segments) := by
  rw [AppData.registry, (exec_effect ord now op hd).components,
    (exec_effect ord now op hd).segments]

/-- An operation does to the registry what it may. -/
theorem next_exec (hd : Indexed data) (hn : data.segments.Normalized) (ord : Order) (now : ℕ)
    (op : Op) : data.registry.Next now op (op.exec ord now data).1.registry := by
  have hrecords := registry_exec hd ord now op
  have hversion : ∀ ds, (op.exec ord now data).1.registry.version ds =
      data.registry.version ds + (op.bumps now data).count ds := version_exec ord now op hd
  have hsame : ∀ ds, data.registry.Same (op.exec ord now data).1.registry.toRecords ds ↔
      data.directory.Agree (op.exec ord now data).1.directory ds := by
    intro ds
    rw [hrecords, directory_exec ord now op hd]
    exact same_iff_agree hn (hn.exec op)
  have hkept : ∀ ds, ds ∉ op.bumps now data →
      (op.exec ord now data).1.registry.version ds = data.registry.version ds := by
    intro ds hds
    rw [hversion, List.count_eq_zero_of_not_mem hds, Nat.add_zero]
  constructor
  case records => exact hrecords.trans (recordsOf_op hn now op)
  case versions =>
    exact ⟨op.bumps now data, hversion, (exec_effect ord now op hd).bumped.globalVersion⟩
  case changed =>
    intro ds h
    rw [hversion]
    refine Nat.lt_add_of_pos_right (List.count_pos_iff.2 ?_)
    by_contra hds
    exact h ((hsame ds).2 (exec_agree ord now op hd hds))
  case unchanged =>
    intro ds hds h
    exact hkept ds fun hmem => exec_not_agree ord now op hd hds hmem ((hsame ds).1 h)
  case unmoved =>
    intro zoneId h
    refine hkept _ fun hmem => ?_
    rw [hrecords] at h
    cases op with
    | call call =>
      cases call with
      | updateSegments shardId zoneId' new =>
        exact zoneOwners_ne hn (SegmentSet.normal_new new) hmem h
      | _ => exact absurd hmem (zoneSegments_not_mem_bumps nofun)
    | sweepExpiredComponents timeoutMs => exact absurd hmem (zoneSegments_not_mem_bumps nofun)

/-- The manifest describes the registry. -/
theorem describes_versionManifest (hexact : Exact data.snapshot) :
    data.registry.Describes data.versionManifest where
  globalVersion := rfl
  version ds v := by
    change data.versions.get ds.key = some v ↔ 0 < v ∧ (data.versions.get ds.key).getD 0 = v
    cases hv : data.versions.get ds.key with
    | none => exact iff_of_false nofun fun h => h.1.ne h.2
    | some w =>
      rw [Option.some_inj, Option.getD_some]
      exact ⟨fun heq => heq ▸ ⟨(hexact.entries _ w hv).1, rfl⟩, And.right⟩
  keys key hkey := by
    obtain ⟨v, hv⟩ := HashMap.mem_keys_iff.1 hkey
    exact (hexact.entries key v hv).2

/-- A handler responds as the registry answers. -/
theorem answers_handle (state : AppState) (hd : Indexed state.data)
    (hn : state.data.segments.Normalized) (hexact : Exact state.data.snapshot) (codecs : Codecs)
    (ord : Order) (now : ℕ) (req : HttpRequest) :
    state.data.registry.Answers codecs req (req.handle codecs ord now state).2 := by
  cases req with
  | register req =>
    rw [HttpRequest.handle, registerHandler, Registry.Answers]
    cases req.call <;> rfl
  | versions => exact ⟨_, describes_versionManifest hexact, rfl⟩
  | zoneRouters zoneId =>
    exact ⟨_, (zoneRouters_recordsOf zoneId).symm ▸ hd.zoneRouters zoneId, rfl⟩
  | zoneSegments zoneId =>
    exact ⟨_, (zoneSegments_recordsOf zoneId).symm ▸ hd.zoneSegments zoneId, rfl⟩
  | zoneShards zoneId =>
    refine ⟨_, fun shardId => ?_, rfl⟩
    have hbridges : Option.map ShardBridges.bridges
        (((state.data.zoneShards zoneId).2.mapVal ShardBridges.mk).get shardId) =
          (state.data.zoneShards zoneId).2.get shardId := by
      rw [HashMap.get_mapVal, Option.map_map]
      exact Option.map_id'
    exact hbridges.symm ▸ (zoneBridges_recordsOf zoneId shardId).symm ▸ hd.zoneShards zoneId shardId
  | shardSegments shardId =>
    have howner : state.data.registry.owners shardId =
        (state.data.segments.byShard.get shardId).map ShardSegments.owner := rfl
    rw [HttpRequest.handle, shardSegmentsHandler, AppData.shardSegments, Registry.Answers, howner]
    cases hget : state.data.segments.byShard.get shardId with
    | none => rfl
    | some shard =>
      refine ⟨_, ?_, rfl⟩
      rw [← hn shardId shard hget]
      exact ⟨HashMap.sortedLT_keys _, fun _ => Iff.rfl⟩
  | shardNodes shardId =>
    refine ⟨_, (shardNodes_recordsOf shardId).symm ▸ hd.shardNodes shardId, ?_⟩
    rw [HttpRequest.handle, shardNodesHandler, AppData.shardNodes]
    cases state.data.indexes.nodesByShard.get shardId <;> rfl
  | _ => rfl

variable {Bytes : Type} {json : Json Bytes}

/-- The service refines the registry. -/
theorem refines_registry (json : Json Bytes) (codecs : Codecs) :
    Refines (api codecs) (registry codecs) AppData.registry (Reachable json) where
  keeps := by
    rintro data ⟨action, env⟩ h
    rw [apply_fst]
    cases action.op with
    | none => exact h
    | some op => exact h.step (.exec ..)
  meets := by
    rintro data ⟨action, env⟩ h
    have hnext : match action.op with
        | some op =>
          data.registry.Next env.now op ((api codecs).apply (action, env) data).1.registry
        | none => ((api codecs).apply (action, env) data).1.registry = data.registry := by
      rw [apply_fst]
      cases action.op with
      | none => rfl
      | some op => exact next_exec h.indexed h.normalized env.ord env.now op
    refine ⟨hnext, ?_⟩
    cases action with
    | request req =>
      refine ⟨_, congrArg Prod.snd (apply_request req data.service), ?_⟩
      exact answers_handle data.service h.indexed h.normalized h.exact codecs env.ord env.now req
    | sweepExpiredComponents timeoutMs => rfl

/-- Resetting heartbeats takes every component for one just heard of. -/
theorem recordsOf_resetHeartbeatTimes (now : ℕ) (components : Components)
    (segments : SegmentStore) :
    recordsOf (resetHeartbeatTimes now components) segments =
      (recordsOf components segments).heard now := by
  simp only [recordsOf, resetHeartbeatTimes, Records.heard, HashMap.get_mapVal, Option.map_map]
  rfl

/-- A start on a state file takes the registry from it. -/
theorem registry_restart (json : Json Bytes) (ord : Order) (now : ℕ) (data : AppData) :
    (AppData.new json ord now (some (json.toVecPretty data.snapshot))).registry =
      data.registry.restart now := by
  rw [AppData.new, loadFromDisk_toVecPretty]
  obtain ⟨hc, hs, hv, hg⟩ := load_spec ord now data.snapshot
  have hrecords : (AppData.load ord now data.snapshot).registry.toRecords =
      data.registry.toRecords.heard now := by
    rw [AppData.registry, hc, hs]
    exact recordsOf_resetHeartbeatTimes now _ _
  refine Registry.ext (congrArg Records.routers hrecords) (congrArg Records.bridges hrecords)
    (congrArg Records.nodes hrecords) (congrArg Records.owners hrecords) ?_ hg
  funext ds
  exact congrArg (fun versions => (versions.get ds.key).getD 0) hv

/-- A start without a state file is that of an empty registry. -/
theorem registry_start (json : Json Bytes) (ord : Order) (now : ℕ) :
    (AppData.new json ord now none).registry = .empty := by
  have hdefault : (AppData.load ord now .default).registry = Registry.empty.restart now :=
    registry_restart .verbatim ord now ⟨.default, .default, .default, .empty, 0⟩
  exact hdefault

/-- Whatever requests and sweeps overlap, from any data that the service can have: the
    clients are answered as by the registry, in some order of the calls that respects real
    time, and once no section is under way, the data stand for the registry that this order
    leaves. Without a state file, the registry is empty at first; and a process that starts on
    a state file has the registry for which the data stood when it was written, with
    every component just heard of. -/
theorem service_refines_registry {data : AppData} (h : Reachable json data) (codecs : Codecs) :
    (∀ c, Sections.Reachable (api codecs) data c → ∃ order reg,
      Linearization (api codecs) data c.history order ∧
        (registry codecs).Legal data.registry order reg ∧
          ((∀ id o code, c.phase id ≠ .holding o code) → c.state.registry = reg)) ∧
    ∀ ord now, (AppData.new json ord now none).registry = .empty ∧
      (AppData.new json ord now (some (json.toVecPretty data.snapshot))).registry =
        data.registry.restart now :=
  ⟨fun _ hc => (refines_registry json codecs).linearization h hc,
    fun ord now => ⟨registry_start json ord now, registry_restart json ord now data⟩⟩

/-- A router has registered, and its zone has been fetched: the registry has the router. -/
theorem service_refines_registry_fetched :
    ∃ (c : Sections.Config AppData (Action × Env) (Option Response))
      (order : List (Entry (Action × Env) (Option Response))) (reg : Registry),
      .answer 1 (some sampleRouters) ∈ c.history ∧
        Linearization (api ⟨[], 0⟩) (.new Json.verbatim (.inOrder _) 0 none) c.history order ∧
          (registry ⟨[], 0⟩).Legal .empty order reg ∧ reg.routers "r1" = some ("eu", 1) := by
  obtain ⟨c, hc, hstate, hhistory, hnone, _⟩ := Sections.exists_serial (api ⟨[], 0⟩)
    (AppData.new Json.verbatim (.inOrder _) 0 none)
    [(.request (.zoneRouters "eu"), sampleEnv), (.request sampleRegistration, sampleEnv)]
  have hstart : Reachable Json.verbatim (.new Json.verbatim (.inOrder _) 0 none) := .start _ 0
  have h := service_refines_registry hstart ⟨[], 0⟩
  obtain ⟨order, reg, hlinear, hlegal, hreg⟩ := h.1 c hc
  have hanswer : .answer 1 (some sampleRouters) ∈ c.history := by
    have hhistory : c.history = [.answer 1 (some sampleRouters),
      .call 1 (.request (.zoneRouters "eu"), sampleEnv), .answer 0 (some (.ok .empty)),
        .call 0 (.request sampleRegistration, sampleEnv)] := hhistory.trans rfl
    simp [hhistory]
  refine ⟨c, order, reg, hanswer, hlinear, (h.2 (.inOrder _) 0).1 ▸ hlegal, ?_⟩
  rw [← hreg hnone, hstate]
  rfl

end Refinement

end Rzid
