import Rzid.Run

/-!
# Clean restarts

A restart on the snapshot of the data keeps the records, apart from heartbeats,
and the versions, and rebuilds the indexes. The rebuilt indexes can differ from
the maintained ones: an update that leaves a zone without segments may or may not
leave an empty entry behind, a rebuild may create one. What is the same on both
sides is what `Twin` says, and it is enough for all that follows: the queries
answer alike (`Twin.sameAnswers`), and a call makes twins of twins, whatever the
clock and the iteration order on either side (`Twin.exec`).
-/

namespace Rzid

/-- The two states answer every query alike. -/
structure SameAnswers (data data' : AppData) : Prop where
  versionManifest : data.versionManifest = data'.versionManifest
  zoneRouters (zoneId : ZoneId) : data.zoneRouters zoneId = data'.zoneRouters zoneId
  zoneShards (zoneId : ZoneId) : data.zoneShards zoneId = data'.zoneShards zoneId
  zoneSegments (zoneId : ZoneId) : data.zoneSegments zoneId = data'.zoneSegments zoneId
  shardSegments (shardId : ShardId) : data.shardSegments shardId = data'.shardSegments shardId
  shardNodes (shardId : ShardId) : data.shardNodes shardId = data'.shardNodes shardId

/-- Two indexed states with the same directory and the same versions. -/
structure Twin (data data' : AppData) : Prop where
  indexed : Indexed data
  indexed' : Indexed data'
  directory : data.directory = data'.directory
  versions : data.versions = data'.versions
  globalVersion : data.globalVersion = data'.globalVersion

section Twin

variable {data data' : AppData}

theorem Twin.refl (hd : Indexed data) : Twin data data := ⟨hd, hd, rfl, rfl, rfl⟩

theorem Twin.segments (h : Twin data data') : data.segments = data'.segments := by
  have hget : data.segments.byShard.get = data'.segments.byShard.get :=
    congrArg Directory.segments h.directory
  exact congrArg SegmentStore.mk (HashMap.ext_get (congrFun hget))

theorem Twin.sameAnswers (h : Twin data data') : SameAnswers data data' := by
  have hversion : ∀ key, getVersion data key = getVersion data' key := fun key => by
    rw [getVersion, getVersion, h.versions]
  have hcontent : ∀ ds, data.content ds = data'.content ds := fun ds =>
    content_eq_of_agree h.indexed h.indexed' (h.directory ▸ .refl ds)
  refine ⟨?_, fun z => ?_, fun z => ?_, fun z => ?_, fun s => ?_, fun s => ?_⟩
  · rw [AppData.versionManifest, AppData.versionManifest, h.versions, h.globalVersion]
  · exact Prod.ext (hversion _) (Content.routers.inj (hcontent (.zoneRouters z)))
  · exact Prod.ext (hversion _) (Content.shards.inj (hcontent (.zoneShards z)))
  · exact Prod.ext (hversion _) (Content.segments.inj (hcontent (.zoneSegments z)))
  · rw [AppData.shardSegments, AppData.shardSegments, h.segments, hversion]
  · have hnodes := Content.nodes.inj (hcontent (.shardNodes s))
    simp only [AppData.shardNodes, Option.map_map] at hnodes ⊢
    have hnodes : data.indexes.nodesByShard.get s = data'.indexes.nodesByShard.get s := by
      simpa [Function.comp_def] using hnodes
    rw [hnodes, hversion]

/-- A call bumps the same datasets in twins. -/
theorem Twin.bumps (h : Twin data data') (call : Call) : call.bumps data = call.bumps data' := by
  cases call <;> simp only [Call.bumps, h.directory, h.segments]

/-- What a call makes of the directory does not depend on heartbeats. -/
theorem directoryOf_call {components components' : Components} {segments segments' : SegmentStore}
    (h : directoryOf components segments = directoryOf components' segments')
    (hs : segments = segments') (call : Call) (now now' : ℕ) :
    directoryOf (call.components now components) (call.segments segments) =
      directoryOf (call.components now' components') (call.segments segments') := by
  subst hs
  have hr := congrArg Directory.routers h
  have hb := congrArg Directory.bridges h
  have hn := congrArg Directory.nodes h
  have hinsert : ∀ {V P : Type} (m m' : HashMap String V) (f : V → P) (k : String) (v v' : V),
      (fun id => (m.get id).map f) = (fun id => (m'.get id).map f) → f v = f v' →
      (fun id => ((m.insert k v).get id).map f) = fun id => ((m'.insert k v').get id).map f := by
    intro V P m m' f k v v' hm hv
    funext id
    rw [HashMap.get_insert, HashMap.get_insert]
    split_ifs
    · rw [Option.map_some, Option.map_some, hv]
    · exact congrFun hm id
  cases call with
  | registerRouter id zoneId => exact Directory.ext (hinsert _ _ _ _ _ _ hr rfl) hb hn rfl
  | registerBridge id shardId zoneId => exact Directory.ext hr (hinsert _ _ _ _ _ _ hb rfl) hn rfl
  | registerNode id shardId zoneId => exact Directory.ext hr hb (hinsert _ _ _ _ _ _ hn rfl) rfl
  | updateSegments shardId zoneId new => exact Directory.ext hr hb hn rfl

/-- A call makes twins of twins, and reports a change in both or in none. -/
theorem Twin.exec (h : Twin data data') (call : Call) (ord ord' : Order) (now now' : ℕ) :
    Twin (call.exec ord now data).1 (call.exec ord' now' data').1 ∧
      (call.exec ord now data).2 = (call.exec ord' now' data').2 := by
  have he : Effect data (call.exec ord now data).1 _ _ _ :=
    exec_effect ord now (.call call) h.indexed
  have he' : Effect data' (call.exec ord' now' data').1 _ _ _ :=
    exec_effect ord' now' (.call call) h.indexed'
  refine ⟨⟨he.indexed, he'.indexed, ?_, ?_, ?_⟩, ?_⟩
  · rw [AppData.directory, AppData.directory, he.components, he'.components, he.segments,
      he'.segments]
    exact directoryOf_call h.directory h.segments call now now'
  · rw [he.bumped.versions, he'.bumped.versions, h.versions]
    exact congrArg _ (h.bumps call)
  · rw [he.bumped.globalVersion, he'.bumped.globalVersion, h.globalVersion]
    exact congrArg _ (congrArg _ (h.bumps call))
  · rw [Bool.eq_iff_iff, call_changed, call_changed, h.bumps call]

end Twin

/-! ## Restarts -/

/-- What an execution takes from its surroundings: the iteration order and the
    clock reading. -/
structure Env where
  ord : Order
  now : ℕ

/-- The data after a sequence of calls. -/
def Call.execAll (calls : List (Call × Env)) (data : AppData) : AppData :=
  calls.foldl (fun data c => (c.1.exec c.2.ord c.2.now data).1) data

theorem Twin.execAll {data data' : AppData} (h : Twin data data')
    (calls : List (Call × Env × Env)) :
    Twin (Call.execAll (calls.map fun c => (c.1, c.2.1)) data)
      (Call.execAll (calls.map fun c => (c.1, c.2.2)) data') := by
  induction calls generalizing data data' with
  | nil => exact h
  | cons c calls ih => exact ih (h.exec c.1 _ _ _ _).1

/-- Resetting heartbeats keeps the directory. -/
theorem directoryOf_resetHeartbeatTimes (now : ℕ) (components : Components)
    (segments : SegmentStore) :
    directoryOf (resetHeartbeatTimes now components) segments =
      directoryOf components segments := by
  simp only [directoryOf, resetHeartbeatTimes, HashMap.get_mapVal, Option.map_map]
  rfl

/-- The data loaded from a snapshot have its directory and its versions. -/
theorem load_spec (ord : Order) (now : ℕ) (persisted : PersistedState) :
    (AppData.load ord now persisted).components = resetHeartbeatTimes now persisted.components ∧
      (AppData.load ord now persisted).segments = persisted.segments ∧
      (AppData.load ord now persisted).versions = persisted.versions ∧
      (AppData.load ord now persisted).globalVersion = persisted.globalVersion := by
  rw [AppData.load]
  obtain ⟨v, hv, _⟩ := rebuildIndexes_spec ord
    { components := resetHeartbeatTimes now persisted.components
      segments := persisted.segments
      indexes := .default
      versions := persisted.versions
      globalVersion := persisted.globalVersion }
  rw [hv]
  exact ⟨rfl, rfl, rfl, rfl⟩

theorem directory_load (ord : Order) (now : ℕ) (persisted : PersistedState) :
    (AppData.load ord now persisted).directory = persisted.directory := by
  obtain ⟨hc, hs, _⟩ := load_spec ord now persisted
  rw [AppData.directory, hc, hs, directoryOf_resetHeartbeatTimes]
  rfl

/-- A file that the service wrote loads to the snapshot it was written from. -/
@[simp] theorem loadFromDisk_toVecPretty {Bytes : Type} (json : Json Bytes)
    (persisted : PersistedState) :
    json.loadFromDisk (some (json.toVecPretty persisted)) = persisted := by
  simp [Json.loadFromDisk, json.fromSlice_toVecPretty]

/-- A state and its restarted copy are twins. -/
theorem twin_restart {Bytes : Type} (json : Json Bytes) {data : AppData} (hd : Indexed data)
    (ord : Order) (now : ℕ) :
    Twin data (.new json ord now (some (json.toVecPretty data.snapshot))) := by
  obtain ⟨_, _, hv, hg⟩ := load_spec ord now data.snapshot
  rw [AppData.new, loadFromDisk_toVecPretty]
  exact ⟨hd, indexed_load _ _ _, (directory_load ord now data.snapshot).symm, hv.symm, hg.symm⟩

/-- After a restart on the snapshot of the data and any calls, every query
    answers, and every update returns, what it would have without the restart. -/
theorem restart_transparent {Bytes : Type} {json : Json Bytes} {data : AppData}
    (h : Reachable json data) (ord : Order) (now : ℕ) (calls : List (Call × Env × Env)) :
    let data₁ := Call.execAll (calls.map fun c => (c.1, c.2.1)) data
    let data₂ := Call.execAll (calls.map fun c => (c.1, c.2.2))
      (.new json ord now (some (json.toVecPretty data.snapshot)))
    SameAnswers data₁ data₂ ∧
      ∀ (ord₁ ord₂ : Order) (shardId : ShardId) (zoneId : ZoneId) (segments : List Segment),
        (data₁.updateSegments ord₁ shardId zoneId segments).2 =
          (data₂.updateSegments ord₂ shardId zoneId segments).2 := by
  have htwin := (twin_restart json h.indexed ord now).execAll calls
  exact ⟨htwin.sameAnswers, fun ord₁ ord₂ shardId zoneId segments =>
    (htwin.exec (.updateSegments shardId zoneId segments) ord₁ ord₂ 0 0).2⟩

/-- A shard that owns no segment leaves different indexes before and after a
    restart, and the same answers. -/
theorem restart_transparent_no_segments :
    let data := (Op.exec (.inOrder _) 1 (.call (.updateSegments "s1" "eu" []))
      (.new Json.verbatim (.inOrder _) 0 none)).1
    let restarted := AppData.new Json.verbatim (.inOrder _) 2
      (some (Json.verbatim.toVecPretty data.snapshot))
    let call := Call.updateSegments "s2" "eu" ["g"]
    data.indexes ≠ restarted.indexes ∧
      SameAnswers (call.exec (.inOrder _) 3 data).1 (call.exec (.inOrder _) 4 restarted).1 :=
  ⟨by decide, (restart_transparent (.step (.start (.inOrder _) 0)
    (.exec (.inOrder _) 1 (.call (.updateSegments "s1" "eu" [])))) (.inOrder _) 2
    [(.updateSegments "s2" "eu" ["g"], ⟨.inOrder _, 3⟩, ⟨.inOrder _, 4⟩)]).1⟩

end Rzid
