import Rzid.Clients
import Rzid.Refetch

/-!
# What the manifest tells

The version manifest is all that a consumer needs to find the datasets
(`manifest_complete`): in every reachable state,

* every entry is the version of one dataset, and at least `1`;
* a dataset without an entry is answered as by an empty service, so it need not be
  fetched; and a shard whose segments have no entry is unknown, and no other;
* as long as the process lives, entries do not go away, and do not decrease.

The invariant behind it is `Exact`. It goes through restarts on any state file that the
service has written.
-/

namespace Rzid

/-- The directory of a service without records. -/
def Directory.empty : Directory := PersistedState.default.directory

/-- The manifest has exactly the datasets that have ever changed. -/
structure Exact (persisted : PersistedState) : Prop where
  entries (key : String) (v : Version) (hv : persisted.versions.get key = some v) :
    0 < v ∧ ∃ ds, Dataset.key ds = key
  absent (ds : Dataset) (hds : persisted.versions.get ds.key = none) :
    Directory.empty.Agree persisted.directory ds
  unknown (shardId : ShardId) (hs : persisted.segments.byShard.get shardId = none) :
    persisted.versions.get (shardSegmentsKey shardId) = none

theorem exact_default : Exact .default where
  entries key v hv := by cases hv
  absent ds _ := .refl ds
  unknown shardId _ := rfl

section Exact

variable {data : AppData} {ord : Order} {now : ℕ} {op : Op}

/-- Whether a dataset has an entry after an operation. -/
theorem get_versions_exec (hd : Indexed data) (key : String) :
    (op.exec ord now data).1.versions.get key =
      if ((op.bumps now data).filter fun ds => ds.key = key) = [] then data.versions.get key
      else some ((data.versions.get key).getD 0 +
        ((op.bumps now data).filter fun ds => ds.key = key).length) := by
  rw [(exec_effect ord now op hd).bumped.versions, get_bumpVersions]

theorem filter_key_eq_nil_iff {bumps : List Dataset} {ds : Dataset} :
    (bumps.filter fun b => b.key = ds.key) = [] ↔ ds ∉ bumps := by
  rw [← List.length_eq_zero_iff, length_filter_key, List.count_eq_zero]

/-- A dataset has no entry after an operation if and only if it had none before, and has not
    been bumped. -/
theorem get_versions_exec_eq_none_iff (hd : Indexed data) {ds : Dataset} :
    (op.exec ord now data).1.versions.get ds.key = none ↔
      data.versions.get ds.key = none ∧ ds ∉ op.bumps now data := by
  rw [get_versions_exec hd, ← filter_key_eq_nil_iff]
  split_ifs with hnil
  · exact (and_iff_left hnil).symm
  · exact iff_of_false not_false fun h => hnil h.2

/-- Records of shards are never removed, and an operation that bumps the segments of a shard
    sets its record. -/
theorem get_byShard_exec (now : ℕ) {segments : SegmentStore} {shardId : ShardId}
    (h : (op.segments segments).byShard.get shardId = none) :
    segments.byShard.get shardId = none ∧
      ∀ data, data.segments = segments → .shardSegments shardId ∉ op.bumps now data := by
  cases op with
  | call call =>
    cases call with
    | updateSegments shardId' zoneId new =>
      rw [Op.segments, Call.segments, SegmentStore.update] at h
      split_ifs at h with hid
      · refine ⟨h, ?_⟩
        rintro data rfl
        rw [Op.bumps, Call.bumps, updateBumps, if_pos hid]
        exact List.not_mem_nil
      · rw [SegmentStore.put, HashMap.get_insert] at h
        split_ifs at h with hs
        refine ⟨h, ?_⟩
        rintro data rfl hmem
        rw [Op.bumps, Call.bumps, updateBumps, if_neg hid] at hmem
        simp [hs] at hmem
    | registerRouter id zoneId =>
      refine ⟨h, fun data _ hmem => ?_⟩
      obtain ⟨_, hds, _⟩ := mem_routerBumps hmem
      cases hds
    | registerBridge id shardId' zoneId =>
      refine ⟨h, fun data _ hmem => ?_⟩
      obtain ⟨_, _, hds, _⟩ := mem_bridgeBumps hmem
      cases hds
    | registerNode id shardId' zoneId =>
      refine ⟨h, fun data _ hmem => ?_⟩
      obtain ⟨_, hds, _⟩ := mem_nodeBumps hmem
      cases hds
  | sweepExpiredComponents timeoutMs =>
    exact ⟨h, fun data _ hmem => by simp [Op.bumps, sweepBumps] at hmem⟩

/-- An operation keeps the manifest exact. -/
theorem Exact.exec (h : Exact data.snapshot) (hd : Indexed data) :
    Exact (op.exec ord now data).1.snapshot := by
  constructor
  case entries =>
    intro key v hv
    have hv : (op.exec ord now data).1.versions.get key = some v := hv
    rw [get_versions_exec hd] at hv
    split_ifs at hv with hnil
    · exact h.entries key v hv
    · -- The key is that of a bumped dataset.
      obtain ⟨ds, hds⟩ := List.exists_mem_of_ne_nil _ hnil
      have hlength := List.length_pos_of_mem hds
      obtain rfl := Option.some_inj.1 hv
      exact ⟨hlength.trans_le (Nat.le_add_left ..), ds, of_decide_eq_true (List.mem_filter.1 hds).2⟩
  case absent =>
    intro ds hds
    obtain ⟨hds, hnot⟩ := (get_versions_exec_eq_none_iff hd).1 hds
    exact (h.absent ds hds).trans (exec_agree ord now op hd hnot)
  case unknown =>
    intro s hs
    have hs : (op.exec ord now data).1.segments.byShard.get s = none := hs
    rw [(exec_effect ord now op hd).segments] at hs
    obtain ⟨hnone, hnot⟩ := get_byShard_exec now hs
    have hkey : data.versions.get (Dataset.shardSegments s).key = none := h.unknown s hnone
    exact (get_versions_exec_eq_none_iff hd).2 ⟨hkey, hnot data rfl⟩

/-- A state has what the file that it is loaded from has. -/
theorem Exact.load {persisted : PersistedState} (h : Exact persisted) (ord : Order) (now : ℕ) :
    Exact (AppData.load ord now persisted).snapshot := by
  obtain ⟨_, hs, hv, _⟩ := load_spec ord now persisted
  have hdir : (AppData.load ord now persisted).snapshot.directory = persisted.directory :=
    directory_load ord now persisted
  constructor
  case entries =>
    intro key v hget
    exact h.entries key v (hv ▸ hget)
  case absent =>
    intro ds hds
    rw [hdir]
    exact h.absent ds (hv ▸ hds)
  case unknown =>
    intro s hget
    exact (congrArg (HashMap.get · _) hv).trans (h.unknown s (hs ▸ hget))

theorem Reachable.exact {Bytes : Type} {json : Json Bytes} (h : Reachable json data) :
    Exact data.snapshot := by
  induction h with
  | start ord now => exact exact_default.load ord now
  | @restart ord now data _ ih =>
    rw [AppData.new, loadFromDisk_toVecPretty]
    exact ih.load ord now
  | step h hstep ih =>
    obtain ⟨ord, now, op⟩ := hstep
    exact ih.exec h.indexed

end Exact

section Manifest

variable {Bytes : Type} {json : Json Bytes} {data : AppData}

/-- The manifest of a reachable state has one entry, of at least `1`, for each of some
    datasets. Every other dataset is answered as by a service that has just started without
    a state file. The shards whose segments are unknown are those without an entry. Later
    manifests have all the entries, with no smaller versions. -/
theorem manifest_complete (h : Reachable json data) :
    (∀ key v, data.versionManifest.versions.get key = some v →
      0 < v ∧ ∃! ds, Dataset.key ds = key) ∧
    (∀ ds, data.versionManifest.versions.get ds.key = none → ∀ ord now,
      data.response ds = (AppData.new json ord now none).response ds) ∧
    (∀ shardId, data.response (.shardSegments shardId) = .notFound "unknown shard" ↔
      data.versionManifest.versions.get (Dataset.shardSegments shardId).key = none) ∧
    ∀ data', Relation.ReflTransGen Step data data' → ∀ key v,
      data.versionManifest.versions.get key = some v →
        ∃ v', v ≤ v' ∧ data'.versionManifest.versions.get key = some v' := by
  have hexact := h.exact
  refine ⟨fun key v hv => ?_, fun ds hds ord now => ?_, fun s => ?_, fun data' hrun key v hv => ?_⟩
  · obtain ⟨hpos, ds, hds⟩ := hexact.entries key v hv
    exact ⟨hpos, ds, hds, fun ds' hds' => Dataset.key_injective (hds'.trans hds.symm)⟩
  · have hversion : data.version ds = 0 := congrArg (Option.getD · 0) hds
    have hdir : (AppData.new json ord now none).directory = Directory.empty :=
      directory_load ord now .default
    obtain ⟨_, _, hv, _⟩ := load_spec ord now (json.loadFromDisk none)
    refine response_eq (hversion.trans ?_) ?_
    · rw [AppData.version, getVersion, AppData.new, hv]
      rfl
    · exact (content_eq_of_agree (indexed_load ..) h.indexed (hdir ▸ hexact.absent ds hds)).symm
  · -- Both sides say that the shard has no record.
    have hresponse : data.response (.shardSegments s) = .notFound "unknown shard" ↔
        data.segments.byShard.get s = none := by
      rw [AppData.response, shardSegmentsHandler, AppData.shardSegments]
      cases data.segments.byShard.get s with
      | none => exact iff_of_true rfl rfl
      | some shard =>
        refine iff_of_false (fun h => ?_) (fun h => ?_)
        · cases h
        · cases h
    rw [hresponse]
    refine ⟨hexact.unknown s, fun hs => ?_⟩
    exact (hexact.absent (.shardSegments s) hs).symm
  · obtain ⟨hpos, ds, rfl⟩ := hexact.entries key v hv
    have hle := (h.versionSound hrun).2.le ds
    have hversion : data.version ds = v := congrArg (Option.getD · 0) hv
    rw [hversion, AppData.version, getVersion] at hle
    change ∃ v', v ≤ v' ∧ data'.versions.get ds.key = some v'
    cases hv' : data'.versions.get ds.key with
    | none =>
      rw [hv'] at hle
      exact absurd hle hpos.not_ge
    | some v' =>
      rw [hv'] at hle
      exact ⟨v', hle, rfl⟩

/-- A router has registered: its zone has an entry, and the bridges of the zone are answered
    as by an empty service. -/
theorem manifest_complete_registered :
    let start := AppData.new Json.verbatim (.inOrder _) 0 none
    let data := (Op.exec (.inOrder _) 1 (.call (.registerRouter "r1" "eu")) start).1
    data.versionManifest.versions.get "zones/eu/routers" = some 1 ∧
      data.response (.zoneShards "eu") = start.response (.zoneShards "eu") :=
  ⟨by decide, (manifest_complete (.step (.start (.inOrder _) 0) (.exec _ _ _))).2.1
    (.zoneShards "eu") (by decide) _ _⟩

end Manifest

end Rzid
