import Rzid.Sequential

/-!
# Normalised segment sets

Every shard keeps its segments twice, as a set and as a sorted vector. Updates
compare the sets, and queries answer the vectors. In a reachable state the two say
the same (`Reachable.normalized`), so that

* an update depends on its list only through the elements, and repeating it does
  nothing (`updateSegments_idempotent`);
* two states that answer the query of a dataset alike publish the same dataset
  (`agree_of_content_eq`).
-/

namespace Rzid

/-- The vector lists the set in ascending order. -/
def SegmentSet.Normal (segments : SegmentSet) : Prop := segments.set.keys = segments.sorted

theorem SegmentSet.normal_new (segments : List Segment) : (SegmentSet.new segments).Normal :=
  keys_set_new segments

/-- Normalised segment sets with the same set are equal. -/
theorem SegmentSet.Normal.eq {segments segments' : SegmentSet} (h : segments.Normal)
    (h' : segments'.Normal) (hset : segments.set = segments'.set) : segments = segments' := by
  obtain ⟨set, sorted⟩ := segments
  obtain ⟨set', sorted'⟩ := segments'
  obtain rfl : set = set' := hset
  rw [SegmentSet.mk.injEq]
  exact ⟨rfl, Eq.trans (Eq.symm h) h'⟩

/-- Normalised segment sets with the same vector are equal. -/
theorem SegmentSet.Normal.eq_of_sorted {segments segments' : SegmentSet} (h : segments.Normal)
    (h' : segments'.Normal) (hsorted : segments.sorted = segments'.sorted) :
    segments = segments' := by
  refine h.eq h' (HashMap.ext_keys fun g => ?_)
  rw [h, h', hsorted]

/-- Normalising depends on the elements of a list only. -/
theorem SegmentSet.new_congr {l l' : List Segment} (h : ∀ g, g ∈ l ↔ g ∈ l') :
    SegmentSet.new l = SegmentSet.new l' := by
  refine (normal_new l).eq_of_sorted (normal_new l') ?_
  refine (sortedLT_new l).eq_of_mem_iff (sortedLT_new l') fun g => ?_
  rw [mem_sorted_new, mem_sorted_new, h g]

theorem ShardSegments.eq_of {shard shard' : ShardSegments} (hzone : shard.zoneId = shard'.zoneId)
    (hsegments : shard.segments = shard'.segments) : shard = shard' := by
  cases shard
  cases shard'
  simp_all

namespace SegmentStore

/-- Every stored segment set is normalised. -/
def Normalized (segments : SegmentStore) : Prop :=
  ∀ shardId shard, segments.byShard.get shardId = some shard → shard.segments.Normal

variable {segments : SegmentStore}

theorem Normalized.put (h : segments.Normalized) (shardId : ShardId) {shard : ShardSegments}
    (hshard : shard.segments.Normal) : (segments.put shardId shard).Normalized := by
  intro s shard' hget
  rw [SegmentStore.put, HashMap.get_insert] at hget
  split_ifs at hget
  · exact Option.some_inj.1 hget ▸ hshard
  · exact h s shard' hget

/-- An identical update repeats the record. -/
theorem Normalized.identical_iff (h : segments.Normalized) {shardId : ShardId}
    {shard : ShardSegments} (hshard : shard.segments.Normal) :
    segments.Identical shardId shard ↔ segments.byShard.get shardId = some shard := by
  refine ⟨?_, fun hget => ⟨shard, hget, rfl, rfl⟩⟩
  rintro ⟨old, hget, hzone, hset⟩
  rw [hget, ShardSegments.eq_of hzone ((h shardId old hget).eq hshard hset)]

/-- An update sets the record of the shard, an identical one too. -/
theorem Normalized.update_eq_put (h : segments.Normalized) {shardId : ShardId}
    {shard : ShardSegments} (hshard : shard.segments.Normal) :
    segments.update shardId shard = segments.put shardId shard := by
  rw [update]
  split_ifs with hid
  · rw [SegmentStore.put, HashMap.insert_of_get ((h.identical_iff hshard).1 hid)]
  · rfl

theorem Normalized.exec (h : segments.Normalized) (op : Op) :
    (op.segments segments).Normalized := by
  cases op with
  | call call =>
    cases call with
    | updateSegments shardId zoneId new =>
      have hnew : (SegmentSet.new new).Normal := SegmentSet.normal_new new
      rw [Op.segments, Call.segments, h.update_eq_put hnew]
      exact h.put shardId hnew
    | _ => exact h
  | sweepExpiredComponents timeoutMs => exact h

end SegmentStore

section Reachable

variable {Bytes : Type} {json : Json Bytes} {data data' : AppData}

theorem Step.normalized (hstep : Step data data') (hd : Indexed data)
    (h : data.segments.Normalized) : data'.segments.Normalized := by
  obtain ⟨ord, now, op⟩ := hstep
  rw [(exec_effect ord now op hd).segments]
  exact h.exec op

/-- In a reachable state, the set and the vector of every shard say the same. -/
theorem Reachable.normalized (h : Reachable json data) : data.segments.Normalized := by
  induction h with
  | start ord now =>
    obtain ⟨_, hs, _⟩ := load_spec ord now (json.loadFromDisk none)
    rw [AppData.new, hs]
    intro shardId shard hget
    cases hget
  | restart ord now _ ih =>
    obtain ⟨_, hs, _⟩ := load_spec ord now (json.loadFromDisk (some (json.toVecPretty _)))
    rw [AppData.new, hs, loadFromDisk_toVecPretty]
    exact ih
  | step h hstep ih => exact hstep.normalized h.indexed ih

end Reachable

/-! ## Answers -/

section Answers

variable {data data' : AppData}

theorem Lists.set_unique {l : List String} {ids ids' : Set String} (h : Lists l ids)
    (h' : Lists l ids') : ids = ids' := Set.ext fun id => (h.2 id).symm.trans (h'.2 id)

theorem ListsAny.set_unique {l? : Option (List String)} {ids ids' : Set String}
    (h : ListsAny l? ids) (h' : ListsAny l? ids') : ids = ids' := by
  cases hl : l? with
  | none => rw [h.1.1 hl, h'.1.1 hl]
  | some l => exact (h.2 l hl).set_unique (h'.2 l hl)

theorem shardSegments_snd (data : AppData) (shardId : ShardId) :
    (data.shardSegments shardId).map Prod.snd =
      (data.segments.byShard.get shardId).map fun shard =>
        (shard.zoneId, shard.segments.sorted) := by
  rw [AppData.shardSegments, Option.map_map]
  rfl

/-- The answers about a shard determine its record. -/
theorem get_eq_of_shardSegments (hn : data.segments.Normalized)
    (hn' : data'.segments.Normalized) {shardId : ShardId}
    (h : (data.shardSegments shardId).map Prod.snd = (data'.shardSegments shardId).map Prod.snd) :
    data.segments.byShard.get shardId = data'.segments.byShard.get shardId := by
  rw [shardSegments_snd, shardSegments_snd] at h
  cases hget : data.segments.byShard.get shardId with
  | none =>
    rw [hget] at h
    exact (Option.map_eq_none_iff.1 h.symm).symm
  | some shard =>
    rw [hget] at h
    obtain ⟨shard', hget', heq⟩ := Option.map_eq_some_iff.1 h.symm
    obtain ⟨hzone, hsorted⟩ := Prod.mk.inj heq
    have hsegments := (hn' shardId shard' hget').eq_of_sorted (hn shardId shard hget) hsorted
    rw [hget', ShardSegments.eq_of hzone hsegments]

/-- States that answer the query of a dataset alike publish the same dataset. -/
theorem agree_of_content_eq (hd : Indexed data) (hd' : Indexed data')
    (hn : data.segments.Normalized) (hn' : data'.segments.Normalized) {ds : Dataset}
    (h : data.content ds = data'.content ds) : data.directory.Agree data'.directory ds := by
  cases ds with
  | zoneRouters z =>
    have h := Content.routers.inj h
    exact (hd.zoneRouters z).set_unique (h ▸ hd'.zoneRouters z)
  | zoneShards z =>
    have h := Content.shards.inj h
    exact fun s => (hd.zoneShards z s).set_unique (h ▸ hd'.zoneShards z s)
  | zoneSegments z =>
    have h := Content.segments.inj h
    exact (hd.zoneSegments z).set_unique (h ▸ hd'.zoneSegments z)
  | shardSegments s => exact get_eq_of_shardSegments hn hn' (Content.ownership.inj h)
  | shardNodes s =>
    have h := Content.nodes.inj h
    exact (hd.shardNodes s).set_unique (h ▸ hd'.shardNodes s)

end Answers

/-! ## Repeated updates -/

section Updates

variable {Bytes : Type} {json : Json Bytes} {data : AppData} (ord : Order) {shardId : ShardId}
  {zoneId : ZoneId}

/-- The locked part of an update depends on the elements of its list only. -/
theorem updateSegments_congr {l l' : List Segment} (hset : ∀ g, g ∈ l ↔ g ∈ l') :
    data.updateSegments ord shardId zoneId l = data.updateSegments ord shardId zoneId l' := by
  rw [AppData.updateSegments, AppData.updateSegments, SegmentSet.new_congr hset]

theorem updateSegments_of_identical {l : List Segment}
    (hid : data.segments.Identical shardId ⟨zoneId, .new l⟩) :
    data.updateSegments ord shardId zoneId l = (data, false) := by
  rw [AppData.updateSegments, if_pos (identicalUpdate_iff.2 hid)]

variable (shardId zoneId) in
/-- After an update, its shard has the zone and the segments of the update. -/
theorem get_updateSegments (hd : Indexed data) (hn : data.segments.Normalized)
    (l : List Segment) :
    (data.updateSegments ord shardId zoneId l).1.segments.byShard.get shardId =
      some ⟨zoneId, .new l⟩ := by
  rw [(updateSegments_effect hd shardId zoneId l).segments,
    hn.update_eq_put (SegmentSet.normal_new l)]
  exact HashMap.get_insert_self ..

/-- An update returns `true` if and only if it changes the answer about its shard. -/
theorem updateSegments_changed_iff (hd : Indexed data) (hn : data.segments.Normalized)
    (l : List Segment) :
    (data.updateSegments ord shardId zoneId l).2 = true ↔
      ((data.updateSegments ord shardId zoneId l).1.shardSegments shardId).map Prod.snd ≠
        (data.shardSegments shardId).map Prod.snd := by
  rw [updateSegments_changed, not_iff_not, hn.identical_iff (SegmentSet.normal_new l)]
  have hget := get_updateSegments ord shardId zoneId hd hn l
  constructor
  · intro hold
    rw [shardSegments_snd, shardSegments_snd, hget, hold]
  · intro hanswer
    have hn' := (Step.exec ord 0 (.call (.updateSegments shardId zoneId l))).normalized hd hn
    exact (get_eq_of_shardSegments hn' hn hanswer).symm.trans hget

variable (shardId zoneId) in
/-- The result of an update of the service, and its data. -/
theorem AppState.updateSegments_spec (state : AppState) (l : List Segment) :
    (state.updateSegments ord shardId zoneId l).2 =
        (state.data.updateSegments ord shardId zoneId l).2 ∧
      (state.updateSegments ord shardId zoneId l).1.data =
        (state.data.updateSegments ord shardId zoneId l).1 := by
  rw [AppState.updateSegments]
  generalize state.data.updateSegments ord shardId zoneId l = result
  obtain ⟨data, _ | _⟩ := result <;> exact ⟨rfl, rfl⟩

theorem AppState.updateSegments_of_identical {state : AppState} {l : List Segment}
    (hid : state.data.segments.Identical shardId ⟨zoneId, .new l⟩) :
    state.updateSegments ord shardId zoneId l = (state, false) := by
  rw [AppState.updateSegments, Rzid.updateSegments_of_identical ord hid]

/-- Updates depend on the set of the segments they are given, and are idempotent:
    * two lists with the same elements give the same result, and states that answer
      every query alike, the version manifest included;
    * the stored vectors list the stored sets, in strictly ascending order;
    * a further update of the same shard to the same zone and elements returns `false`,
      and leaves the whole state as it was;
    * an update returns `true` if and only if it changes the answer about its shard. -/
theorem updateSegments_idempotent {state : AppState} (h : Reachable json state.data)
    (ord ord' : Order) (shardId : ShardId) (zoneId : ZoneId) {l l' : List Segment}
    (hset : ∀ g, g ∈ l ↔ g ∈ l') :
    let after := state.updateSegments ord shardId zoneId l
    let after' := state.updateSegments ord' shardId zoneId l'
    (after.2 = after'.2 ∧ SameAnswers after.1.data after'.1.data) ∧
    (∀ s shard, state.data.segments.byShard.get s = some shard →
      shard.segments.sorted.SortedLT ∧
        ∀ g, g ∈ shard.segments.sorted ↔ g ∈ shard.segments.set.keys) ∧
    (∀ (ord'' : Order) (l'' : List Segment), (∀ g, g ∈ l'' ↔ g ∈ l) →
      after.1.updateSegments ord'' shardId zoneId l'' = (after.1, false)) ∧
    (after.2 = true ↔
      (after.1.data.shardSegments shardId).map Prod.snd ≠
        (state.data.shardSegments shardId).map Prod.snd) := by
  intro after after'
  obtain ⟨hresult, hdata⟩ := AppState.updateSegments_spec ord shardId zoneId state l
  obtain ⟨hresult', hdata'⟩ := AppState.updateSegments_spec ord' shardId zoneId state l'
  have hd := h.indexed
  have hn := h.normalized
  refine ⟨⟨?_, ?_⟩, fun s shard hget => ?_, fun ord'' l'' hset'' => ?_, ?_⟩
  · rw [hresult, hresult', ← updateSegments_congr ord' hset]
    exact ((Twin.refl hd).exec (.updateSegments shardId zoneId l) ord ord' 0 0).2
  · rw [hdata, hdata', ← updateSegments_congr ord' hset]
    exact ((Twin.refl hd).exec (.updateSegments shardId zoneId l) ord ord' 0 0).1.sameAnswers
  · have hnormal : shard.segments.set.keys = shard.segments.sorted := hn s shard hget
    rw [← hnormal]
    exact ⟨HashMap.sortedLT_keys _, fun _ => Iff.rfl⟩
  · refine AppState.updateSegments_of_identical ord'' ?_
    rw [hdata, SegmentSet.new_congr hset'']
    exact ⟨_, get_updateSegments ord shardId zoneId hd hn l, rfl, rfl⟩
  · rw [hresult, hdata]
    exact updateSegments_changed_iff ord hd hn l

/-- An update to a set, given as two lists, on the state after a start. -/
theorem updateSegments_idempotent_duplicates :
    let state := AppState.new Json.verbatim (.inOrder _) 0 none 60
    let after := state.updateSegments (.inOrder _) "s1" "eu" ["b", "a", "b"]
    after.2 = true ∧ after.1.updateSegments (.inOrder _) "s1" "eu" ["a", "b"] = (after.1, false) ∧
      SameAnswers after.1.data
        (state.updateSegments (.inOrder _) "s1" "eu" ["a", "b"]).1.data := by
  intro state after
  have hstart : Reachable Json.verbatim state.data := .start (.inOrder _) 0
  have hset : ∀ g, g ∈ ["b", "a", "b"] ↔ g ∈ ["a", "b"] := by simp
  have h := updateSegments_idempotent hstart (.inOrder _) (.inOrder _) "s1" "eu" hset
  exact ⟨by decide, h.2.2.1 (.inOrder _) ["a", "b"] (by simp), h.1.2⟩

end Updates

end Rzid
