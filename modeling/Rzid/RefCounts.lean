import Rzid.Normalized

/-!
# Reference counts

The reference count of a segment in a zone is the number of shards of the zone that
own it, and there is none if there is no such shard (`AppData.segmentCount`,
`segmentCount_spec`). Every turn of a counting loop therefore finds what it expects:

* a decrement finds the count of a segment that the shard owns, which is at least
  one (`removeSegment_present`);
* an increment finds a count below the number of shard records, in an update
  (`addSegment_lt`) and in the reconstruction of the indexes (`countShards_lt`).

So no count of 32 bits underflows, or overflows while there are fewer than `2 ^ 32`
shard records (`segmentCounts_exact`).
-/

namespace Rzid

/-- The reference count of a segment in a zone, if there is one. -/
def AppData.segmentCount (data : AppData) (zoneId : ZoneId) (segment : Segment) : Option ℕ :=
  (data.indexes.segmentRefsByZone.get zoneId).bind fun refs => refs.get segment

/-- The counts are the numbers of owners, and there are none for segments without. -/
theorem segmentCount_eq {data : AppData} (hd : Indexed data) (zoneId : ZoneId)
    (segment : Segment) :
    data.segmentCount zoneId segment = nonZero (data.segments.owners zoneId segment).length := by
  have hrefs := hd.segments.refs zoneId segment
  rw [AppData.segmentCount]
  cases hget : data.indexes.segmentRefsByZone.get zoneId with
  | none =>
    rw [hget] at hrefs
    exact hrefs
  | some refs =>
    rw [hget] at hrefs
    exact hrefs

theorem segmentCount_spec {data : AppData} (hd : Indexed data) (zoneId : ZoneId)
    (segment : Segment) :
    ((∃ n, data.segmentCount zoneId segment = some n) ↔
      ∃ shardId shard, data.segments.byShard.get shardId = some shard ∧
        shard.zoneId = zoneId ∧ segment ∈ shard.segments.set.keys) ∧
    ∀ n, data.segmentCount zoneId segment = some n →
      n = (data.segments.owners zoneId segment).length := by
  rw [← SegmentStore.owners_ne_nil_iff, ← List.length_pos_iff, segmentCount_eq hd]
  simp only [nonZero_eq_some_iff]
  exact ⟨by simp, fun n h => h.1.symm⟩

/-! ## Updates -/

/-- The segment of a turn of a loop over a set has not been met before. -/
theorem not_mem_of_visit {ord : Order} {table : Table} {set : HashSet Segment}
    {l₁ l₂ : List Segment} {g : Segment} (h : ord.order table set.keys = l₁ ++ g :: l₂) :
    g ∉ l₁ := by
  have hnodup : (l₁ ++ g :: l₂).Nodup :=
    h ▸ (ord.perm _ _).nodup_iff.2 set.sortedLT_keys.nodup
  exact fun hg => List.disjoint_of_nodup_append hnodup hg List.mem_cons_self

/-- Every decrement finds the count of its segment, and the count is positive. -/
theorem removeSegment_present {data : AppData} (hd : Indexed data) (ord : Order)
    {shardId : ShardId} {old : ShardSegments}
    (hget : data.segments.byShard.get shardId = some old) {l₁ l₂ : List Segment} {g : Segment}
    (hvisit : ord.order .removedSegments old.segments.set.keys = l₁ ++ g :: l₂) :
    ∃ refs n, data.indexes.segmentRefsByZone.get old.zoneId = some refs ∧
      (l₁.foldl removeSegment (refs, false)).1.get g = some n ∧ 1 ≤ n := by
  have howned : ∀ g' ∈ l₁ ++ g :: l₂, 0 < (data.segments.owners old.zoneId g').length := by
    intro g' hg'
    rw [← hvisit, (ord.perm _ _).mem_iff] at hg'
    exact List.length_pos_iff.2 (SegmentStore.owners_ne_nil_iff.2 ⟨shardId, old, hget, rfl, hg'⟩)
  have hpos := howned g (by simp)
  obtain ⟨refs, hrefs⟩ : ∃ refs, data.indexes.segmentRefsByZone.get old.zoneId = some refs := by
    refine Option.ne_none_iff_exists'.1 fun hnone => ?_
    have hcount := segmentCount_eq hd old.zoneId g
    rw [AppData.segmentCount, hnone, nonZero_of_pos hpos] at hcount
    cases hcount
  have hcounts := hd.segments.refs old.zoneId
  rw [hrefs, Option.getD_some] at hcounts
  have hnodup : (l₁ ++ g :: l₂).Nodup :=
    hvisit ▸ (ord.perm _ _).nodup_iff.2 old.segments.set.sortedLT_keys.nodup
  have hloop : (l₁.foldl removeSegment (refs, false)).1.get g =
      nonZero ((data.segments.owners old.zoneId g).length - l₁.count g) :=
    (foldl_removeSegment (List.Nodup.of_append_left hnodup) hcounts
      (fun g' hg' => howned g' (List.mem_append_left _ hg')) false).1 g
  refine ⟨refs, _, hrefs, ?_, hpos⟩
  rw [hloop, List.count_eq_zero_of_not_mem (not_mem_of_visit hvisit), Nat.sub_zero,
    nonZero_of_pos hpos]

/-- Every increment of an update finds a count below the number of shard records that
    there are after the update. -/
theorem addSegment_lt {data : AppData} (hd : Indexed data) (ord : Order) (shardId : ShardId)
    (shard : ShardSegments) {l₁ l₂ : List Segment} {g : Segment}
    (hvisit : ord.order .addedSegments shard.segments.set.keys = l₁ ++ g :: l₂) :
    let data' := (removeOldOwnership ord data (data.segments.byShard.get shardId)).1
    let refs := (data'.indexes.segmentRefsByZone.get shard.zoneId).getD .empty
    ((l₁.foldl addSegment (refs, false)).1.get g).getD 0 <
      (data.segments.put shardId shard).byShard.len := by
  obtain ⟨refsByZone, vectors, hremove, hind⟩ := removeOldOwnership_spec ord hd shardId
  rw [hremove]
  intro data' refs
  have hloop : (l₁.foldl (fun refs segment => refs.upsert segment 0 (· + 1)) refs).get g =
      nonZero (((data.segments.drop shardId).owners shard.zoneId g).length + l₁.count g) :=
    (hind.refs shard.zoneId).foldl_upsert l₁ g
  rw [foldl_addSegment, hloop, getD_nonZero,
    List.count_eq_zero_of_not_mem (not_mem_of_visit hvisit), Nat.add_zero,
    SegmentStore.put, HashMap.len_insert]
  exact Nat.lt_succ_of_le (HashMap.length_keysWhere_le _ _)

/-! ## Reconstruction -/

/-- The reference counts of a list of shards, in the order of the list. -/
def countShards (ord : Order) (shards : List (ShardId × ShardSegments)) :
    HashMap ZoneId (HashMap Segment ℕ) :=
  shards.foldl (fun (m : HashMap ZoneId (HashMap Segment ℕ)) e =>
    m.upsert e.2.zoneId .empty fun refs =>
      (ord.order (.loadedSegments e.1) e.2.segments.set.keys).foldl
        (fun refs segment => refs.upsert segment 0 (· + 1)) refs) .empty

/-- A start counts the shards of its state file. -/
theorem segmentRefsByZoneOf_eq (ord : Order) (segments : SegmentStore) :
    segmentRefsByZoneOf ord segments =
      countShards ord (ord.order .byShard segments.byShard.entries) := rfl

theorem counts_countShards (ord : Order) (shards : List (ShardId × ShardSegments))
    (zoneId : ZoneId) :
    (((countShards ord shards).get zoneId).getD .empty).Counts fun segment =>
      ((shards.filter fun e => e.2.zoneId = zoneId).filter
        fun e => segment ∈ e.2.segments.set.keys).length := by
  rw [countShards, HashMap.get_foldl_upsert]
  split_ifs with h
  · rw [h]
    exact HashMap.counts_empty
  · exact (counts_foldl_shards ord _ HashMap.counts_empty).congr fun g => Nat.zero_add _

/-- Every increment of a reconstruction finds a count below the number of shard
    records. -/
theorem countShards_lt (ord : Order) (segments : SegmentStore)
    {shards₁ shards₂ : List (ShardId × ShardSegments)} {e : ShardId × ShardSegments}
    (hshards : ord.order .byShard segments.byShard.entries = shards₁ ++ e :: shards₂)
    {l₁ l₂ : List Segment} {g : Segment}
    (hvisit : ord.order (.loadedSegments e.1) e.2.segments.set.keys = l₁ ++ g :: l₂) :
    let refs := ((countShards ord shards₁).get e.2.zoneId).getD .empty
    ((l₁.foldl (fun refs segment => refs.upsert segment 0 (· + 1)) refs).get g).getD 0 <
      segments.byShard.len := by
  intro refs
  have hloop : (l₁.foldl (fun refs segment => refs.upsert segment 0 (· + 1)) refs).get g =
      nonZero (((shards₁.filter fun e' => e'.2.zoneId = e.2.zoneId).filter
        fun e' => g ∈ e'.2.segments.set.keys).length + l₁.count g) :=
    (counts_countShards ord shards₁ e.2.zoneId).foldl_upsert l₁ g
  have hlen : segments.byShard.len = (shards₁ ++ e :: shards₂).length := by
    rw [← hshards, (ord.perm _ _).length_eq, HashMap.len]
  rw [hloop, getD_nonZero, List.count_eq_zero_of_not_mem (not_mem_of_visit hvisit),
    Nat.add_zero, hlen, List.length_append, List.length_cons]
  calc
    _ ≤ (shards₁.filter fun e' => e'.2.zoneId = e.2.zoneId).length := List.length_filter_le ..
    _ ≤ shards₁.length := List.length_filter_le ..
    _ < shards₁.length + (shards₂.length + 1) := by omega

/-! ## Reachable states -/

/-- In every reachable state, a segment has a reference count in a zone if and only if
    a shard of the zone owns it, and the count is the number of these shards. So,
    whatever the order of the loops:
    * every decrement of an update finds the entry of the zone and the count of the
      segment, which is at least one;
    * every increment of an update stays below `2 ^ 32`, if there are fewer than `2 ^ 32`
      shard records with that of the update;
    * and so does every increment of a reconstruction of the indexes. -/
theorem segmentCounts_exact {Bytes : Type} {json : Json Bytes} {data : AppData}
    (h : Reachable json data) :
    (∀ zoneId segment,
      ((∃ n, data.segmentCount zoneId segment = some n) ↔
        ∃ shardId shard, data.segments.byShard.get shardId = some shard ∧
          shard.zoneId = zoneId ∧ segment ∈ shard.segments.set.keys) ∧
      ∀ n, data.segmentCount zoneId segment = some n →
        n = (data.segments.owners zoneId segment).length) ∧
    (∀ (ord : Order) shardId old, data.segments.byShard.get shardId = some old →
      ∀ l₁ g l₂, ord.order .removedSegments old.segments.set.keys = l₁ ++ g :: l₂ →
        ∃ refs n, data.indexes.segmentRefsByZone.get old.zoneId = some refs ∧
          (l₁.foldl removeSegment (refs, false)).1.get g = some n ∧ 1 ≤ n) ∧
    (∀ (ord : Order) shardId zoneId new,
      (data.updateSegments ord shardId zoneId new).1.segments.byShard.len < 2 ^ 32 →
      ∀ l₁ g l₂, ord.order .addedSegments (SegmentSet.new new).set.keys = l₁ ++ g :: l₂ →
        let data' := (removeOldOwnership ord data (data.segments.byShard.get shardId)).1
        let refs := (data'.indexes.segmentRefsByZone.get zoneId).getD .empty
        ((l₁.foldl addSegment (refs, false)).1.get g).getD 0 + 1 < 2 ^ 32) ∧
    ∀ (ord : Order), data.segments.byShard.len < 2 ^ 32 →
      ∀ shards₁ e shards₂,
        ord.order .byShard data.segments.byShard.entries = shards₁ ++ e :: shards₂ →
      ∀ l₁ g l₂, ord.order (.loadedSegments e.1) e.2.segments.set.keys = l₁ ++ g :: l₂ →
        let refs := ((countShards ord shards₁).get e.2.zoneId).getD .empty
        ((l₁.foldl (fun refs segment => refs.upsert segment 0 (· + 1)) refs).get g).getD 0 + 1 <
          2 ^ 32 := by
  have hd := h.indexed
  refine ⟨segmentCount_spec hd,
    fun ord shardId old hget l₁ g l₂ => removeSegment_present hd ord hget,
    fun ord shardId zoneId new hlen l₁ g l₂ hvisit => ?_,
    fun ord hlen shards₁ e shards₂ hshards l₁ g l₂ hvisit => ?_⟩
  · rw [(updateSegments_effect hd shardId zoneId new).segments,
      h.normalized.update_eq_put (SegmentSet.normal_new new)] at hlen
    exact (Nat.succ_le_of_lt (addSegment_lt hd ord shardId ⟨zoneId, .new new⟩ hvisit)).trans_lt hlen
  · exact (Nat.succ_le_of_lt (countShards_lt ord data.segments hshards hvisit)).trans_lt hlen

/-- A segment that two shards own: its count, and the decrement when one of them gives
    it up. -/
theorem segmentCounts_exact_shared :
    let data := ((Op.exec (.inOrder _) 2 (.call (.updateSegments "s2" "eu" ["g"]))
      (Op.exec (.inOrder _) 1 (.call (.updateSegments "s1" "eu" ["g"]))
        (.new Json.verbatim (.inOrder _) 0 none)).1)).1
    data.segmentCount "eu" "g" = some 2 ∧ 2 = (data.segments.owners "eu" "g").length ∧
      ∃ refs n, data.indexes.segmentRefsByZone.get "eu" = some refs ∧ refs.get "g" = some n ∧
        1 ≤ n := by
  intro data
  have h : Reachable Json.verbatim data := .step (.step (.start (.inOrder _) 0)
    (.exec (.inOrder _) 1 (.call (.updateSegments "s1" "eu" ["g"]))))
    (.exec (.inOrder _) 2 (.call (.updateSegments "s2" "eu" ["g"])))
  obtain ⟨hexact, hremove, _⟩ := segmentCounts_exact h
  have hcount : data.segmentCount "eu" "g" = some 2 := by decide
  exact ⟨hcount, (hexact "eu" "g").2 2 hcount,
    hremove (.inOrder _) "s1" ⟨"eu", .new ["g"]⟩ (by decide) [] "g" [] (by decide)⟩

end Rzid
