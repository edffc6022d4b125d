import Rzid.Version

/-!
# Segment ownership

The effect of `AppData.updateSegments` on an indexed state. The old ownership of
the shard is removed from its zone before the new one is added to the new zone,
so both changes of reference counts are relative to the *other* shards:

* removing changes the segments of the old zone if no other shard of the zone
  owns one of the old segments (`removeShardSegmentsFromZone_spec`);
* adding changes the segments of the new zone if no other shard of the zone owns
  one of the new segments (`addShardSegmentsToZone_spec`).

Every count that is decremented is positive, and equal to the number of owners.
-/

namespace Rzid

/-! ## The loops -/

theorem foldl_addSegment (l : List Segment) (refs : HashMap Segment ℕ) (changed : Bool) :
    (l.foldl addSegment (refs, changed)).1 =
      l.foldl (fun refs segment => refs.upsert segment 0 (· + 1)) refs := by
  induction l generalizing refs changed with
  | nil => rfl
  | cons g l ih => exact ih _ _

/-- Adding owners of segments reports a change if one of them had no owner. -/
theorem foldl_addSegment_changed {l : List Segment} (hl : l.Nodup) {refs : HashMap Segment ℕ}
    {f : Segment → ℕ} (h : refs.Counts f) (changed : Bool) :
    (l.foldl addSegment (refs, changed)).2 = true ↔ changed = true ∨ ∃ g ∈ l, f g = 0 := by
  induction l generalizing refs f changed with
  | nil => simp
  | cons a l ih =>
    rw [List.nodup_cons] at hl
    have hne : ∀ g ∈ l, g ≠ a := fun g hg hga => hl.1 (hga ▸ hg)
    have hf : ∀ g ∈ l, f g + (if g = a then 1 else 0) = f g := fun g hg => by
      rw [if_neg (hne g hg), Nat.add_zero]
    rw [List.foldl_cons, addSegment, ih hl.2 (h.upsert a), h a, getD_nonZero]
    simp only [Bool.or_eq_true, beq_iff_eq, List.mem_cons, exists_eq_or_imp, or_assoc]
    refine or_congr_right (or_congr_right ⟨?_, ?_⟩)
    · rintro ⟨g, hg, h0⟩
      exact ⟨g, hg, (hf g hg).symm.trans h0⟩
    · rintro ⟨g, hg, h0⟩
      exact ⟨g, hg, (hf g hg).trans h0⟩

/-- Discounting one owner of a counted segment. -/
theorem counts_removeSegment {refs : HashMap Segment ℕ} {f : Segment → ℕ} (h : refs.Counts f)
    {a : Segment} (ha : 0 < f a) (changed : Bool) :
    (removeSegment (refs, changed) a).1.Counts (fun g => f g - if g = a then 1 else 0) ∧
      ((removeSegment (refs, changed) a).2 = true ↔ changed = true ∨ f a = 1) := by
  rw [removeSegment, h a, nonZero_of_pos ha]
  by_cases h1 : f a - 1 = 0
  · simp only [h1, if_true]
    refine ⟨fun g => ?_, by simp; omega⟩
    rw [HashMap.get_remove]
    by_cases hg : g = a
    · simp [hg, h1]
    · simpa [hg] using h g
  · simp only [h1, if_false]
    refine ⟨fun g => ?_, by simp; omega⟩
    rw [HashMap.get_insert]
    by_cases hg : g = a
    · simp only [hg, if_true]
      rw [nonZero_of_pos (Nat.pos_of_ne_zero h1)]
    · simpa [hg] using h g

/-- Removing owners of counted segments, and whether one of them was the last. -/
theorem foldl_removeSegment {l : List Segment} (hl : l.Nodup) {refs : HashMap Segment ℕ}
    {f : Segment → ℕ} (h : refs.Counts f) (hpos : ∀ g ∈ l, 0 < f g) (changed : Bool) :
    (l.foldl removeSegment (refs, changed)).1.Counts (fun g => f g - l.count g) ∧
      ((l.foldl removeSegment (refs, changed)).2 = true ↔
        changed = true ∨ ∃ g ∈ l, f g = 1) := by
  induction l generalizing refs f changed with
  | nil => exact ⟨h, by simp⟩
  | cons a l ih =>
    rw [List.nodup_cons] at hl
    obtain ⟨hc, hch⟩ := counts_removeSegment h (hpos a List.mem_cons_self) changed
    have hne : ∀ g ∈ l, g ≠ a := fun g hg hga => hl.1 (hga ▸ hg)
    have hf : ∀ g ∈ l, f g - (if g = a then 1 else 0) = f g := fun g hg => by
      rw [if_neg (hne g hg), Nat.sub_zero]
    obtain ⟨hc', hch'⟩ := ih hl.2 hc
      (fun g hg => (hf g hg).symm ▸ hpos g (List.mem_cons_of_mem _ hg))
      (removeSegment (refs, changed) a).2
    refine ⟨hc'.congr fun g => ?_, hch'.trans ?_⟩
    · rw [List.count_cons]
      simp only [beq_iff_eq, eq_comm (a := a)]
      omega
    · rw [hch]
      simp only [List.mem_cons, exists_eq_or_imp, or_assoc]
      refine or_congr_right (or_congr_right ⟨?_, ?_⟩)
      · rintro ⟨g, hg, h0⟩
        exact ⟨g, hg, (hf g hg).symm.trans h0⟩
      · rintro ⟨g, hg, h0⟩
        exact ⟨g, hg, (hf g hg).trans h0⟩

/-! ## Owners -/

namespace SegmentStore

/-- The store without the record of a shard. -/
def drop (segments : SegmentStore) (shardId : ShardId) : SegmentStore :=
  ⟨segments.byShard.remove shardId⟩

/-- The store with the record of a shard set. -/
def put (segments : SegmentStore) (shardId : ShardId) (shard : ShardSegments) : SegmentStore :=
  ⟨segments.byShard.insert shardId shard⟩

variable {segments : SegmentStore} {shardId : ShardId} {shard : ShardSegments}

/-- A shard counts as an owner of its segments in its zone. -/
theorem length_owners_of_get (h : segments.byShard.get shardId = some shard) (zoneId : ZoneId)
    (segment : Segment) :
    (segments.owners zoneId segment).length =
      ((segments.drop shardId).owners zoneId segment).length +
        if shard.zoneId = zoneId ∧ segment ∈ shard.segments.set.keys then 1 else 0 := by
  rw [owners, HashMap.length_keysWhere_of_get h]
  simp only [decide_eq_true_eq]
  rfl

theorem length_owners_put (segments : SegmentStore) (shardId : ShardId) (shard : ShardSegments)
    (zoneId : ZoneId) (segment : Segment) :
    ((segments.put shardId shard).owners zoneId segment).length =
      ((segments.drop shardId).owners zoneId segment).length +
        if shard.zoneId = zoneId ∧ segment ∈ shard.segments.set.keys then 1 else 0 := by
  rw [put, owners, HashMap.length_keysWhere_insert]
  simp only [decide_eq_true_eq]
  rfl

theorem drop_of_get (h : segments.byShard.get shardId = none) :
    segments.drop shardId = segments := by
  rw [drop, HashMap.remove_of_get h]

theorem put_drop : (segments.drop shardId).put shardId shard = segments.put shardId shard := by
  rw [put, drop, HashMap.insert_remove]
  rfl

end SegmentStore

/-- A loop over the elements of a set meets each of them once. -/
theorem count_visit_keys (ord : Order) (table : Table) (set : HashSet Segment)
    (segment : Segment) :
    (ord.order table set.keys).count segment = if segment ∈ set.keys then 1 else 0 := by
  rw [(ord.perm _ _).count_eq, set.sortedLT_keys.nodup.count]

/-! ## The two changes of an update -/

/-- Changing the reference counts and the vector of one zone. -/
theorem SegmentsIndexed.update {segments segments' : SegmentStore}
    {refsByZone refsByZone' : HashMap ZoneId (HashMap Segment ℕ)}
    {vectors vectors' : HashMap ZoneId (List Segment)}
    (h : SegmentsIndexed segments refsByZone vectors) {zoneId : ZoneId}
    {refs : HashMap Segment ℕ}
    (hrefs : ∀ z, (refsByZone'.get z).getD .empty =
      if z = zoneId then refs else (refsByZone.get z).getD .empty)
    (hvectors : ∀ z, (vectors'.get z).getD [] =
      if z = zoneId then refs.keys else (vectors.get z).getD [])
    (hcounts : refs.Counts fun g => (segments'.owners zoneId g).length)
    (hother : ∀ z, z ≠ zoneId → ∀ g,
      (segments'.owners z g).length = (segments.owners z g).length) :
    SegmentsIndexed segments' refsByZone' vectors' := by
  refine ⟨fun z => ?_, fun z => ?_⟩
  · rw [hrefs z]
    split_ifs with hz
    · exact hz ▸ hcounts
    · exact (h.refs z).congr fun g => (hother z hz g).symm
  · rw [hrefs z, hvectors z]
    split_ifs with hz
    · rfl
    · exact h.vectors z

/-- Setting the reference counts of a zone, and rebuilding its vector if they
    report a change: the vector lists the new counts, if it listed the old ones
    and an unreported change keeps the listed segments. -/
theorem setRefs_spec (ord : Order) (data : AppData) (zoneId : ZoneId) (refs : HashMap Segment ℕ)
    (changed : Bool)
    (hkeep : changed = false → (data.indexes.segmentsByZone.get zoneId).getD [] = refs.keys) :
    ∃ refsByZone vectors,
      (let data' := { data with
        indexes.segmentRefsByZone := data.indexes.segmentRefsByZone.insert zoneId refs }
      if changed then rebuildZoneSegmentVector ord data' zoneId else data') =
        { data with
          indexes.segmentRefsByZone := refsByZone
          indexes.segmentsByZone := vectors } ∧
      (∀ z, (refsByZone.get z).getD .empty =
        if z = zoneId then refs else (data.indexes.segmentRefsByZone.get z).getD .empty) ∧
      ∀ z, (vectors.get z).getD [] =
        if z = zoneId then refs.keys else (data.indexes.segmentsByZone.get z).getD [] := by
  have hrefs : ∀ z, ((data.indexes.segmentRefsByZone.insert zoneId refs).get z).getD .empty =
      if z = zoneId then refs else (data.indexes.segmentRefsByZone.get z).getD .empty := by
    intro z
    rw [HashMap.get_insert]
    split_ifs <;> rfl
  cases changed with
  | false =>
    refine ⟨_, _, rfl, hrefs, fun z => ?_⟩
    split_ifs with hz
    · rw [hz, hkeep rfl]
    · rfl
  | true =>
    obtain ⟨vectors, hv, hget⟩ := rebuildZoneSegmentVector_spec ord { data with
      indexes.segmentRefsByZone := data.indexes.segmentRefsByZone.insert zoneId refs } zoneId
    refine ⟨_, vectors, hv, hrefs, fun z => (hget z).trans ?_⟩
    split_ifs with hz
    · rw [hz]
      exact congrArg HashMap.keys ((hrefs zoneId).trans (if_pos rfl))
    · rfl

/-- Adding the segments of a shard that owned none: the counts become those of
    the store with the shard, and a change is reported if a segment had no owner. -/
theorem addShardSegmentsToZone_spec (ord : Order) {data : AppData} {segments : SegmentStore}
    (hd : SegmentsIndexed segments data.indexes.segmentRefsByZone data.indexes.segmentsByZone)
    {shardId : ShardId} (hnone : segments.byShard.get shardId = none) (shard : ShardSegments) :
    ∃ refsByZone vectors,
      (addShardSegmentsToZone ord data shard.zoneId shard.segments).1 =
        { data with
          indexes.segmentRefsByZone := refsByZone
          indexes.segmentsByZone := vectors } ∧
      SegmentsIndexed (segments.put shardId shard) refsByZone vectors ∧
      ((addShardSegmentsToZone ord data shard.zoneId shard.segments).2 = true ↔
        ∃ g ∈ shard.segments.set.keys, segments.owners shard.zoneId g = []) := by
  have hput : ∀ z g, ((segments.put shardId shard).owners z g).length =
      (segments.owners z g).length +
        if shard.zoneId = z ∧ g ∈ shard.segments.set.keys then 1 else 0 := by
    intro z g
    rw [SegmentStore.length_owners_put, SegmentStore.drop_of_get hnone]
  have hcounts := hd.refs shard.zoneId
  have hnodup : (ord.order .addedSegments shard.segments.set.keys).Nodup :=
    (ord.perm _ _).nodup_iff.2 shard.segments.set.sortedLT_keys.nodup
  set loop := (ord.order .addedSegments shard.segments.set.keys).foldl addSegment
    ((data.indexes.segmentRefsByZone.get shard.zoneId).getD .empty, false) with hloop
  have hchanged : loop.2 = true ↔
      ∃ g ∈ shard.segments.set.keys, segments.owners shard.zoneId g = [] := by
    rw [hloop, foldl_addSegment_changed hnodup hcounts]
    simp [(ord.perm _ _).mem_iff]
  have hnew : loop.1.Counts fun g => (segments.owners shard.zoneId g).length +
      if g ∈ shard.segments.set.keys then 1 else 0 := by
    rw [hloop, foldl_addSegment]
    exact (hcounts.foldl_upsert _).congr fun g => by rw [count_visit_keys]
  -- Without a change, every added segment has an owner already.
  have hkeep : loop.2 = false →
      (data.indexes.segmentsByZone.get shard.zoneId).getD [] = loop.1.keys := by
    intro hfalse
    refine (hd.vectors _).trans (hcounts.keys_eq_of_add hnew fun g hg => ?_)
    refine List.length_pos_of_ne_nil fun h0 => ?_
    exact absurd (hchanged.2 ⟨g, hg, h0⟩) (by simp [hfalse])
  obtain ⟨refsByZone, vectors, hres, hrefs, hvectors⟩ :=
    setRefs_spec ord data shard.zoneId loop.1 loop.2 hkeep
  refine ⟨refsByZone, vectors, hres, hd.update hrefs hvectors
    (hnew.congr fun g => by simp [hput]) fun z hz g => ?_, hchanged⟩
  rw [hput, if_neg fun h => hz h.1.symm, Nat.add_zero]

/-- The loop that removes the segments of a shard: the counts become those of the
    store without the shard, and a change is recorded if a segment lost its last owner. -/
theorem foldl_removeSegment_drop (ord : Order) {segments : SegmentStore} {shardId : ShardId}
    {shard : ShardSegments} (hget : segments.byShard.get shardId = some shard)
    {refs : HashMap Segment ℕ}
    (hcounts : refs.Counts fun g => (segments.owners shard.zoneId g).length) :
    let loop := (ord.order .removedSegments shard.segments.set.keys).foldl removeSegment
      (refs, false)
    (loop.1.Counts fun g => ((segments.drop shardId).owners shard.zoneId g).length) ∧
      (loop.2 = true ↔
        ∃ g ∈ shard.segments.set.keys, (segments.drop shardId).owners shard.zoneId g = []) := by
  have hdrop := SegmentStore.length_owners_of_get hget shard.zoneId
  have hnodup : (ord.order .removedSegments shard.segments.set.keys).Nodup :=
    (ord.perm _ _).nodup_iff.2 shard.segments.set.sortedLT_keys.nodup
  -- The shard itself is an owner of what is removed.
  have hpos : ∀ g ∈ ord.order .removedSegments shard.segments.set.keys,
      0 < (segments.owners shard.zoneId g).length := by
    intro g hg
    rw [hdrop, if_pos ⟨rfl, (ord.perm _ _).mem_iff.1 hg⟩]
    omega
  obtain ⟨hnew, hchanged⟩ := foldl_removeSegment hnodup hcounts hpos false
  refine ⟨hnew.congr fun g => ?_, hchanged.trans ?_⟩
  · rw [count_visit_keys, hdrop]
    simp
  · simp only [Bool.false_eq_true, false_or, (ord.perm _ _).mem_iff]
    refine exists_congr fun g => and_congr_right fun hg => ?_
    rw [hdrop, if_pos ⟨rfl, hg⟩, ← List.length_eq_zero_iff]
    omega

/-- Removing the segments of a shard: the counts become those of the store
    without the shard, and a change is reported if a segment lost its last owner. -/
theorem removeShardSegmentsFromZone_spec (ord : Order) {data : AppData}
    {segments : SegmentStore}
    (hd : SegmentsIndexed segments data.indexes.segmentRefsByZone data.indexes.segmentsByZone)
    {shardId : ShardId} {shard : ShardSegments}
    (hget : segments.byShard.get shardId = some shard) :
    ∃ refsByZone vectors,
      (removeShardSegmentsFromZone ord data shard.zoneId shard.segments).1 =
        { data with
          indexes.segmentRefsByZone := refsByZone
          indexes.segmentsByZone := vectors } ∧
      SegmentsIndexed (segments.drop shardId) refsByZone vectors ∧
      ((removeShardSegmentsFromZone ord data shard.zoneId shard.segments).2 = true ↔
        ∃ g ∈ shard.segments.set.keys, (segments.drop shardId).owners shard.zoneId g = []) := by
  have hdrop := SegmentStore.length_owners_of_get hget
  have hother : ∀ z, z ≠ shard.zoneId → ∀ g,
      ((segments.drop shardId).owners z g).length = (segments.owners z g).length := by
    intro z hz g
    rw [hdrop, if_neg fun h => hz h.1.symm, Nat.add_zero]
  have hcounts := hd.refs shard.zoneId
  rw [removeShardSegmentsFromZone]
  cases hrefs : data.indexes.segmentRefsByZone.get shard.zoneId with
  | none =>
    -- The zone has no counts, so the shard owned nothing.
    rw [hrefs] at hcounts
    have hzero : ∀ g, (segments.owners shard.zoneId g).length = 0 := fun g =>
      nonZero_eq_none_iff.1 (hcounts g).symm
    have hnot : ∀ g, g ∉ shard.segments.set.keys := fun g hg => by
      have := hdrop shard.zoneId g
      rw [hzero, if_pos ⟨rfl, hg⟩] at this
      omega
    refine ⟨_, _, rfl, ⟨fun z => (hd.refs z).congr fun g => ?_, hd.vectors⟩, ?_⟩
    · rw [hdrop, if_neg fun h => hnot g h.2, Nat.add_zero]
    · simp [hnot]
  | some refs =>
    rw [hrefs, Option.getD_some] at hcounts
    obtain ⟨hnew, hchanged⟩ := foldl_removeSegment_drop ord hget hcounts
    dsimp only
    generalize (ord.order .removedSegments shard.segments.set.keys).foldl removeSegment
      (refs, false) = loop at hnew hchanged ⊢
    obtain ⟨refs', changed⟩ := loop
    by_cases hempty : refs'.isEmpty
    · -- The last segments of the zone went away, with its entries.
      have hkeys : refs' = .empty := by
        refine HashMap.ext_get fun g => ?_
        rw [HashMap.isEmpty_iff.1 hempty, HashMap.get_empty]
      simp only [hempty, if_true]
      refine ⟨_, _, rfl, hd.update (fun z => ?_) (fun z => ?_) hnew hother,
        hchanged⟩
      · rw [HashMap.get_remove, hkeys]
        split_ifs <;> rfl
      · rw [HashMap.get_remove, hkeys]
        split_ifs <;> rfl
    · -- Without a change, every removed segment has another owner.
      have hkeep : changed = false →
          (data.indexes.segmentsByZone.get shard.zoneId).getD [] = refs'.keys := by
        intro hfalse
        rw [hd.vectors, hrefs]
        have hold : refs.Counts fun g => ((segments.drop shardId).owners shard.zoneId g).length +
            if g ∈ shard.segments.set.keys then 1 else 0 :=
          hcounts.congr fun g => by simp [hdrop]
        refine (hnew.keys_eq_of_add hold fun g hg => List.length_pos_of_ne_nil fun h0 => ?_).symm
        exact absurd (hchanged.2 ⟨g, hg, h0⟩) (by simp [hfalse])
      obtain ⟨refsByZone, vectors, hres, hrefs, hvectors⟩ :=
        setRefs_spec ord data shard.zoneId refs' changed hkeep
      simp only [hempty, Bool.false_eq_true, if_false]
      exact ⟨refsByZone, vectors, hres, hd.update hrefs hvectors hnew hother, hchanged⟩

/-! ## Updates -/

/-- The shard already has the zone and the segments of `shard`. -/
def SegmentStore.Identical (segments : SegmentStore) (shardId : ShardId) (shard : ShardSegments) :
    Prop :=
  ∃ old, segments.byShard.get shardId = some old ∧ old.zoneId = shard.zoneId ∧
    old.segments.set = shard.segments.set

instance (segments : SegmentStore) (shardId : ShardId) (shard : ShardSegments) :
    Decidable (segments.Identical shardId shard) :=
  decidable_of_iff ((segments.byShard.get shardId).any fun old =>
      old.zoneId = shard.zoneId ∧ old.segments.set = shard.segments.set) <| by
    simp [SegmentStore.Identical, Option.any_eq_true]

/-- What an update makes of the store. -/
def SegmentStore.update (segments : SegmentStore) (shardId : ShardId) (shard : ShardSegments) :
    SegmentStore :=
  if segments.Identical shardId shard then segments else segments.put shardId shard

/-- A shard with the zone and segments of `shard` owns one of them alone. -/
def SegmentStore.Alone (segments : SegmentStore) (shardId : ShardId) (shard : ShardSegments) :
    Prop :=
  ∃ g ∈ shard.segments.set.keys, (segments.drop shardId).owners shard.zoneId g = []

instance (segments : SegmentStore) (shardId : ShardId) (shard : ShardSegments) :
    Decidable (segments.Alone shardId shard) :=
  inferInstanceAs (Decidable (∃ g ∈ shard.segments.set.keys, _))

/-- The zone that loses a segment with the old ownership of the shard, if any. -/
def SegmentStore.lostZones (segments : SegmentStore) (shardId : ShardId) : HashSet ZoneId :=
  match segments.byShard.get shardId with
  | some old => if segments.Alone shardId old then HashMap.empty.insert old.zoneId () else .empty
  | none => .empty

/-- The zones that an update bumps: that of the old ownership, if the shard owned
    a segment alone there, and that of the new ownership likewise. -/
def SegmentStore.changedZones (segments : SegmentStore) (shardId : ShardId)
    (shard : ShardSegments) : HashSet ZoneId :=
  if segments.Alone shardId shard then (segments.lostZones shardId).insert shard.zoneId ()
  else segments.lostZones shardId

/-- The datasets bumped by an update of a shard's segments. -/
def updateBumps (segments : SegmentStore) (shardId : ShardId) (shard : ShardSegments) :
    List Dataset :=
  if segments.Identical shardId shard then []
  else .shardSegments shardId :: (segments.changedZones shardId shard).keys.map .zoneSegments

theorem identicalUpdate_iff {segments : SegmentStore} {shardId : ShardId} {zoneId : ZoneId}
    {newSegments : SegmentSet} :
    identicalUpdate (segments.byShard.get shardId) zoneId newSegments = true ↔
      segments.Identical shardId ⟨zoneId, newSegments⟩ := by
  rw [SegmentStore.Identical]
  cases segments.byShard.get shardId <;> simp [identicalUpdate, SegmentSet.sameContents]

/-- An update returns `true`, and marks the state dirty, unless it is identical. -/
theorem updateSegments_changed {data : AppData} {ord : Order} (shardId : ShardId)
    (zoneId : ZoneId) (segments : List Segment) :
    (data.updateSegments ord shardId zoneId segments).2 = true ↔
      ¬data.segments.Identical shardId ⟨zoneId, .new segments⟩ := by
  rw [AppData.updateSegments, ← identicalUpdate_iff]
  split_ifs with h <;> simp [h]

theorem removeOldOwnership_spec {data : AppData} (ord : Order) (hd : Indexed data)
    (shardId : ShardId) :
    ∃ refsByZone vectors,
      removeOldOwnership ord data (data.segments.byShard.get shardId) =
        ({ data with
            indexes.segmentRefsByZone := refsByZone
            indexes.segmentsByZone := vectors }, data.segments.lostZones shardId) ∧
      SegmentsIndexed (data.segments.drop shardId) refsByZone vectors := by
  unfold removeOldOwnership SegmentStore.lostZones
  cases hget : data.segments.byShard.get shardId with
  | none =>
    refine ⟨_, _, rfl, ?_⟩
    rw [SegmentStore.drop_of_get hget]
    exact hd.segments
  | some old =>
    obtain ⟨refsByZone, vectors, hres, hind, hch⟩ :=
      removeShardSegmentsFromZone_spec ord hd.segments hget
    refine ⟨refsByZone, vectors, ?_, hind⟩
    simp only [hres, hch]
    rfl

theorem updateSegments_effect {data : AppData} {ord : Order} (hd : Indexed data)
    (shardId : ShardId) (zoneId : ZoneId) (segments : List Segment) :
    Effect data (data.updateSegments ord shardId zoneId segments).1 data.components
      (data.segments.update shardId ⟨zoneId, .new segments⟩)
      (updateBumps data.segments shardId ⟨zoneId, .new segments⟩) := by
  rw [AppData.updateSegments, SegmentStore.update, updateBumps]
  simp only [identicalUpdate_iff]
  by_cases hid : data.segments.Identical shardId ⟨zoneId, .new segments⟩
  · simp only [hid, if_true]
    exact ⟨rfl, rfl, .nil rfl rfl, hd⟩
  · simp only [hid, if_false]
    obtain ⟨refs₁, vectors₁, hremove, hind₁⟩ := removeOldOwnership_spec ord hd shardId
    rw [hremove]
    have hnone : (data.segments.drop shardId).byShard.get shardId = none :=
      (HashMap.get_remove _ _ _).trans (if_pos rfl)
    obtain ⟨refs₂, vectors₂, hadd, hind₂, hch⟩ := @addShardSegmentsToZone_spec ord
      { data with
        indexes.segmentRefsByZone := refs₁
        indexes.segmentsByZone := vectors₁ } _ hind₁ _ hnone ⟨zoneId, .new segments⟩
    rw [SegmentStore.put_drop] at hind₂
    simp only [hadd, hch, bumpSegments_spec]
    refine ⟨rfl, rfl, ⟨?_, ?_⟩, hd.routers, hd.bridges, hd.nodes, hind₂⟩
    · refine Eq.trans ?_ (bumpVersions_perm
        (((ord.perm .changedZones _).map Dataset.zoneSegments).cons (.shardSegments shardId)))
      rfl
    · change data.globalVersion + 1 + (ord.order .changedZones
        (data.segments.changedZones shardId ⟨zoneId, .new segments⟩).keys).length = _
      rw [(ord.perm _ _).length_eq, List.length_cons, List.length_map, Nat.add_assoc,
        Nat.add_comm 1]

namespace SegmentStore

variable {segments : SegmentStore} {shardId : ShardId} {shard : ShardSegments} {zoneId : ZoneId}

theorem mem_lostZones :
    zoneId ∈ (segments.lostZones shardId).keys ↔
      ∃ old, segments.byShard.get shardId = some old ∧ segments.Alone shardId old ∧
        old.zoneId = zoneId := by
  unfold lostZones
  cases segments.byShard.get shardId with
  | none => simp
  | some old =>
    by_cases h : segments.Alone shardId old <;> simp [h, HashMap.mem_keys_insert, eq_comm]

theorem mem_changedZones :
    zoneId ∈ (segments.changedZones shardId shard).keys ↔
      (segments.Alone shardId shard ∧ shard.zoneId = zoneId) ∨
        zoneId ∈ (segments.lostZones shardId).keys := by
  rw [changedZones]
  by_cases h : segments.Alone shardId shard <;> simp [h, HashMap.mem_keys_insert, eq_comm]

/-- A shard that owns no segment of a zone alone adds no segment to the zone. -/
theorem owners_put_ne_nil_iff (h : ¬(segments.Alone shardId shard ∧ shard.zoneId = zoneId))
    (segment : Segment) :
    (segments.put shardId shard).owners zoneId segment ≠ [] ↔
      (segments.drop shardId).owners zoneId segment ≠ [] := by
  rw [← List.length_pos_iff, ← List.length_pos_iff, length_owners_put]
  split_ifs with hs
  · have hpos : (segments.drop shardId).owners zoneId segment ≠ [] := fun h0 =>
      h ⟨⟨segment, hs.2, hs.1 ▸ h0⟩, hs.1⟩
    have := List.length_pos_of_ne_nil hpos
    omega
  · rfl

/-- Without its old ownership, a zone that it did not lose a segment with keeps
    its segments. -/
theorem owners_drop_ne_nil_iff (h : zoneId ∉ (segments.lostZones shardId).keys)
    (segment : Segment) :
    (segments.drop shardId).owners zoneId segment ≠ [] ↔
      segments.owners zoneId segment ≠ [] := by
  cases hget : segments.byShard.get shardId with
  | none => rw [drop_of_get hget]
  | some old =>
    have hold : segments.put shardId old = segments := by rw [put, HashMap.insert_of_get hget]
    rw [← owners_put_ne_nil_iff fun hz => h (mem_lostZones.2 ⟨old, hget, hz⟩), hold]

end SegmentStore

/-- An update publishes the datasets that it does not bump unchanged. -/
theorem agree_updateSegments {components : Components} {segments : SegmentStore}
    {shardId : ShardId} {shard : ShardSegments} {ds : Dataset}
    (h : ds ∉ updateBumps segments shardId shard) :
    (directoryOf components segments).Agree
      (directoryOf components (segments.update shardId shard)) ds := by
  rw [SegmentStore.update]
  by_cases hid : segments.Identical shardId shard
  · rw [if_pos hid]
    exact .refl ds
  rw [if_neg hid]
  rw [updateBumps, if_neg hid, List.mem_cons, not_or] at h
  cases ds with
  | zoneSegments z =>
    have hz : z ∉ (segments.changedZones shardId shard).keys := fun hz =>
      h.2 (List.mem_map_of_mem hz)
    rw [SegmentStore.mem_changedZones, not_or] at hz
    refine Set.ext fun g => ?_
    change (∃ s shard, segments.byShard.get s = some shard ∧ _) ↔
      ∃ s shard', (segments.put shardId shard).byShard.get s = some shard' ∧ _
    rw [← SegmentStore.owners_ne_nil_iff, ← SegmentStore.owners_ne_nil_iff,
      SegmentStore.owners_put_ne_nil_iff hz.1, SegmentStore.owners_drop_ne_nil_iff hz.2]
  | shardSegments s =>
    have hs : s ≠ shardId := fun hs => h.1 (congrArg _ hs)
    exact (HashMap.get_insert_of_ne _ _ hs).symm
  | zoneShards z => exact fun _ => rfl
  | _ => rfl

end Rzid
