import Rzid.Refetch

/-!
# Segment versions of zones

The version of a zone's segments is to change exactly when the set does. An update
decides it from two intermediate changes: the shard's old segments are removed, and
its new ones added, and the zone is bumped if either changed the set. Both are
relative to the other shards of the zone. So what counts is what the shard owns
there *alone* (`SegmentStore.sole`): the zone is bumped if it is nonempty before or
after the update, and the set changes if it is not the same before and after.

The two differ for an update that changes the segments of a shard, but neither its
zone nor those it owns there alone, when it has some (`SegmentStore.KeepsSole`): then
the zone is bumped, and its set is as before. This is the only exception
(`zoneSegments_version_iff`).
-/

namespace Rzid

namespace SegmentStore

variable {segments : SegmentStore} {shardId : ShardId} {shard : ShardSegments} {zoneId : ZoneId}

/-- The segments of a zone that only the given shard owns, if its record is `record`. -/
def sole (segments : SegmentStore) (shardId : ShardId) (record : Option ShardSegments)
    (zoneId : ZoneId) : Set Segment :=
  {g | (segments.drop shardId).owners zoneId g = [] ∧
    ∃ shard, record = some shard ∧ shard.zoneId = zoneId ∧ g ∈ shard.segments.set.keys}

/-- The update changes the record of the shard, but not the segments that the shard
    owns alone in the zone, and it owns some. -/
def KeepsSole (segments : SegmentStore) (shardId : ShardId) (shard : ShardSegments)
    (zoneId : ZoneId) : Prop :=
  ¬segments.Identical shardId shard ∧
    (segments.sole shardId (some shard) zoneId).Nonempty ∧
      segments.sole shardId (segments.byShard.get shardId) zoneId =
        segments.sole shardId (some shard) zoneId

theorem mem_sole_some {segment : Segment} :
    segment ∈ segments.sole shardId (some shard) zoneId ↔
      (segments.drop shardId).owners zoneId segment = [] ∧ shard.zoneId = zoneId ∧
        segment ∈ shard.segments.set.keys := by
  simp [sole]

/-- The segments of a zone, with a record of the shard: those of the other shards, and
    those that it owns alone. -/
theorem owners_put_iff (segment : Segment) :
    (segments.put shardId shard).owners zoneId segment ≠ [] ↔
      (segments.drop shardId).owners zoneId segment ≠ [] ∨
        segment ∈ segments.sole shardId (some shard) zoneId := by
  rw [← List.length_pos_iff, length_owners_put, mem_sole_some, ← List.length_pos_iff,
    ← List.length_eq_zero_iff]
  split_ifs with h
  · exact iff_of_true (Nat.succ_pos _) ((Nat.eq_zero_or_pos _).symm.imp id fun h0 => ⟨h0, h⟩)
  · simp [h]

theorem owners_iff (segment : Segment) :
    segments.owners zoneId segment ≠ [] ↔
      (segments.drop shardId).owners zoneId segment ≠ [] ∨
        segment ∈ segments.sole shardId (segments.byShard.get shardId) zoneId := by
  cases hget : segments.byShard.get shardId with
  | none => simp [drop_of_get hget, sole]
  | some old =>
    have hold : segments.put shardId old = segments := by rw [put, HashMap.insert_of_get hget]
    rw [← owners_put_iff, hold]

/-- The zone keeps its segments if and only if those that the shard owns alone stay
    the same. -/
theorem zoneSegments_put_iff :
    (∀ g, (segments.put shardId shard).owners zoneId g ≠ [] ↔ segments.owners zoneId g ≠ []) ↔
      segments.sole shardId (segments.byShard.get shardId) zoneId =
        segments.sole shardId (some shard) zoneId := by
  rw [Set.ext_iff]
  refine forall_congr' fun g => ?_
  rw [owners_put_iff, @owners_iff segments shardId]
  -- A segment of another shard is not owned alone, before or after.
  by_cases hother : (segments.drop shardId).owners zoneId g = []
  · simp only [hother, ne_eq, not_true_eq_false, false_or]
    exact iff_comm
  · simp [hother, sole]

/-- The zones that an update bumps: those where the shard owns a segment alone,
    before or after. -/
theorem mem_changedZones_iff :
    zoneId ∈ (segments.changedZones shardId shard).keys ↔
      (segments.sole shardId (some shard) zoneId).Nonempty ∨
        (segments.sole shardId (segments.byShard.get shardId) zoneId).Nonempty := by
  have hsole : ∀ shard, (segments.Alone shardId shard ∧ shard.zoneId = zoneId) ↔
      (segments.sole shardId (some shard) zoneId).Nonempty := by
    intro shard
    constructor
    · rintro ⟨⟨g, hg, halone⟩, rfl⟩
      exact ⟨g, mem_sole_some.2 ⟨halone, rfl, hg⟩⟩
    · rintro ⟨g, hsole⟩
      obtain ⟨halone, rfl, hg⟩ := mem_sole_some.1 hsole
      exact ⟨⟨g, hg, halone⟩, rfl⟩
  rw [mem_changedZones, mem_lostZones, hsole]
  refine or_congr_right ?_
  simp only [hsole]
  cases segments.byShard.get shardId with
  | none => simp [sole]
  | some old => simp

/-- An update bumps the segments of a zone exactly when they change, unless it keeps
    the segments that its shard owns alone there. -/
theorem bumped_iff_changed_iff :
    (Dataset.zoneSegments zoneId ∈ updateBumps segments shardId shard ↔
      ¬∀ g, (segments.update shardId shard).owners zoneId g ≠ [] ↔
        segments.owners zoneId g ≠ []) ↔ ¬segments.KeepsSole shardId shard zoneId := by
  rw [updateBumps, update, KeepsSole]
  by_cases hid : segments.Identical shardId shard
  · simp [hid]
  have hbump : Dataset.zoneSegments zoneId ∈ (.shardSegments shardId ::
      (segments.changedZones shardId shard).keys.map .zoneSegments) ↔
        zoneId ∈ (segments.changedZones shardId shard).keys := by
    simp
  rw [if_neg hid, if_neg hid, hbump, mem_changedZones_iff, zoneSegments_put_iff]
  -- Bumped: one of the two is nonempty. Changed: they differ.
  by_cases hsame : segments.sole shardId (segments.byShard.get shardId) zoneId =
      segments.sole shardId (some shard) zoneId
  · simp [hid, hsame]
  · have hne : (segments.sole shardId (some shard) zoneId).Nonempty ∨
        (segments.sole shardId (segments.byShard.get shardId) zoneId).Nonempty := by
      by_contra hempty
      rw [not_or, Set.not_nonempty_iff_eq_empty, Set.not_nonempty_iff_eq_empty] at hempty
      exact hsame (hempty.2.trans hempty.1.symm)
    simp [hid, hsame, hne]

end SegmentStore

/-- The operation is an update that changes the record of its shard, but not the
    segments that the shard owns alone in the zone, and it owns some. -/
def Op.KeepsSole (data : AppData) (zoneId : ZoneId) : Op → Prop
  | .call (.updateSegments shardId zoneId' new) =>
    data.segments.KeepsSole shardId ⟨zoneId', .new new⟩ zoneId
  | _ => False

section Exec

variable {data data' : AppData}

/-- The segments that a query of a zone answers are those of its shards. -/
theorem mem_zoneSegments (hd : Indexed data) {zoneId : ZoneId} {g : Segment} :
    g ∈ (data.zoneSegments zoneId).2 ↔ data.segments.owners zoneId g ≠ [] :=
  ((hd.zoneSegments zoneId).2 g).trans SegmentStore.owners_ne_nil_iff.symm

/-- An operation other than an update does not bump segments of zones. -/
theorem zoneSegments_not_mem_bumps {now : ℕ} {op : Op} {zoneId : ZoneId}
    (hop : ∀ shardId zoneId new, op ≠ .call (.updateSegments shardId zoneId new)) :
    Dataset.zoneSegments zoneId ∉ op.bumps now data := by
  intro h
  cases op with
  | call call =>
    cases call with
    | registerRouter id zoneId =>
      obtain ⟨_, heq, _⟩ := mem_routerBumps h
      cases heq
    | registerBridge id shardId zoneId =>
      obtain ⟨_, _, heq, _⟩ := mem_bridgeBumps h
      cases heq
    | registerNode id shardId zoneId =>
      obtain ⟨_, heq, _⟩ := mem_nodeBumps h
      cases heq
    | updateSegments shardId zoneId new => exact hop _ _ _ rfl
  | sweepExpiredComponents timeoutMs => simp [Op.bumps, sweepBumps] at h

/-- In every reachable state, an operation changes the version of a zone's segments
    exactly when it changes the set that the query of the zone answers, if and only if
    it is not an update that keeps what its shard owns alone in the zone. -/
theorem zoneSegments_version_iff {Bytes : Type} {json : Json Bytes} (h : Reachable json data)
    (ord : Order) (now : ℕ) (op : Op) (zoneId : ZoneId) :
    let after := (op.exec ord now data).1
    (after.version (.zoneSegments zoneId) ≠ data.version (.zoneSegments zoneId) ↔
      {g | g ∈ (after.zoneSegments zoneId).2} ≠ {g | g ∈ (data.zoneSegments zoneId).2}) ↔
        ¬op.KeepsSole data zoneId := by
  intro after
  have hd := h.indexed
  have hd' : Indexed after := indexed_exec ord now op hd
  have hset : {g | g ∈ (after.zoneSegments zoneId).2} ≠ {g | g ∈ (data.zoneSegments zoneId).2} ↔
      ¬∀ g, after.segments.owners zoneId g ≠ [] ↔ data.segments.owners zoneId g ≠ [] := by
    rw [ne_eq, Set.ext_iff]
    exact not_congr (forall_congr' fun g =>
      iff_congr (mem_zoneSegments hd') (mem_zoneSegments hd))
  rw [version_exec_ne_iff ord now op hd, hset, (exec_effect ord now op hd).segments]
  -- Other operations neither bump segments of zones nor change them.
  have other : ∀ {P : Prop} {A : Segment → Prop}, ¬P → ((P ↔ ¬∀ g, A g ↔ A g) ↔ ¬False) := by
    intro P A hP
    simp [hP]
  cases op with
  | call call =>
    cases call with
    | updateSegments shardId zoneId' new => exact SegmentStore.bumped_iff_changed_iff
    | _ => exact other (zoneSegments_not_mem_bumps nofun)
  | sweepExpiredComponents timeoutMs => exact other (zoneSegments_not_mem_bumps nofun)

/-- A shard takes on a segment of another shard besides its own: the zone is bumped,
    for the segment that the shard owns alone before and after, and its set stays. -/
theorem zoneSegments_bumped_unchanged :
    let data := ((Op.exec (.inOrder _) 2 (.call (.updateSegments "s2" "eu" ["b"]))
      (Op.exec (.inOrder _) 1 (.call (.updateSegments "s1" "eu" ["a"]))
        (.new Json.verbatim (.inOrder _) 0 none)).1)).1
    let after := (Op.exec (.inOrder _) 3 (.call (.updateSegments "s2" "eu" ["a", "b"])) data).1
    Reachable Json.verbatim data ∧
      after.version (.zoneSegments "eu") ≠ data.version (.zoneSegments "eu") ∧
      (after.zoneSegments "eu").2 = ["a", "b"] ∧ (data.zoneSegments "eu").2 = ["a", "b"] :=
  ⟨.step (.step (.start (.inOrder _) 0)
    (.exec (.inOrder _) 1 (.call (.updateSegments "s1" "eu" ["a"]))))
    (.exec (.inOrder _) 2 (.call (.updateSegments "s2" "eu" ["b"]))),
    by decide, by decide, by decide⟩

/-- A shard that replaces its only segment changes the version and the set. -/
theorem zoneSegments_version_iff_replaced :
    let data := (Op.exec (.inOrder _) 1 (.call (.updateSegments "s1" "eu" ["a"]))
      (.new Json.verbatim (.inOrder _) 0 none)).1
    let after := (Op.exec (.inOrder _) 2 (.call (.updateSegments "s1" "eu" ["b"])) data).1
    after.version (.zoneSegments "eu") ≠ data.version (.zoneSegments "eu") ↔
      {g | g ∈ (after.zoneSegments "eu").2} ≠ {g | g ∈ (data.zoneSegments "eu").2} := by
  refine (zoneSegments_version_iff (.step (.start (.inOrder _) 0)
    (.exec (.inOrder _) 1 (.call (.updateSegments "s1" "eu" ["a"])))) (.inOrder _) 2
    (.call (.updateSegments "s1" "eu" ["b"])) "eu").2 ?_
  rintro ⟨_, ⟨g, hg⟩, hsame⟩
  -- What the shard owns is "a" before, and "b" after.
  obtain ⟨_, shard, hget, _, hold⟩ := hsame ▸ hg
  obtain ⟨_, _, hnew⟩ := SegmentStore.mem_sole_some.1 hg
  obtain rfl : shard = ⟨"eu", .new ["a"]⟩ := Option.some_inj.1 (hget.symm.trans (by decide))
  rw [SegmentSet.keys_set_new, SegmentSet.mem_sorted_new, List.mem_singleton] at hold hnew
  exact absurd (hold.symm.trans hnew) (by decide)

end Exec

end Rzid
