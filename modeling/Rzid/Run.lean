import Mathlib.Logic.Relation
import Rzid.Operation

/-!
# Runs

The data of the service over its whole life: it starts from a missing state file
or from one that it wrote before, and changes by operations that are atomic under
the data lock (`Reachable`).

* In every reachable state, every query answers what the records say
  (`queries_answer_records`).
* Within a lifetime of the process, versions never decrease, and a dataset whose
  version is the same at two instants has the same content at both
  (`version_sound`).
-/

namespace Rzid

/-- A step of a run: an operation, with any clock reading and any iteration
    order. -/
inductive Step (data : AppData) : AppData → Prop
  | exec (ord : Order) (now : ℕ) (op : Op) : Step data (op.exec ord now data).1

/-- The data that the service can have. -/
inductive Reachable {Bytes : Type} (json : Json Bytes) : AppData → Prop
  /-- A start without a state file. -/
  | start (ord : Order) (now : ℕ) : Reachable json (.new json ord now none)
  /-- A start on a state file that the service wrote. -/
  | restart (ord : Order) (now : ℕ) {data : AppData} (h : Reachable json data) :
    Reachable json (.new json ord now (some (json.toVecPretty data.snapshot)))
  | step {data data' : AppData} (h : Reachable json data) (hstep : Step data data') :
    Reachable json data'

variable {Bytes : Type} {json : Json Bytes} {data data' data'' : AppData}

theorem Step.indexed (hstep : Step data data') (hd : Indexed data) : Indexed data' := by
  obtain ⟨ord, now, op⟩ := hstep
  exact indexed_exec ord now op hd

theorem Reachable.indexed (h : Reachable json data) : Indexed data := by
  induction h with
  | start ord now => exact indexed_load ord now _
  | restart ord now => exact indexed_load ord now _
  | step _ hstep ih => exact hstep.indexed ih

/-- Every query of a reachable state answers what the records say. -/
theorem queries_answer_records (h : Reachable json data) :
    (∀ zoneId, Lists (data.zoneRouters zoneId).2
      {id | ∃ router, data.components.routers.get id = some router ∧ router.zoneId = zoneId}) ∧
    (∀ zoneId shardId, ListsAny ((data.zoneShards zoneId).2.get shardId)
      {id | ∃ bridge, data.components.bridges.get id = some bridge ∧
        bridge.shardId = shardId ∧ bridge.zoneId = zoneId}) ∧
    (∀ shardId, ListsAny ((data.shardNodes shardId).map Prod.snd)
      {id | ∃ node, data.components.nodes.get id = some node ∧ node.shardId = shardId}) ∧
    ∀ zoneId, Lists (data.zoneSegments zoneId).2
      {segment | ∃ shardId shard, data.segments.byShard.get shardId = some shard ∧
        shard.zoneId = zoneId ∧ segment ∈ shard.segments.set.keys} := by
  have hd := h.indexed
  refine ⟨fun z => ?_, fun z s => ?_, fun s => ?_, hd.zoneSegments⟩
  · simpa [Directory.zoneRouters, AppData.directory, directoryOf] using hd.zoneRouters z
  · simpa [Directory.zoneBridges, AppData.directory, directoryOf] using hd.zoneShards z s
  · simpa [Directory.shardNodes, AppData.directory, directoryOf] using hd.shardNodes s

/-- A router moves to a zone, where a shard has a bridge, a node and segments. -/
theorem queries_answer_records_registered :
    let data := [.registerRouter "r1" "us", .registerRouter "r1" "eu",
        .registerBridge "b1" "s1" "eu", .registerNode "n1" "s1" "eu",
        .updateSegments "s1" "eu" ["b", "a"]].foldl
      (fun data call => (Op.exec (.inOrder _) 1 (.call call) data).1)
      (.new Json.verbatim (.inOrder _) 0 none)
    ((data.zoneRouters "us").2 = [] ∧ (data.zoneRouters "eu").2 = ["r1"] ∧
      (data.zoneShards "eu").2.get "s1" = some ["b1"] ∧
      (data.shardNodes "s1").map Prod.snd = some ["n1"] ∧
      (data.zoneSegments "eu").2 = ["a", "b"]) ∧
    (∀ zoneId, Lists (data.zoneRouters zoneId).2
      {id | ∃ router, data.components.routers.get id = some router ∧ router.zoneId = zoneId}) ∧
    ListsAny ((data.zoneShards "eu").2.get "s1")
      {id | ∃ bridge, data.components.bridges.get id = some bridge ∧
        bridge.shardId = "s1" ∧ bridge.zoneId = "eu"} ∧
    ListsAny ((data.shardNodes "s1").map Prod.snd)
      {id | ∃ node, data.components.nodes.get id = some node ∧ node.shardId = "s1"} ∧
    Lists (data.zoneSegments "eu").2
      {segment | ∃ shardId shard, data.segments.byShard.get shardId = some shard ∧
        shard.zoneId = "eu" ∧ segment ∈ shard.segments.set.keys} := by
  intro data
  have h₀ : Reachable Json.verbatim _ := .start (.inOrder _) 0
  have h₁ := h₀.step (.exec (.inOrder _) 1 (.call (.registerRouter "r1" "us")))
  have h₂ := h₁.step (.exec (.inOrder _) 1 (.call (.registerRouter "r1" "eu")))
  have h₃ := h₂.step (.exec (.inOrder _) 1 (.call (.registerBridge "b1" "s1" "eu")))
  have h₄ := h₃.step (.exec (.inOrder _) 1 (.call (.registerNode "n1" "s1" "eu")))
  have h₅ := h₄.step (.exec (.inOrder _) 1 (.call (.updateSegments "s1" "eu" ["b", "a"])))
  obtain ⟨hrouters, hbridges, hnodes, hsegments⟩ := queries_answer_records h₅
  exact ⟨by decide, hrouters, hbridges "eu" "s1", hnodes "s1", hsegments "eu"⟩

/-! ## Versions -/

/-- From `data` on to `data'`, no version decreases, and a dataset that keeps its
    version is published unchanged. -/
structure VersionSound (data data' : AppData) : Prop where
  le (ds : Dataset) : data.version ds ≤ data'.version ds
  agree (ds : Dataset) (h : data.version ds = data'.version ds) :
    data.directory.Agree data'.directory ds

namespace VersionSound

theorem refl (data : AppData) : VersionSound data data := ⟨fun _ => le_rfl, fun ds _ => .refl ds⟩

theorem trans (h : VersionSound data data') (h' : VersionSound data' data'') :
    VersionSound data data'' := by
  refine ⟨fun ds => (h.le ds).trans (h'.le ds), fun ds heq => ?_⟩
  -- Between two equal versions there is no other.
  have hle : data'.version ds ≤ data.version ds := (h'.le ds).trans heq.ge
  have hle' : data''.version ds ≤ data'.version ds := heq.ge.trans (h.le ds)
  exact (h.agree ds ((h.le ds).antisymm hle)).trans (h'.agree ds ((h'.le ds).antisymm hle'))

end VersionSound

theorem Step.versionSound (hstep : Step data data') (hd : Indexed data) :
    VersionSound data data' := by
  obtain ⟨ord, now, op⟩ := hstep
  refine ⟨fun ds => ?_, fun ds heq => exec_agree ord now op hd fun hmem => ?_⟩
  · rw [version_exec ord now op hd]
    exact Nat.le_add_right _ _
  · rw [version_exec ord now op hd, left_eq_add] at heq
    exact (List.count_pos_iff.2 hmem).ne' heq

theorem Reachable.versionSound (h : Reachable json data)
    (hrun : Relation.ReflTransGen Step data data') :
    Reachable json data' ∧ VersionSound data data' := by
  induction hrun with
  | refl => exact ⟨h, .refl data⟩
  | tail _ hstep ih => exact ⟨ih.1.step hstep, ih.2.trans (hstep.versionSound ih.1.indexed)⟩

/-- At a later instant of a run, every version is at least the earlier one; and
    if it is the same, then so is the content of the dataset. -/
theorem version_sound (h : Reachable json data) (hrun : Relation.ReflTransGen Step data data')
    (ds : Dataset) :
    data.version ds ≤ data'.version ds ∧
      (data.version ds = data'.version ds → data.content ds = data'.content ds) := by
  obtain ⟨h', hsound⟩ := h.versionSound hrun
  exact ⟨hsound.le ds, fun heq => content_eq_of_agree h.indexed h'.indexed (hsound.agree ds heq)⟩

/-- A registration that repeats the zone of a router keeps the version of the zone's
    routers, and the routers. -/
theorem version_sound_heartbeat :
    let register := Op.call (.registerRouter "r1" "eu")
    let data := (register.exec (.inOrder _) 1 (.new Json.verbatim (.inOrder _) 0 none)).1
    data.content (.zoneRouters "eu") =
      (register.exec (.inOrder _) 2 data).1.content (.zoneRouters "eu") :=
  (version_sound (.step (.start (.inOrder _) 0) (.exec _ _ _)) (.single (.exec _ _ _)) _).2
    (by decide)

end Rzid
