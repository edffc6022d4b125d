import Rzid.Lib.LastWith
import Rzid.Normalized

/-!
# Only the last call for each target counts

A call of a client sets the entry of its target: a router, a bridge, a node, or the
segments of a shard. As an operation on directories it overwrites that entry
(`Call.overwrite`), whatever was there before (`directory_overwrite`). So the directory
after a sequence of calls is that of the last call for each target (`directoryOfLast`,
`directory_execAll`), and the indexes have no trace of anything else
(`content_of_lastCalls`).
-/

namespace Rzid

/-- What a call sets the entry of. -/
inductive Target
  | router (id : RouterId)
  | bridge (id : BridgeId)
  | node (id : NodeId)
  | shard (shardId : ShardId)
  deriving DecidableEq

def Call.target : Call → Target
  | registerRouter id _ => .router id
  | registerBridge id _ _ => .bridge id
  | registerNode id _ _ => .node id
  | updateSegments shardId _ _ => .shard shardId

/-- A call as an operation on directories: it overwrites the entry of its target. -/
def Call.overwrite (dir : Directory) : Call → Directory
  | registerRouter id zoneId =>
    { dir with routers := Function.update dir.routers id (some zoneId) }
  | registerBridge id shardId zoneId =>
    { dir with bridges := Function.update dir.bridges id (some (shardId, zoneId)) }
  | registerNode id shardId zoneId =>
    { dir with nodes := Function.update dir.nodes id (some (shardId, zoneId)) }
  | updateSegments shardId zoneId new =>
    { dir with segments := Function.update dir.segments shardId (some ⟨zoneId, .new new⟩) }

theorem map_get_insert {V P : Type} (f : V → P) (m : HashMap String V) (id : String) (v : V) :
    (fun a => ((m.insert id v).get a).map f) =
      Function.update (fun a => (m.get a).map f) id (some (f v)) := by
  funext a
  rw [HashMap.get_insert, Function.update_apply]
  split_ifs <;> rfl

/-- The locked part of a call overwrites the entry of its target. -/
theorem directory_overwrite {data : AppData} (hd : Indexed data) (hn : data.segments.Normalized)
    (ord : Order) (now : ℕ) (call : Call) :
    (call.exec ord now data).1.directory = call.overwrite data.directory := by
  refine (directory_exec ord now (.call call) hd).trans ?_
  cases call with
  | registerRouter id zoneId => exact Directory.ext (map_get_insert _ _ id _) rfl rfl rfl
  | registerBridge id shardId zoneId => exact Directory.ext rfl (map_get_insert _ _ id _) rfl rfl
  | registerNode id shardId zoneId => exact Directory.ext rfl rfl (map_get_insert _ _ id _) rfl
  | updateSegments shardId zoneId new =>
    refine Directory.ext rfl rfl rfl ?_
    rw [Op.segments, Call.segments, hn.update_eq_put (SegmentSet.normal_new new)]
    funext s
    exact (HashMap.get_insert ..).trans (Function.update_apply ..).symm

/-- The directory that the last call for each target leaves. -/
def directoryOfLast (last : Target → Option Call) : Directory where
  routers id := match last (.router id) with
    | some (.registerRouter _ zoneId) => some zoneId
    | _ => none
  bridges id := match last (.bridge id) with
    | some (.registerBridge _ shardId zoneId) => some (shardId, zoneId)
    | _ => none
  nodes id := match last (.node id) with
    | some (.registerNode _ shardId zoneId) => some (shardId, zoneId)
    | _ => none
  segments shardId := match last (.shard shardId) with
    | some (.updateSegments _ zoneId new) => some ⟨zoneId, .new new⟩
    | _ => none

/-- A further call overwrites the entry of its target. -/
theorem directoryOfLast_update (last : Target → Option Call) (call : Call) :
    directoryOfLast (Function.update last call.target (some call)) =
      call.overwrite (directoryOfLast last) := by
  cases call with
  | registerRouter id zoneId =>
    refine Directory.ext (funext fun a => ?_) rfl rfl rfl
    simp only [directoryOfLast, Call.overwrite, Call.target, Function.update_apply,
      Target.router.injEq]
    split_ifs <;> rfl
  | registerBridge id shardId zoneId =>
    refine Directory.ext rfl (funext fun a => ?_) rfl rfl
    simp only [directoryOfLast, Call.overwrite, Call.target, Function.update_apply,
      Target.bridge.injEq]
    split_ifs <;> rfl
  | registerNode id shardId zoneId =>
    refine Directory.ext rfl rfl (funext fun a => ?_) rfl
    simp only [directoryOfLast, Call.overwrite, Call.target, Function.update_apply,
      Target.node.injEq]
    split_ifs <;> rfl
  | updateSegments shardId zoneId new =>
    refine Directory.ext rfl rfl rfl (funext fun a => ?_)
    simp only [directoryOfLast, Call.overwrite, Call.target, Function.update_apply,
      Target.shard.injEq]
    split_ifs <;> rfl

section Runs

variable {Bytes : Type} {json : Json Bytes} {data : AppData}

theorem Call.execAll_concat (calls : List (Call × Env)) (c : Call × Env) (data : AppData) :
    execAll (calls ++ [c]) data = (c.1.exec c.2.ord c.2.now (execAll calls data)).1 :=
  List.foldl_concat ..

theorem Reachable.execAll (h : Reachable json data) (calls : List (Call × Env)) :
    Reachable json (Call.execAll calls data) := by
  induction calls using List.reverseRecOn with
  | nil => exact h
  | append_singleton calls c ih =>
    rw [Call.execAll_concat]
    exact ih.step (.exec c.2.ord c.2.now (.call c.1))

/-- A start without a state file is empty. -/
theorem directory_start (ord : Order) (now : ℕ) :
    (AppData.new json ord now none).directory = directoryOfLast fun _ => none :=
  directory_load ord now _

/-- After a sequence of calls from the empty state, the directory is that of the last
    call for each target. -/
theorem directory_execAll (ord : Order) (now : ℕ) (calls : List (Call × Env)) :
    (Call.execAll calls (.new json ord now none)).directory =
      directoryOfLast ((calls.map Prod.fst).lastWith Call.target) := by
  induction calls using List.reverseRecOn with
  | nil => exact directory_start ord now
  | append_singleton calls c ih =>
    have h : Reachable json (Call.execAll calls (.new json ord now none)) :=
      (Reachable.start ord now).execAll calls
    rw [Call.execAll_concat, directory_overwrite h.indexed h.normalized, ih, List.map_append,
      List.map_singleton, List.lastWith_concat, directoryOfLast_update]

/-- Two sequences of calls with the same last call for each target leave the same
    content of every dataset. -/
theorem content_eq_of_lastWith (ord ord' : Order) (now now' : ℕ) (calls calls' : List (Call × Env))
    (h : (calls.map Prod.fst).lastWith Call.target = (calls'.map Prod.fst).lastWith Call.target)
    (ds : Dataset) :
    (Call.execAll calls (.new json ord now none)).content ds =
      (Call.execAll calls' (.new json ord' now' none)).content ds := by
  refine content_eq_of_agree ((Reachable.start ord now).execAll calls).indexed
    ((Reachable.start ord' now').execAll calls').indexed ?_
  rw [directory_execAll, directory_execAll, h]
  exact .refl ds

/-- The content of every dataset after a sequence of calls from the empty state is that
    after its last calls for each target, in any order, with any clock readings and
    iteration orders. So two sequences with the same last calls leave the same
    contents. -/
theorem content_of_lastCalls (ord ord' : Order) (now now' : ℕ) (calls : List (Call × Env)) :
    (∀ last : List (Call × Env),
      (last.map Prod.fst).Perm ((calls.map Prod.fst).lasts Call.target) →
        ∀ ds, (Call.execAll calls (.new json ord now none)).content ds =
          (Call.execAll last (.new json ord' now' none)).content ds) ∧
    ∀ calls' : List (Call × Env),
      (∀ target, (calls.map Prod.fst).lastWith Call.target target =
        (calls'.map Prod.fst).lastWith Call.target target) →
        ∀ ds, (Call.execAll calls (.new json ord now none)).content ds =
          (Call.execAll calls' (.new json ord' now' none)).content ds :=
  ⟨fun last hlast ds => content_eq_of_lastWith ord ord' now now' calls last
      (List.lastWith_of_perm_lasts hlast).symm ds,
    fun calls' h ds => content_eq_of_lastWith ord ord' now now' calls calls' (funext h) ds⟩

/-- A router that moves back and forth, and a replay of its last call before a call for
    another router. -/
theorem content_of_lastCalls_moved :
    let env : Env := ⟨.inOrder _, 1⟩
    let calls : List (Call × Env) := [(.registerRouter "r1" "eu", env),
      (.registerRouter "r1" "us", env), (.registerRouter "r2" "eu", env),
      (.registerRouter "r1" "eu", env)]
    let last : List (Call × Env) := [(.registerRouter "r1" "eu", env),
      (.registerRouter "r2" "eu", env)]
    let start := AppData.new Json.verbatim (.inOrder _) 0 none
    (Call.execAll last start).content (.zoneRouters "eu") = .routers ["r1", "r2"] ∧
      ∀ ds, (Call.execAll calls start).content ds = (Call.execAll last start).content ds := by
  refine ⟨by decide, (content_of_lastCalls (.inOrder _) (.inOrder _) 0 0 _).1 _ ?_⟩
  decide

end Runs

end Rzid
