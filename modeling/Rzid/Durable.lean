import Rzid.Sequential

/-!
# What the state file holds

In a sequential run the state file should hold the records of the memory, except
for heartbeats, whenever the dirty flag is clear. The flag follows the versions: an
operation sets it if and only if it bumps a dataset. So the file holds at least
the published datasets; and all of the records except, possibly, the zones of
nodes, which no dataset shows.

* A registration that gives a node a new zone and its old shard, made while the flag
  is clear, leaves it clear and the file behind the memory
  (`not_saved_of_not_keepsNodeZone`).
* The state file holds the records whenever the flag is clear, all along a run, if and
  only if there is no such registration in the run
  (`directory_file_iff_keepsNodeZones`).
-/

namespace Rzid

/-- The event does not register a node in a new zone with its old shard. -/
def Event.KeepsNodeZone (data : AppData) : Event → Prop
  | .call _ _ (.registerNode id shardId zoneId) =>
    ∀ node ∈ data.components.nodes.get id, node.shardId = shardId → node.zoneId = zoneId
  | _ => True

instance (data : AppData) (event : Event) : Decidable (event.KeepsNodeZone data) := by
  unfold Event.KeepsNodeZone
  split <;> infer_instance

variable {Bytes : Type}

/-- Every event of the run that finds the dirty flag clear keeps the zones of nodes. -/
def Process.KeepsNodeZones (json : Json Bytes) (p : Process Bytes) : List Event → Prop
  | [] => True
  | event :: events =>
    p.KeepsNodeZones json events ∧ ((p.run json events).state.dirty = false →
      event.KeepsNodeZone (p.run json events).state.data)

/-- The state file holds the records of the memory if the dirty flag is clear. -/
def Process.Saved (json : Json Bytes) (p : Process Bytes) : Prop :=
  p.state.dirty = false → (json.loadFromDisk p.file).directory = p.state.data.directory

variable {json : Json Bytes} {data : AppData}

/-- A call that keeps the zone of its node and bumps nothing changes no record,
    heartbeats apart. -/
theorem directory_call (hd : Indexed data) (ord : Order) (now : ℕ) {call : Call}
    (hkeep : (Event.call ord now call).KeepsNodeZone data) (h : call.bumps data = []) :
    (call.exec ord now data).1.directory = data.directory := by
  refine Eq.symm (Directory.ext_agree
    (fun ds => exec_agree ord now (.call call) hd (by simp [Op.bumps, h])) fun id => ?_)
  have hdir : (call.exec ord now data).1.directory = _ := directory_exec ord now (.call call) hd
  rw [hdir]
  -- What the datasets do not show is the zone of the registered node.
  cases call with
  | registerNode id' shardId zoneId =>
    change ((data.components.nodes.get id).map _).map _ =
      (((data.components.nodes.insert id' _).get id).map _).map _
    rw [HashMap.get_insert]
    split_ifs with hid
    · subst hid
      have hshard : (data.directory.nodes id).map Prod.fst = some shardId := by
        simpa [Call.bumps, nodeBumps] using h
      obtain ⟨p, hp, hs⟩ := Option.map_eq_some_iff.1 hshard
      obtain ⟨node, hnode, rfl⟩ := Option.map_eq_some_iff.1 hp
      have hzone : node.zoneId = zoneId := hkeep node hnode hs
      rw [hnode, Option.map_some, Option.map_some, Option.map_some, Option.map_some, hzone]
    · rfl
  | _ => rfl

/-- After a successful persist, the state file holds the records. -/
theorem directory_persist {p : Process Bytes} (hsaved : p.Saved json) :
    (json.loadFromDisk (p.persist json).file).directory = p.state.data.directory := by
  rw [(persist_spec json p).2.2]
  split_ifs with hdirty
  · rw [loadFromDisk_toVecPretty]
    rfl
  · exact hsaved (Bool.eq_false_iff.2 hdirty)

/-- A clear flag after an event that keeps the zones of nodes, if it has found the flag
    clear, means that the event has changed no record, heartbeats apart. -/
theorem directory_apply {p : Process Bytes} (hd : Indexed p.state.data) (hsaved : p.Saved json)
    {event : Event} (hkeep : p.state.dirty = false → event.KeepsNodeZone p.state.data)
    (hclear : (p.apply json event).state.dirty = false) :
    (p.apply json event).state.data.directory = p.state.data.directory := by
  cases event with
  | call ord now call =>
    obtain ⟨hdata, hdirty, _⟩ := call_apply_spec ord now call p.state
    rw [Process.apply, hdirty, Bool.or_eq_false_iff] at hclear
    rw [Process.apply, hdata]
    refine directory_call hd ord now (hkeep hclear.1) (not_not.1 fun hne => ?_)
    exact Bool.false_ne_true (hclear.2.symm.trans ((call_changed ord now call).2 hne))
  | sweep ord now =>
    obtain ⟨hdata, hdirty, _⟩ := sweep_apply_spec ord now p.state
    rw [Process.apply, hdirty, Bool.or_eq_false_iff] at hclear
    rw [Process.apply, hdata, directory_exec ord now _ hd]
    have hnil : sweepBumps now (timeoutMs p.state.heartbeatTimeoutSecs) p.state.data.components =
        [] := not_not.1 fun hne =>
      Bool.false_ne_true (hclear.2.symm.trans ((exec_changed ord now _).2 hne))
    rw [Op.components, Components.retain_of_sweepBumps hnil]
    rfl
  | persist => rw [Process.apply, (persist_spec json p).1]
  | restart ord now secs => exact (directory_load ord now _).trans (directory_persist hsaved)

theorem saved_apply {p : Process Bytes} (hd : Indexed p.state.data) (hsaved : p.Saved json)
    {event : Event} (hkeep : p.state.dirty = false → event.KeepsNodeZone p.state.data) :
    (p.apply json event).Saved json := by
  intro hclear
  rw [directory_apply hd hsaved hkeep hclear]
  cases event with
  | call ord now call =>
    rw [Process.apply, (call_apply_spec ord now call p.state).2.1, Bool.or_eq_false_iff] at hclear
    exact hsaved hclear.1
  | sweep ord now =>
    rw [Process.apply, (sweep_apply_spec ord now p.state).2.1, Bool.or_eq_false_iff] at hclear
    exact hsaved hclear.1
  | persist => exact directory_persist hsaved
  | restart ord now secs => exact directory_persist hsaved

/-- A registration of a node in a new zone with its old shard is not saved by a
    clean state. -/
theorem not_saved_of_not_keepsNodeZone {p : Process Bytes} (hd : Indexed p.state.data)
    (hsaved : p.Saved json) (hclean : p.state.dirty = false) {event : Event}
    (hevent : ¬event.KeepsNodeZone p.state.data) : ¬(p.apply json event).Saved json := by
  obtain ⟨ord, now, id, shardId, zoneId, rfl⟩ : ∃ ord now id shardId zoneId,
      event = .call ord now (.registerNode id shardId zoneId) := by
    unfold Event.KeepsNodeZone at hevent
    split at hevent
    · exact ⟨_, _, _, _, _, rfl⟩
    · exact absurd trivial hevent
  simp only [Event.KeepsNodeZone, not_forall] at hevent
  obtain ⟨node, hnode, hshard, hzone⟩ := hevent
  obtain ⟨hdata, hdirty, _⟩ := call_apply_spec ord now (.registerNode id shardId zoneId) p.state
  have hnode : p.state.data.components.nodes.get id = some node := hnode
  -- The registration reports no change.
  have hreport : ((Call.registerNode id shardId zoneId).exec ord now p.state.data).2 = false := by
    refine Bool.eq_false_iff.2 fun hreport => (call_changed ord now _).1 hreport ?_
    rw [Call.bumps, nodeBumps, if_pos]
    simp [AppData.directory, directoryOf, hnode, hshard]
  intro hsaved'
  have hfile := hsaved' (by rw [Process.apply, hdirty, hclean, hreport]; rfl)
  have hdir := directory_exec ord now (.call (.registerNode id shardId zoneId)) hd
  have hmem : p.state.data.directory = _ :=
    ((hsaved hclean).symm.trans hfile).trans ((congrArg _ hdata).trans hdir)
  have hzones : (p.state.data.components.nodes.get id).map (fun n => (n.shardId, n.zoneId)) =
      ((p.state.data.components.nodes.insert id ⟨shardId, zoneId, now⟩).get id).map
        fun n => (n.shardId, n.zoneId) := congrFun (congrArg Directory.nodes hmem) id
  rw [hnode, HashMap.get_insert_self, Option.map_some, Option.map_some, Option.some_inj,
    Prod.mk.injEq] at hzones
  exact hzone hzones.2

/-- A run that keeps the zones of nodes saves the records. -/
theorem saved_run (ord : Order) (now : ℕ) (file : Option Bytes) (secs : ℕ) {events : List Event}
    (hkeep : (Process.start json ord now file secs).KeepsNodeZones json events) :
    ((Process.start json ord now file secs).run json events).Saved json := by
  induction events with
  | nil => exact fun _ => (directory_load ord now _).symm
  | cons event events ih =>
    exact saved_apply (indexed_run ord now file secs events) (ih hkeep.1) hkeep.2

theorem Process.KeepsNodeZones.suffix {p : Process Bytes} {events earlier : List Event}
    (h : p.KeepsNodeZones json events) (hearlier : earlier <:+ events) :
    p.KeepsNodeZones json earlier := by
  induction events with
  | nil => rwa [List.suffix_nil.1 hearlier]
  | cons event events ih =>
    rcases List.suffix_cons_iff.1 hearlier with rfl | hearlier
    · exact h
    · exact ih h.1 hearlier

/-- At every moment of a run, the state file holds the records if the dirty flag is
    clear, and no event that changes a record leaves the flag clear, if and only if no
    registration of the run finds the flag clear and gives a node a new zone and its
    old shard. -/
theorem directory_file_iff_keepsNodeZones (ord : Order) (now : ℕ) (file : Option Bytes)
    (secs : ℕ) (events : List Event) :
    let start := Process.start json ord now file secs
    ((∀ earlier, earlier <:+ events → (start.run json earlier).Saved json) ∧
      ∀ event earlier, event :: earlier <:+ events →
        (start.run json (event :: earlier)).state.data.directory ≠
            (start.run json earlier).state.data.directory →
          (start.run json (event :: earlier)).state.dirty = true) ↔
      start.KeepsNodeZones json events := by
  intro start
  have hd : ∀ events, Indexed (start.run json events).state.data := indexed_run ord now file secs
  constructor
  · rintro ⟨hsaved, -⟩
    induction events with
    | nil => trivial
    | cons event events ih =>
      refine ⟨ih fun earlier h => hsaved earlier (h.trans (List.suffix_cons ..)),
        fun hclean => by_contra fun hevent => ?_⟩
      exact not_saved_of_not_keepsNodeZone (hd events) (hsaved events (List.suffix_cons ..)) hclean
        hevent (hsaved (event :: events) List.suffix_rfl)
  · intro hkeep
    refine ⟨fun earlier h => saved_run ord now file secs (hkeep.suffix h),
      fun event earlier h hne => Bool.not_eq_false _ ▸ fun hclear => hne ?_⟩
    have hkeep := hkeep.suffix h
    exact directory_apply (hd earlier) (saved_run ord now file secs hkeep.1) hkeep.2 hclear

/-- A node moves to another zone within its shard after a persist: the file keeps
    the old zone. -/
theorem not_saved_node_zone :
    ¬∀ events : List Event,
      ((Process.start Json.verbatim (.inOrder _) 0 none 60).run Json.verbatim events).Saved
        Json.verbatim := by
  intro h
  have hnode := congrFun (congrArg Directory.nodes (h
    [.call (.inOrder _) 2 (.registerNode "n1" "s1" "eu"), .persist,
      .call (.inOrder _) 1 (.registerNode "n1" "s1" "us")] (by decide))) "n1"
  revert hnode
  decide

end Rzid
