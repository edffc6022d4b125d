import Rzid.Restart
import Rzid.Service

/-!
# Sequential runs

The service with its state file, and runs in which everything happens one after
the other: calls, sweeps, persists and clean restarts (`Event`). A run is the list
of its events, the latest one first (`Process.run`).

Every event changes the data as its locked part does, and marks the state dirty if
this reports a change (`call_apply_spec`, `sweep_apply_spec`).
-/

namespace Rzid

/-- A call, as the service executes it. -/
def Call.apply (ord : Order) (now : ℕ) (call : Call) (state : AppState) : AppState :=
  match call with
  | registerRouter id zoneId => state.registerRouter ord now id zoneId
  | registerBridge id shardId zoneId => state.registerBridge ord now id shardId zoneId
  | registerNode id shardId zoneId => state.registerNode ord now id shardId zoneId
  | updateSegments shardId zoneId segments =>
    (state.updateSegments ord shardId zoneId segments).1

/-- The running service and its state file, if there is one. -/
structure Process (Bytes : Type) where
  state : AppState
  file : Option Bytes

/-- Something that happens to the service. -/
inductive Event
  | call (ord : Order) (now : ℕ) (call : Call)
  | sweep (ord : Order) (now : ℕ)
  /-- A persist that succeeds. -/
  | persist
  /-- A persist, an exit, and a start with the given timeout. -/
  | restart (ord : Order) (now : ℕ) (heartbeatTimeoutSecs : ℕ)

variable {Bytes : Type} (json : Json Bytes)

namespace Process

/-- A start on a state file. -/
def start (ord : Order) (now : ℕ) (file : Option Bytes) (heartbeatTimeoutSecs : ℕ) :
    Process Bytes :=
  { state := .new json ord now file heartbeatTimeoutSecs, file := file }

/-- A successful persist. -/
def persist (p : Process Bytes) : Process Bytes :=
  let (state, file, _) := p.state.persist json true p.file
  { state := state, file := file }

/-- The effect of an event. -/
def apply (p : Process Bytes) : Event → Process Bytes
  | .call ord now call => { p with state := call.apply ord now p.state }
  | .sweep ord now => { p with state := p.state.sweepExpiredComponents ord now }
  | .persist => p.persist json
  | .restart ord now secs => start json ord now (p.persist json).file secs

/-- The service after the given events, the latest one first. -/
def run (p : Process Bytes) : List Event → Process Bytes
  | [] => p
  | event :: events => (p.run events).apply json event

end Process

/-! ## The state after an event -/

theorem registered_spec (state : AppState) (result : AppData × Bool) :
    (state.registered result).data = result.1 ∧
      (state.registered result).dirty = (state.dirty || result.2) ∧
      (state.registered result).heartbeatTimeoutSecs = state.heartbeatTimeoutSecs := by
  obtain ⟨data, _ | _⟩ := result
  · exact ⟨rfl, (Bool.or_false _).symm, rfl⟩
  · exact ⟨rfl, (Bool.or_true _).symm, rfl⟩

/-- A call changes the data as its locked part does, and the dirty flag as this
    reports. -/
theorem call_apply_spec (ord : Order) (now : ℕ) (call : Call) (state : AppState) :
    (call.apply ord now state).data = (call.exec ord now state.data).1 ∧
      (call.apply ord now state).dirty = (state.dirty || (call.exec ord now state.data).2) ∧
      (call.apply ord now state).heartbeatTimeoutSecs = state.heartbeatTimeoutSecs := by
  cases call with
  | updateSegments shardId zoneId segments =>
    rw [Call.apply, AppState.updateSegments, Call.exec]
    obtain ⟨data, _ | _⟩ := state.data.updateSegments ord shardId zoneId segments
    · exact ⟨rfl, (Bool.or_false _).symm, rfl⟩
    · exact ⟨rfl, (Bool.or_true _).symm, rfl⟩
  | _ => exact registered_spec state _

theorem sweep_apply_spec (ord : Order) (now : ℕ) (state : AppState) :
    let op := Op.sweepExpiredComponents (timeoutMs state.heartbeatTimeoutSecs)
    (state.sweepExpiredComponents ord now).data = (op.exec ord now state.data).1 ∧
      (state.sweepExpiredComponents ord now).dirty =
        (state.dirty || (op.exec ord now state.data).2) ∧
      (state.sweepExpiredComponents ord now).heartbeatTimeoutSecs =
        state.heartbeatTimeoutSecs := by
  simp only [AppState.sweepExpiredComponents, Op.exec]
  generalize state.data.sweepExpiredComponents ord now (timeoutMs state.heartbeatTimeoutSecs) =
    result
  obtain ⟨data, removed⟩ := result
  by_cases h : removed > 0
  · simp [h, AppState.markDirty]
  · simp [h]

theorem components_sweep (ord : Order) (now : ℕ) (state : AppState) :
    (state.sweepExpiredComponents ord now).data.components =
      state.data.components.retain now (timeoutMs state.heartbeatTimeoutSecs) := by
  rw [(sweep_apply_spec ord now state).1]
  exact components_sweepExpiredComponents ..

/-- After a successful persist, the state is clean; the file holds the snapshot of
    the data if the state was dirty, and is as before otherwise. -/
theorem persist_spec (p : Process Bytes) :
    (p.persist json).state.data = p.state.data ∧ (p.persist json).state.dirty = false ∧
      (p.persist json).file =
        if p.state.dirty then some (json.toVecPretty p.state.data.snapshot) else p.file := by
  rw [Process.persist, AppState.persist]
  cases h : p.state.dirty
  · exact ⟨rfl, h, rfl⟩
  · exact ⟨rfl, rfl, rfl⟩

variable {json}

theorem indexed_apply {p : Process Bytes} (hd : Indexed p.state.data) (event : Event) :
    Indexed (p.apply json event).state.data := by
  cases event with
  | call ord now call =>
    rw [Process.apply, (call_apply_spec ord now call p.state).1]
    exact indexed_exec ord now (.call call) hd
  | sweep ord now =>
    rw [Process.apply, (sweep_apply_spec ord now p.state).1]
    exact indexed_exec ord now _ hd
  | persist => rwa [Process.apply, (persist_spec json p).1]
  | restart ord now secs => exact indexed_load ord now _

/-- Whatever file a run starts on, its states are indexed. -/
theorem indexed_run (ord : Order) (now : ℕ) (file : Option Bytes) (secs : ℕ)
    (events : List Event) :
    Indexed ((Process.start json ord now file secs).run json events).state.data := by
  induction events with
  | nil => exact indexed_load ord now _
  | cons event events ih => exact indexed_apply ih event

end Rzid
