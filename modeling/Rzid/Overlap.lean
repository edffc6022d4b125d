import Rzid.Heartbeat

/-!
# Overlapping registrations and sweeps

Calls and sweeps read the clock before they wait for the data lock, so the order
of the readings and the order of the locked parts can differ. A state of the
service has the calls and sweeps that wait with their readings, and the history of
the calls that are done (`Overlap`); the clock never goes back.

A sweep is not to remove a component that has completed a registration with a
recent enough reading (`KeepsLive`).

* A registration that takes the lock after one of the same component with a later
  reading sets `last_seen_ms` back. As long as the later reading is recent enough,
  the run can go on to a sweep that removes the component although it is
  (`not_keepsLive_of_lt`).
* If registrations of the same component complete in the order of their readings,
  no sweep does, whatever the order of anything else (`keepsLive_of_inOrder`).
-/

namespace Rzid

/-- The service with overlapping calls and sweeps. -/
structure Overlap where
  data : AppData
  clock : ℕ
  /-- The calls that wait for the data lock, with their clock readings. -/
  calls : List (Call × ℕ)
  /-- The clock readings of the sweeps that wait for the data lock. -/
  sweeps : List ℕ
  /-- The calls that are done, with their clock readings. -/
  completed : List (Call × ℕ)

/-- A step of the service. -/
inductive Act
  | tick (now : ℕ)
  | readCall (call : Call)
  | lockCall (ord : Order) (call : Call) (now : ℕ)
  | readSweep
  | lockSweep (ord : Order) (now : ℕ)

namespace Overlap

/-- When a step can be made. -/
def Enabled (s : Overlap) : Act → Prop
  | .tick now => s.clock ≤ now
  | .lockCall _ call now => (call, now) ∈ s.calls
  | .lockSweep _ now => now ∈ s.sweeps
  | _ => True

instance (s : Overlap) (act : Act) : Decidable (s.Enabled act) := by
  unfold Enabled
  split <;> infer_instance

/-- The effect of a step. -/
def next (timeoutMs : ℕ) (s : Overlap) : Act → Overlap
  | .tick now => { s with clock := now }
  | .readCall call => { s with calls := (call, s.clock) :: s.calls }
  | .lockCall ord call now =>
    { s with
      data := (call.exec ord now s.data).1
      calls := s.calls.erase (call, now)
      completed := (call, now) :: s.completed }
  | .readSweep => { s with sweeps := s.clock :: s.sweeps }
  | .lockSweep ord now =>
    { s with
      data := (s.data.sweepExpiredComponents ord now timeoutMs).1
      sweeps := s.sweeps.erase now }

/-- The states of runs from the start on a state file, all of whose steps are
    `allowed`. -/
inductive Reachable {Bytes : Type} (json : Json Bytes) (timeoutMs : ℕ)
    (allowed : Overlap → Act → Prop) : Overlap → Prop
  | start (ord : Order) (now : ℕ) (file : Option Bytes) :
    Reachable json timeoutMs allowed ⟨.new json ord now file, now, [], [], []⟩
  | next {s : Overlap} (h : Reachable json timeoutMs allowed s) (act : Act)
    (henabled : s.Enabled act) (hallowed : allowed s act) :
    Reachable json timeoutMs allowed (s.next timeoutMs act)

/-- No sweep that can be made now removes a component with a completed
    registration whose reading is recent enough. -/
def KeepsLive (timeoutMs : ℕ) (s : Overlap) : Prop :=
  ∀ (ord : Order) (now : ℕ), s.Enabled (.lockSweep ord now) →
    ∀ (x : Component) (call : Call) (t : ℕ), (call, t) ∈ s.completed →
      call.registers = some x → now - t ≤ timeoutMs → s.data.components.lastSeen x ≠ none →
        (s.next timeoutMs (.lockSweep ord now)).data.components.lastSeen x ≠ none

/-- A registration takes the lock with a reading that is at least that of every
    completed registration of the same component. -/
def InOrder (s : Overlap) : Act → Prop
  | .lockCall _ call now =>
    ∀ x, call.registers = some x →
      ∀ call' t, (call', t) ∈ s.completed → call'.registers = some x → t ≤ now
  | _ => True

variable {Bytes : Type} {json : Json Bytes} {timeoutMs : ℕ} {s : Overlap}

theorem Reachable.indexed {allowed : Overlap → Act → Prop}
    (h : Reachable json timeoutMs allowed s) : Indexed s.data := by
  induction h with
  | start ord now file => exact indexed_load ord now _
  | next _ act _ _ ih =>
    cases act with
    | lockCall ord call now => exact indexed_exec ord now (.call call) ih
    | lockSweep ord now => exact indexed_exec ord now (.sweepExpiredComponents timeoutMs) ih
    | _ => exact ih

/-- Registrations in order: the `last_seen_ms` of a component is at least every
    reading of its completed registrations. -/
theorem Reachable.le_lastSeen (h : Reachable json timeoutMs InOrder s) {x : Component}
    {call : Call} {t r : ℕ} (hmem : (call, t) ∈ s.completed) (hx : call.registers = some x)
    (hr : s.data.components.lastSeen x = some r) : t ≤ r := by
  induction h generalizing t r call with
  | start => exact absurd hmem List.not_mem_nil
  | @next s h act henabled hinorder ih =>
    cases act with
    | lockCall ord call' now =>
      rw [show (s.next timeoutMs (.lockCall ord call' now)).data.components.lastSeen x = _ from
        lastSeen_exec h.indexed ord now call' x] at hr
      split_ifs at hr with hx'
      · -- The component has just been registered, with the latest reading.
        obtain rfl := Option.some_inj.1 hr
        rcases List.mem_cons.1 hmem with heq | hmem
        · exact (Prod.mk.inj heq).2.le
        · exact hinorder x hx' call t hmem hx
      · rcases List.mem_cons.1 hmem with heq | hmem
        · obtain ⟨rfl, rfl⟩ := Prod.mk.inj heq
          exact absurd hx hx'
        · exact ih hmem hx hr
    | lockSweep ord now =>
      rw [show (s.next timeoutMs (.lockSweep ord now)).data.components = _ from
        components_sweepExpiredComponents s.data ord now timeoutMs, lastSeen_retain] at hr
      exact ih hmem hx (Option.filter_eq_some_iff.1 hr).1
    | _ => exact ih hmem hx hr

/-- If registrations of the same component complete in the order of their clock
    readings, no sweep removes a live component. -/
theorem keepsLive_of_inOrder (h : Reachable json timeoutMs InOrder s) : s.KeepsLive timeoutMs := by
  intro ord now _ x call t hmem hx ht hr
  obtain ⟨r, hr⟩ := Option.ne_none_iff_exists'.1 hr
  have hle : t ≤ r := h.le_lastSeen hmem hx hr
  have hexpired : expired now timeoutMs r = false := by
    rw [expired, decide_eq_false_iff_not]
    omega
  rw [show (s.next timeoutMs (.lockSweep ord now)).data.components = _ from
    components_sweepExpiredComponents s.data ord now timeoutMs, lastSeen_retain, hr]
  simp [Option.filter, hexpired]

/-- A registration that waits for the lock, while one of the same component with a later
    reading `t` is done, can take the lock and leave its component to a sweep that should
    keep it. The sweep reads the clock at `t + timeoutMs`, when `t` is just recent enough;
    so the clock must not have passed that yet. -/
theorem not_keepsLive_of_lt (h : Reachable json timeoutMs (fun _ _ => True) s) (ord : Order)
    {call call' : Call} {now t : ℕ} {x : Component} (hwaits : (call, now) ∈ s.calls)
    (hx : call.registers = some x) (hmem : (call', t) ∈ s.completed)
    (hx' : call'.registers = some x) (hlt : now < t) (hclock : s.clock ≤ t + timeoutMs) :
    let s' := ((s.next timeoutMs (.lockCall ord call now)).next timeoutMs
      (.tick (t + timeoutMs))).next timeoutMs .readSweep
    Reachable json timeoutMs (fun _ _ => True) s' ∧ ¬s'.KeepsLive timeoutMs := by
  refine ⟨((h.next (.lockCall ord call now) hwaits trivial).next (.tick (t + timeoutMs))
    hclock trivial).next .readSweep trivial trivial, fun hkeeps => ?_⟩
  have hr : (call.exec ord now s.data).1.components.lastSeen x = some now := by
    rw [lastSeen_exec h.indexed, if_pos hx]
  have hcomponents := components_sweepExpiredComponents (call.exec ord now s.data).1 ord
    (t + timeoutMs) timeoutMs
  refine hkeeps ord (t + timeoutMs) List.mem_cons_self x call' t (List.mem_cons_of_mem _ hmem) hx'
    (by omega) (fun hnone => Option.some_ne_none now (hr.symm.trans hnone)) ?_
  refine (congrArg (fun components => components.lastSeen x) hcomponents).trans ?_
  have hexpired : expired (t + timeoutMs) timeoutMs now = true := by
    rw [expired, decide_eq_true_eq]
    omega
  rw [lastSeen_retain]
  exact (congrArg _ hr).trans (by simp [Option.filter, hexpired])

/-- A router registers with the readings 0 and 1, in this order. A sweep with the reading
    60001 waits for the lock; by the first registration alone the router would be expired. -/
theorem keepsLive_of_inOrder_registered :
    (Overlap.mk (Op.exec (.inOrder _) 1 (.call (.registerRouter "r1" "eu"))
      (Op.exec (.inOrder _) 0 (.call (.registerRouter "r1" "eu"))
        (.new Json.verbatim (.inOrder _) 0 none)).1).1 60001 [] [60001]
      [(.registerRouter "r1" "eu", 1), (.registerRouter "r1" "eu", 0)]).KeepsLive 60000 := by
  have h₀ : Reachable Json.verbatim 60000 InOrder _ := .start (.inOrder _) 0 none
  have h₁ := h₀.next (.readCall (.registerRouter "r1" "eu")) trivial trivial
  have h₂ := h₁.next (.tick 1) (by decide) trivial
  have h₃ := h₂.next (.readCall (.registerRouter "r1" "eu")) trivial trivial
  have h₄ := h₃.next (.lockCall (.inOrder _) (.registerRouter "r1" "eu") 0) (by decide)
    fun _ _ _ _ hmem => absurd hmem List.not_mem_nil
  have h₅ := h₄.next (.lockCall (.inOrder _) (.registerRouter "r1" "eu") 1) (by decide)
    fun _ _ call' t hmem _ => by
      obtain ⟨-, rfl⟩ := Prod.mk.inj (List.mem_singleton.1 hmem)
      exact Nat.zero_le 1
  have h₆ := h₅.next (.tick 60001) (by decide) trivial
  exact keepsLive_of_inOrder (h₆.next .readSweep trivial trivial)

/-- A router registers twice. The registration that read the clock first takes the
    lock last, and sets `last_seen_ms` back; a sweep then removes the router, whose
    other registration is as recent as the timeout allows. -/
theorem not_keepsLive_late_writer :
    ¬∀ s, Reachable Json.verbatim 60000 (fun _ _ => True) s → s.KeepsLive 60000 := by
  intro h
  have h₀ : Reachable Json.verbatim 60000 (fun _ _ => True) _ := .start (.inOrder _) 0 none
  have h₁ := h₀.next (.readCall (.registerRouter "r1" "eu")) trivial trivial
  have h₂ := h₁.next (.tick 1) (by decide) trivial
  have h₃ := h₂.next (.readCall (.registerRouter "r1" "eu")) trivial trivial
  have h₄ := h₃.next (.lockCall (.inOrder _) (.registerRouter "r1" "eu") 1) (by decide) trivial
  obtain ⟨hreachable, hnot⟩ := not_keepsLive_of_lt h₄ (.inOrder _) List.mem_cons_self rfl
    List.mem_cons_self rfl Nat.zero_lt_one (by decide)
  exact hnot (h _ hreachable)

end Overlap

end Rzid
