import Rzid.Api
import Rzid.Run

/-!
# Concurrent requests

Any number of clients send requests, and the background task sweeps, all at the same
time. Their sections under the data lock interleave (`api`), and the answers take any
time to come.

What the clients see is what the handlers make of the data, one after the other in an order
that respects real time (`api_linearizable`).
-/

namespace Rzid

open Sections (Before Event Legal Linearization)

/-! ## The service as an object -/

/-- What the tasks do with the data. -/
inductive Action
  | request (req : HttpRequest)
  | sweepExpiredComponents (timeoutMs : ℕ)
  deriving DecidableEq

namespace Action

/-- The section of a task. A sweep is not answered. -/
def code (codecs : Codecs) (env : Env) : Action → Sections.Code AppData (Option Response)
  | request req => (req.code codecs env.ord env.now).map some
  | sweepExpiredComponents timeoutMs =>
    .access (fun data => (data.sweepExpiredComponents env.ord env.now timeoutMs).1)
      fun _ => .answer none

/-- The call that a task makes, if it makes one. -/
def call : Action → Option Call
  | request req => req.call
  | sweepExpiredComponents _ => none

/-- The operation that a task makes, if it makes one. -/
def op : Action → Option Op
  | request req => req.call.map .call
  | sweepExpiredComponents timeoutMs => some (.sweepExpiredComponents timeoutMs)

/-- The task takes the data lock for reading, or not at all. -/
def reads : Action → Bool
  | request req => req.call.isNone
  | sweepExpiredComponents _ => false

end Action

/-- The data of the service with the actions on them. -/
def api (codecs : Codecs) : Sections.Object AppData (Action × Env) (Option Response) where
  code o := o.1.code codecs o.2
  reads o := o.1.reads
  reads_code := by
    rintro ⟨action, env⟩ h
    cases action with
    | request req => exact (HttpRequest.reads_code codecs _ _ (Option.isNone_iff_eq_none.1 h)).map _
    | sweepExpiredComponents timeoutMs => cases h

variable {codecs : Codecs} {env : Env}

/-- A request made on its own does what its handler does. -/
theorem apply_request (req : HttpRequest) (state : AppState) :
    (api codecs).apply (.request req, env) state.data =
      ((req.handle codecs env.ord env.now state).1.data,
        some (req.handle codecs env.ord env.now state).2) := by
  refine (Sections.Code.eval_map some _ _).trans ?_
  rw [HttpRequest.eval_code]

theorem apply_sweep (timeoutMs : ℕ) (data : AppData) :
    (api codecs).apply (.sweepExpiredComponents timeoutMs, env) data =
      ((data.sweepExpiredComponents env.ord env.now timeoutMs).1, none) := rfl

/-- A service with the given data. -/
def AppData.service (data : AppData) : AppState :=
  { data := data, heartbeatTimeoutSecs := 0, dirty := false, metrics := .new }

/-- What an action makes of the data: what its operation does, if it makes one. -/
theorem apply_fst (action : Action) (data : AppData) :
    ((api codecs).apply (action, env) data).1 =
      match action.op with
      | some op => (op.exec env.ord env.now data).1
      | none => data := by
  cases action with
  | request req =>
    have happly : ((api codecs).apply (.request req, env) data).1 =
        (req.handle codecs env.ord env.now data.service).1.data :=
      congrArg Prod.fst (apply_request req data.service)
    rw [happly, HttpRequest.handle_fst, Action.op]
    cases req.call with
    | none => rfl
    | some call => exact (call_apply_spec env.ord env.now call data.service).1
  | sweepExpiredComponents timeoutMs => exact congrArg Prod.fst (apply_sweep timeoutMs data)

/-- Actions made one after the other take the data through a run. -/
theorem run_of_legal {data data' : AppData}
    {order : List (Sections.Entry (Action × Env) (Option Response))}
    (h : Legal (api codecs) data order data') : Relation.ReflTransGen Step data data' := by
  induction h with
  | nil => exact .refl
  | @cons order data' id o _ ih =>
    rw [apply_fst]
    cases o.1.op with
    | none => exact ih
    | some op => exact ih.tail (.exec _ _ op)

/-- Whatever requests and sweeps run at the same time, and in whatever order they enter
    and leave their sections: the clients are answered as if the handlers ran one after the
    other, in an order in which a request that was answered before another one was sent
    comes first. Once no section is under way, the data are those that the handlers leave
    in this order. -/
theorem api_linearizable {data : AppData}
    {c : Sections.Config AppData (Action × Env) (Option Response)}
    (h : Sections.Reachable (api codecs) data c) :
    (∃ order data', Linearization (api codecs) data c.history order ∧
      Legal (api codecs) data order data' ∧
        ((∀ id o code, c.phase id ≠ .holding o code) → c.state = data')) ∧
    ∀ (env : Env) (state : AppState),
      (∀ req, (api codecs).apply (.request req, env) state.data =
        ((req.handle codecs env.ord env.now state).1.data,
          some (req.handle codecs env.ord env.now state).2)) ∧
      ((api codecs).apply
          (.sweepExpiredComponents (timeoutMs state.heartbeatTimeoutSecs), env) state.data).1 =
        (state.sweepExpiredComponents env.ord env.now).data :=
  ⟨h.linearization, fun env state => ⟨fun req => apply_request req state,
    (sweep_apply_spec env.ord env.now state).1.symm⟩⟩

/-- A router has registered, and another one waits for the lock. -/
theorem api_linearizable_waiting :
    ∃ (c : Sections.Config AppData (Action × Env) (Option Response))
      (order : List (Sections.Entry (Action × Env) (Option Response))),
      .answer 0 (some (.ok .empty)) ∈ c.history ∧ (∃ o, c.phase 1 = .waiting o) ∧
        Linearization (api ⟨[], 0⟩) (.new Json.verbatim (.inOrder _) 0 none) c.history order := by
  let register (id : RouterId) : Action × Env :=
    (.request (.register ⟨"router", id, "eu", none⟩), ⟨.inOrder _, 1⟩)
  let start := AppData.new Json.verbatim (.inOrder _) 0 none
  obtain ⟨c, h, _, hhistory, _, hnew⟩ :=
    Sections.exists_serial (api ⟨[], 0⟩) start [register "r1"]
  have hwaiting := h.step (.call (register "r2") (hnew 1 le_rfl))
  obtain ⟨order, _, hlinear, _⟩ := (api_linearizable hwaiting).1
  have hhistory : c.history = [.answer 0 (some (.ok .empty)), .call 0 (register "r1")] :=
    hhistory.trans rfl
  have hanswer : .answer 0 (some (.ok .empty)) ∈ c.history := by simp [hhistory]
  exact ⟨(c.move 1 c.state (.waiting (register "r2"))).see (.call 1 (register "r2")), order,
    List.mem_cons_of_mem _ hanswer, ⟨_, c.move_phase_self 1 c.state _⟩, hlinear⟩

end Rzid
