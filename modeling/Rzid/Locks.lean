import Mathlib.Data.Fintype.EquivFin
import Rzid.Lib.FifoLock
import Rzid.Lib.WriteBehind
import Rzid.Operation
import Rzid.Service

/-!
# The two locks

The locks of `AppState` and what every call does with them, as codes over
first-in-first-out read-write locks. A mutator takes the data lock, releases it, and
then takes the dirty lock to set the flag; a persist takes the data lock while it
holds the dirty lock.

So no call takes the dirty lock while it holds the data lock (`ordered_code`): no
interleaving of any number of calls can deadlock (`no_deadlock`). On its own, a call
can do what it does in the sequential service (`exists_run_operation`,
`exists_run_persist`).
-/

namespace Rzid

open FifoLock (Next Step start)

inductive Lock
  | dirty
  | data
  deriving DecidableEq

/-- The place of a lock in the order in which they are taken. -/
def Lock.rank : Lock → Fin 2
  | dirty => 0
  | data => 1

instance : Preorder Lock := Preorder.lift Lock.rank

instance : WellFoundedGT Lock := ⟨InvImage.wf Lock.rank wellFounded_gt⟩

theorem Lock.dirty_lt_data : Lock.dirty < Lock.data := (by decide : (0 : Fin 2) < 1)

/-- A code over the data, the dirty flag, and the files. -/
abbrev Code (Bytes : Type) := FifoLock.Code (WriteBehind.Shared AppData Bytes) Lock

/-- The calls of the handlers and of the background tasks. -/
inductive Request (Bytes : Type)
  /-- A registration, a segment update or a sweep. -/
  | operation (ord : Order) (now : ℕ) (op : Op)
  /-- `version_manifest`, or a query of a dataset. -/
  | query
  | isDirty
  /-- A persist, with what a failed write leaves in the temporary file. -/
  | persist (leftover : Option Bytes)

variable {Bytes : Type} (json : Json Bytes)

namespace Code

/-- Marks state dirty so the background persistence task will flush it. -/
def markDirty : Code Bytes :=
  .lock .dirty .write (.access (fun s => { s with dirty := true }) fun _ => .unlock .dirty .done)

/-- An operation changes the data under the data lock, and releases it before it marks
    the state dirty. -/
def operation (ord : Order) (now : ℕ) (op : Op) : Code Bytes :=
  .lock .data .write (.access (fun s => { s with mem := (op.exec ord now s.mem).1 }) fun s =>
    .unlock .data (if (op.exec ord now s.mem).2 then markDirty else .done))

/-- A query reads the data under the data lock; its answer does not concern the locks. -/
def query : Code Bytes := .lock .data .read (.access id fun _ => .unlock .data .done)

/-- Returns whether persistence is currently required. -/
def isDirty : Code Bytes := .lock .dirty .read (.access id fun _ => .unlock .dirty .done)

/-- Atomically replaces the previous state file with a new snapshot, or fails. -/
def atomicWrite (leftover : Option Bytes) (snapshot : PersistedState) (ok err : Code Bytes) :
    Code Bytes :=
  .choose
    (.access (fun s => { s with tmp := some (json.toVecPretty snapshot) }) fun _ =>
      .choose (.access (fun s => { s with file := s.tmp, tmp := none }) fun _ => ok) err)
    (.choose (.access (fun s => { s with tmp := leftover }) fun _ => err) err)

/-- Persists authoritative state and clears dirty state only after a successful write.
    The dirty lock is held during the snapshot/write/clear sequence. -/
def persist (leftover : Option Bytes) : Code Bytes :=
  .lock .dirty .write (.access id fun s =>
    if s.dirty then
      .lock .data .read (.access id fun s => .unlock .data
        (atomicWrite json leftover s.mem.snapshot
          (.access (fun s => { s with dirty := false }) fun _ => .unlock .dirty .done)
          (.unlock .dirty .done)))
    else .unlock .dirty .done)

end Code

/-- What a call does with the locks. -/
def Request.code : Request Bytes → Code Bytes
  | operation ord now op => .operation ord now op
  | query => .query
  | isDirty => .isDirty
  | persist leftover => .persist json leftover

/-! ## The order of the locks -/

theorem insert_sdiff_empty (l : Lock) : (insert l ∅ \ {l} : Set Lock) = ∅ := by simp

theorem ordered_markDirty : (Code.markDirty : Code Bytes).Ordered ∅ :=
  ⟨nofun, fun _ => ⟨Set.mem_insert _ _, insert_sdiff_empty _⟩⟩

theorem ordered_operation (ord : Order) (now : ℕ) (op : Op) :
    (Code.operation ord now op : Code Bytes).Ordered ∅ := by
  refine ⟨nofun, fun s => ⟨Set.mem_insert _ _, ?_⟩⟩
  rw [insert_sdiff_empty]
  split
  · exact ordered_markDirty
  · exact rfl

theorem ordered_atomicWrite {leftover : Option Bytes} {snapshot : PersistedState}
    {ok err : Code Bytes} {held : Set Lock} (hok : ok.Ordered held) (herr : err.Ordered held) :
    (Code.atomicWrite json leftover snapshot ok err).Ordered held :=
  ⟨fun _ => ⟨fun _ => hok, herr⟩, fun _ => herr, herr⟩

theorem ordered_persist (leftover : Option Bytes) :
    (Code.persist json leftover : Code Bytes).Ordered ∅ := by
  have hunlock : (FifoLock.Code.unlock .dirty .done : Code Bytes).Ordered (insert .dirty ∅) :=
    ⟨Set.mem_insert _ _, insert_sdiff_empty _⟩
  refine ⟨nofun, fun s => ?_⟩
  dsimp only
  split
  · refine ⟨?_, fun s => ⟨Set.mem_insert _ _, ?_⟩⟩
    · -- The persist only holds the dirty lock.
      rintro l' (rfl | hl')
      · exact Lock.dirty_lt_data
      · cases hl'
    · have hheld : (insert .data (insert .dirty ∅) \ {.data} : Set Lock) = insert .dirty ∅ := by
        ext l
        cases l <;> simp
      rw [hheld]
      exact ordered_atomicWrite json (fun _ => hunlock) hunlock
  · exact hunlock

/-- No call takes the dirty lock while it holds the data lock, or a lock that it
    holds. -/
theorem ordered_code (request : Request Bytes) : (request.code json).Ordered ∅ := by
  cases request with
  | operation ord now op => exact ordered_operation ord now op
  | query => exact ⟨nofun, fun _ => ⟨Set.mem_insert _ _, insert_sdiff_empty _⟩⟩
  | isDirty => exact ⟨nofun, fun _ => ⟨Set.mem_insert _ _, insert_sdiff_empty _⟩⟩
  | persist leftover => exact ordered_persist json leftover

/-! ## Calls on their own -/

variable {json} (pick : Bool) (s : WriteBehind.Shared AppData Bytes)

/-- An operation on its own changes the data, and sets the flag if it reports a
    change. -/
theorem eval_operation (ord : Order) (now : ℕ) (op : Op) :
    ((Request.operation ord now op).code json).eval pick s =
      { s with
        mem := (op.exec ord now s.mem).1
        dirty := s.dirty || (op.exec ord now s.mem).2 } := by
  simp only [Request.code, Code.operation, FifoLock.Code.eval]
  cases (op.exec ord now s.mem).2 with
  | false => simp only [Bool.false_eq_true, if_false, FifoLock.Code.eval, Bool.or_false]
  | true => simp only [if_true, Code.markDirty, FifoLock.Code.eval, Bool.or_true]

/-- A persist on its own does what `AppState.persist` does. -/
theorem eval_persist (state : AppState) (file tmp leftover : Option Bytes) (io : Bool) :
    let persisted := state.persist json io file
    ((Request.persist leftover).code json).eval io ⟨state.data, state.dirty, file, tmp⟩ =
      ⟨persisted.1.data, persisted.1.dirty, persisted.2.1,
        if state.dirty && io then none else tmp⟩ := by
  simp only [Request.code, Code.persist, FifoLock.Code.eval, id, AppState.persist]
  cases hdirty : state.dirty <;> cases io <;>
    simp [Code.atomicWrite, FifoLock.Code.eval, hdirty]

variable {T : Type} [DecidableEq T]

/-- A task that makes an operation, before the others begin, can complete it. -/
theorem exists_run_operation (ord : Order) (now : ℕ) (op : Op) (code : T → Code Bytes) (t : T)
    (hcode : code t = (Request.operation ord now op).code json) :
    ∃ c, Relation.ReflTransGen Next (start s code) c ∧ c.code t = .done ∧ c.state =
      { s with
        mem := (op.exec ord now s.mem).1
        dirty := s.dirty || (op.exec ord now s.mem).2 } := by
  obtain ⟨c, hrun, hdone, hstate⟩ := (FifoLock.Config.Solo.start s code t).exists_run true hcode
    (by rw [FifoLock.held_start]; exact ordered_code json _)
  exact ⟨c, hrun, hdone, hstate.trans (eval_operation true s ord now op)⟩

/-- A task that persists, before the others begin, can complete or fail. -/
theorem exists_run_persist (state : AppState) (file tmp leftover : Option Bytes) (io : Bool)
    (code : T → Code Bytes) (t : T) (hcode : code t = (Request.persist leftover).code json) :
    ∃ c, Relation.ReflTransGen Next (start ⟨state.data, state.dirty, file, tmp⟩ code) c ∧
      c.code t = .done ∧ c.state.mem = (state.persist json io file).1.data ∧
        c.state.dirty = (state.persist json io file).1.dirty ∧
          c.state.file = (state.persist json io file).2.1 := by
  have hsolo := FifoLock.Config.Solo.start ⟨state.data, state.dirty, file, tmp⟩ code t
  obtain ⟨c, hrun, hdone, hstate⟩ := hsolo.exists_run io hcode
    (by rw [FifoLock.held_start]; exact ordered_code json _)
  have heval := hstate.trans (eval_persist state file tmp leftover io)
  exact ⟨c, hrun, hdone, by rw [heval], by rw [heval], by rw [heval]⟩

/-! ## Deadlock freedom -/

/-- What a task does that makes the given calls, one after the other. -/
def Request.codes (json : Json Bytes) (requests : List (Request Bytes)) : Code Bytes :=
  (requests.map (code json)).foldr FifoLock.Code.seq .done

theorem inv_of_run {requests : T → List (Request Bytes)}
    {c : FifoLock.Config T (WriteBehind.Shared AppData Bytes) Lock}
    (h : Relation.ReflTransGen Next (start s fun t => Request.codes json (requests t)) c) :
    FifoLock.Inv c := by
  refine (FifoLock.Inv.start fun t => FifoLock.Code.Ordered.foldr_seq fun a ha => ?_).run h
  obtain ⟨request, _, rfl⟩ := List.mem_map.1 ha
  exact ordered_code json request

/-- Whatever calls any number of tasks make, and however they interleave: a task that
    has not finished can make a step, or waits, in the end, for one that can; and no
    cycle of tasks wait for each other. -/
theorem no_deadlock {requests : T → List (Request Bytes)}
    {c : FifoLock.Config T (WriteBehind.Shared AppData Bytes) Lock}
    (h : Relation.ReflTransGen Next (start s fun t => Request.codes json (requests t)) c) :
    (∀ t, c.code t ≠ .done → ∃ u c', Relation.ReflTransGen c.Waits t u ∧ Step c u c') ∧
      ∀ t, ¬Relation.TransGen c.Waits t t :=
  ⟨fun _ ht => (inv_of_run s h).exists_step ht, fun t => (inv_of_run s h).acyclic t⟩

/-- A persist holds the dirty lock, and waits for the data lock that a registration
    holds: some task can go on. -/
theorem no_deadlock_contended :
    ∃ c : FifoLock.Config Bool (WriteBehind.Shared AppData PersistedState) Lock,
      c.holds false .dirty = some .write ∧ c.Waits false true ∧
        ∃ u c', Relation.ReflTransGen c.Waits false u ∧ Step c u c' := by
  let requests : Bool → List (Request PersistedState) := fun t =>
    if t then [.operation (.inOrder _) 1 (.call (.registerRouter "r1" "eu"))] else [.persist none]
  let s : WriteBehind.Shared AppData PersistedState :=
    ⟨.new Json.verbatim (.inOrder _) 0 none, true, none, none⟩
  have hregister := (FifoLock.Config.Solo.start s
    (fun t => Request.codes Json.verbatim (requests t)) true).lock rfl rfl
  have hrequest := hregister.tail ⟨false, .request rfl List.not_mem_nil⟩
  have hgrant := hrequest.tail ⟨false, .grant rfl rfl fun u mode hholds => by
    cases u <;> cases hholds⟩
  have hfound := hgrant.tail ⟨false, .access rfl⟩
  have hwait := hfound.tail ⟨false, .request rfl List.not_mem_nil⟩
  exact ⟨_, rfl, ⟨.data, .read, [], [], rfl, .inr ⟨.write, rfl, id⟩⟩,
    (no_deadlock s hwait).1 false nofun⟩

end Rzid
