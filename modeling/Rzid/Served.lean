import Rzid.Lib.FifoLockMakes
import Rzid.Locks
import Rzid.Restart

/-!
# Every call is served

Any number of tasks, also infinitely many, make calls under the two locks, and no task that
can make a step is passed over forever. Then every call returns, however many calls are
made meanwhile. The operations of a task take effect once each, in the order in which it
calls them, and a change that one of them reports comes to be flagged by the task
(`calls_served`).

The background tasks, which call again and again, are tasks with one call each here.
-/

namespace Rzid

open FifoLock (Next Run start)

variable {T Bytes : Type} [DecidableEq T] {json : Json Bytes}
  {s : WriteBehind.Shared AppData Bytes} {requests : T → List (Request Bytes)}
  {r : Run T (WriteBehind.Shared AppData Bytes) Lock} {t : T} {n : ℕ} {o : Op × Env}

/-! ## The access of an operation -/

/-- The code is at the access in which an operation changes the data. -/
def AtOperation (o : Op × Env) (code : Code Bytes) : Prop :=
  ∃ rest, code =
    .access (fun s => { s with mem := (o.1.exec o.2.ord o.2.now s.mem).1 }) fun s =>
      .unlock .data
        ((if (o.1.exec o.2.ord o.2.now s.mem).2 then Code.markDirty else .done).seq rest)

/-- The operations that a call makes. -/
def Request.operations : Request Bytes → List (Op × Env)
  | operation ord now op => [(op, ⟨ord, now⟩)]
  | _ => []

theorem AtOperation.seq {a b : Code Bytes} (h : AtOperation o a) : AtOperation o (a.seq b) := by
  obtain ⟨rest, rfl⟩ := h
  refine ⟨rest.seq b, ?_⟩
  simp only [FifoLock.Code.seq, FifoLock.Code.seq_assoc]

/-- An atomic write does not change the data. -/
theorem makes_atomicWrite (leftover : Option Bytes) (snapshot : PersistedState)
    {ok err : Code Bytes} (hok : ok.Makes WriteBehind.Shared.mem AtOperation [])
    (herr : err.Makes WriteBehind.Shared.mem AtOperation []) :
    (Code.atomicWrite json leftover snapshot ok err).Makes WriteBehind.Shared.mem AtOperation [] :=
  ⟨.inl ⟨fun _ => rfl, fun _ => ⟨.inl ⟨fun _ => rfl, fun _ => hok⟩, herr⟩⟩,
    .inl ⟨fun _ => rfl, fun _ => herr⟩, herr⟩

/-- An operation makes the access, and no call changes the data otherwise. -/
theorem makes_code (request : Request Bytes) :
    (request.code json).Makes WriteBehind.Shared.mem AtOperation request.operations := by
  cases request with
  | operation ord now op =>
    refine .inr ⟨_, [], rfl, ⟨.done, by simp⟩, fun s => ?_⟩
    change FifoLock.Code.Makes _ _ (if (op.exec ord now s.mem).2 then _ else _) []
    split
    · exact .inl ⟨fun _ => rfl, fun _ => rfl⟩
    · exact rfl
  | query => exact .inl ⟨fun _ => rfl, fun _ => rfl⟩
  | isDirty => exact .inl ⟨fun _ => rfl, fun _ => rfl⟩
  | persist leftover =>
    refine .inl ⟨fun _ => rfl, fun s => ?_⟩
    dsimp only
    split
    · exact .inl ⟨fun _ => rfl, fun s =>
        makes_atomicWrite leftover s.mem.snapshot (.inl ⟨fun _ => rfl, fun _ => rfl⟩) rfl⟩
    · exact rfl

/-! ## Runs -/

/-- The step `n` of a run is the access in which the task executes the operation. If this
    reports a change, the task sets the flag at a later step. -/
structure Executes (r : Run T (WriteBehind.Shared AppData Bytes) Lock) (t : T) (n : ℕ)
    (o : Op × Env) : Prop where
  at_operation : r.MakesAt t AtOperation n o
  mem : (r.state (n + 1)).state.mem = (o.1.exec o.2.ord o.2.now (r.state n).state.mem).1
  flagged : (o.1.exec o.2.ord o.2.now (r.state n).state.mem).2 = true →
    ∃ m, n < m ∧ r.actor m = some t ∧ (r.state (m + 1)).state.dirty = true

/-- In a fair run, a task that is at a lock comes to get it. -/
theorem gets_of_start (hstart : r.state 0 = start s fun t => Request.codes json (requests t))
    (hfair : r.Fair) (l : Lock) : r.Gets l := by
  refine hfair.gets_all (hstart ▸ inv_of_run s .refl) (fun l => ?_) l
  -- At the start, no task holds a lock.
  have hnone : (r.state 0).holders l = ∅ := by
    rw [hstart]
    exact Set.eq_empty_of_forall_notMem fun t => by
      simp [FifoLock.Config.holders, FifoLock.held_start]
  exact hnone ▸ Set.finite_empty

/-- In a fair run, the access of an operation executes it. -/
theorem executes_of_makesAt (hgets : ∀ l, r.Gets l) (hfair : r.Fair)
    (h : r.MakesAt t AtOperation n o) : Executes r t n o := by
  obtain ⟨rest, hcode⟩ := h.2
  have hdoes := (r.step h.1).does
  rw [hcode] at hdoes
  obtain ⟨hcode, _, hstate⟩ := hdoes
  refine ⟨h, congrArg WriteBehind.Shared.mem hstate, fun hchanged => ?_⟩
  obtain ⟨n₁, hle₁, hcode, _⟩ := hfair.unlocks hcode
  rw [if_pos hchanged] at hcode
  obtain ⟨n₂, hle₂, hcode, _⟩ := hgets _ hcode
  obtain ⟨m, hle, hactor, _, _, hdirty⟩ := hfair.accesses hcode
  exact ⟨m, by omega, hactor, congrArg WriteBehind.Shared.dirty hdirty⟩

/-- Whatever calls any number of tasks make, in a fair run every task completes its calls.
    Each of its operations is executed at a step of its own, in the order of the calls; and at
    no other step does the task change the data. -/
theorem calls_served (hstart : r.state 0 = start s fun t => Request.codes json (requests t))
    (hfair : r.Fair) (t : T) :
    (∃ n, (r.state n).code t = .done) ∧
      ∃ steps : List ℕ, steps.SortedLT ∧
        List.Forall₂ (Executes r t) steps ((requests t).flatMap Request.operations) ∧
          ∀ n, r.actor n = some t → n ∉ steps →
            (r.state (n + 1)).state.mem = (r.state n).state.mem := by
  have hgets := gets_of_start hstart hfair
  have hcode : (r.state 0).code t = Request.codes json (requests t) := by rw [hstart]; rfl
  have hmakes : ((r.state 0).code t).Makes WriteBehind.Shared.mem AtOperation
      ((requests t).flatMap Request.operations) := by
    rw [hcode]
    exact FifoLock.Code.Makes.foldr_seq (fun _ _ _ => AtOperation.seq) makes_code (requests t)
  obtain ⟨n, hle, hdone⟩ := hfair.completes_all hgets hcode
  obtain ⟨steps, hsorted, hsteps, hkeeps⟩ := Run.makes_of_done hmakes hle hdone
  exact ⟨⟨n, hdone⟩, steps, hsorted,
    hsteps.imp fun _ _ => executes_of_makesAt hgets hfair, fun n => hkeeps n n.zero_le⟩

/-- A task that registers a router twice, persists, and queries: the two registrations are
    executed one after the other. -/
theorem calls_served_registration :
    let register := Op.call (.registerRouter "r1" "eu")
    let requests : List (Request PersistedState) :=
      [.operation (.inOrder _) 1 register, .persist none, .query,
        .operation (.inOrder _) 1 register]
    ∃ r : Run Unit (WriteBehind.Shared AppData PersistedState) Lock,
      (r.state 0).code () = Request.codes Json.verbatim requests ∧
        (∃ n, (r.state n).code () = .done) ∧
        ∃ n m, n < m ∧ Executes r () n (register, ⟨.inOrder _, 1⟩) ∧
          Executes r () m (register, ⟨.inOrder _, 1⟩) := by
  intro register requests
  let s : WriteBehind.Shared AppData PersistedState :=
    ⟨.new Json.verbatim (.inOrder _) 0 none, false, none, none⟩
  let code : Unit → Code PersistedState := fun _ => Request.codes Json.verbatim requests
  have hinv : FifoLock.Inv (start s code) := inv_of_run s .refl
  have hordered := hinv.ordered ()
  obtain ⟨c, hrun, hdone, _⟩ :=
    (FifoLock.Config.Solo.start s code ()).exists_run true rfl hordered
  obtain ⟨r, hstart, hfair⟩ := Run.exists_fair hrun fun _ => hdone
  obtain ⟨hreturns, steps, hsorted, hsteps, _⟩ := calls_served hstart hfair ()
  obtain _ | ⟨hfirst, _ | ⟨hsecond, _ | _⟩⟩ := hsteps
  have hlt := List.sortedLT_iff_pairwise.1 hsorted
  exact ⟨r, by rw [hstart]; rfl, hreturns, _, _,
    (List.pairwise_cons.1 hlt).1 _ List.mem_cons_self, hfirst, hsecond⟩

end Rzid
