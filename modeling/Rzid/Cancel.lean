import Rzid.Concurrent
import Rzid.Lib.WriteBehindDrop

/-!
# Cancelled handlers

The HTTP server may drop the future of a handler at any of its two await points. A
handler dropped while it awaits the data lock leaves the service as it was. One
dropped while it awaits the dirty lock in `mark_dirty` leaves its operation done, and
the flag to others.

After the drop, the operation is in the state file or under a set flag for as long as
the process lives, if and only if this is so at the drop, and no persist under way
holds a snapshot taken before the operation (`cancelled_saved_iff`). A handler that
awaits a persist can be dropped when the snapshot is already taken, and then an
identical retry, which sees no change, is answered while the state file is left
without the operation (`not_saved_after_cancel`).
-/

namespace Rzid

open WriteBehind (Alive DropReachable Pc Shared Waits)

variable {T Bytes : Type} [DecidableEq T] {json : Json Bytes} {ord : Order} {now : ℕ} {op : Op}

/-- The state file loads to what the data publishes, or to something newer. -/
def InFile (json : Json Bytes) (data : AppData) (file : Option Bytes) : Prop :=
  ∀ (ord : Order) (now : ℕ), data.published ≤ (AppData.new json ord now file).published

theorem inFile_iff {data : AppData} {file : Option Bytes} :
    InFile json data file ↔ data.published ≤ (service json).viewFile file := by
  refine ⟨fun h => h _ _, fun h ord now => ?_⟩
  rw [AppData.new, published_load ord (.inOrder _) now 0]
  exact h

/-- The service when the handler `t` has executed the operation, and still holds the
    data lock. -/
def executed (ord : Order) (now : ℕ) (op : Op) (s : ServiceState T Bytes) (t : T) :
    ServiceState T Bytes :=
  s.move t { s.toShared with mem := ⟨(op.exec ord now s.mem.1).1, indexed_exec ord now op s.mem.2⟩ }
    (.mutated true)

theorem step_executed {s : ServiceState T Bytes} {t : T} (h : (service json).DropReachable s)
    (hlock : s.pc t = .mutating) (hchanged : (op.exec ord now s.mem.1).2 = true) :
    (service json).Step s t (.change true) (executed ord now op s t) := by
  refine .mk hlock (.change ⟨ord, now, op, rfl, hchanged.symm⟩) fun u hut hc => ?_
  -- Executing the operation takes no lock.
  exact h.locked.exclusive hut (hlock ▸ hc.mono id id id)

/-- A handler that awaits the data lock is dropped without a trace. Let one have
    executed an operation that changed the data, and be dropped while it awaits the
    dirty lock: from then on, as long as the process lives, the memory has the
    operation, and the flag is set or the state file has it, if and only if at the
    drop the flag is set or the state file has it, and no persist under way holds a
    snapshot without it. -/
theorem cancelled_saved_iff {s₀ s : ServiceState T Bytes} {t : T}
    (h : (service json).DropReachable s₀) (hlock : s₀.pc t = .mutating)
    (hchanged : (op.exec ord now s₀.mem.1).2 = true)
    (hwait : Relation.ReflTransGen ((service json).Waits t) (executed ord now op s₀ t) s)
    (hawait : s.pc t = .marking) :
    (∀ u, s.pc u = .idle → s.drop u = s) ∧
      ((∀ s', Relation.ReflTransGen (service json).Alive (s.drop t) s' →
          (op.exec ord now s₀.mem.1).1.published ≤ s'.mem.1.published ∧
            (s'.dirty = true ∨ InFile json (op.exec ord now s₀.mem.1).1 s'.file)) ↔
        (s.dirty = true ∨ InFile json (op.exec ord now s₀.mem.1).1 s.file) ∧
          ∀ u f, (s.pc u).target json.toVecPretty s.file = some f →
            InFile json (op.exec ord now s₀.mem.1).1 f) := by
  have hiff := WriteBehind.saved_after_drop_iff h (step_executed h hlock hchanged) hwait hawait
  simp only [inFile_iff]
  exact ⟨fun u => WriteBehind.Config.drop_of_idle, hiff.trans
    ⟨fun hsaving => ⟨hsaving.flag, fun u f => hsaving.target⟩, fun ⟨hflag, htarget⟩ =>
      ⟨hflag, fun {u f} => htarget u f⟩⟩⟩

/-! ## Runs with a dropped handler -/

section Runs

open WriteBehind

/-- A handler that has executed an operation releases the data lock. -/
theorem waits_executed (s : ServiceState T Bytes) (t : T) :
    Relation.ReflTransGen ((service json).Waits t) (executed ord now op s t)
      ((executed ord now op s t).move t (executed ord now op s t).toShared .marking) := by
  refine .single ⟨.step (.mk (s.move_pc_self _ _ _) .unlockData fun u hut hc => ?_), ?_⟩
  · rcases hc with hc | hc | hc <;> exact hc.2
  · rw [Config.move_pc_self]
    trivial

/-- The handler `true` has registered a router in a new process, and set the flag. -/
def registeredState : ServiceState Bool PersistedState :=
  (startState Json.verbatim 0 none).move true
    ⟨⟨(Op.exec (.inOrder _) 1 (.call (.registerRouter "r1" "eu"))
      (.new Json.verbatim (.inOrder _) 0 none)).1, indexed_exec _ _ _ (indexed_load _ _ _)⟩,
      true, none, none⟩ .idle

theorem dropReachable_registered : (service Json.verbatim).DropReachable registeredState :=
  (DropReachable.init (init_startState Json.verbatim 0 none)).trans
    ((exec_alone (.inOrder _) 1 (.call (.registerRouter "r1" "eu")) Json.verbatim
      (indexed_load _ _ _) false none none).alive (t := true) fun _ _ => rfl)

/-- A second router registers while the flag is set and no persist is under way: its
    handler may be dropped. -/
theorem cancelled_saved_iff_flagged :
    ∃ s : ServiceState Bool PersistedState, s.mem.1.version (.zoneRouters "eu") = 2 ∧
      s.pc true = .marking ∧
        ∀ s', Relation.ReflTransGen (service Json.verbatim).Alive (s.drop true) s' →
          s'.dirty = true ∨ InFile Json.verbatim s.mem.1 s'.file := by
  let s₁ := registeredState.move true registeredState.toShared .mutating
  have h₁ : (service Json.verbatim).DropReachable s₁ :=
    dropReachable_registered.alive (.step (.solo (fun u hut => by cases u <;> trivial) .lockData))
  let s₂ := executed (.inOrder _) 2 (.call (.registerRouter "r2" "eu")) s₁ true
  let s := s₂.move true s₂.toShared .marking
  have hchanged : (Op.exec (.inOrder _) 2 (.call (.registerRouter "r2" "eu")) s₁.mem.1).2 = true :=
    by decide
  have hiff := (cancelled_saved_iff h₁ rfl hchanged (waits_executed s₁ true) rfl).2
  refine ⟨s, by decide, rfl, fun s' hrun => (hiff.2 ⟨.inl rfl, fun u f hf => ?_⟩ s' hrun).2⟩
  cases u <;> cases hf

/-- A handler is dropped while it awaits a persist that has taken its snapshot: its
    operation is neither in the state file nor under a set flag when an identical retry
    has found no change. -/
theorem not_saved_after_cancel :
    ¬∀ (s₀ s s' : ServiceState Bool PersistedState) (t u : Bool) (op : Op) (now now' : ℕ),
      (service Json.verbatim).DropReachable s₀ → s₀.pc t = .mutating →
      (op.exec (.inOrder _) now s₀.mem.1).2 = true →
      Relation.ReflTransGen ((service Json.verbatim).Waits t)
        (executed (.inOrder _) now op s₀ t) s → s.pc t = .marking →
      Relation.ReflTransGen (service Json.verbatim).Alive (s.drop t) s' → s'.pc u = .mutating →
      (op.exec (.inOrder _) now' s'.mem.1).2 = false →
        s'.dirty = true ∨
          InFile Json.verbatim (op.exec (.inOrder _) now s₀.mem.1).1 s'.file := by
  intro h
  let copy := registeredState.mem.1.snapshot
  -- A persist takes its snapshot.
  have hpersist : (service Json.verbatim).Alone registeredState.toShared .idle
      registeredState.toShared (.snapshotted copy) :=
    ((((Alone.refl.tail .lockPersist).tail (.found rfl)).tail .lockSnapshot).tail .copy).tail
      .unlockSnapshot
  let s₁ := registeredState.move false registeredState.toShared (.snapshotted copy)
  have h₁ : (service Json.verbatim).DropReachable s₁ :=
    dropReachable_registered.trans (hpersist.alive (t := false) fun u _ => by cases u <;> rfl)
  -- A second router registers, and its handler is dropped while it awaits the dirty lock.
  let s₂ := s₁.move true s₁.toShared .mutating
  have h₂ : (service Json.verbatim).DropReachable s₂ := by
    refine h₁.alive (.step (.mk rfl .lockData fun u hut => ?_))
    cases u
    · rintro (hc | hc | hc) <;> first | exact hc.1 | exact hc.2
    · exact absurd rfl hut
  let s₃ := executed (.inOrder _) 2 (.call (.registerRouter "r2" "eu")) s₂ true
  let s₄ := s₃.move true s₃.toShared .marking
  -- The persist completes, and clears the flag.
  let s₅ := s₄.drop true
  have hflush : (service Json.verbatim).Alone s₅.toShared (.snapshotted copy)
      ⟨s₅.mem, false, some copy, none⟩ .idle :=
    ((((Alone.refl.tail (.create none)).tail .write).tail .rename).tail .clear).tail .unlockPersist
  have hrun := hflush.alive (c := s₅) (t := false) fun u hut => by
    cases u
    · exact absurd rfl hut
    · rfl
  -- The router registers again.
  have hretry := hrun.tail
    (.step (.solo (t := true) (fun u hut => by cases u <;> trivial) .lockData))
  have hsaved := h _ _ _ true true _ 2 3 h₂ rfl (by decide) (waits_executed s₂ true) rfl hretry rfl
    (by decide)
  rcases hsaved with hdirty | hfile
  · cases hdirty
  · have hle := (hfile (.inOrder _) 0 (.zoneRouters "eu")).1
    revert hle
    decide

end Runs

end Rzid
