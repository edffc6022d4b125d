import Rzid.Cancel
import Rzid.Lib.WriteBehindBarrier

/-!
# Persists make durable

What a successful persist promises to the operations before it. An operation that has set
the dirty flag, as it has before its request is answered, is in the state file once any
persist has succeeded, and so is everything else that was in the memory when it set the
flag. It stays so whatever follows: other operations and persists, failures, dropped
handlers, kills and restarts (`persist_barrier`).

An operation that has found nothing to change has no such promise, since it sets no flag: see
`Rzid.Cancel`.
-/

namespace Rzid

open WriteBehind (Alone Config DropReachable)

variable {T Bytes : Type} [DecidableEq T] {json : Json Bytes} {ord : Order} {now : ℕ} {op : Op}

/-- A handler `t` executes an operation that changes the data, and sets the flag. Later in
    the lifetime of the process, some persist succeeds. From then on, the state file loads
    to what the memory had when the flag was set, or to something newer, and the memory has
    it too; and this includes the operation. -/
theorem persist_barrier {s₀ s s₁ s₂ s₃ : ServiceState T Bytes} {t u : T} {e : WriteBehind.Event}
    (h : (service json).DropReachable s₀) (hlock : s₀.pc t = .mutating)
    (hchanged : (op.exec ord now s₀.mem.1).2 = true)
    (hwait : Relation.ReflTransGen ((service json).Waits t) (executed ord now op s₀ t) s)
    (hpc : s.pc t = .markLocked) (hmark : (service json).Step s t e s₁)
    (hlife : Relation.ReflTransGen (service json).Alive s₁ s₂) (hpersist : s₂.Succeeds u)
    (hrun : Relation.ReflTransGen (service json).Goes s₂ s₃) :
    (op.exec ord now s₀.mem.1).1.published ≤ s.mem.1.published ∧
      s.mem.1.published ≤ s₃.mem.1.published ∧ InFile json s.mem.1 s₃.file := by
  have hexecuted := step_executed h hlock hchanged
  have hs : (service json).DropReachable s :=
    (h.alive (.step hexecuted)).trans (Relation.ReflTransGen.mono (fun _ _ hw => hw.1) _ _ hwait)
  obtain ⟨hmem, hfile⟩ := WriteBehind.durable_after_persist hs hpc hmark hlife hpersist hrun
  exact ⟨(h.waits hexecuted hwait).2, hmem, inFile_iff.2 hfile⟩

/-- A router registers and a persist saves it; then the process is killed, and started
    again: the router is still there. -/
theorem persist_barrier_restarted :
    ∃ s₂ s₃ : ServiceState Bool PersistedState,
      (service Json.verbatim).Init s₃ ∧ s₃.file = s₂.file ∧
        (1 : Version) ≤ s₃.mem.1.version (.zoneRouters "eu") := by
  let start : ServiceState Bool PersistedState := startState Json.verbatim 0 none
  let s₀ := start.move true start.toShared .mutating
  have h₀ : (service Json.verbatim).DropReachable s₀ := (DropReachable.init
    (init_startState Json.verbatim 0 none)).alive (.step (.solo (fun _ _ => rfl) .lockData))
  let register : Op := .call (.registerRouter "r1" "eu")
  have hchanged : (register.exec (.inOrder _) 1 s₀.mem.1).2 = true := by decide
  -- The handler executes the registration, and sets the flag.
  let waiting := (executed (.inOrder _) 1 register s₀ true).move true
    (executed (.inOrder _) 1 register s₀ true).toShared .marking
  let s := waiting.move true waiting.toShared .markLocked
  let s₁ := s.move true { s.toShared with dirty := true } .marked
  have hwait : Relation.ReflTransGen ((service Json.verbatim).Waits true)
      (executed (.inOrder _) 1 register s₀ true) s :=
    (waits_executed s₀ true).tail
      ⟨.step (.solo (fun u hut => by cases u <;> trivial) .lockMark), trivial⟩
  have hmark : (service Json.verbatim).Step s true .silent s₁ :=
    .solo (fun u hut => by cases u <;> trivial) .mark
  -- It returns, and a persist saves the registration.
  let copy := s.mem.1.snapshot
  have hreturn : (service Json.verbatim).Alone s₁.toShared .marked s₁.toShared .idle :=
    Alone.refl.tail .unlockMark
  have hpersist : (service Json.verbatim).Alone s₁.toShared .idle
      ⟨s₁.mem, true, some copy, none⟩ .renamed :=
    (((((((Alone.refl.tail .lockPersist).tail (.found rfl)).tail .lockSnapshot).tail .copy).tail
      .unlockSnapshot).tail (.create none)).tail .write).tail .rename
  let s₂ := (s₁.move true s₁.toShared .idle).move false ⟨s₁.mem, true, some copy, none⟩ .renamed
  have hlife : Relation.ReflTransGen (service Json.verbatim).Alive s₁ s₂ :=
    (hreturn.alive (t := true) fun u hut => by cases u <;> trivial).trans
      (hpersist.alive (c := s₁.move true s₁.toShared .idle) (t := false)
        fun u hut => by cases u <;> trivial)
  let s₃ : ServiceState Bool PersistedState := startState Json.verbatim 2 s₂.file
  have hinit : (service Json.verbatim).Init s₃ := init_startState Json.verbatim 2 s₂.file
  obtain ⟨hle, hle', _⟩ := persist_barrier h₀ rfl hchanged hwait rfl hmark hlife
    (show s₂.Succeeds false from .inl rfl) (.single (.inr ⟨hinit, rfl⟩))
  exact ⟨s₂, s₃, hinit, rfl, (le_trans (by decide) ((hle _).1.trans (hle' _).1))⟩

end Rzid
