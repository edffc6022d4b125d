import Mathlib.Data.Finset.Basic
import Rzid.Concurrent

/-!
# Graceful shutdown

The tasks of `main` (`src/main.rs`): request handlers, the sweep, the background
flusher, and the shutdown task. After the signal the shutdown task persists, and
only then calls `graceful_shutdown`, which stops new requests and lets those in
flight complete; then `serve` and `main` return.

When `main` returns, the state file holds what the memory publishes if and only if
no change was reported after the snapshot that was last renamed to the state file
(`saved_on_return_iff`). A request in flight while the shutdown task persists can
report a change later than that (`not_saved_on_return`).
-/

namespace Rzid

/-- The tasks of the process, with any number of request handlers. -/
inductive Task (H : Type)
  | handler (h : H)
  | sweeper
  | flusher
  | shutdown
  deriving DecidableEq

/-- How far `main` is. -/
inductive Phase
  | serving
  /-- The signal has been received. -/
  | signalled
  /-- The shutdown task has called `persist`. -/
  | flushing
  /-- The shutdown task has called `graceful_shutdown`. -/
  | draining
  /-- `main` has returned. -/
  | returned
  deriving DecidableEq

/-- The process: how far `main` is, the requests accepted and not yet answered, and
    the service. -/
structure Main (H Bytes : Type) where
  phase : Phase
  inFlight : Finset H
  service : ServiceState (Task H) Bytes

/-- What an idle task may begin: a request in flight and the sweep an operation, the
    flusher a persist. -/
def MayBegin {H : Type} (inFlight : Finset H) : Task H → WriteBehind.Pc PersistedState → Prop
  | .handler h, p => p = .mutating ∧ h ∈ inFlight
  | .sweeper, p => p = .mutating
  | .flusher, p => p = .persisting
  | .shutdown, _ => False

variable {H Bytes : Type} [DecidableEq H]

/-- A step of the process, with what it does to the service. -/
inductive MainStep (json : Json Bytes) (m : Main H Bytes) :
    List WriteBehind.Event → Main H Bytes → Prop
  | task {t e s} (hphase : m.phase ≠ .returned) (hstep : (service json).Step m.service t e s)
    (hbegin : m.service.pc t = .idle → MayBegin m.inFlight t (s.pc t)) :
    MainStep json m [e] { m with service := s }
  /-- No requests are accepted while draining. -/
  | accept {h} (hphase : m.phase ≠ .draining ∧ m.phase ≠ .returned) (hnew : h ∉ m.inFlight) :
    MainStep json m [] { m with inFlight := insert h m.inFlight }
  | answer {h} (hidle : m.service.pc (.handler h) = .idle) :
    MainStep json m [] { m with inFlight := m.inFlight.erase h }
  | signal (hphase : m.phase = .serving) : MainStep json m [] { m with phase := .signalled }
  /-- The shutdown task calls `persist`, which takes the dirty lock. -/
  | flush {e s} (hphase : m.phase = .signalled)
    (hstep : (service json).Step m.service .shutdown e s) (hbegin : s.pc .shutdown = .persisting) :
    MainStep json m [e] { m with phase := .flushing, service := s }
  /-- The persist has returned. -/
  | gracefulShutdown (hphase : m.phase = .flushing) (hidle : m.service.pc .shutdown = .idle) :
    MainStep json m [] { m with phase := .draining }
  /-- The requests in flight have been answered. -/
  | serveReturns (hphase : m.phase = .draining) (hnone : m.inFlight = ∅) :
    MainStep json m [] { m with phase := .returned }

/-- The runs of the process, by what they do to the service, the latest event first. -/
inductive MainRun (json : Json Bytes) : List WriteBehind.Event → Main H Bytes → Prop
  | start {s} (h : (service json).Init s) :
    MainRun json [] { phase := .serving, inFlight := ∅, service := s }
  | step {events events' m m'} (h : MainRun json events m) (hstep : MainStep json m events' m') :
    MainRun json (events' ++ events) m'

variable {json : Json Bytes} {events : List WriteBehind.Event} {m : Main H Bytes}

theorem MainRun.trace (h : MainRun json events m) : (service json).Trace events m.service := by
  induction h with
  | start h => exact .init h
  | step _ hstep ih =>
    cases hstep with
    | task _ hstep _ => exact ih.step hstep
    | flush _ hstep _ => exact ih.step hstep
    | _ => exact ih

/-- The state file loads to the dataset contents and versions of the memory. -/
def Main.Saved (json : Json Bytes) (m : Main H Bytes) : Prop :=
  ∀ (ord : Order) (now : ℕ) (ds : Dataset),
    (AppData.new json ord now m.service.file).content ds = m.service.mem.1.content ds ∧
      (AppData.new json ord now m.service.file).version ds = m.service.mem.1.version ds

/-- At any moment of a run, the state file holds the contents and versions of the
    memory if and only if no change was reported after the snapshot that was last
    renamed to it. -/
theorem MainRun.saved_iff (h : MainRun json events m) :
    m.Saved json ↔ WriteBehind.unsaved events = false := by
  have hages := h.trace.ages.2.1
  constructor
  · intro hsaved
    refine Bool.eq_false_iff.2 fun hunsaved => ?_
    rw [hunsaved] at hages
    -- Behind the memory, the file would differ in a dataset.
    refine (show _ < _ from hages).not_ge fun ds => ?_
    obtain ⟨hcontent, hversion⟩ := hsaved (.inOrder _) 0 ds
    exact ⟨hversion.ge, fun _ => hcontent.symm⟩
  · intro hunsaved ord now ds
    rw [hunsaved] at hages
    have hpublished : (AppData.new json ord now m.service.file).published =
        m.service.mem.1.published := (published_load ord (.inOrder _) now 0 _).trans hages
    exact ⟨congrFun (congrArg Published.content hpublished) ds,
      congrArg (fun p : Published => p.version ds) hpublished⟩

/-- When `main` returns, the state file holds the contents and versions of the memory
    if and only if no change was reported after the snapshot that was last renamed
    to it. -/
theorem saved_on_return_iff {inFlight : Finset H} {s : ServiceState (Task H) Bytes}
    (h : MainRun json events ⟨.returned, inFlight, s⟩) :
    (∀ (ord : Order) (now : ℕ) (ds : Dataset),
      (AppData.new json ord now s.file).content ds = s.mem.1.content ds ∧
        (AppData.new json ord now s.file).version ds = s.mem.1.version ds) ↔
      WriteBehind.unsaved events = false :=
  h.saved_iff

section Runs

open WriteBehind

/-- A task makes a step while the others are idle. -/
theorem MainRun.solo {phase : Phase} {inFlight : Finset H} {s₀ : ServiceState (Task H) Bytes}
    (hidle : ∀ u, s₀.pc u = .idle) {t : Task H} {e : WriteBehind.Event}
    {s s' : Shared Memory Bytes} {p p' : Pc PersistedState}
    (h : MainRun json events ⟨phase, inFlight, s₀.move t s p⟩)
    (hlocal : (service json).Local s p e s' p') (hphase : phase ≠ .returned)
    (hbegin : p = .idle → MayBegin inFlight t p') :
    MainRun json (e :: events) ⟨phase, inFlight, s₀.move t s' p'⟩ := by
  exact h.step (.task hphase (.solo_move (fun u _ => hidle u) hlocal) (by simpa using hbegin))

/-- A request in flight makes a change and flags it, while the other tasks are idle. -/
theorem MainRun.changes {phase : Phase} {inFlight : Finset H} {s : ServiceState (Task H) Bytes}
    (hidle : ∀ u, s.pc u = .idle) (h : MainRun json events ⟨phase, inFlight, s⟩)
    (hphase : phase ≠ .returned) {id : H} (hid : id ∈ inFlight) {mem : Memory}
    (hmutates : (service json).Mutates s.mem mem true) :
    MainRun json (.silent :: .silent :: .silent :: .silent :: .change true :: .silent :: events)
      ⟨phase, inFlight, s.move (.handler id) ⟨mem, true, s.file, s.tmp⟩ .idle⟩ := by
  have h₀ : MainRun json events ⟨phase, inFlight, s.move (.handler id) s.toShared .idle⟩ := by
    rwa [← hidle (.handler id), s.move_self]
  have h₁ := MainRun.solo hidle h₀ .lockData hphase fun _ => ⟨rfl, hid⟩
  have h₂ := MainRun.solo hidle h₁ (.change hmutates) hphase nofun
  have h₃ := MainRun.solo hidle h₂ .unlockData hphase nofun
  have h₄ := MainRun.solo hidle h₃ .lockMark hphase nofun
  have h₅ := MainRun.solo hidle h₄ .mark hphase nofun
  exact MainRun.solo hidle h₅ .unlockMark hphase nofun

/-- After the signal, the shutdown task begins its persist, while the other tasks are idle. -/
theorem MainRun.flushes {inFlight : Finset H} {s : ServiceState (Task H) Bytes}
    (hidle : ∀ u, s.pc u = .idle) (h : MainRun json events ⟨.serving, inFlight, s⟩) :
    MainRun json (.silent :: events)
      ⟨.flushing, inFlight, s.move .shutdown s.toShared .persisting⟩ := by
  have hsignal : MainRun json events ⟨.signalled, inFlight, s⟩ := h.step (.signal rfl)
  have hlock : (service json).Step s .shutdown .silent
      (s.move .shutdown s.toShared .persisting) := by
    refine .solo (fun u _ => hidle u) ?_
    rw [hidle]
    exact .lockPersist
  exact hsignal.step (.flush rfl hlock (s.move_pc_self _ _ _))

/-- The persist of the shutdown task saves a dirty state, while the other tasks are idle. -/
theorem MainRun.saves {inFlight : Finset H} {s : ServiceState (Task H) Bytes}
    (hidle : ∀ u, s.pc u = .idle) (h : MainRun json events ⟨.serving, inFlight, s⟩)
    (hdirty : s.dirty = true) :
    MainRun json ([.silent, .silent, .rename, .silent, .silent, .silent, .copy, .silent, .silent,
        .silent] ++ events)
      ⟨.flushing, inFlight, s.move .shutdown
        ⟨s.mem, false, some (json.toVecPretty s.mem.1.snapshot), none⟩ .idle⟩ := by
  have h₁ := MainRun.solo hidle (h.flushes hidle) (.found hdirty) nofun nofun
  have h₂ := MainRun.solo hidle h₁ .lockSnapshot nofun nofun
  have h₃ := MainRun.solo hidle h₂ .copy nofun nofun
  have h₄ := MainRun.solo hidle h₃ .unlockSnapshot nofun nofun
  have h₅ := MainRun.solo hidle h₄ (.create none) nofun nofun
  have h₆ := MainRun.solo hidle h₅ .write nofun nofun
  have h₇ := MainRun.solo hidle h₆ .rename nofun nofun
  have h₈ := MainRun.solo hidle h₇ .clear nofun nofun
  exact MainRun.solo hidle h₈ .unlockPersist nofun nofun

/-- A new process that has accepted a request. -/
theorem MainRun.accepted (json : Json Bytes) (id : H) :
    MainRun json [] ⟨.serving, {id}, startState json 0 none⟩ :=
  (MainRun.start (init_startState json 0 none)).step
    (.accept ⟨nofun, nofun⟩ (Finset.notMem_empty id))

/-- A request that registers a router changes the data of a new process. -/
theorem mutates_registerRouter :
    let s₀ : ServiceState (Task Unit) PersistedState := startState Json.verbatim 0 none
    (service Json.verbatim).Mutates s₀.mem ⟨_, indexed_exec (.inOrder _) 1
      (.call (.registerRouter "r1" "eu")) s₀.mem.2⟩ true :=
  ⟨.inOrder _, 1, _, rfl, by decide⟩

/-- A router registers before the signal, and the shutdown task saves it. -/
theorem saved_on_return_iff_registered :
    ∃ (events : List WriteBehind.Event) (s : ServiceState (Task Unit) PersistedState),
      MainRun Json.verbatim events ⟨.returned, ∅, s⟩ ∧
        s.mem.1.version (.zoneRouters "eu") = 1 ∧
          (AppData.new Json.verbatim (.inOrder _) 3 s.file).version (.zoneRouters "eu") =
            s.mem.1.version (.zoneRouters "eu") := by
  have hchange := (MainRun.accepted Json.verbatim ()).changes (fun _ => rfl) nofun
    (Finset.mem_singleton_self ()) mutates_registerRouter
  have hsave := (hchange.step (.answer (h := ()) rfl)).saves (fun u => by cases u <;> rfl) rfl
  have hreturn := (hsave.step (.gracefulShutdown rfl rfl)).step (.serveReturns rfl rfl)
  exact ⟨_, _, hreturn, by decide, ((saved_on_return_iff hreturn).2 rfl (.inOrder _) 3 _).2⟩

/-- A request in flight when the shutdown task persists changes the data while it is
    drained: the state file is left without the change. -/
theorem not_saved_on_return :
    ¬∀ (events : List WriteBehind.Event) (s : ServiceState (Task Unit) PersistedState),
      MainRun Json.verbatim events ⟨.returned, ∅, s⟩ → .fail ∉ events →
        ∀ (ord : Order) (now : ℕ) (ds : Dataset),
          (AppData.new Json.verbatim ord now s.file).content ds = s.mem.1.content ds ∧
            (AppData.new Json.verbatim ord now s.file).version ds = s.mem.1.version ds := by
  intro h
  -- The shutdown task finds nothing to save, and the request is drained.
  have hclean := MainRun.solo (fun _ => rfl)
    ((MainRun.accepted Json.verbatim ()).flushes fun _ => rfl) (.clean rfl) nofun nofun
  have hchange := (hclean.step (.gracefulShutdown rfl rfl)).changes (fun u => by cases u <;> rfl)
    nofun (Finset.mem_singleton_self ()) mutates_registerRouter
  have hreturn := (hchange.step (.answer (h := ()) rfl)).step (.serveReturns rfl rfl)
  have hversion := (h _ _ hreturn (by decide) (.inOrder _) 2 (.zoneRouters "eu")).2
  revert hversion
  decide

end Runs

end Rzid
