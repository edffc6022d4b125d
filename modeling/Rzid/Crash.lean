import Rzid.Concurrent

/-!
# Versions across crashes

A client that was answered a version of a dataset keeps it over the lifetimes of
the process. The state file is written behind, so a kill can lose the latest
versions, and the next lifetime then counts them again with other contents
(`version_reused_after_kill`). A version is not used again, however the process is
killed and started, as long as every state file loaded since holds at least this
version of the dataset (`version_not_reused`).
-/

namespace Rzid

open Relation (ReflTransGen)

variable {T Bytes : Type} [DecidableEq T] {json : Json Bytes}

/-- What can happen next, if a start has to load a state file that holds at least
    the version `v` of the dataset. -/
def NextKeeping (json : Json Bytes) (ds : Dataset) (v : Version) (s s' : ServiceState T Bytes) :
    Prop :=
  (∃ t e, (service json).Step s t e s') ∨
    ((service json).Init s' ∧ s'.file = s.file ∧ v ≤ s'.mem.1.version ds)

/-- From the instant at which a dataset has a version on, over any lifetimes whose
    state files hold at least this version, the dataset never goes below it, and has
    the same content whenever it has this version. -/
theorem version_not_reused {s s' : ServiceState T Bytes} (h : (service json).Reachable s)
    (ds : Dataset) (hrun : ReflTransGen (NextKeeping json ds (s.mem.1.version ds)) s s') :
    s.mem.1.version ds ≤ s'.mem.1.version ds ∧
      (s'.mem.1.version ds = s.mem.1.version ds →
        s'.mem.1.content ds = s.mem.1.content ds) := by
  let P (p : Published) : Prop := s.mem.1.version ds ≤ p.version ds ∧
    (p.version ds = s.mem.1.version ds → p.content ds = s.mem.1.content ds)
  let Q (p : Published) : Prop :=
    p.version ds = s.mem.1.version ds → p.content ds = s.mem.1.content ds
  have hmono : ∀ a b, a ≤ b → P a → P b := by
    intro a b hab ha
    refine ⟨ha.1.trans (hab ds).1, fun hb => ?_⟩
    have heq : a.version ds = b.version ds := (hab ds).1.antisymm (hb.le.trans ha.1)
    exact ((hab ds).2 heq).symm.trans (ha.2 (heq.trans hb))
  have hkeeps : (service json).Reachable s' ∧ (service json).Keeps P Q s' := by
    induction hrun with
    | refl =>
      -- The file and the copies are not ahead of the memory.
      exact ⟨h, ⟨le_rfl, fun _ => rfl⟩, fun heq => (h.inv.le_file ds).2 heq,
        fun hf heq => (h.inv.le_target hf ds).2 heq⟩
    | tail _ hnext ih =>
      obtain ⟨hreach, hkeeps⟩ := ih
      rcases hnext with ⟨t, e, hstep⟩ | ⟨hinit, hfile, hle⟩
      · exact ⟨hreach.next (.inl ⟨t, e, hstep⟩),
          hkeeps.step hmono (fun _ hP => hP.2) hreach.inv hstep⟩
      · refine ⟨hreach.next (.inr ⟨hinit, hfile⟩), hkeeps.init hinit hfile ⟨hle, ?_⟩⟩
        rw [(service json).view_start hinit.starts, hfile]
        exact hkeeps.file
  exact hkeeps.2.mem

/-- A process that has loaded the routers of a zone is killed, and loads them again. -/
theorem version_not_reused_loaded :
    let saved := (Op.exec (.inOrder _) 1 (.call (.registerRouter "r1" "eu"))
      (.new Json.verbatim (.inOrder _) 0 none)).1.snapshot
    let s : ServiceState Unit PersistedState := startState Json.verbatim 2 (some saved)
    let s' : ServiceState Unit PersistedState := startState Json.verbatim 3 (some saved)
    s.mem.1.version (.zoneRouters "eu") = 1 ∧
      s'.mem.1.content (.zoneRouters "eu") = s.mem.1.content (.zoneRouters "eu") :=
  ⟨by decide, (version_not_reused (.init (init_startState _ _ _)) _
    (.single (.inr ⟨init_startState _ 3 _, rfl, by decide⟩))).2 (by decide)⟩

/-- A router registers, the process is killed before it persists, and another router
    registers in the next lifetime: the same version, with another content. -/
theorem version_reused_after_kill :
    ¬∀ s s' : ServiceState Unit PersistedState, (service Json.verbatim).Reachable s →
      ReflTransGen (service Json.verbatim).Next s s' → ∀ ds,
        s.mem.1.version ds = s'.mem.1.version ds → s.mem.1.content ds = s'.mem.1.content ds := by
  intro h
  let s₀ : ServiceState Unit PersistedState := startState Json.verbatim 0 none
  have hinit : (service Json.verbatim).Init s₀ := init_startState _ _ _
  have hcall := fun id => (exec_alone (.inOrder _) 1 (.call (.registerRouter id "eu"))
    Json.verbatim s₀.mem.2 false none none).next (c := s₀) (t := ()) fun _ h => absurd rfl h
  have hcontent := h _ _ ((WriteBehind.Reachable.init hinit).trans (hcall "r1"))
    (.trans (.single (.inr ⟨hinit, rfl⟩)) (hcall "r2")) (.zoneRouters "eu") (by decide)
  revert hcontent
  decide

end Rzid
