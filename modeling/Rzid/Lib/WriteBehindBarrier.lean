import Rzid.Lib.WriteBehindDrop

/-!
# Persists as barriers

Once a mutator has set the flag, every persist that completes afterwards makes durable
what the memory held: from the rename on, or from where the persist finds the flag
clear, the file holds it, and so does the memory, whatever is dropped, killed and
started again (`durable_after_persist`). Other mutators may be under way all the time, and
it does not matter which persist it is.
-/

namespace WriteBehind

variable {T M S F V : Type} [Preorder V] [DecidableEq T] (w : WriteBehind M S F V)

/-- Something happens, while the process lives or as it is killed and started again. -/
def Goes (c c' : Config T M S F) : Prop := w.Alive c c' ∨ (w.Init c' ∧ c'.file = c.file)

/-- The persist will succeed: it has renamed, or finds the flag clear. -/
def Config.Succeeds (c : Config T M S F) (t : T) : Prop :=
  c.pc t = .renamed ∨ (c.pc t = .persisting ∧ c.dirty = false)

variable {w} {c c' c₀ c₁ c₂ c₃ : Config T M S F} {t u : T} {v : V}

theorem Goes.locked (h : w.Goes c c') (hlocked : w.Locked c) : w.Locked c' := by
  rcases h with halive | ⟨hinit, _⟩
  · exact hlocked.alive halive
  · exact hinit.locked

/-- What the memory, the file and the copies have, they keep. -/
theorem Keeps.goes (h : w.Keeps (v ≤ ·) (v ≤ ·) c) (hlocked : w.Locked c) (hgoes : w.Goes c c') :
    w.Keeps (v ≤ ·) (v ≤ ·) c' := by
  rcases hgoes with halive | ⟨hinit, hfile⟩
  · cases halive with
    | step hstep =>
      obtain ⟨rfl, hlocal, _⟩ := hstep
      refine ⟨h.mem.trans hlocal.view_le, ?_, fun {a f} hf => ?_⟩
      · rcases hlocked.file_or_target hlocal with ⟨hfile, _⟩ | ⟨hf, _⟩
        · exact hfile ▸ h.file
        · exact h.target hf
      · rcases hlocked.target_move hlocal hf with ⟨hf, _⟩ | ⟨_, _, rfl⟩
        · exact h.target hf
        · rw [w.viewFile_encode]
          exact h.mem
    | @drop a _ =>
      refine ⟨h.mem, h.file, fun {b f} hf => ?_⟩
      by_cases hba : b = a
      · rw [hba, c.drop_pc_self] at hf
        cases hf
      · rw [c.drop_pc_of_ne hba] at hf
        exact h.target hf
  · -- The new process starts with what the file holds.
    refine h.init hinit hfile ?_
    rw [w.view_start hinit.starts, hfile]
    exact h.file

theorem Keeps.run (h : w.Keeps (v ≤ ·) (v ≤ ·) c) (hlocked : w.Locked c)
    (hrun : Relation.ReflTransGen w.Goes c c') : w.Keeps (v ≤ ·) (v ≤ ·) c' := by
  suffices w.Locked c' ∧ w.Keeps (v ≤ ·) (v ≤ ·) c' from this.2
  induction hrun with
  | refl => exact ⟨hlocked, h⟩
  | tail _ hgoes ih => exact ⟨hgoes.locked ih.1, ih.2.goes ih.1 hgoes⟩

/-- A mutator that sets the flag leaves everything in the memory saved, or to be saved. -/
theorem Locked.saving_of_mark {e : Event} (h : w.Locked c) (hpc : c.pc u = .markLocked)
    (hstep : w.Step c u e c') : w.Saving (w.view c.mem) c' ∧ c'.mem = c.mem := by
  have hlocked := h.step hstep
  obtain ⟨rfl, hlocal, _⟩ := hstep
  rw [hpc] at hlocal
  cases hlocal with
  | mark =>
    refine ⟨⟨.inl rfl, fun {a f} hf => ?_⟩, rfl⟩
    -- The mutator holds the dirty lock, so no persist does.
    have hau : a = u := hlocked.eq_of_holdsDirty (Pc.holdsDirty_of_target hf) (by
      rw [c.move_pc_self]
      trivial)
    rw [hau, c.move_pc_self] at hf
    cases hf

/-- Once a mutator has set the flag, and a persist succeeds while the process lives, the
    file and the memory have what the memory held, from then on. -/
theorem durable_after_persist {e : Event} (h : w.DropReachable c₀) (hpc : c₀.pc u = .markLocked)
    (hmark : w.Step c₀ u e c₁) (hlife : Relation.ReflTransGen w.Alive c₁ c₂)
    (hpersist : c₂.Succeeds t) (hrun : Relation.ReflTransGen w.Goes c₂ c₃) :
    w.view c₀.mem ≤ w.view c₃.mem ∧ w.view c₀.mem ≤ w.viewFile c₃.file := by
  have hlocked := h.locked.step hmark
  obtain ⟨hsaving, hmem⟩ := h.locked.saving_of_mark hpc hmark
  obtain ⟨hsaving, hview⟩ := hsaving.run hlocked (hmem ▸ le_rfl) hlife
  have hlocked : w.Locked c₂ := ((h.alive (.step hmark)).trans hlife).locked
  have hfile : w.view c₀.mem ≤ w.viewFile c₂.file := by
    rcases hpersist with hp | ⟨_, hclear⟩
    · exact hsaving.target (t := t) (by rw [hp]; rfl)
    · refine hsaving.flag.resolve_left ?_
      rw [hclear]
      exact Bool.false_ne_true
  have hkeeps : w.Keeps (w.view c₀.mem ≤ ·) (w.view c₀.mem ≤ ·) c₂ :=
    ⟨hview, hfile, fun {a f} hf => hsaving.target hf⟩
  have hkeeps := hkeeps.run hlocked hrun
  exact ⟨hkeeps.mem, hkeeps.file⟩

end WriteBehind
