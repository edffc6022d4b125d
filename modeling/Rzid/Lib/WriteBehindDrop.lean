import Rzid.Lib.WriteBehind

/-!
# Dropped mutators

Mutators that may be dropped while they await a lock. One that awaits the data lock
has not begun, and leaves the store as it was. One that awaits the dirty lock leaves
a change that it will not flag.

From then on, the change is in the file or the flag is set, whatever happens while
the process lives, if and only if this is so at the drop, and no persist under way
holds a copy without the change (`saved_after_drop_iff`).
-/

namespace WriteBehind

variable {T M S F V : Type} [Preorder V] [DecidableEq T]

/-- The mutator awaits a lock. -/
def Pc.AwaitsLock : Pc S → Prop
  | idle | marking => True
  | _ => False

/-- The state in which the task `t` has been dropped. -/
def Config.drop (c : Config T M S F) (t : T) : Config T M S F := c.move t c.toShared .idle

variable (w : WriteBehind M S F V)

/-- What can happen while the process lives: a step of a task, or the drop of a
    mutator. -/
inductive Alive (c : Config T M S F) : Config T M S F → Prop
  | step {t e c'} (h : w.Step c t e c') : Alive c c'
  | drop {t} (h : (c.pc t).AwaitsLock) : Alive c (c.drop t)

/-- The states that the store can be in, with drops: those of a process that has
    started on some file. -/
inductive DropReachable : Config T M S F → Prop
  | init {c} (h : w.Init c) : DropReachable c
  | alive {c c'} (h : DropReachable c) (halive : w.Alive c c') : DropReachable c'

/-- Something happens, and the task `t` is still to flag its change. -/
def Waits (t : T) (c c' : Config T M S F) : Prop := w.Alive c c' ∧ (c'.pc t).Pending

omit [DecidableEq T] in
/-- A change after which the memory is at least `v` is saved, or will be: the flag is
    set or the file has the change, and no persist holds a copy without it. -/
structure Saving (v : V) (c : Config T M S F) : Prop where
  flag : c.dirty = true ∨ v ≤ w.viewFile c.file
  target {t : T} {f : Option F} : (c.pc t).target w.encode c.file = some f → v ≤ w.viewFile f

variable {w} {c c' : Config T M S F} {t : T}

@[simp] theorem Config.drop_pc_self (c : Config T M S F) (t : T) : (c.drop t).pc t = .idle :=
  c.move_pc_self ..

@[simp] theorem Config.drop_pc_of_ne (c : Config T M S F) {t u : T} (h : u ≠ t) :
    (c.drop t).pc u = c.pc u := c.move_pc_of_ne _ _ _ h

theorem Config.drop_of_idle (h : c.pc t = .idle) : c.drop t = c := by
  rw [drop, ← h, c.move_self]

theorem Alone.alive {s' : Shared M F} {p' : Pc S} (h : w.Alone c.toShared (c.pc t) s' p')
    (hidle : ∀ u, u ≠ t → c.pc u = .idle) : Relation.ReflTransGen w.Alive c (c.move t s' p') :=
  (h.steps hidle).lift id fun _ _ ⟨_, _, hstep⟩ => .step hstep

theorem DropReachable.trans (h : w.DropReachable c) (hrun : Relation.ReflTransGen w.Alive c c') :
    w.DropReachable c' := by
  induction hrun with
  | refl => exact h
  | tail _ halive ih => exact ih.alive halive

/-! ## What is kept -/

/-- A dropped mutator holds no lock and no copy. -/
theorem Locked.drop (h : w.Locked c) : w.Locked (c.drop t) where
  exclusive {a b} hab := by
    by_cases ha : a = t <;> by_cases hb : b = t
    · exact absurd (ha.trans hb.symm) hab
    · rw [ha, c.drop_pc_self]
      rintro (hc | hc | hc) <;> exact hc.1
    · rw [hb, c.drop_pc_self]
      rintro (hc | hc | hc) <;> exact hc.2
    · rw [c.drop_pc_of_ne ha, c.drop_pc_of_ne hb]
      exact h.exclusive hab
  flagged {u} hu := by
    by_cases hut : u = t
    · rw [hut, c.drop_pc_self] at hu
      exact hu.elim
    · rw [c.drop_pc_of_ne hut] at hu
      exact h.flagged hu
  tmp {u copy} hu := by
    by_cases hut : u = t
    · rw [hut, c.drop_pc_self] at hu
      cases hu
    · rw [c.drop_pc_of_ne hut] at hu
      exact h.tmp hu

theorem Locked.alive (h : w.Locked c) (halive : w.Alive c c') : w.Locked c' := by
  cases halive with
  | step hstep => exact h.step hstep
  | drop => exact h.drop

theorem DropReachable.locked (h : w.DropReachable c) : w.Locked c := by
  induction h with
  | init h => exact h.locked
  | alive _ halive ih => exact ih.alive halive

/-- The view of the memory grows while the process lives. -/
theorem Alive.view_le (h : w.Alive c c') : w.view c.mem ≤ w.view c'.mem := by
  cases h with
  | step hstep =>
    obtain ⟨rfl, hlocal, _⟩ := hstep
    exact hlocal.view_le
  | drop => exact le_rfl

theorem Saving.step {v : V} {e : Event} (h : w.Saving v c) (hlocked : w.Locked c)
    (hv : v ≤ w.view c.mem) (hstep : w.Step c t e c') : w.Saving v c' := by
  obtain ⟨rfl, hlocal, _⟩ := hstep
  refine ⟨?_, fun {u f} hf => ?_⟩
  · rw [Config.move_toShared]
    rcases hlocked.file_or_target hlocal with ⟨hfile, _⟩ | ⟨hf, _⟩
    · rw [hfile]
      rcases hlocal.dirty with hsame | ⟨_, _, htrue⟩ | ⟨hp, _⟩
      · exact hsame ▸ h.flag
      · exact .inl htrue
      · -- The persist clears the flag: the file is what it had copied.
        exact .inr (h.target (t := t) (by rw [hp]; rfl))
    · exact .inr (h.target hf)
  · rcases hlocked.target_move hlocal hf with ⟨hf, _⟩ | ⟨_, _, rfl⟩
    · exact h.target hf
    · rwa [w.viewFile_encode]

theorem Saving.drop {v : V} (h : w.Saving v c) : w.Saving v (c.drop t) := by
  refine ⟨h.flag, fun {u f} hf => ?_⟩
  by_cases hut : u = t
  · rw [hut, c.drop_pc_self] at hf
    cases hf
  · rw [c.drop_pc_of_ne hut] at hf
    exact h.target hf

/-- A change that is saved, or will be, stays so. -/
theorem Saving.run {v : V} (h : w.Saving v c) (hlocked : w.Locked c) (hv : v ≤ w.view c.mem)
    (hrun : Relation.ReflTransGen w.Alive c c') : w.Saving v c' ∧ v ≤ w.view c'.mem := by
  suffices w.Locked c' ∧ w.Saving v c' ∧ v ≤ w.view c'.mem from this.2
  induction hrun with
  | refl => exact ⟨hlocked, h, hv⟩
  | tail _ halive ih =>
    obtain ⟨hlocked, h, hv⟩ := ih
    refine ⟨hlocked.alive halive, ?_, hv.trans halive.view_le⟩
    cases halive with
    | step hstep => exact h.step hlocked hv hstep
    | drop => exact h.drop

/-! ## A persist that completes -/

theorem Pc.Conflicts.mono {p p' q : Pc S} (h : q.Conflicts p')
    (hdirty : p'.HoldsDirty → p.HoldsDirty) (hwrites : p'.WritesData → p.WritesData)
    (hdata : p'.HoldsData → p.HoldsData) : q.Conflicts p := by
  rcases h with h | h | h
  · exact .inl (h.imp id hdirty)
  · exact .inr (.inl (h.imp id hdata))
  · exact .inr (.inr (h.imp id hwrites))

/-- A persist that has its copy can go on, since it takes no other lock. -/
theorem Locked.next_persist (h : w.Locked c) {p p' : Pc S} {s' : Shared M F} {e : Event}
    (hp : c.pc t = p) (hdirty : p.HoldsDirty) (hdata : ¬p'.HoldsData)
    (hlocal : w.Local c.toShared p e s' p') : w.Step c t e (c.move t s' p') := by
  refine .mk hp hlocal fun u hut hc => ?_
  have hwrites : p'.WritesData → p.WritesData := fun hw =>
    absurd (by cases p' <;> first | exact trivial | exact hw.elim) hdata
  exact h.exclusive hut (hp ▸ hc.mono (fun _ => hdirty) hwrites fun hd => absurd hd hdata)

/-- A persist that has its copy can make it the file, and clear the flag. -/
theorem Locked.exists_flushed (h : w.Locked c) {f : Option F}
    (hf : (c.pc t).target w.encode c.file = some f) :
    ∃ c', Relation.ReflTransGen w.Alive c c' ∧ c'.dirty = false ∧ c'.file = f := by
  let Flushes (c : Config T M S F) (f : Option F) : Prop :=
    ∃ c', Relation.ReflTransGen w.Alive c c' ∧ c'.dirty = false ∧ c'.file = f
  have hnext : ∀ {c c' : Config T M S F} {e f}, w.Step c t e c' → Flushes c' f → Flushes c f :=
    fun hstep ⟨c', hrun, h⟩ => ⟨c', .head (.step hstep) hrun, h⟩
  have hrenamed : ∀ {c : Config T M S F}, w.Locked c → c.pc t = .renamed → Flushes c c.file :=
    fun h hp => ⟨_, .single (.step (h.next_persist hp trivial id .clear)), rfl, rfl⟩
  have hwritten : ∀ {c : Config T M S F} {copy}, w.Locked c → c.pc t = .written copy →
      Flushes c (some (w.encode copy)) := fun {c copy} h hp => by
    have hstep := h.next_persist hp trivial id .rename
    rw [← h.tmp hp]
    exact hnext hstep (hrenamed (h.step hstep) (c.move_pc_self ..))
  have hwriting : ∀ {c : Config T M S F} {copy}, w.Locked c → c.pc t = .writing copy →
      Flushes c (some (w.encode copy)) := fun {c copy} h hp =>
    have hstep := h.next_persist hp trivial id .write
    hnext hstep (hwritten (h.step hstep) (c.move_pc_self ..))
  have hsnapshotted : ∀ {c : Config T M S F} {copy}, w.Locked c → c.pc t = .snapshotted copy →
      Flushes c (some (w.encode copy)) := fun {c copy} h hp =>
    have hstep := h.next_persist hp trivial id (.create none)
    hnext hstep (hwriting (h.step hstep) (c.move_pc_self ..))
  cases hp : c.pc t <;> rw [hp] at hf <;> cases hf
  case copied copy =>
    have hstep := h.next_persist hp trivial id .unlockSnapshot
    exact hnext hstep (hsnapshotted (h.step hstep) (c.move_pc_self ..))
  case snapshotted copy => exact hsnapshotted h hp
  case writing copy => exact hwriting h hp
  case written copy => exact hwritten h hp
  case renamed => exact hrenamed h hp

/-! ## The drop of a mutator -/

/-- A mutator that awaits the dirty lock is in a state that the locks protect, and the
    memory has its change. -/
theorem DropReachable.waits {c₀ c₁ : Config T M S F} {e : Event} (h : w.DropReachable c₀)
    (hstep : w.Step c₀ t e c₁) (hwait : Relation.ReflTransGen (w.Waits t) c₁ c) :
    w.Locked c ∧ w.view c₁.mem ≤ w.view c.mem := by
  induction hwait with
  | refl => exact ⟨h.locked.step hstep, le_rfl⟩
  | tail _ hwait ih => exact ⟨ih.1.alive hwait.1, ih.2.trans hwait.1.view_le⟩

/-- From the drop of a mutator on, its change is in the memory, and it is in the file
    or the flag is set, if and only if it is saved, or will be, at the drop. -/
theorem saved_after_drop_iff {c₀ c₁ : Config T M S F} {e : Event} (h : w.DropReachable c₀)
    (hstep : w.Step c₀ t e c₁) (hwait : Relation.ReflTransGen (w.Waits t) c₁ c)
    (hpc : c.pc t = .marking) :
    (∀ c', Relation.ReflTransGen w.Alive (c.drop t) c' → w.view c₁.mem ≤ w.view c'.mem ∧
      (c'.dirty = true ∨ w.view c₁.mem ≤ w.viewFile c'.file)) ↔ w.Saving (w.view c₁.mem) c := by
  obtain ⟨hlocked, hview⟩ := h.waits hstep hwait
  constructor
  · intro hafter
    refine ⟨(hafter _ .refl).2, fun {u f} hf => ?_⟩
    have hut : u ≠ t := by
      rintro rfl
      rw [hpc] at hf
      cases hf
    -- The persist completes: then only its copy is left of the change.
    have hf : ((c.drop t).pc u).target w.encode (c.drop t).file = some f := by
      rwa [c.drop_pc_of_ne hut]
    obtain ⟨c', hrun, hclear, rfl⟩ := hlocked.drop.exists_flushed hf
    exact (hafter c' hrun).2.resolve_left (by rw [hclear]; exact Bool.false_ne_true)
  · intro hsaving c' hrun
    obtain ⟨hsaving, hview⟩ := hsaving.drop.run hlocked.drop hview hrun
    exact ⟨hview, hsaving.flag⟩

end WriteBehind
